import Chronicle.Text.Case

/-!
# Names in statements

Names that could be misread are put in double quotes: those with capital letters, unusual
characters or an unusual beginning, and the reserved words.  Generated names have a number, which
is counted for each stem.
-/

namespace Chronicle.Statement

open Chronicle.Text

def reservedWords : List String :=
  ["all", "analyse", "analyze", "and", "any", "array", "as", "asc", "asymmetric", "authorization",
    "between", "binary", "both", "case", "cast", "check", "collate", "column", "constraint",
    "create", "cross", "current_date", "current_role", "current_time", "current_timestamp",
    "current_user", "default", "deferrable", "desc", "distinct", "do", "else", "end", "except",
    "false", "for", "foreign", "freeze", "from", "full", "grant", "group", "having", "ilike", "in",
    "initially", "inner", "intersect", "into", "is", "isnull", "join", "leading", "left", "like",
    "limit", "localtime", "localtimestamp", "natural", "new", "not", "notnull", "null", "off",
    "offset", "old", "on", "only", "or", "order", "outer", "overlaps", "placing", "primary",
    "references", "right", "select", "session_user", "set", "similar", "some", "symmetric",
    "table", "then", "to", "trailing", "true", "union", "unique", "user", "using", "verbose",
    "when", "where"]

def isLegalChar (c : Char) : Bool := c.toNat < 128 && (c.isAlphanum || c == '_' || c == '$')

/-- Only legal characters, apart from one line end. -/
def isLegal (cs : List Char) : Bool :=
  let cs := if cs.getLast? == some '\n' then cs.dropLast else cs
  !cs.isEmpty && cs.all isLegalChar

def needsQuotes (name : String) : Bool :=
  let cs := name.toList
  let lowered := lower cs
  reservedWords.contains (String.ofList lowered) ||
    (cs.head?.any fun c => c.isDigit || c == '$') || !isLegal cs || lowered != cs

/-- A name as it is written in a statement. -/
def written (name : String) : String :=
  if needsQuotes name then
    String.ofList ('"' :: (name.toList.flatMap fun c => if c == '"' then ['"', '"'] else [c]) ++ ['"'])
  else name

/-- Characters that have no place in the stem of a generated name; a run of them gives one
underscore. -/
def isStemBreak (c : Char) : Bool := c == '%' || c == '(' || c == ')' || c == ' ' || c == '$'

def stemFrom : Bool → List Char → List Char
  | _, [] => []
  | inBreak, c :: cs =>
    if isStemBreak c then (if inBreak then stemFrom true cs else '_' :: stemFrom true cs)
    else c :: stemFrom false cs

def stem (name : String) : String := String.ofList (stemFrom false name.toList)

/-- The next number for every stem. -/
abbrev Counters := List (String × Nat)

namespace Counters

/-- A fresh name from a stem. -/
def fresh (cs : Counters) (stem : String) : String × Counters :=
  let n := (cs.lookup stem).getD 1
  (stem ++ "_" ++ toString n, (stem, n + 1) :: cs)

theorem fresh_counts (cs : Counters) (stem : String) :
    (cs.fresh stem).2.lookup stem = some ((cs.lookup stem).getD 1 + 1) := by
  simp [fresh]

end Counters

end Chronicle.Statement
