import Chronicle.Filter.Basic
import Chronicle.Query.Builder

/-!
# Conditions as predicates

The conditions of a filter as predicates on the live table of its kind.

* `timeValue`: a text compared with a time is read as a timestamp;
* `containing`: the pattern of all texts that contain a given one, whatever its characters;
* `Condition.predicate`, `Filter.predicates`.
-/

namespace Chronicle

open Chronicle.Calendar

namespace Condition

/-- The attributes that hold times. -/
def timeFields : List String := ["created_at", "updated_at"]

/-- A text is the timestamp it denotes, at the present. -/
def timeValue (clock : Instant) : Value → Except Failure Value
  | .scalar (.text s) => do
    let i ← (← Timestamp.read s).resolve clock
    return .instant i
  | v => .ok v

/-- Characters that mean something in a pattern, and the one that takes this meaning away. -/
def isPatternChar (c : Char) : Bool := c == '\\' || c == '%' || c == '_'

/-- The pattern that only the text itself matches. -/
def literalPattern : List Char → List Char
  | [] => []
  | c :: cs => if isPatternChar c then '\\' :: c :: literalPattern cs else c :: literalPattern cs

/-- The pattern of the texts that contain a given one. -/
def containing (v : Value) : String :=
  String.ofList ('%' :: literalPattern v.plain.toList ++ ['%'])

/-- A comparison by pattern, ASCII letters of either case being alike. -/
def likeText (column param : String) : String :=
  "LOWER(" ++ column ++ ") LIKE LOWER(:" ++ param ++ ") ESCAPE '\\'"

/-- The values, those of times read as such. -/
def comparedValues (clock : Instant) (c : Condition) : Except Failure (List Value) :=
  if timeFields.contains c.field then c.values.mapM (timeValue clock) else .ok c.values

/-- The predicate of a condition on a table; `index` keeps the parameters of several apart. -/
def predicate (table : String) (clock : Instant) (index : Nat) (c : Condition) :
    Except Failure Predicate := do
  let column : ColumnRef := ⟨table, c.field⟩
  let values ← c.comparedValues clock
  let first := values.headD .null
  let quotedColumn := "\"" ++ table ++ "\".\"" ++ c.field ++ "\""
  let param := c.field ++ "_" ++ toString index ++ "_pattern"
  let like := likeText quotedColumn param
  match c.operator with
  | .equals =>
    if values.length == 1 then Predicate.equal column first
    else Predicate.among column (.list values) false
  | .differs =>
    if values.length == 1 then Predicate.unequal column first
    else Predicate.among column (.list values) true
  | .atLeast => Predicate.compared column .gte first
  | .atMost => Predicate.compared column .lte first
  | .isPresent => Predicate.unequal column .null
  | .isMissing => Predicate.equal column .null
  | .contains => return .raw ⟨like, [(param, .text (containing first))]⟩
  | .lacks =>
    return .raw ⟨"(" ++ quotedColumn ++ " IS NULL OR NOT " ++ like ++ ")",
      [(param, .text (containing first))]⟩

end Condition

namespace Filter

def predicatesFrom (table : String) (clock : Instant) :
    Nat → List Condition → Except Failure (List Predicate)
  | _, [] => .ok []
  | n, c :: cs => do
    let p ← c.predicate table clock n
    return p :: (← predicatesFrom table clock (n + 1) cs)

/-- One predicate for each condition, on the live table of the kind. -/
def predicates (f : Filter) (clock : Instant) : Except Failure (List Predicate) :=
  predicatesFrom f.kind.table.name clock 0 f.conditions

end Filter

end Chronicle
