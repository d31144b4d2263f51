import Chronicle.Text.Blank

/-!
# Files of variables

A file that gives names values, one on each line: `NAME=value`, where the value may stand in
quotes.  Values may refer to variables of the environment and to those above them.

* `EnvFile.bindings`: the names and what is written for them;
* `EnvFile.expand`: references replaced by what they refer to;
* `EnvFile.read`: the values of a file.
-/

namespace Chronicle.EnvFile

open Chronicle.Text

def isLineEnd (c : Char) : Bool := c == '\n' || c == '\r'

/-- White space that does not end a line. -/
def isSpace (c : Char) : Bool := isBlank c && !isLineEnd c

def dropSpace (cs : List Char) : List Char := cs.dropWhile isSpace

def dropLine (cs : List Char) : List Char := cs.dropWhile (!isLineEnd ·)

/-- Behind the end of a line. -/
def dropLineEnd : List Char → List Char
  | '\r' :: '\n' :: cs => cs
  | c :: cs => if isLineEnd c then cs else c :: cs
  | [] => []

/-! ## Names and values -/

/-- The word that may precede a name. -/
def dropExport (cs : List Char) : List Char :=
  let word := "export".toList
  if word.isPrefixOf cs then
    let rest := cs.drop word.length
    if rest.head?.any isSpace then dropSpace rest else cs
  else cs

/-- A name, in single quotes or plain; a comment has none. -/
def takeName : List Char → Option (Option (List Char) × List Char)
  | '#' :: cs => some (none, '#' :: cs)
  | '\'' :: cs =>
    let name := cs.takeWhile (· != '\'')
    match cs.drop name.length with
    | '\'' :: rest => if name.isEmpty then none else some (some name, rest)
    | _ => none
  | cs =>
    let name := cs.takeWhile fun c => !(c == '=' || c == '#' || isBlank c)
    if name.isEmpty then none else some (some name, cs.drop name.length)

/-- The length of the text before the closing quote: the first one without a backslash before it,
or else the last one. -/
def closing (quote : Char) : Nat → Char → Option Nat → List Char → Option Nat
  | _, _, last, [] => last
  | n, before, last, c :: cs =>
    if c == quote then
      if before == '\\' then closing quote (n + 1) c (some n) cs else some n
    else closing quote (n + 1) c last cs

/-- Replaces escaped characters. -/
def unescape (escapes : List (Char × Char)) : List Char → List Char
  | '\\' :: c :: cs =>
    match escapes.lookup c with
    | some e => e :: unescape escapes cs
    | none => '\\' :: unescape escapes (c :: cs)
  | c :: cs => c :: unescape escapes cs
  | [] => []
termination_by cs => cs.length

def singleEscapes : List (Char × Char) := [('\\', '\\'), ('\'', '\'')]

def doubleEscapes : List (Char × Char) :=
  [('\\', '\\'), ('\'', '\''), ('"', '"'), ('a', '\x07'), ('b', '\x08'), ('f', '\x0c'), ('n', '\n'),
    ('r', '\r'), ('t', '\t'), ('v', '\x0b')]

/-- A value without quotes ends before a comment that white space sets apart. -/
def beforeComment : List Char → List Char
  | [] => []
  | c :: cs =>
    if isBlank c && (cs.dropWhile isBlank).head? == some '#' then [] else c :: beforeComment cs

def dropBlanksAtEnd (cs : List Char) : List Char := (cs.reverse.dropWhile isBlank).reverse

def takeQuotedValue (quote : Char) (escapes : List (Char × Char)) (cs : List Char) :
    Option (List Char × List Char) :=
  (closing quote 0 ' ' none cs).map fun n => (unescape escapes (cs.take n), cs.drop (n + 1))

def takeValue : List Char → Option (List Char × List Char)
  | '\'' :: cs => takeQuotedValue '\'' singleEscapes cs
  | '"' :: cs => takeQuotedValue '"' doubleEscapes cs
  | cs =>
    some (dropBlanksAtEnd (beforeComment (cs.takeWhile (!isLineEnd ·))), dropLine cs)

/-! ## Lines -/

/-- A name with what is written for it, if anything is. -/
abbrev Binding := String × Option (List Char)

/-- The end of a line, which a comment may precede. -/
def takeEnd (cs : List Char) : Option (List Char) :=
  let cs := match dropSpace cs with
    | '#' :: rest => dropLine rest
    | rest => rest
  match cs with
  | [] => some []
  | c :: _ => if isLineEnd c then some (dropLineEnd cs) else none

/-- One line.  A line that is not understood is skipped from the place where that shows. -/
def takeLine (cs : List Char) : Option Binding × List Char :=
  let cs := dropExport cs
  let skip (rest : List Char) : Option Binding × List Char := (none, dropLineEnd (dropLine rest))
  match takeName cs with
  | none => skip cs
  | some (name, rest) =>
    let rest := dropSpace rest
    let ended (value : Option (List Char)) (rest : List Char) : Option Binding × List Char :=
      match takeEnd rest with
      | some more => (name.map fun n => (String.ofList n, value), more)
      | none => skip rest
    match rest with
    | '=' :: more =>
      let more := dropSpace more
      match takeValue more with
      | some (value, after) => ended (some value) after
      | none => skip more
    | _ => ended none rest

def bindingsFrom : Nat → List Char → List Binding
  | 0, _ => []
  | fuel + 1, cs =>
    match cs.dropWhile isBlank with
    | [] => []
    | c :: rest =>
      let (binding, rest) := takeLine (c :: rest)
      binding.toList ++ bindingsFrom fuel rest

def bindings (content : String) : List Binding :=
  bindingsFrom (content.length + 1) content.toList

/-! ## References -/

/-- A reference `${NAME}` or `${NAME:-default}`, after the dollar sign and the brace. -/
def takeReference (cs : List Char) : Option (List Char × Option (List Char) × List Char) :=
  let name := cs.takeWhile fun c => !(c == '\x7d' || c == ':')
  match cs.drop name.length with
  | '\x7d' :: rest => some (name, none, rest)
  | ':' :: '-' :: rest =>
    let absent := rest.takeWhile (· != '\x7d')
    match rest.drop absent.length with
    | _ :: rest => some (name, some absent, rest)
    | [] => none
  | _ => none

def expandFrom (known : List (String × Option String)) : Nat → List Char → List Char
  | 0, cs => cs
  | fuel + 1, cs =>
    match cs with
    | '$' :: '\x7b' :: rest =>
      match takeReference rest with
      | some (name, absent, more) =>
        let value : List Char := match known.lookup (String.ofList name) with
          | some v => (v.getD "").toList
          | none => absent.getD []
        value ++ expandFrom known fuel more
      | none => '$' :: expandFrom known fuel ('\x7b' :: rest)
    | c :: rest => c :: expandFrom known fuel rest
    | [] => []

/-- A value with its references replaced. -/
def expand (known : List (String × Option String)) (value : List Char) : String :=
  String.ofList (expandFrom known value.length value)

/-- Sets a name, in the place where it stands already or at the end. -/
def assign {α : Type} (name : String) (value : α) : List (String × α) → List (String × α)
  | [] => [(name, value)]
  | (n, v) :: rest => if n == name then (n, value) :: rest else (n, v) :: assign name value rest

/-- The values of a file; what stands there goes before the environment. -/
def read (environment : List (String × String)) (content : String) :
    List (String × Option String) :=
  (bindings content).foldl (fun known (name, value) =>
    let all := known ++ environment.map fun (n, v) => (n, some v)
    assign name (value.map (expand all)) known) []

theorem assign_keys {α : Type} (name : String) (value : α) (fs : List (String × α)) :
    (assign name value fs).lookup name = some value := by
  induction fs with
  | nil => simp [assign]
  | cons f fs ih =>
    obtain ⟨n, v⟩ := f
    by_cases h : n = name
    · subst h; simp [assign]
    · have h' : (name == n) = false := by simpa using fun e => h e.symm
      simp [assign, h, List.lookup_cons, h', ih]

end Chronicle.EnvFile
