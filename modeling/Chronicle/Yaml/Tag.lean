import Chronicle.Text.Digit
import Chronicle.Yaml.Text

/-!
# Tags

The tag of a node says how it is read.  Nodes without a written tag get one by their form: a plain
scalar that looks like a number is one.

* `Tag.ofName`: a written tag;
* `Tag.ofPlain`: the tag of a plain scalar by its form.
-/

namespace Chronicle.Yaml

open Chronicle.Text

inductive Tag
  | null
  | bool
  | int
  | float
  | text
  | timestamp
  | sequence
  | mapping
  | orderedMapping
  | pairs
  | set
  | merge
  | value
  | other (name : String)
  deriving DecidableEq, Repr, Inhabited

namespace Tag

/-- What the names of the tags of the language itself begin with. -/
def corePrefix : String := "tag:yaml.org,2002:"

def coreNames : List (String × Tag) :=
  [("null", null), ("bool", bool), ("int", int), ("float", float), ("str", text),
    ("timestamp", timestamp), ("seq", sequence), ("map", mapping), ("omap", orderedMapping),
    ("pairs", pairs), ("set", set), ("merge", merge), ("value", value)]

def ofName (name : String) : Tag :=
  (coreNames.find? fun (n, _) => corePrefix ++ n == name).elim (other name) (·.2)

/-! ## Forms of plain scalars -/

def isSign (c : Char) : Bool := c == '+' || c == '-'

def dropSign : List Char → List Char
  | c :: cs => if isSign c then cs else c :: cs
  | [] => []

def isDigitOrBar (c : Char) : Bool := isAsciiDigit c || c == '_'

/-- Parts to the base of sixty after colons. -/
def isSixties : List Char → Bool
  | [] => true
  | ':' :: a :: b :: rest =>
    if isAsciiDigit b then '0' ≤ a && a ≤ '5' && isSixties rest
    else isAsciiDigit a && isSixties (b :: rest)
  | [':', a] => isAsciiDigit a
  | _ => false

def isIntForm (cs : List Char) : Bool :=
  match dropSign cs with
  | '0' :: 'b' :: rest => !rest.isEmpty && rest.all fun c => c == '0' || c == '1' || c == '_'
  | '0' :: 'x' :: rest => !rest.isEmpty && rest.all fun c => isHexDigit c || c == '_'
  | '0' :: rest => rest.all fun c => ('0' ≤ c && c ≤ '7') || c == '_'
  | c :: rest => isAsciiDigit c && isSixties (rest.dropWhile isDigitOrBar)
  | [] => false

/-- Nothing, or an exponent with its sign. -/
def isExponent : List Char → Bool
  | [] => true
  | e :: s :: d :: rest =>
    (e == 'e' || e == 'E') && isSign s && isAsciiDigit d && rest.all isAsciiDigit
  | _ => false

def isFloatForm (cs : List Char) : Bool :=
  let unsigned := dropSign cs
  let fraction (rest : List Char) : Bool := isExponent (rest.dropWhile isDigitOrBar)
  let special := unsigned == ".inf".toList || unsigned == ".Inf".toList || unsigned == ".INF".toList
    || cs == ".nan".toList || cs == ".NaN".toList || cs == ".NAN".toList
  special ||
    (match cs with
      | '.' :: d :: rest => isAsciiDigit d && fraction rest
      | _ => false) ||
    (match unsigned with
      | d :: rest =>
        isAsciiDigit d &&
          (match rest.dropWhile isDigitOrBar with
            | '.' :: rest => fraction rest
            | ':' :: rest =>
              let whole := rest.takeWhile (· != '.')
              isSixties (':' :: whole) && !(rest.drop whole.length).isEmpty &&
                (rest.drop (whole.length + 1)).all isDigitOrBar
            | _ => false)
      | [] => false)

/-- One or two digits, and the rest. -/
def takeOneOrTwo : List Char → Option (List Char × List Char)
  | a :: b :: rest =>
    if isAsciiDigit a then
      if isAsciiDigit b then some ([a, b], rest) else some ([a], b :: rest)
    else none
  | [a] => if isAsciiDigit a then some ([a], []) else none
  | [] => none

def takeDigits (count : Nat) (cs : List Char) : Option (List Char × List Char) :=
  let digits := cs.take count
  if digits.length == count && digits.all isAsciiDigit then some (digits, cs.drop count) else none

def takeChar (c : Char) : List Char → Option (List Char)
  | d :: rest => if c == d then some rest else none
  | [] => none

/-- The offset of a time, in minutes. -/
def takeOffset (cs : List Char) : Option (Option Int) :=
  match cs with
  | [] => some none
  | ['Z'] => some (some 0)
  | s :: rest =>
    if isSign s then do
      let (hours, rest) ← takeOneOrTwo rest
      let minutes ← match rest with
        | [] => some []
        | ':' :: rest => do
          let (minutes, rest) ← takeDigits 2 rest
          if rest.isEmpty then some minutes else none
        | _ => none
      let total : Int := 60 * digitsValue hours + digitsValue minutes
      return some (if s == '-' then -total else total)
    else none

/-- The parts of a written time of day, with the digits of its fraction. -/
structure TimeForm where
  hour : Nat
  minute : Nat
  second : Nat
  fraction : List Char
  offset : Option Int
  deriving DecidableEq, Repr, Inhabited

structure TimestampForm where
  year : Nat
  month : List Char
  day : List Char
  time : Option TimeForm
  deriving DecidableEq, Repr, Inhabited

def takeTime (cs : List Char) : Option TimeForm := do
  let (hour, rest) ← takeOneOrTwo cs
  let (minute, rest) ← takeDigits 2 (← takeChar ':' rest)
  let (second, rest) ← takeDigits 2 (← takeChar ':' rest)
  let (fraction, rest) := match rest with
    | '.' :: rest => (rest.takeWhile isAsciiDigit, rest.dropWhile isAsciiDigit)
    | _ => ([], rest)
  let offset ← takeOffset (rest.dropWhile isWhite)
  if offset.isNone && !rest.isEmpty then none
  else some ⟨digitsValue hour, digitsValue minute, digitsValue second, fraction, offset⟩

/-- A date, which a time of day may follow after a `T` or white space. -/
def takeTimestamp (cs : List Char) : Option TimestampForm := do
  let (year, rest) ← takeDigits 4 cs
  let (month, rest) ← takeOneOrTwo (← takeChar '-' rest)
  let (day, rest) ← takeOneOrTwo (← takeChar '-' rest)
  let date : TimestampForm := ⟨digitsValue year, month, day, none⟩
  match rest with
  | [] => return date
  | c :: more =>
    let time ←
      if c == 'T' || c == 't' then takeTime more
      else if isWhite c then takeTime (more.dropWhile isWhite)
      else none
    return { date with time := some time }

/-- A date alone has two digits for the month and for the day. -/
def isTimestampForm (cs : List Char) : Bool :=
  match takeTimestamp cs with
  | some t => t.time.isSome || (t.month.length == 2 && t.day.length == 2)
  | none => false

def boolWords : List (String × Bool) :=
  [("yes", true), ("no", false), ("true", true), ("false", false), ("on", true), ("off", false)]

/-- Words are written in small letters, in capitals, or with one capital at the beginning. -/
def spellings (word : String) : List String := [word, word.capitalize, word.toUpper]

def boolSpellings : List String := (boolWords.map fun (w, _) => spellings w).flatten

def nullSpellings : List String := "" :: "~" :: spellings "null"

/-- The tag of a plain scalar. -/
def ofPlain (s : String) : Tag :=
  let cs := s.toList
  if boolSpellings.contains s then bool
  else if isFloatForm cs then float
  else if isIntForm cs then int
  else if s == "<<" then merge
  else if nullSpellings.contains s then null
  else if isTimestampForm cs then timestamp
  else if s == "=" then value
  else text

example : ofPlain "1_000" = int := by decide +kernel
example : ofPlain "1e3" = text := by decide +kernel
example : ofPlain "12:30:00" = int := by decide +kernel
example : ofPlain "2022-1-1" = text := by decide +kernel

end Tag

end Chronicle.Yaml
