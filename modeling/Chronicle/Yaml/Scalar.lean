import Chronicle.Failure
import Chronicle.Yaml.Text

/-!
# Written scalars

A scalar is written plainly, in quotes, or as a block of lines.  Each form has a reader that takes
the scalar from the beginning of a text and returns what follows.

* `takePlain`: words on one or more lines, as long as the lines are indented;
* `takeQuoted`: between single or double quotes, with escapes in the latter;
* `takeBlock`: lines that are kept as they are, or folded into one.

In all of them a single line break is read as a blank and further ones as new lines, except where a
block keeps its lines.
-/

namespace Chronicle.Yaml

open Chronicle.Text

/-- A line break between words: itself if it is a separator, a blank if no empty line follows. -/
def foldedBreak (first : Char) (more : List Char) : List Char :=
  if first != '\n' then first :: more
  else if more.isEmpty then [' ']
  else more

/-! ## Plain -/

/-- Inside brackets the signs of collections end a word. -/
def endsPlainWord (inFlow : Bool) (c : Char) (rest : List Char) : Bool :=
  isWhite c || isBreak c || (c == ':' && (endsWord rest || (inFlow && beginsWith ",[]\x7b\x7d" rest)))
    || (inFlow && ",?[]\x7b\x7d".toList.contains c)

def takePlainWord (inFlow : Bool) : List Char → List Char × List Char
  | [] => ([], [])
  | c :: cs =>
    if endsPlainWord inFlow c cs then ([], c :: cs)
    else
      let (word, rest) := takePlainWord inFlow cs
      (c :: word, rest)

/-- What stands between two words: how it is read, and the column that is reached if a line break
was crossed.  A mark between documents ends the scalar. -/
structure Gap where
  text : List Char
  column : Option Nat
  rest : List Char
  deriving Repr, Inhabited

/-- The empty lines and the indentation after a line break; `none` at a document mark. -/
def takeEmptyLines : Nat → List Char → Option (List Char) × Nat × List Char
  | column, ' ' :: cs => takeEmptyLines (column + 1) cs
  | _, '\r' :: '\n' :: cs =>
    if atDocumentMark cs then (none, 0, cs)
    else
      let (breaks, column, rest) := takeEmptyLines 0 cs
      (breaks.map ('\n' :: ·), column, rest)
  | column, c :: cs =>
    if isBreak c then
      if atDocumentMark cs then (none, 0, cs)
      else
        let (breaks, column, rest) := takeEmptyLines 0 cs
        (breaks.map ((if c == '\u2028' || c == '\u2029' then c else '\n') :: ·), column, rest)
    else (some [], column, c :: cs)
  | column, [] => (some [], column, [])

def takeGap (cs : List Char) : Gap :=
  let rest := dropBlanks cs
  match takeBreak rest with
  | none => ⟨cs.takeWhile (· == ' '), none, rest⟩
  | some (b, rest) =>
    if atDocumentMark rest then ⟨[], some 0, rest⟩
    else
      let (breaks, column, rest) := takeEmptyLines 0 rest
      ⟨breaks.elim [] (foldedBreak b), some column, rest⟩

/-- A plain scalar, whether it ended on a new line, and what follows it. -/
structure Plain where
  text : List Char
  crossed : Bool
  rest : List Char
  deriving Repr, Inhabited

/-- Words and the gaps between them; `gap` is how the last gap is read. -/
def takePlainWords (inFlow : Bool) (indent : Int) :
    Nat → List Char → Bool → List Char → Plain
  | 0, _, crossed, cs => ⟨[], crossed, cs⟩
  | fuel + 1, gap, crossed, cs =>
    let (word, rest) := takePlainWord inFlow cs
    if word.isEmpty then ⟨[], crossed, cs⟩
    else
      let next := takeGap rest
      let outdented := !inFlow && next.column.elim false fun n => decide ((n : Int) < indent)
      if next.text.isEmpty || beginsWith "#" next.rest || outdented then
        ⟨gap ++ word, next.column.isSome, next.rest⟩
      else
        let more := takePlainWords inFlow indent fuel next.text next.column.isSome next.rest
        { more with text := gap ++ word ++ more.text }

/-- A plain scalar whose further lines stand at least at the column `indent`. -/
def takePlain (inFlow : Bool) (indent : Int) (cs : List Char) : Plain :=
  takePlainWords inFlow indent cs.length [] false cs

/-! ## In quotes -/

/-- The empty lines after a line break in quotes, where no document may end. -/
def takeQuotedBreaks : Nat → List Char → Except Failure (List Char × List Char)
  | 0, _ => .error .notScanned
  | fuel + 1, cs =>
    if atDocumentMark cs then .error .notScanned
    else
      let rest := cs.dropWhile isWhite
      match takeBreak rest with
      | none => .ok ([], rest)
      | some (b, rest) => do
        let (breaks, rest) ← takeQuotedBreaks fuel rest
        return (b :: breaks, rest)

/-- Characters that stand for another one after a backslash. -/
def escapes : List (Char × Char) :=
  [('0', '\x00'), ('a', '\x07'), ('b', '\x08'), ('t', '\t'), ('\t', '\t'), ('n', '\n'),
    ('v', '\x0b'), ('f', '\x0c'), ('r', '\r'), ('e', '\x1b'), (' ', ' '), ('"', '"'), ('\\', '\\'),
    ('/', '/'), ('N', '\u0085'), ('_', '\u00a0'), ('L', '\u2028'), ('P', '\u2029')]

/-- Characters that are followed by so many hexadecimal digits of a code point. -/
def codeEscapes : List (Char × Nat) := [('x', 2), ('u', 4), ('U', 8)]

/-- A character by its code point. -/
def charOfCode (n : Nat) : Except Failure Char :=
  if n < 0x110000 then .ok (Char.ofNat n)
  else if n < 0x80000000 then .error .noSuchCharacter
  else .error .integerOutOfRange

/-- What an escape stands for, after the backslash. -/
def takeEscape (cs : List Char) : Except Failure (List Char × List Char) :=
  match cs with
  | [] => .error .notScanned
  | c :: rest =>
    match escapes.lookup c, codeEscapes.lookup c with
    | some e, _ => .ok ([e], rest)
    | none, some count =>
      let digits := rest.take count
      if digits.length == count && digits.all isHexDigit then
        (charOfCode (hexValue digits)).map fun e => ([e], rest.drop count)
      else .error .notScanned
    | none, none =>
      match takeBreak cs with
      | some (_, rest) => takeQuotedBreaks cs.length rest
      | none => .error .notScanned

/-- White space in quotes: folded if it holds a line break. -/
def takeQuotedSpace (cs : List Char) : Except Failure (List Char × List Char) :=
  let rest := cs.dropWhile isWhite
  match takeBreak rest with
  | some (b, more) => do
    let (breaks, more) ← takeQuotedBreaks rest.length more
    return (foldedBreak b breaks, more)
  | none => if rest.isEmpty then .error .notScanned else .ok (cs.takeWhile isWhite, rest)

/-- The text up to the closing quote. -/
def takeQuotedText (double : Bool) : Nat → List Char → Except Failure (List Char × List Char)
  | 0, _ => .error .notScanned
  | _, [] => .error .notScanned
  | fuel + 1, c :: cs => do
    if isWhite c || isBreak c then
      let (space, rest) ← takeQuotedSpace (c :: cs)
      let (text, rest) ← takeQuotedText double fuel rest
      return (space ++ text, rest)
    else if double && c == '\\' then
      let (escaped, rest) ← takeEscape cs
      let (text, rest) ← takeQuotedText double fuel rest
      return (escaped ++ text, rest)
    else if double && c == '"' then return ([], cs)
    else if !double && c == '\'' then
      match cs with
      | '\'' :: rest =>
        let (text, rest) ← takeQuotedText double fuel rest
        return ('\'' :: text, rest)
      | _ => return ([], cs)
    else
      let (text, rest) ← takeQuotedText double fuel cs
      return (c :: text, rest)

/-- A scalar in quotes, after the opening one. -/
def takeQuoted (double : Bool) (cs : List Char) : Except Failure (List Char × List Char) :=
  takeQuotedText double (cs.length + 1) cs

/-! ## As a block -/

/-- What happens to the line breaks at the end of a block. -/
inductive Chomping
  | clip
  | strip
  | keep
  deriving DecidableEq, Repr, Inhabited

def takeChomping : List Char → Option (Chomping × List Char)
  | '+' :: cs => some (.keep, cs)
  | '-' :: cs => some (.strip, cs)
  | _ => none

/-- The indentation of a block relative to its surroundings; zero is none. -/
def takeIncrement : List Char → Except Failure (Option (Nat × List Char))
  | c :: cs =>
    if c == '0' then .error .notScanned
    else if isAsciiDigit c then .ok (some (c.toNat - 48, cs))
    else .ok none
  | [] => .ok none

/-- The signs at the head of a block, in either order. -/
def takeBlockSigns (cs : List Char) : Except Failure (Chomping × Option Nat × List Char) :=
  match takeChomping cs with
  | some (chomping, cs) => do
    match ← takeIncrement cs with
    | some (n, cs) => return (chomping, some n, cs)
    | none => return (chomping, none, cs)
  | none => do
    match ← takeIncrement cs with
    | none => return (.clip, none, cs)
    | some (n, cs) =>
      match takeChomping cs with
      | some (chomping, cs) => return (chomping, some n, cs)
      | none => return (.clip, some n, cs)

/-- The rest of the head line, on which only a comment may stand. -/
def dropHeadLine (cs : List Char) : Except Failure (List Char) :=
  let rest := dropComment (dropBlanks cs)
  if endsLine rest then .ok ((takeBreak rest).elim rest (·.2)) else .error .notScanned

/-- The empty lines at the head of a block, the largest column among them and the first line, the
column that is reached and the rest. -/
def takeBlockHead : Nat → Nat → Nat → List Char → List Char × Nat × Nat × List Char
  | 0, column, largest, cs => ([], largest, column, cs)
  | fuel + 1, column, largest, cs =>
    match cs with
    | ' ' :: rest => takeBlockHead fuel (column + 1) (max largest (column + 1)) rest
    | _ =>
      match takeBreak cs with
      | none => ([], largest, column, cs)
      | some (b, rest) =>
        let (breaks, more) := takeBlockHead fuel 0 largest rest
        (b :: breaks, more)

/-- The empty lines before a line of a block, the column that is reached and the rest. -/
def takeBlockBreaks (indent : Nat) : Nat → List Char → List Char × Nat × List Char
  | 0, cs => ([], 0, cs)
  | fuel + 1, cs =>
    let column := ((cs.take indent).takeWhile (· == ' ')).length
    let rest := cs.drop column
    match takeBreak rest with
    | none => ([], column, rest)
    | some (b, rest) =>
      let (breaks, more) := takeBlockBreaks indent fuel rest
      (b :: breaks, more)

/-- The lines of a block with the breaks before each; at the end the break of the last line and the
breaks after it are returned. -/
def takeBlockLines (folded : Bool) (indent : Nat) :
    Nat → List Char → List Char → List Char × List Char × List Char × List Char
  | 0, breaks, cs => ([], [], breaks, cs)
  | fuel + 1, breaks, cs =>
    let line := cs.takeWhile (!isBreak ·)
    let rest := cs.dropWhile (!isBreak ·)
    let ending := takeBreak rest
    let (next, column, rest) :=
      takeBlockBreaks indent rest.length (ending.elim rest (·.2))
    if column == indent && !rest.isEmpty then
      let joint :=
        if folded && breakOf ending == ['\n'] && !beginsWith " \t" cs && !beginsWith " \t" rest then
          if next.isEmpty then [' '] else []
        else breakOf ending
      let (text, more) := takeBlockLines folded indent fuel next rest
      (breaks ++ line ++ joint ++ text, more)
    else (breaks ++ line, breakOf ending, next, rest)

/-- A block after its sign; `indent` is the indentation of its surroundings. -/
def takeBlock (folded : Bool) (indent : Int) (cs : List Char) :
    Except Failure (List Char × List Char) := do
  let (chomping, increment, cs) ← takeBlockSigns cs
  if !endsWordUntabbed cs then throw .notScanned
  let cs ← dropHeadLine cs
  let least := max (indent + 1) 1
  let (breaks, indent, column, cs) :=
    match increment with
    | none =>
      let (breaks, largest, column, cs) := takeBlockHead (cs.length + 1) 0 0 cs
      (breaks, max least.toNat largest, column, cs)
    | some n =>
      let indent := least.toNat + n - 1
      let (breaks, column, cs) := takeBlockBreaks indent (cs.length + 1) cs
      (breaks, indent, column, cs)
  let (text, ending, trailing, rest) :=
    if column == indent && !cs.isEmpty then takeBlockLines folded indent (cs.length + 1) breaks cs
    else ([], [], breaks, cs)
  let text := match chomping with
    | .clip => text ++ ending
    | .strip => text
    | .keep => text ++ ending ++ trailing
  return (text, rest)

end Chronicle.Yaml
