import Chronicle.Yaml.Text

/-!
# Pages

Text that is written piece by piece, with what the layout of the next piece depends on: the column,
whether white space has just been written, and whether nothing but indentation and the signs of
collections stand on the line.

* `Page.mark`: the signs of collections and the quotes;
* `Page.plain`, `Page.singleQuoted`, `Page.doubleQuoted`: the forms of scalars, broken after the
  column `Page.width`.
-/

namespace Chronicle.Yaml

/-- What has been written, last character first, and how the line goes on. -/
structure Page where
  written : List Char
  column : Nat
  spaced : Bool
  atIndent : Bool
  deriving Repr, Inhabited

namespace Page

/-- The column after which a scalar is broken at the next blank. -/
def width : Nat := 80

def empty : Page := ⟨[], 0, true, true⟩

def toChars (p : Page) : List Char := p.written.reverse

/-- Further characters of a line. -/
def put (p : Page) (cs : List Char) : Page :=
  { p with written := cs.reverse ++ p.written, column := p.column + cs.length }

def breakLine (p : Page) : Page := ⟨'\n' :: p.written, 0, true, true⟩

/-- On a line of its own at a column. -/
def toIndent (p : Page) (indent : Nat) : Page :=
  let p := if !p.atIndent || indent < p.column || (p.column == indent && !p.spaced) then p.breakLine
    else p
  if p.column < indent then { p.put (List.replicate (indent - p.column) ' ') with spaced := true }
  else p

/-- A sign; `keepsIndent` says that what follows may stand on the line as if at its beginning. -/
def mark (p : Page) (sign : String) (apart keepsIndent : Bool) : Page :=
  { p.put (if p.spaced || !apart then sign.toList else ' ' :: sign.toList) with
    spaced := false, atIndent := p.atIndent && keepsIndent }

theorem toChars_put (p : Page) (cs : List Char) : (p.put cs).toChars = p.toChars ++ cs := by
  simp [put, toChars]

/-! ## Scalars -/

/-- Goes on in the middle of a scalar. -/
def within (p : Page) : Page := { p with spaced := false, atIndent := false }

/-- Runs of blanks, of new lines, and of other characters. -/
inductive RunKind
  | blanks
  | breaks
  | other
  deriving DecidableEq, Repr, Inhabited

def runKind (c : Char) : RunKind :=
  if c == ' ' then .blanks else if c == '\n' then .breaks else .other

/-- The runs of a text, in order. -/
def runs (cs : List Char) : List (RunKind × List Char) :=
  cs.foldr (fun c rs =>
    match rs with
    | (k, run) :: rest => if k == runKind c then (k, c :: run) :: rest else (runKind c, [c]) :: rs
    | [] => [(runKind c, [c])]) []

/-- A single blank between words is replaced by a line break once the line is long enough. -/
def plainRuns (indent : Nat) (splits : Bool) : List (RunKind × List Char) → Page → Page
  | [], p => p
  | (.blanks, [' ']) :: rest, p =>
    if width < p.column && splits then plainRuns indent splits rest (p.toIndent indent).within
    else plainRuns indent splits rest (p.put [' '])
  | (_, run) :: rest, p => plainRuns indent splits rest (p.put run)

/-- A scalar without quotes, which holds no line breaks. -/
def plain (p : Page) (indent : Nat) (splits : Bool) (cs : List Char) : Page :=
  if cs.isEmpty then p
  else
    let p := if p.spaced then p else p.put [' ']
    plainRuns indent splits (runs cs) p.within

/-- A quote inside single quotes is written twice. -/
def doubledQuotes (cs : List Char) : List Char :=
  cs.flatMap fun c => if c == '\'' then ['\'', '\''] else [c]

/-- New lines are written once more than they are read, before the indentation of the next line. -/
def quotedRuns (indent : Nat) (splits : Bool) :
    Bool → List (RunKind × List Char) → Page → Page
  | _, [], p => p
  | first, (.blanks, [' ']) :: rest, p =>
    if width < p.column && splits && !first && !rest.isEmpty then
      quotedRuns indent splits false rest (p.toIndent indent)
    else quotedRuns indent splits false rest (p.put [' '])
  | _, (.breaks, run) :: rest, p =>
    let p := run.foldl (fun p _ => p.breakLine) p.breakLine
    quotedRuns indent splits false rest (p.toIndent indent)
  | _, (_, run) :: rest, p => quotedRuns indent splits false rest (p.put (doubledQuotes run))

def singleQuoted (p : Page) (indent : Nat) (splits : Bool) (cs : List Char) : Page :=
  (quotedRuns indent splits true (runs cs) (p.mark "'" true false)).mark "'" false false

/-- Characters with an escape of one letter. -/
def shortEscapes : List (Char × Char) :=
  [('\x00', '0'), ('\x07', 'a'), ('\x08', 'b'), ('\t', 't'), ('\n', 'n'), ('\x0b', 'v'),
    ('\x0c', 'f'), ('\r', 'r'), ('\x1b', 'e'), ('"', '"'), ('\\', '\\'), ('\u0085', 'N'),
    ('\u00a0', '_'), ('\u2028', 'L'), ('\u2029', 'P')]

def upperHex (width n : Nat) : List Char :=
  let digits := (Nat.toDigits 16 n).map Char.toUpper
  List.replicate (width - digits.length) '0' ++ digits

def escape (c : Char) : List Char :=
  match shortEscapes.lookup c with
  | some e => ['\\', e]
  | none =>
    if c.toNat ≤ 0xff then '\\' :: 'x' :: upperHex 2 c.toNat
    else if c.toNat ≤ 0xffff then '\\' :: 'u' :: upperHex 4 c.toNat
    else '\\' :: 'U' :: upperHex 8 c.toNat

def isEscaped (c : Char) : Bool := c == '"' || c == '\\' || !(' ' ≤ c && c ≤ '~')

/-- The characters in double quotes from the position `index` on; `run` are those that have not
been written, the last one first.  A long line is broken before a blank and after an escape. -/
def doubleQuotedFrom (indent : Nat) (splits : Bool) (size : Nat) :
    Nat → List Char → List Char → Page → Page
  | _, run, [], p => p.put run.reverse
  | index, run, c :: cs, p =>
    let escaped := isEscaped c
    let (p, run) := if escaped then ((p.put run.reverse).put (escape c), []) else (p, run)
    let reached := if escaped then p.column - 1 else p.column + run.length
    let breaks := 0 < index && index + 1 < size && (c == ' ' || escaped || run.isEmpty) &&
      width < reached && splits
    if breaks then
      let p := (((p.put run.reverse).put ['\\']).toIndent indent).within
      let next := if escaped then cs else c :: cs
      let p := if next.head? == some ' ' then p.put ['\\'] else p
      doubleQuotedFrom indent splits size (index + 1) (if escaped then [] else [c]) cs p
    else doubleQuotedFrom indent splits size (index + 1) (if escaped then [] else c :: run) cs p

def doubleQuoted (p : Page) (indent : Nat) (splits : Bool) (cs : List Char) : Page :=
  (doubleQuotedFrom indent splits cs.length 0 [] cs (p.mark "\"" true false)).mark "\"" false false

end Page

end Chronicle.Yaml
