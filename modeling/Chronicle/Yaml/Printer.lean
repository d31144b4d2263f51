import Chronicle.Value
import Chronicle.Yaml.Page
import Chronicle.Yaml.Tag

/-!
# Values as YAML

Collections are written as blocks, scalars in the simplest form from which they are read back as
what they are.

* `Form`: which forms a text can have;
* `scalarText`: a scalar as text, with the tag it is to be read by;
* `Page.value`: a value;
* `textOfValue`: a value as a document.
-/

namespace Chronicle.Yaml

open Chronicle.Calendar Chronicle.Decimal

/-! ## Forms of scalars -/

/-- What speaks against a form of a text. -/
structure Form where
  isEmpty : Bool
  isMultiline : Bool
  allowsPlain : Bool
  allowsSingle : Bool
  deriving DecidableEq, Repr, Inhabited

/-- A character that would be taken for a sign of a collection, a comment or a directive; `after`
and `before` tell whether there is white space around it. -/
def isIndicator (first : Bool) (c : Char) (after before : Bool) : Bool :=
  if first then
    "#,[]\x7b\x7d&*!|>'\"%@\x60".toList.contains c || ("?:-".toList.contains c && before)
  else (c == ':' && before) || (c == '#' && after)

/-- Whether a text holds an indicator; `after` tells whether white space goes before. -/
def hasIndicator : Bool → Bool → List Char → Bool
  | _, _, [] => false
  | first, after, c :: cs =>
    isIndicator first c after (endsWord cs) ||
      hasIndicator false (c == '\x00' || isWhite c || isBreak c) cs

/-- Whether one of two characters follows the other immediately. -/
def hasPair (a b : Char) : List Char → Bool
  | c :: d :: cs => (c == a && d == b) || hasPair a b (d :: cs)
  | _ => false

def Form.ofText (cs : List Char) : Form :=
  let isSpecial (c : Char) : Bool := !(c == '\n' || (' ' ≤ c && c ≤ '~'))
  let multiline := cs.any fun c => isBreak c && c != '\r'
  let marked := ['-', '-', '-'].isPrefixOf cs || ['.', '.', '.'].isPrefixOf cs
  let edge (c : Option Char) : Bool := c == some ' ' || c == some '\n'
  let single := !(hasPair '\n' ' ' cs || hasPair ' ' '\n' cs || cs.any isSpecial)
  { isEmpty := cs.isEmpty
    isMultiline := multiline
    allowsPlain := single && !multiline && !marked && !edge cs.head? && !edge cs.getLast? &&
      !hasIndicator true true cs
    allowsSingle := single }

/-! ## Scalars -/

/-- A float always has a point, also before an exponent. -/
def floatText : Binary64 → String
  | .nan => ".nan"
  | .infinite negative => if negative then "-.inf" else ".inf"
  | x =>
    let cs := x.text.toList
    if cs.contains '.' || !cs.contains 'e' then x.text
    else String.ofList (cs.flatMap fun c => if c == 'e' then ['.', '0', 'e'] else [c])

/-- The text of a scalar and the tag under which it is written. -/
def scalarText : Scalar → String × Tag
  | .null => ("null", .null)
  | .bool b => (if b then "true" else "false", .bool)
  | .int i => (toString i, .int)
  | .float x => (floatText x, .float)
  | .text s => (s, .text)
  | .moment m => ((Scalar.moment m).plain, .timestamp)
  | .date d => (d.text, .timestamp)

namespace Page

/-- A scalar.  The key of a mapping (`simple`) stays on one line. -/
def scalar (p : Page) (indent : Nat) (simple : Bool) (s : Scalar) : Page :=
  let (text, tag) := scalarText s
  let cs := text.toList
  let form := Form.ofText cs
  let plainTag := Tag.ofPlain text
  if plainTag == tag && form.allowsPlain && !(simple && form.isEmpty) then
    p.plain indent (!simple) cs
  else
    let p := if tag == .text then p else p.mark "!!timestamp" true false
    if form.allowsSingle && !(simple && form.isMultiline) then p.singleQuoted indent (!simple) cs
    else p.doubleQuoted indent (!simple) cs

/-- The longest text that is written as a key on the line of its value. -/
def longestSimpleKey : Nat := 122

def isSimpleKey (key : String) : Bool :=
  let form := Form.ofText key.toList
  key.length ≤ longestSimpleKey && !form.isEmpty && !form.isMultiline

/-- The column of the items of a collection inside another one. -/
def innerIndent (outer : Option Nat) : Nat := outer.elim 0 (· + 2)

mutual

/-- A value in a collection at the column `outer`; directly after a key (`inMapping`) the items of
a sequence are not indented further. -/
def value (outer : Option Nat) (inMapping : Bool) (p : Page) : Value → Except Failure Page
  | .scalar s => .ok (p.scalar (outer.elim 2 (· + 2)) false s)
  | .list [] => .ok (p.mark "[]" true false)
  | .list (v :: vs) =>
    let indent := if inMapping && !p.atIndent then outer.getD 0 else innerIndent outer
    items indent p (v :: vs)
  | .object [] => .ok (p.mark "\x7b\x7d" true false)
  | .object (f :: fs) => fields (innerIndent outer) p (f :: fs)
  | .column ref =>
    .ok (columnFields (innerIndent outer) p ref)
  | .timestamp _ => .error .notRepresentable
where
  columnFields (indent : Nat) (p : Page) (ref : ColumnRef) : Page :=
    let entry (p : Page) (name text : String) : Page :=
      (((p.toIndent indent).scalar (indent + 2) true (.text name)).mark ":" false false).scalar
        (indent + 2) false (.text text)
    entry (entry p "table" ref.table) "name" ref.name

def items (indent : Nat) (p : Page) : List Value → Except Failure Page
  | [] => .ok p
  | v :: vs => do
    let p ← value (some indent) false ((p.toIndent indent).mark "-" true true) v
    items indent p vs

def fields (indent : Nat) (p : Page) : List (String × Value) → Except Failure Page
  | [] => .ok p
  | (k, v) :: fs => do
    let p := p.toIndent indent
    let p :=
      if isSimpleKey k then (p.scalar (indent + 2) true (.text k)).mark ":" false false
      else
        (((p.mark "?" true true).scalar (indent + 2) false (.text k)).toIndent indent).mark ":"
          true true
    let p ← value (some indent) true p v
    fields indent p fs

end

end Page

/-- A value as a document. -/
def textOfValue (v : Value) : Except Failure String := do
  let p ← Page.value none false .empty v
  return String.ofList (p.toIndent 0).toChars

end Chronicle.Yaml
