import Chronicle.Decimal.Numeral
import Chronicle.Text.Blank
import Chronicle.Value
import Chronicle.Yaml.Node.Reader
import Chronicle.Yaml.Token.Lexer

/-!
# What nodes mean

The value of a node, by its tag.

* `Node.merged`: entries under merge keys moved into their mapping;
* `Node.scalarValue`: numbers in all notations, truth values, times;
* `Node.toValue`;
* `Value.ofYaml`: the value of a text.
-/

namespace Chronicle.Yaml

open Chronicle.Calendar Chronicle.Decimal Chronicle.Text

/-! ## Merge keys -/

namespace Node

/-- The entries that a merge key brings in: those of a mapping, or of several of which the first
ones win. -/
def mergeEntries : Node → Except Failure (List (Node × Node))
  | .mapping _ entries => .ok entries
  | .sequence _ items => do
    let groups ← items.mapM fun n =>
      match n with
      | .mapping _ entries => Except.ok entries
      | _ => .error .notConstructed
    return groups.reverse.flatten
  | _ => .error .notConstructed

/-- A key that is only an equals sign is a text. -/
def asKey : Node → Node
  | .scalar .value text => .scalar .text text
  | n => n

mutual

/-- The node with the entries under merge keys in front of the own ones, here and inside. -/
def merged : Node → Except Failure Node
  | .sequence tag items => (mergedItems items).map (.sequence tag)
  | .mapping tag entries =>
    (mergedEntries entries).map fun (brought, own) => .mapping tag (brought ++ own)
  | n => .ok n

def mergedItems : List Node → Except Failure (List Node)
  | [] => .ok []
  | n :: ns => do
    let n ← merged n
    return n :: (← mergedItems ns)

def mergedEntries :
    List (Node × Node) → Except Failure (List (Node × Node) × List (Node × Node))
  | [] => .ok ([], [])
  | (k, v) :: rest => do
    let k ← merged k
    let v ← merged v
    let (brought, own) ← mergedEntries rest
    if k.tag == .merge then return ((← mergeEntries v) ++ brought, own)
    else return (brought, (k.asKey, v) :: own)

end

/-! ## Scalars -/

def withoutBars (cs : List Char) : List Char := cs.filter (· != '_')

/-- The parts between colons. -/
def sixtyParts (cs : List Char) : List (List Char) :=
  cs.foldr (fun c parts =>
    if c == ':' then [] :: parts
    else
      match parts with
      | p :: ps => (c :: p) :: ps
      | [] => [[c]]) [[]]

/-- The number that digits to some base denote. -/
def ofDigits (base : Nat) (cs : List Char) : Except Failure Int :=
  let digit? (c : Char) : Option Nat :=
    if isHexDigit c && hexValue [c] < base then some (hexValue [c]) else none
  match cs.mapM digit? with
  | some (d :: ds) => .ok ((d :: ds).foldl (fun n d => base * n + d) 0 : Nat)
  | _ => .error .notANumber

/-- A whole number in binary, octal, decimal, hexadecimal or sexagesimal notation. -/
def intValue (text : String) : Except Failure Int := do
  let cs := trimBlanks (withoutBars text.toList)
  let (negative, cs) := takeSign cs
  let n ← match cs with
    | ['0'] => Except.ok 0
    | '0' :: 'b' :: rest => ofDigits 2 rest
    | '0' :: 'x' :: rest => ofDigits 16 rest
    | '0' :: rest => ofDigits 8 rest
    | _ => do
      let parts ← (sixtyParts cs).mapM (ofDigits 10)
      pure (parts.foldl (fun n p => 60 * n + p) 0)
  return if negative then -n else n

/-- One of the parts of a sexagesimal number, the last of which may have a fraction. -/
def floatPart (cs : List Char) : Except Failure Binary64 :=
  match Numeral.ofChars? cs with
  | some n => .ok n.toBinary64
  | none => .error .notANumber

def floatValue (text : String) : Except Failure Binary64 := do
  let cs := trimBlanks ((withoutBars text.toList).map Char.toLower)
  let (negative, cs) := takeSign cs
  let x ← if cs == ".inf".toList then pure (Binary64.infinite false)
    else if cs == ".nan".toList then pure Binary64.nan
    else do
      match ← (sixtyParts cs).mapM floatPart with
      | [x] => pure x
      | parts =>
        let (total, _) := parts.reverse.foldl (fun ((total, base) : Binary64 × Nat) x =>
          (total.add (x.mul (Binary64.ofInt base)), base * 60)) (Binary64.zero, 1)
        pure total
  return if negative then x.neg else x

/-- The microseconds that the digits of a fraction denote; further digits are dropped. -/
def fractionMicros (digits : List Char) : Nat :=
  let kept := digits.take 6
  digitsValue kept * tenTo (6 - kept.length)

def momentOfForm (d : Date) (t : Tag.TimeForm) : Except Failure Moment :=
  let micros := ((t.hour * 60 + t.minute) * 60 + t.second) * microsPerSecond +
    fractionMicros t.fraction
  let isOffset := t.offset.all fun minutes => minutes.natAbs < 24 * 60
  if h : t.hour < 24 ∧ t.minute < 60 ∧ t.second < 60 ∧ isOffset = true ∧ micros < microsPerDay then
    .ok ⟨d, micros, t.offset.map (60000000 * ·), h.2.2.2.2⟩
  else .error .invalidDate

def timestampValue (text : String) : Except Failure Scalar :=
  match Tag.takeTimestamp text.toList with
  | none => .error .missingMethod
  | some form =>
    match Date.ofFields? form.year (digitsValue form.month) (digitsValue form.day), form.time with
    | none, _ => .error .invalidDate
    | some d, none => .ok (.date d)
    | some d, some t => (momentOfForm d t).map .moment

def scalarValue (tag : Tag) (text : String) : Except Failure Scalar :=
  match tag with
  | .null => .ok .null
  | .bool =>
    match Tag.boolWords.lookup text.toLower with
    | some b => .ok (.bool b)
    | none => .error .missingItem
  | .int => (intValue text).map .int
  | .float => (floatValue text).map .float
  | .text => .ok (.text text)
  | .timestamp => timestampValue text
  | _ => .error .notConstructed

/-! ## Collections -/

/-- Keys are single values. -/
def keyOf : Value → Except Failure Scalar
  | .scalar s => .ok s
  | _ => .error .notConstructed

/-- Enters a value; an equal key that is there already keeps its place. -/
def enter (k : Scalar) (v : Value) : List (Scalar × Value) → List (Scalar × Value)
  | [] => [(k, v)]
  | (j, w) :: rest => if j.equals k then (j, v) :: rest else (j, w) :: enter k v rest

def toObject (entries : List (Scalar × Value)) : Value :=
  .object ((entries.foldl (fun fs (k, v) => enter k v fs) []).map fun (k, v) => (k.plain, v))

/-- The keys of a set, each of them once. -/
def toSet (entries : List (Scalar × Value)) : Value :=
  .list ((entries.foldl (fun fs (k, v) => enter k v fs) []).map fun (k, _) => .scalar k)

mutual

def toValue : Node → Except Failure Value
  | .scalar tag text => (scalarValue tag text).map .scalar
  | .sequence .sequence items => (valuesOf items).map .list
  | .sequence .orderedMapping items => (pairsOf items).map .list
  | .sequence .pairs items => (pairsOf items).map .list
  | .mapping .mapping entries => (entriesOf entries).map toObject
  | .mapping .set entries => (entriesOf entries).map toSet
  | _ => .error .notConstructed

def valuesOf : List Node → Except Failure (List Value)
  | [] => .ok []
  | n :: ns => do
    let v ← toValue n
    return v :: (← valuesOf ns)

def pairsOf : List Node → Except Failure (List Value)
  | [] => .ok []
  | .mapping _ [(k, v)] :: ns => do
    let k ← toValue k
    let v ← toValue v
    return .list [k, v] :: (← pairsOf ns)
  | _ => .error .notConstructed

def entriesOf : List (Node × Node) → Except Failure (List (Scalar × Value))
  | [] => .ok []
  | (k, v) :: rest => do
    let k ← keyOf (← toValue k)
    let v ← toValue v
    return (k, v) :: (← entriesOf rest)

end

end Node

/-- The value that a text denotes; a text without a document denotes nothing. -/
def valueOfText (text : String) : Except Failure Value := do
  let cs := text.toList
  if !cs.all isReadable then throw .notReadable
  match ← Node.ofTokens? (Tokens.ofText cs) with
  | none => return .null
  | some n => (← n.merged).toValue

end Chronicle.Yaml
