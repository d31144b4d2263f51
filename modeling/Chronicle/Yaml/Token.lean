import Chronicle.Failure
import Chronicle.Yaml.Text

/-!
# Tokens

The pieces of a YAML text.  Besides the signs that are written, there are tokens where a block
collection begins or ends, which only the indentation tells.

* `Token`;
* `Tokens`: the tokens of a text up to its end, or up to the place where it cannot be read on;
* `takeName`, `takeTag`, `takeDirective`: the tokens that hold a name.
-/

namespace Chronicle.Yaml

/-- What a line with a percent sign declares. -/
inductive Directive
  | version (major minor : Nat)
  | handle (name meaning : String)
  | other
  deriving DecidableEq, Repr, Inhabited

inductive Token
  | directive (d : Directive)
  | documentStart
  | documentEnd
  | streamEnd
  | blockSequenceStart
  | blockMappingStart
  | blockEnd
  | flowSequenceStart
  | flowSequenceEnd
  | flowMappingStart
  | flowMappingEnd
  | flowEntry
  | blockEntry
  | key
  | value
  | reference (name : String)
  | anchor (name : String)
  | tag (handle : Option String) (suffix : String)
  | scalar (plain : Bool) (text : String)
  deriving DecidableEq, Repr, Inhabited

/-- The tokens that can be told, in order; a text that is not read to its end breaks off. -/
inductive Tokens
  | next (t : Token) (rest : Tokens)
  | broken (cause : Failure)
  deriving Repr, Inhabited

namespace Tokens

def ofList (ts : List Token) (cause : Failure) : Tokens := ts.foldr .next (.broken cause)

def toList : Tokens → List Token
  | next t rest => t :: toList rest
  | broken _ => []

theorem toList_ofList (ts : List Token) (cause : Failure) : (ofList ts cause).toList = ts := by
  induction ts with
  | nil => rfl
  | cons t ts ih => simpa [ofList, toList] using ih

end Tokens

/-! ## Names -/

/-- A name of at least one character. -/
def takeName (cs : List Char) : Except Failure (String × List Char) :=
  let name := cs.takeWhile isNameChar
  if name.isEmpty then .error .notScanned
  else .ok (String.ofList name, cs.dropWhile isNameChar)

/-- The name of an anchor or alias, after its sign. -/
def takeAnchorName (cs : List Char) : Except Failure (String × List Char) := do
  let (name, rest) ← takeName cs
  if endsWord rest || beginsWith "?:,]\x7d%@\x60" rest then return (name, rest)
  else throw .notScanned

/-! ## Tags -/

/-- Characters of a tag besides letters and digits. -/
def isTagChar (c : Char) : Bool :=
  c.isAlphanum || "-;/?:@&=+$,_.!~*'()[]".toList.contains c

/-- Bytes in hexadecimal digits, each after a percent sign. -/
def takeBytes : List Char → Except Failure (List UInt8 × List Char)
  | '%' :: a :: b :: rest =>
    if isHexDigit a && isHexDigit b then do
      let (bytes, rest) ← takeBytes rest
      return ((hexValue [a, b]).toUInt8 :: bytes, rest)
    else .error .notScanned
  | '%' :: _ => .error .notScanned
  | cs => .ok ([], cs)

/-- The rest of a tag; bytes are read as UTF-8. -/
def takeTagText : Nat → List Char → Except Failure (List Char × List Char)
  | 0, cs => .ok ([], cs)
  | fuel + 1, cs =>
    match cs with
    | '%' :: _ => do
      let (bytes, rest) ← takeBytes cs
      match String.fromUTF8? ⟨bytes.toArray⟩ with
      | some s =>
        let (text, rest) ← takeTagText fuel rest
        return (s.toList ++ text, rest)
      | none => throw .notScanned
    | c :: rest =>
      if isTagChar c then do
        let (text, rest) ← takeTagText fuel rest
        return (c :: text, rest)
      else .ok ([], cs)
    | [] => .ok ([], [])

def takeTagSuffix (cs : List Char) : Except Failure (String × List Char) := do
  let (text, rest) ← takeTagText cs.length cs
  if text.isEmpty then throw .notScanned
  return (String.ofList text, rest)

/-- A handle: an exclamation mark, or a name between two of them. -/
def takeTagHandle (cs : List Char) : Except Failure (String × List Char) :=
  match cs with
  | '!' :: rest =>
    if rest.head? == some ' ' then .ok ("!", rest)
    else
      match rest.dropWhile isNameChar with
      | '!' :: more =>
        .ok (String.ofList ('!' :: rest.takeWhile isNameChar ++ ['!']), more)
      | _ => .error .notScanned
  | _ => .error .notScanned

/-- A tag from its exclamation mark on: in angle brackets, alone, or with a handle. -/
def takeTag (cs : List Char) : Except Failure (Token × List Char) := do
  let (tag, rest) ← match cs.drop 1 with
    | '<' :: more => do
      let (suffix, rest) ← takeTagSuffix more
      match rest with
      | '>' :: rest => pure (Token.tag none suffix, rest)
      | _ => throw .notScanned
    | more =>
      if endsWord more then pure (Token.tag none "!", more)
      else if (more.takeWhile fun c => !(c == ' ' || isBreak c)).contains '!' then do
        let (handle, rest) ← takeTagHandle cs
        let (suffix, rest) ← takeTagSuffix rest
        pure (Token.tag (some handle) suffix, rest)
      else do
        let (suffix, rest) ← takeTagSuffix more
        pure (Token.tag (some "!") suffix, rest)
  if endsWordUntabbed rest then return (tag, rest) else throw .notScanned

/-! ## Directives -/

def takeNumber (cs : List Char) : Except Failure (Nat × List Char) :=
  let digits := cs.takeWhile Text.isAsciiDigit
  if digits.isEmpty then .error .notScanned
  else .ok (Text.digitsValue digits, cs.dropWhile Text.isAsciiDigit)

def takeDirectiveBody (name : String) (cs : List Char) : Except Failure (Directive × List Char) :=
  match name with
  | "YAML" => do
    let (major, rest) ← takeNumber (dropBlanks cs)
    match rest with
    | '.' :: rest =>
      let (minor, rest) ← takeNumber rest
      if endsWordUntabbed rest then return (.version major minor, rest) else throw .notScanned
    | _ => throw .notScanned
  | "TAG" => do
    let (handle, rest) ← takeTagHandle (dropBlanks cs)
    if rest.head? != some ' ' then throw .notScanned
    let (meaning, rest) ← takeTagSuffix (dropBlanks rest)
    if endsWordUntabbed rest then return (.handle handle meaning, rest) else throw .notScanned
  | _ => .ok (.other, cs.dropWhile (!isBreak ·))

/-- A directive after its percent sign, up to the end of the line. -/
def takeDirective (cs : List Char) : Except Failure (Token × List Char) := do
  let (name, rest) ← takeName cs
  if !endsWordUntabbed rest then throw .notScanned
  let (d, rest) ← takeDirectiveBody name rest
  let rest := dropComment (dropBlanks rest)
  if !endsLine rest then throw .notScanned
  return (.directive d, (takeBreak rest).elim rest (·.2))

end Chronicle.Yaml
