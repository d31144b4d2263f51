import Chronicle.Yaml.Scalar
import Chronicle.Yaml.Token

/-!
# Finding the tokens of a text

A text is gone through once.  Where a key may begin that is only told by the colon behind it, the
place is kept, so that the token for the key can be put in front later; until then the tokens from
there on are not settled.

* `Place`: a position in a text;
* `Lexer`: what has been found, and what the next token depends on;
* `Lexer.step`: the next token;
* `Tokens.ofText`: all tokens of a text.
-/

namespace Chronicle.Yaml

/-! ## Places -/

structure Place where
  index : Nat
  line : Nat
  column : Nat
  rest : List Char
  deriving Repr, Inhabited

namespace Place

/-- Behind the next character.  A byte order mark takes no column. -/
def forward (p : Place) : Place :=
  match p.rest with
  | [] => p
  | c :: rest =>
    if isBreak c && !(c == '\r' && rest.head? == some '\n') then
      ⟨p.index + 1, p.line + 1, 0, rest⟩
    else ⟨p.index + 1, p.line, if c == '\ufeff' then p.column else p.column + 1, rest⟩

def forwardBy : Nat → Place → Place
  | 0, p => p
  | n + 1, p => forwardBy n p.forward

/-- At the place where `rest` remains. -/
def forwardTo (p : Place) (rest : List Char) : Place :=
  p.forwardBy (p.rest.length - rest.length)

theorem forward_rest (p : Place) : p.forward.rest = p.rest.drop 1 := by
  unfold forward
  split
  · next h => simp [h]
  · next h => split <;> simp [h]

end Place

/-! ## The state of the search -/

/-- A place where a key may have begun.  A required one has to be a key. -/
structure PossibleKey where
  number : Nat
  isRequired : Bool
  index : Nat
  line : Nat
  column : Nat
  deriving Repr, Inhabited

/-- `level` counts the brackets that are open, `indent` is the column of the innermost block
collection and `indents` those around it. -/
structure Lexer where
  place : Place
  level : Int
  indent : Int
  indents : List Int
  allowsKey : Bool
  keys : List (Int × PossibleKey)
  tokens : Array Token
  isDone : Bool
  deriving Repr, Inhabited

namespace Lexer

def start (cs : List Char) : Lexer :=
  ⟨⟨0, 0, 0, cs⟩, 0, -1, [], true, [], #[], false⟩

def push (s : Lexer) (t : Token) : Lexer := { s with tokens := s.tokens.push t }

def inFlow (s : Lexer) : Bool := s.level != 0

/-- A key has to be followed by its colon on one line and within so many characters. -/
def longestKey : Nat := 1024

/-- Forgets the keys whose colon has not come in time. -/
def dropStale (s : Lexer) : Except Failure Lexer :=
  let isStale (k : PossibleKey) : Bool :=
    k.line != s.place.line || longestKey < s.place.index - k.index
  if s.keys.any fun (_, k) => isStale k && k.isRequired then .error .notScanned
  else .ok { s with keys := s.keys.filter fun (_, k) => !isStale k }

/-- Forgets the key of the current level. -/
def dropKey (s : Lexer) : Except Failure Lexer :=
  match s.keys.lookup s.level with
  | some k =>
    if k.isRequired then .error .notScanned
    else .ok { s with keys := s.keys.filter fun (l, _) => l != s.level }
  | none => .ok s

/-- A key may begin with the next token. -/
def keepKey (s : Lexer) : Except Failure Lexer :=
  if s.allowsKey then do
    let isRequired := !s.inFlow && s.indent == s.place.column
    let s ← s.dropKey
    let key : PossibleKey :=
      ⟨s.tokens.size, isRequired, s.place.index, s.place.line, s.place.column⟩
    return { s with keys := (s.level, key) :: s.keys }
  else .ok s

/-- Ends the block collections that are indented further than a column. -/
def unwindFrom (column : Int) : List Int → Lexer → Lexer
  | [], s => s
  | outer :: indents, s =>
    if column < s.indent then
      unwindFrom column indents { s.push .blockEnd with indent := outer, indents := indents }
    else s

def unwind (s : Lexer) (column : Int) : Lexer :=
  if s.inFlow then s else unwindFrom column s.indents s

/-- A block collection at a column, if it is indented further than what is around it. -/
def addIndent (s : Lexer) (column : Nat) (t : Token) (before : Nat) : Lexer :=
  if s.indent < column then
    { s with
      indents := s.indent :: s.indents, indent := column,
      tokens := s.tokens.insertIdxIfInBounds before t }
  else s

/-! ## Between tokens -/

/-- Behind blanks, comments and line breaks; whether a line break was crossed. -/
def skipSpace : Nat → List Char → Bool × List Char
  | 0, cs => (false, cs)
  | fuel + 1, cs =>
    let rest := dropComment (dropBlanks cs)
    match takeBreak rest with
    | some (_, rest) => (true, (skipSpace fuel rest).2)
    | none => (false, rest)

/-- At the beginning of the next token. -/
def toNext (s : Lexer) : Except Failure Lexer := do
  let cs := s.place.rest
  let cs := if s.place.index == 0 && cs.head? == some '\ufeff' then cs.drop 1 else cs
  let (crossed, rest) := skipSpace (cs.length + 1) cs
  let s := { s with
    place := s.place.forwardTo rest, allowsKey := s.allowsKey || (crossed && !s.inFlow) }
  let s ← s.dropStale
  return s.unwind s.place.column

/-! ## Tokens -/

/-- Goes on behind a token of so many characters. -/
def take (s : Lexer) (count : Nat) (t : Token) : Lexer :=
  { s.push t with place := s.place.forwardBy count }

/-- Goes on behind a token where `rest` remains. -/
def takeTo (s : Lexer) (rest : List Char) (t : Token) : Lexer :=
  { s.push t with place := s.place.forwardTo rest }

def streamEnd (s : Lexer) : Except Failure Lexer := do
  let s ← (s.unwind (-1)).dropKey
  return { s.push .streamEnd with allowsKey := false, keys := [], isDone := true }

def directive (s : Lexer) : Except Failure Lexer := do
  let s ← (s.unwind (-1)).dropKey
  let (t, rest) ← takeDirective (s.place.rest.drop 1)
  return { s with allowsKey := false }.takeTo rest t

def documentMark (s : Lexer) (t : Token) : Except Failure Lexer := do
  let s ← (s.unwind (-1)).dropKey
  return { s with allowsKey := false }.take 3 t

def flowStart (s : Lexer) (t : Token) : Except Failure Lexer := do
  let s ← s.keepKey
  return { s with level := s.level + 1, allowsKey := true }.take 1 t

def flowEnd (s : Lexer) (t : Token) : Except Failure Lexer := do
  let s ← s.dropKey
  return { s with level := s.level - 1, allowsKey := false }.take 1 t

def flowEntry (s : Lexer) : Except Failure Lexer := do
  let s ← { s with allowsKey := true }.dropKey
  return s.take 1 .flowEntry

def blockEntry (s : Lexer) : Except Failure Lexer := do
  if !s.inFlow && !s.allowsKey then throw .notScanned
  let s := if s.inFlow then s
    else s.addIndent s.place.column .blockSequenceStart s.tokens.size
  let s ← { s with allowsKey := true }.dropKey
  return s.take 1 .blockEntry

def key (s : Lexer) : Except Failure Lexer := do
  if !s.inFlow && !s.allowsKey then throw .notScanned
  let s := if s.inFlow then s
    else s.addIndent s.place.column .blockMappingStart s.tokens.size
  let s ← { s with allowsKey := !s.inFlow }.dropKey
  return s.take 1 .key

/-- A colon: the value to the key that began at a place kept, or to no key. -/
def value (s : Lexer) : Except Failure Lexer := do
  match s.keys.lookup s.level with
  | some k =>
    let s := { s with
      keys := s.keys.filter fun (l, _) => l != s.level,
      tokens := s.tokens.insertIdxIfInBounds k.number .key }
    let s := if s.inFlow then s else s.addIndent k.column .blockMappingStart k.number
    return { s with allowsKey := false }.take 1 .value
  | none =>
    if !s.inFlow && !s.allowsKey then throw .notScanned
    let s := if s.inFlow then s
      else s.addIndent s.place.column .blockMappingStart s.tokens.size
    let s ← { s with allowsKey := !s.inFlow }.dropKey
    return s.take 1 .value

/-- A token that may be the beginning of a key. -/
def keyPart (s : Lexer) (read : List Char → Except Failure (Token × List Char)) :
    Except Failure Lexer := do
  let s ← s.keepKey
  let (t, rest) ← read s.place.rest
  return { s with allowsKey := false }.takeTo rest t

def quoted (s : Lexer) (double : Bool) : Except Failure Lexer :=
  s.keyPart fun cs => (takeQuoted double (cs.drop 1)).map fun (text, rest) =>
    (.scalar false (String.ofList text), rest)

def block (s : Lexer) (folded : Bool) : Except Failure Lexer := do
  let s ← { s with allowsKey := true }.dropKey
  let (text, rest) ← takeBlock folded s.indent (s.place.rest.drop 1)
  return s.takeTo rest (.scalar false (String.ofList text))

def plain (s : Lexer) : Except Failure Lexer := do
  let s ← s.keepKey
  let p := takePlain s.inFlow (s.indent + 1) s.place.rest
  return { s with allowsKey := p.crossed }.takeTo p.rest (.scalar true (String.ofList p.text))

/-- Whether a plain scalar can begin here. -/
def beginsPlain (s : Lexer) (c : Char) (rest : List Char) : Bool :=
  !(isWhite c || isBreak c || "-?:,[]\x7b\x7d#&*!|>'\"%@\x60".toList.contains c) ||
    (!endsWord rest && (c == '-' || (!s.inFlow && (c == '?' || c == ':'))))

/-- The next token, which its first characters tell. -/
def step (s : Lexer) : Except Failure Lexer := do
  let s ← s.toNext
  match s.place.rest with
  | [] => s.streamEnd
  | c :: rest =>
    let atLineStart := s.place.column == 0
    if c == '%' && atLineStart then s.directive
    else if c == '-' && atLineStart && atDocumentMark (c :: rest) then s.documentMark .documentStart
    else if c == '.' && atLineStart && atDocumentMark (c :: rest) then s.documentMark .documentEnd
    else if c == '[' then s.flowStart .flowSequenceStart
    else if c == '\x7b' then s.flowStart .flowMappingStart
    else if c == ']' then s.flowEnd .flowSequenceEnd
    else if c == '\x7d' then s.flowEnd .flowMappingEnd
    else if c == ',' then s.flowEntry
    else if c == '-' && endsWord rest then s.blockEntry
    else if c == '?' && (s.inFlow || endsWord rest) then s.key
    else if c == ':' && (s.inFlow || endsWord rest) then s.value
    else if c == '*' then
      s.keyPart fun cs => (takeAnchorName (cs.drop 1)).map fun (n, rest) => (.reference n, rest)
    else if c == '&' then
      s.keyPart fun cs => (takeAnchorName (cs.drop 1)).map fun (n, rest) => (.anchor n, rest)
    else if c == '!' then s.keyPart takeTag
    else if c == '|' && !s.inFlow then s.block false
    else if c == '>' && !s.inFlow then s.block true
    else if c == '\'' then s.quoted false
    else if c == '"' then s.quoted true
    else if s.beginsPlain c rest then s.plain
    else throw .notScanned

/-- The tokens before the first key that is not settled. -/
def settled (s : Lexer) : List Token :=
  s.tokens.toList.take ((s.keys.map fun (_, k) => k.number).foldl min s.tokens.size)

def run : Nat → Lexer → Tokens
  | 0, s => Tokens.ofList s.settled .notScanned
  | fuel + 1, s =>
    match s.step with
    | .error f => Tokens.ofList s.settled f
    | .ok s =>
      if s.isDone then Tokens.ofList s.tokens.toList .notScanned
      else
        match s.dropStale with
        | .error f => Tokens.ofList s.settled f
        | .ok s => run fuel s

end Lexer

/-- The tokens of a text. -/
def Tokens.ofText (cs : List Char) : Tokens := (Lexer.start cs).run (cs.length + 2)

end Chronicle.Yaml
