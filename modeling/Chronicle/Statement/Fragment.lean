import Chronicle.Text.Blank
import Chronicle.Text.Digit
import Chronicle.Text.Word

/-!
# Parameters in text

A parameter stands in a fragment of SQL as a colon and a name.  A doubled colon is none, and a
backslash before a colon takes its meaning away.

* `declared`: the parameters that may be given a value;
* `pieces`: the text cut at its parameters.
-/

namespace Chronicle.Fragment

open Chronicle.Text

/-- A colon after one of these opens no parameter. -/
def blocksColon (c : Char) : Bool := c == ':' || c == '\\' || isWord c

def isNameChar (c : Char) : Bool := isWord c || c == '$'

/-- The name after a colon that may be given a value: the longest run of word characters that no
colon follows. -/
def declaredName (cs : List Char) : Option (List Char) :=
  let name := cs.takeWhile isWord
  if (cs.dropWhile isWord).head? == some ':' then
    if name.length < 2 then none else some name.dropLast
  else if name.isEmpty then none
  else some name

/-- All parameters that may be given a value, each once; `before` is the preceding character. -/
def declaredFrom : Option Char → Nat → List Char → List (List Char)
  | _, _, [] => []
  | _, skip + 1, c :: cs => declaredFrom (some c) skip cs
  | before, 0, c :: cs =>
    if c == ':' && !before.any blocksColon then
      match declaredName cs with
      | some name => name :: declaredFrom (some c) name.length cs
      | none => declaredFrom (some c) 0 cs
    else declaredFrom (some c) 0 cs

def declared (sql : String) : List String :=
  ((declaredFrom none 0 sql.toList).map String.ofList).eraseDups

/-- Names under which no parameter can be given a value: the operation that takes the values has
arguments of its own under them. -/
def reserved : List String := ["self", "fn"]

/-- A piece of a fragment. -/
inductive Piece
  | text (c : Char)
  | param (name : String)
  deriving DecidableEq, Repr

/-- The name of a parameter after a colon: the whole run of name characters, unless another colon
follows. -/
def paramName (cs : List Char) : Option (List Char) :=
  let name := cs.takeWhile isNameChar
  if name.isEmpty || (cs.dropWhile isNameChar).head? == some ':' then none else some name

/-- A colon after one of these is text. -/
def guardsColon (c : Char) : Bool := c == ':' || c == '\\' || isNameChar c

def piecesFrom : Option Char → Nat → List Char → List Piece
  | _, _, [] => []
  | _, skip + 1, c :: cs => piecesFrom (some c) skip cs
  | before, 0, c :: cs =>
    if c == ':' && !before.any guardsColon then
      match paramName cs with
      | some name => .param (String.ofList name) :: piecesFrom (some c) name.length cs
      | none => .text c :: piecesFrom (some c) 0 cs
    else .text c :: piecesFrom (some c) 0 cs

/-- Removes the backslash before a colon, unless another colon or a name with one follows. -/
def unescape : List Piece → List Piece
  | [] => []
  | .text '\\' :: .text ':' :: rest =>
    let after := rest.dropWhile fun p => match p with
      | .text c => isNameChar c
      | .param _ => false
    if after.head? == some (.text ':') then .text '\\' :: .text ':' :: unescape rest
    else .text ':' :: unescape rest
  | p :: rest => p :: unescape rest

def pieces (sql : String) : List Piece := unescape (piecesFrom none 0 sql.toList)

/-- The names of the parameters in their order, as often as they occur. -/
def paramNames (sql : String) : List String :=
  (pieces sql).filterMap fun p => match p with
    | .param name => some name
    | .text _ => none

/-- Digits in groups parted by single underscores. -/
def digitGroups : Bool → List Char → Bool
  | afterDigit, [] => afterDigit
  | afterDigit, c :: cs =>
    if isDigit c then digitGroups true cs
    else if c == '_' && afterDigit then (cs.head?.any isDigit) && digitGroups false cs
    else false

/-- The whole number a text denotes, blanks around it aside. -/
def wholeNumber? (s : String) : Option Int :=
  let (negative, ds) := takeSign (trimBlanks s.toList)
  if digitGroups false ds then
    let n : Int := digitsValue (ds.filter isDigit)
    some (if negative then -n else n)
  else none

end Chronicle.Fragment
