import Chronicle.Text.Digit

/-!
# The characters of YAML

Line breaks, white space and the marks between documents.

* `takeBreak`: one line break, of whatever kind;
* `endsWord`, `endsLine`: what may follow an indicator;
* `atDocumentMark`: a line that begins or ends a document.
-/

namespace Chronicle.Yaml

open Chronicle.Text

def isBreak (c : Char) : Bool :=
  c == '\n' || c == '\r' || c == '\u0085' || c == '\u2028' || c == '\u2029'

def isWhite (c : Char) : Bool := c == ' ' || c == '\t'

/-- Every text may hold these characters; a text with any other one is not read at all. -/
def isReadable (c : Char) : Bool :=
  c == '\t' || c == '\n' || c == '\r' || c == '\u0085' || (' ' ≤ c && c ≤ '~') ||
    ('\u00a0' ≤ c && c ≤ '\ufffd') || 0x10000 ≤ c.toNat

/-- The letters, digits and signs of names. -/
def isNameChar (c : Char) : Bool := c.isAlphanum || c == '-' || c == '_'

def isHexDigit (c : Char) : Bool :=
  isAsciiDigit c || ('a' ≤ c && c ≤ 'f') || ('A' ≤ c && c ≤ 'F')

/-- The number a run of hexadecimal digits denotes. -/
def hexValue (cs : List Char) : Nat :=
  cs.foldl (fun n c =>
    16 * n + (if isAsciiDigit c then c.toNat - 48 else c.toLower.toNat - 87)) 0

/-- At the end, at white space or at a line break. -/
def endsWord : List Char → Bool
  | [] => true
  | c :: _ => isWhite c || isBreak c

/-- At the end or at a line break. -/
def endsLine : List Char → Bool
  | [] => true
  | c :: _ => isBreak c

/-- At the end, at a blank or at a line break, but not at a tab. -/
def endsWordUntabbed : List Char → Bool
  | [] => true
  | c :: _ => c == ' ' || isBreak c

/-- Begins with one of some characters. -/
def beginsWith (chars : String) (cs : List Char) : Bool :=
  match cs with
  | [] => false
  | c :: _ => chars.toList.contains c

/-- A line break and what follows it.  The two separators of Unicode stand for themselves, all
other breaks for a new line. -/
def takeBreak : List Char → Option (Char × List Char)
  | '\r' :: '\n' :: rest => some ('\n', rest)
  | c :: rest =>
    if c == '\u2028' || c == '\u2029' then some (c, rest)
    else if isBreak c then some ('\n', rest)
    else none
  | [] => none

/-- The line break, if there is one. -/
def breakOf (r : Option (Char × List Char)) : List Char := (r.map (·.1)).toList

/-- At the three hyphens or points of a line that parts documents. -/
def atDocumentMark : List Char → Bool
  | '-' :: '-' :: '-' :: rest => endsWord rest
  | '.' :: '.' :: '.' :: rest => endsWord rest
  | _ => false

/-- What follows a comment, if there is one here. -/
def dropComment : List Char → List Char
  | '#' :: cs => cs.dropWhile (!isBreak ·)
  | cs => cs

def dropBlanks (cs : List Char) : List Char := cs.dropWhile (· == ' ')

theorem takeBreak_shorter {cs rest : List Char} {c : Char} (h : takeBreak cs = some (c, rest)) :
    rest.length < cs.length := by
  unfold takeBreak at h
  split at h
  · cases h; simp only [List.length_cons]; omega
  · split at h
    · cases h; simp
    · split at h
      · cases h; simp
      · cases h
  · cases h

end Chronicle.Yaml
