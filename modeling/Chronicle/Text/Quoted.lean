import Chronicle.Text.Printable

/-!
# Quoted text

How a text is shown inside messages and descriptions: in single quotes, or in double quotes when
it holds a single quote and no double one.  The quote in use and the backslash are preceded by a
backslash, tab and line ends have letters, and a character that cannot be shown has its code in
hexadecimal, two, four or eight digits wide.
-/

namespace Chronicle.Text

def hexDigits (width n : Nat) : List Char :=
  let digits := Nat.toDigits 16 n
  List.replicate (width - digits.length) '0' ++ digits

/-- The quote that surrounds a text: a double one only where that spares escapes. -/
def quoteFor (cs : List Char) : Char :=
  if cs.contains '\'' && !cs.contains '"' then '"' else '\''

/-- One character inside a text quoted by `quote`. -/
def escapeChar (quote c : Char) : List Char :=
  if c == quote || c == '\\' then ['\\', c]
  else if c == '\n' then ['\\', 'n']
  else if c == '\r' then ['\\', 'r']
  else if c == '\t' then ['\\', 't']
  else if isPrintable c then [c]
  else if c.toNat < 0x100 then ['\\', 'x'] ++ hexDigits 2 c.toNat
  else if c.toNat < 0x10000 then ['\\', 'u'] ++ hexDigits 4 c.toNat
  else ['\\', 'U'] ++ hexDigits 8 c.toNat

def quotedChars (cs : List Char) : List Char :=
  let quote := quoteFor cs
  quote :: cs.flatMap (escapeChar quote) ++ [quote]

def quoted (s : String) : String := String.ofList (quotedChars s.toList)

theorem quotedChars_head (cs : List Char) : (quotedChars cs).head? = some (quoteFor cs) := rfl

theorem quotedChars_getLast (cs : List Char) :
    (quotedChars cs).getLast? = some (quoteFor cs) := by
  rw [quotedChars, List.getLast?_append]
  simp

theorem escapeChar_of_isPrintable {quote c : Char} (hq : c ≠ quote) (hb : c ≠ '\\')
    (hn : c ≠ '\n') (hr : c ≠ '\r') (ht : c ≠ '\t') (h : isPrintable c = true) :
    escapeChar quote c = [c] := by
  simp [escapeChar, hq, hb, hn, hr, ht, h]

example : quotedChars ['a'] = ['\'', 'a', '\''] := by decide
example : quotedChars ['\''] = ['"', '\'', '"'] := by decide

end Chronicle.Text
