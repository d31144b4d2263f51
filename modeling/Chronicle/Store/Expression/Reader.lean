import Chronicle.Statement.Fragment
import Chronicle.Store.Binding
import Chronicle.Store.Expression

/-!
# Reading expressions

Text is cut into lexemes, and these are put together by how strongly the operators bind: `OR`, then
`AND`, `NOT`, equality and its relatives, and the orders, which bind most strongly.

* `Lexeme.ofPieces`: the lexemes of a fragment with its parameters;
* `Expression.ofLexemes?`: the expression that lexemes form.
-/

namespace Chronicle

open Chronicle.Decimal Chronicle.Text

inductive Lexeme
  /-- A condition that has been understood elsewhere. -/
  | settled (t : Truth)
  | literal (c : Cell)
  | name (isQuoted : Bool) (s : String)
  | symbol (s : String)
  deriving DecidableEq, Repr, Inhabited

namespace Lexeme

open Fragment (Piece)

/-! ## Cutting -/

def isSpace (c : Char) : Bool :=
  c == ' ' || c == '\t' || c == '\n' || c == '\r' || c == '\x0c'

def isNameStart (c : Char) : Bool := c.isAlpha || c == '_' || 128 ≤ c.toNat

def isNameChar (c : Char) : Bool := isNameStart c || isAsciiDigit c || c == '$'

/-- The characters up to the next parameter that have a property. -/
def takeChars (p : Char → Bool) : List Piece → List Char × List Piece
  | .text c :: rest =>
    if p c then
      let (cs, rest) := takeChars p rest
      (c :: cs, rest)
    else ([], .text c :: rest)
  | rest => ([], rest)

/-- The text up to a closing quote, which may be written twice; no parameter can stand in it. -/
def takeQuoted (close : Char) : List Piece → Except Failure (List Char × List Piece)
  | .text c :: .text d :: rest =>
    if c == close then
      if d == close then (takeQuoted close rest).map fun (cs, rest) => (c :: cs, rest)
      else .ok ([], .text d :: rest)
    else (takeQuoted close (.text d :: rest)).map fun (cs, rest) => (c :: cs, rest)
  | [.text c] => if c == close then .ok ([], []) else .error .rejectedStatement
  | .text c :: .param n :: rest =>
    if c == close then .ok ([], .param n :: rest) else .error .unbindableValue
  | .param _ :: _ => .error .unbindableValue
  | [] => .error .rejectedStatement

/-- Behind a comment between signs. -/
def dropComment : List Piece → List Piece
  | .text '*' :: .text '/' :: rest => rest
  | _ :: rest => dropComment rest
  | [] => []

def twoCharSymbols : List String := ["<=", ">=", "<>", "!=", "=="]

def oneCharSymbols : List Char := ['<', '>', '=', '(', ')', ',', '.', '-', '+']

/-- The characters at the beginning, up to a parameter. -/
def plainStart (ps : List Piece) : List Char := (takeChars (fun _ => true) ps).1

/-- The lexeme at the beginning, if there is one, and the rest. -/
def takeLexeme (c : Char) (rest : List Piece) : Except Failure (List Lexeme × List Piece) :=
  if isSpace c then .ok ([], rest)
  else if c == '\'' then
    (takeQuoted c rest).map fun (cs, rest) => ([.literal (.text (String.ofList cs))], rest)
  else if c == '"' || c == '\x60' then
    (takeQuoted c rest).map fun (cs, rest) => ([.name true (String.ofList cs)], rest)
  else if c == '[' then
    (takeQuoted ']' rest).map fun (cs, rest) => ([.name true (String.ofList cs)], rest)
  else if isNameStart c then
    let (cs, rest) := takeChars isNameChar rest
    .ok ([.name false (String.ofList (c :: cs))], rest)
  else
    let start := c :: plainStart rest
    let two := String.ofList (start.take 2)
    if isAsciiDigit c || (c == '.' && start[1]?.any isAsciiDigit) then
      match Numeral.take start with
      | some (n, more) =>
        if more.head?.any isNameChar then .error .rejectedStatement
        else
          let value := if n.plain && Cell.isStorable n.toInt then Cell.int n.toInt
            else .real n.toBinary64
          .ok ([.literal value], rest.drop (start.length - more.length - 1))
      | none => .error .rejectedStatement
    else if two == "--" then .ok ([], (takeChars (· != '\n') rest).2)
    else if two == "/*" then .ok ([], dropComment (rest.drop 1))
    else if twoCharSymbols.contains two then .ok ([.symbol two], rest.drop 1)
    else if oneCharSymbols.contains c then .ok ([.symbol c.toString], rest)
    else if c == '?' then .error .unbindableValue
    else .error .rejectedStatement

def cut (params : String → Cell) : Nat → List Piece → Except Failure (List Lexeme)
  | 0, _ => .error .rejectedStatement
  | _, [] => .ok []
  | fuel + 1, .param n :: rest => (cut params fuel rest).map (.literal (params n) :: ·)
  | fuel + 1, .text c :: rest => do
    let (ls, rest) ← takeLexeme c rest
    return ls ++ (← cut params fuel rest)

/-- The lexemes of a fragment, its parameters being cells. -/
def ofPieces (params : String → Cell) (ps : List Piece) : Except Failure (List Lexeme) :=
  cut params (ps.length + 1) ps

/-- A word of the language, in either case. -/
def isWord (word : String) : Lexeme → Bool
  | name false s => s.toUpper == word
  | _ => false

def isSymbol (s : String) (l : Lexeme) : Bool := l == .symbol s

end Lexeme

/-! ## Putting together -/

namespace Expression

/-- Words that are no names of columns. -/
def reserved : List String :=
  ["AND", "OR", "NOT", "IS", "IN", "LIKE", "ESCAPE", "BETWEEN", "ISNULL", "NOTNULL", "NULL", "CASE",
    "WHEN", "THEN", "ELSE", "END", "SELECT", "FROM", "WHERE", "EXISTS", "CAST", "COLLATE", "ORDER",
    "GROUP", "LIMIT", "HAVING", "UNION", "JOIN", "ON", "AS"]

def isReserved (s : String) : Bool := reserved.contains s.toUpper

def truthWord? (s : String) : Option Bool :=
  if s.toUpper == "TRUE" then some true else if s.toUpper == "FALSE" then some false else none

def equalitySymbols : List (String × Relator) :=
  [("=", .eq), ("==", .eq), ("!=", .ne), ("<>", .ne)]

def orderSymbols : List (String × Relator) := [("<", .lt), ("<=", .le), (">", .gt), (">=", .ge)]

abbrev Parsed := Option (Expression × List Lexeme)

mutual

def parseOr : Nat → List Lexeme → Parsed
  | 0, _ => none
  | fuel + 1, ls => do
    let (a, rest) ← parseAnd fuel ls
    parseOrTail fuel a rest

def parseOrTail : Nat → Expression → List Lexeme → Parsed
  | 0, _, _ => none
  | fuel + 1, a, l :: rest =>
    if l.isWord "OR" then do
      let (b, rest) ← parseAnd fuel rest
      parseOrTail fuel (.or a b) rest
    else some (a, l :: rest)
  | _ + 1, a, [] => some (a, [])

def parseAnd : Nat → List Lexeme → Parsed
  | 0, _ => none
  | fuel + 1, ls => do
    let (a, rest) ← parseNot fuel ls
    parseAndTail fuel a rest

def parseAndTail : Nat → Expression → List Lexeme → Parsed
  | 0, _, _ => none
  | fuel + 1, a, l :: rest =>
    if l.isWord "AND" then do
      let (b, rest) ← parseNot fuel rest
      parseAndTail fuel (.and a b) rest
    else some (a, l :: rest)
  | _ + 1, a, [] => some (a, [])

def parseNot : Nat → List Lexeme → Parsed
  | 0, _ => none
  | fuel + 1, l :: rest =>
    if l.isWord "NOT" then do
      let (a, rest) ← parseNot fuel rest
      return (.not a, rest)
    else do
      let (a, rest) ← parseOrder fuel (l :: rest)
      parseEqualityTail fuel a rest
  | _ + 1, [] => none

/-- Equality and what binds like it, from left to right. -/
def parseEqualityTail : Nat → Expression → List Lexeme → Parsed
  | 0, _, _ => none
  | _ + 1, a, [] => some (a, [])
  | fuel + 1, a, .symbol s :: rest =>
    match equalitySymbols.lookup s with
    | some op => do
      let (b, rest) ← parseOrder fuel rest
      parseEqualityTail fuel (.compare op a b) rest
    | none => some (a, .symbol s :: rest)
  | fuel + 1, a, l :: rest =>
    if l.isWord "ISNULL" then parseEqualityTail fuel (.same a (.literal .null) false) rest
    else if l.isWord "NOTNULL" then parseEqualityTail fuel (.same a (.literal .null) true) rest
    else if l.isWord "IS" then
      match rest with
      | m :: more =>
        if m.isWord "NOT" then parseIs fuel a true more else parseIs fuel a false rest
      | [] => none
    else if l.isWord "NOT" then
      match rest with
      | m :: more =>
        if m.isWord "NULL" then parseEqualityTail fuel (.same a (.literal .null) true) more
        else parseRelative fuel a true m more
      | [] => none
    else if l.isWord "LIKE" || l.isWord "IN" || l.isWord "BETWEEN" then
      parseRelative fuel a false l rest
    else some (a, l :: rest)

/-- What follows `IS`. -/
def parseIs : Nat → Expression → Bool → List Lexeme → Parsed
  | 0, _, _, _ => none
  | fuel + 1, a, negated, ls =>
    match ls with
    | .name false s :: rest =>
      match truthWord? s with
      | some b => parseEqualityTail fuel (.isTruth a b negated) rest
      | none => do
        let (b, rest) ← parseOrder fuel ls
        parseEqualityTail fuel (.same a b negated) rest
    | _ => do
      let (b, rest) ← parseOrder fuel ls
      parseEqualityTail fuel (.same a b negated) rest

/-- A pattern, a list or a range, after its word. -/
def parseRelative : Nat → Expression → Bool → Lexeme → List Lexeme → Parsed
  | 0, _, _, _, _ => none
  | fuel + 1, a, negated, word, rest =>
    if word.isWord "LIKE" then do
      let (pattern, rest) ← parseOrder fuel rest
      match rest with
      | l :: more =>
        if l.isWord "ESCAPE" then do
          let (escape, rest) ← parseOrder fuel more
          parseEqualityTail fuel (.like a pattern (some escape) negated) rest
        else parseEqualityTail fuel (.like a pattern none negated) rest
      | [] => some (.like a pattern none negated, [])
    else if word.isWord "BETWEEN" then do
      let (low, rest) ← parseOrder fuel rest
      match rest with
      | l :: more =>
        if l.isWord "AND" then do
          let (high, rest) ← parseOrder fuel more
          parseEqualityTail fuel (.between a low high negated) rest
        else none
      | [] => none
    else if word.isWord "IN" then
      match rest with
      | .symbol "(" :: .symbol ")" :: rest => parseEqualityTail fuel (.among a [] negated) rest
      | .symbol "(" :: rest => do
        let (items, rest) ← parseItems fuel rest
        parseEqualityTail fuel (.among a items negated) rest
      | _ => none
    else none

/-- Expressions parted by commas, up to the closing parenthesis. -/
def parseItems : Nat → List Lexeme → Option (List Expression × List Lexeme)
  | 0, _ => none
  | fuel + 1, ls => do
    let (e, rest) ← parseOr fuel ls
    match rest with
    | .symbol "," :: rest => do
      let (es, rest) ← parseItems fuel rest
      return (e :: es, rest)
    | .symbol ")" :: rest => return ([e], rest)
    | _ => none

def parseOrder : Nat → List Lexeme → Parsed
  | 0, _ => none
  | fuel + 1, ls => do
    let (a, rest) ← parseOperand fuel ls
    parseOrderTail fuel a rest

def parseOrderTail : Nat → Expression → List Lexeme → Parsed
  | 0, _, _ => none
  | fuel + 1, a, .symbol s :: rest =>
    match orderSymbols.lookup s with
    | some op => do
      let (b, rest) ← parseOperand fuel rest
      parseOrderTail fuel (.compare op a b) rest
    | none => some (a, .symbol s :: rest)
  | _ + 1, a, ls => some (a, ls)

def parseOperand : Nat → List Lexeme → Parsed
  | 0, _ => none
  | fuel + 1, ls =>
    match ls with
    | .settled t :: rest => some (.settled t, rest)
    | .literal c :: rest => some (.literal c, rest)
    | .symbol "(" :: rest => do
      let (e, rest) ← parseOr fuel rest
      match rest with
      | .symbol ")" :: rest => return (e, rest)
      | _ => none
    | .symbol "-" :: rest => do
      let (e, rest) ← parseOperand fuel rest
      return (.minus e, rest)
    | .symbol "+" :: rest => parseOperand fuel rest
    | .name true r :: .symbol "." :: .name _ s :: rest => some (.column (some r) s false, rest)
    | .name false r :: .symbol "." :: .name _ s :: rest =>
      if isReserved r then none else some (.column (some r) s false, rest)
    | .name true s :: rest => some (.column none s true, rest)
    | .name false f :: .symbol "(" :: rest => do
      let (e, rest) ← parseOr fuel rest
      match rest with
      | .symbol ")" :: rest =>
        if f.toUpper == "LOWER" then return (.lower e, rest)
        else if f.toUpper == "UPPER" then return (.upper e, rest)
        else none
      | _ => none
    | .name false s :: rest =>
      if s.toUpper == "NULL" then some (.literal .null, rest)
      else if s.toUpper == "NOT" then parseNot fuel (.name false s :: rest)
      else if isReserved s then none
      else
        match truthWord? s with
        | some b => some (.literal (.int (Scalar.ofBool b)), rest)
        | none => some (.column none s false, rest)
    | _ => none

end

/-- The expression that lexemes form. -/
def ofLexemes? (ls : List Lexeme) : Option Expression :=
  match parseOr (8 * ls.length + 8) ls with
  | some (e, []) => some e
  | _ => none

end Expression

end Chronicle
