import Chronicle.Store.Pattern
import Chronicle.Store.Row

/-!
# Expressions

Conditions that were given as text, once they have been understood.

* `Expression.isResolved`: every name means something;
* `Expression.eval`: the cell that an expression has where its names are known.
-/

namespace Chronicle

inductive Expression
  /-- A condition whose truth is known. -/
  | settled (t : Truth)
  | literal (c : Cell)
  | column (relation : Option String) (name : String) (isQuoted : Bool)
  | compare (op : Relator) (a b : Expression)
  /-- Equality in which nothing equals nothing. -/
  | same (a b : Expression) (negated : Bool)
  | isTruth (a : Expression) (b negated : Bool)
  | minus (a : Expression)
  | lower (a : Expression)
  | upper (a : Expression)
  | like (a pattern : Expression) (escape : Option Expression) (negated : Bool)
  | between (a low high : Expression) (negated : Bool)
  | among (a : Expression) (items : List Expression) (negated : Bool)
  | not (a : Expression)
  | and (a b : Expression)
  | or (a b : Expression)
  deriving Repr, Inhabited

namespace Expression

/-- Only columns prefer a form. -/
def affinity (env : Env) : Expression → Affinity
  | column relation name _ =>
    match env.find relation name with
    | .found c _ => c.type.affinity
    | _ => .none
  | _ => .none

/-- The cell of a column.  A quoted name without a meaning stands for itself. -/
def columnCell (env : Env) (relation : Option String) (name : String) : Cell :=
  match env.find relation name with
  | .found _ c => c
  | _ => .text name

def isKnown (env : Env) (relation : Option String) (name : String) (isQuoted : Bool) : Bool :=
  match env.find relation name with
  | .found _ _ => true
  | .missing => isQuoted && relation.isNone
  | .ambiguous => false

def negateIf (negated : Bool) (t : Truth) : Truth := if negated then t.not else t

/-- Equality in which nothing equals nothing. -/
def sameCells (a : Cell) (aff : Affinity) (b : Cell) (aff' : Affinity) : Bool :=
  if a.isNull || b.isNull then a.isNull && b.isNull else a.holds .eq aff b aff' == some true

def negateNumber : Cell → Cell
  | .null => .null
  | .int i => .int (-i)
  | .real x => .real x.neg
  | c => Cell.ofReal (Cell.leadingNumber c.asText).neg

def mapText (f : Char → Char) : Cell → Cell
  | .null => .null
  | c => .text (String.ofList (c.asText.toList.map f))

/-- Whether a text matches a pattern; the escape is a single character. -/
def likeCells (a pattern : Cell) (escape : Option Cell) : Truth :=
  if a.isNull || pattern.isNull || escape.any (·.isNull) then .unknown
  else
    some (Pattern.describes (escape.bind fun e => e.asText.toList.head?) pattern.asText.toList
      a.asText.toList)

mutual

def isResolved (env : Env) : Expression → Bool
  | column relation name isQuoted => isKnown env relation name isQuoted
  | compare _ a b | same a b _ | and a b | or a b => isResolved env a && isResolved env b
  | isTruth a _ _ | minus a | lower a | upper a | not a => isResolved env a
  | like a pattern none _ => isResolved env a && isResolved env pattern
  | like a pattern (some escape) _ =>
    isResolved env a && isResolved env pattern && isResolved env escape
  | between a low high _ => isResolved env a && isResolved env low && isResolved env high
  | among a items _ => isResolved env a && areResolved env items
  | _ => true

def areResolved (env : Env) : List Expression → Bool
  | [] => true
  | e :: es => isResolved env e && areResolved env es

end

mutual

def eval (env : Env) : Expression → Cell
  | settled t => .ofTruth t
  | literal c => c
  | column relation name _ => columnCell env relation name
  | compare op a b =>
    .ofTruth ((eval env a).holds op (affinity env a) (eval env b) (affinity env b))
  | same a b negated =>
    .ofTruth (negateIf negated
      (some (sameCells (eval env a) (affinity env a) (eval env b) (affinity env b))))
  | isTruth a b negated =>
    .ofTruth (negateIf negated (some ((eval env a).toTruth == some b)))
  | minus a => negateNumber (eval env a)
  | lower a => mapText Char.toLower (eval env a)
  | upper a => mapText Char.toUpper (eval env a)
  | like a pattern none negated =>
    .ofTruth (negateIf negated (likeCells (eval env a) (eval env pattern) none))
  | like a pattern (some escape) negated =>
    .ofTruth (negateIf negated
      (likeCells (eval env a) (eval env pattern) (some (eval env escape))))
  | between a low high negated =>
    let x := eval env a
    let aff := affinity env a
    .ofTruth (negateIf negated
      (Truth.and (x.holds .ge aff (eval env low) (affinity env low))
        (x.holds .le aff (eval env high) (affinity env high))))
  | among a items negated =>
    .ofTruth (negateIf negated
      (Truth.any ((evalAll env items).map fun c => (eval env a).holds .eq (affinity env a) c .none)))
  | not a => .ofTruth (eval env a).toTruth.not
  | and a b => .ofTruth ((eval env a).toTruth.and (eval env b).toTruth)
  | or a b => .ofTruth ((eval env a).toTruth.or (eval env b).toTruth)

def evalAll (env : Env) : List Expression → List Cell
  | [] => []
  | e :: es => eval env e :: evalAll env es

end

end Expression

end Chronicle
