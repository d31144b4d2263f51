import Chronicle.Statement.Shared
import Chronicle.Statement.Text
import Chronicle.Store.Database
import Chronicle.Store.Expression.Reader

/-!
# Answers of the store

What a statement answers on the rows of the store: the rows of its relations are put together, those
for which its conditions hold are kept, put in order, cut off, and reduced to the columns asked for.

* `Clause.truth`: a condition where the rows of its relations are known;
* `Select.matching`: the rows that a statement keeps;
* `Select.check`: whether the store takes a statement at all;
* `Query.run`: the answer to a query.

Text given as a condition is read together with the conditions next to it, so the operators in it
bind as if all had been written as one.
-/

namespace Chronicle

open Chronicle.Calendar

/-! ## Parts of conditions -/

namespace SourceColumn

def affinity (c : SourceColumn) : Affinity := c.column.type.affinity

/-- The cell of a column, found by the name of its relation. -/
def cell (env : Env) (c : SourceColumn) : Cell :=
  match env.find (some c.source.name) c.column.name with
  | .found _ x => x
  | _ => .null

def isKnown (env : Env) (c : SourceColumn) : Bool :=
  match env.find (some c.source.name) c.column.name with
  | .found _ _ => true
  | _ => false

end SourceColumn

namespace Source

def relation (s : Source) (r : Row) : Relation := ⟨s.name, s.table, r⟩

end Source

/-- The cell of a value that a column is compared with. -/
def comparedCell (c : SourceColumn) (s : Scalar) : Cell :=
  ((Binding.ofColumn c.column.type s).bind (.scalar s)).toCell

/-- The cells of a list that a column is compared with; the first one says how they are bound. -/
def listedBounds (c : SourceColumn) (vs : List Scalar) : List Bound :=
  let binding := Binding.ofColumn c.column.type (vs.headD .null)
  vs.map fun v => binding.bind (.scalar v)

namespace Term

def cell (env : Env) (c : SourceColumn) : Term → Cell
  | column d => d.cell env
  | value s => comparedCell c s
  | truth b => .int (Scalar.ofBool b)

def affinity : Term → Affinity
  | column d => d.affinity
  | _ => .none

end Term

namespace RawFragment

/-- A parameter as it is bound, if it has a value. -/
def bound? (r : RawFragment) (name : String) : Option Bound :=
  (r.params.lookup name).map fun v => (Binding.ofValue v).bind v

def lexemes (r : RawFragment) : Except Failure (List Lexeme) :=
  Lexeme.ofPieces (fun n => ((r.bound? n).map Bound.toCell).getD .null) (Fragment.pieces r.sql)

def isEmpty (r : RawFragment) : Bool := (Fragment.pieces r.sql).isEmpty

def expression? (r : RawFragment) : Except Failure Expression := do
  match Expression.ofLexemes? (← r.lexemes) with
  | some e => return e
  | none => throw .rejectedStatement

/-- The cell that a text has as an expression. -/
def cell (env : Env) (r : RawFragment) : Cell :=
  match r.expression? with
  | .ok e => e.eval env
  | .error _ => .null

end RawFragment

namespace Clause

/-- Nothing is written for the condition. -/
def isBlank : Clause → Bool
  | raw r => r.isEmpty
  | parts _ cs => areBlank cs
  | _ => false
where
  areBlank : List Clause → Bool
    | [] => true
    | c :: cs => isBlank c && areBlank cs

def isRaw : Clause → Bool
  | raw _ => true
  | _ => false

def word : Conjunction → String
  | .and => "AND"
  | .or => "OR"

/-- The lexemes of a condition among others; only text is not understood on its own. -/
def partLexemes : Clause × Truth → Except Failure (List Lexeme)
  | (raw r, _) => r.lexemes
  | (_, t) => .ok [.settled t]

/-- Conditions next to each other as one expression. -/
def joinedExpression (op : Conjunction) (cs : List (Clause × Truth)) :
    Except Failure Expression := do
  let groups ← cs.mapM partLexemes
  let between := groups.intersperse [.name false (word op)]
  match Expression.ofLexemes? between.flatten with
  | some e => return e
  | none => throw .rejectedStatement

/-- The truth of conditions joined by a conjunction; those for which nothing is written do not
count. -/
def joinedTruth (env : Env) (op : Conjunction) (cs : List (Clause × Truth)) : Truth :=
  let written := cs.filter fun (c, _) => !c.isBlank
  if written.any fun (c, _) => c.isRaw then
    match joinedExpression op written with
    | .ok e => (e.eval env).toTruth
    | .error _ => .unknown
  else
    match op with
    | .and => .all (written.map (·.2))
    | .or => .any (written.map (·.2))

end Clause

/-- The last version in a journal that was recorded at an instant or before, for the entity of an
entry. -/
def lastVersion (rows : List Row) (entry : Row) (i : Instant) : Cell :=
  let before := rows.filter fun r =>
    (r.cell "entity_type").holds .eq .text (entry.cell "entity_type") .text == some true &&
      (r.cell "entity_id").holds .eq .numeric (entry.cell "entity_id") .numeric == some true &&
      (r.cell "recorded_at").holds .le .numeric (.instant i) .none == some true
  (before.map fun r => r.cell "version").foldl
    (fun m c => if c.isNull || (!m.isNull && m.compare c != .lt) then m else c) .null

/-- An entry is the one that holds at an instant for a payload row. -/
def validAtTruth (env : Env) (rows : List Row) (journals data : Source) (entityType : String)
    (i : Instant) : Truth :=
  let entryCell (name : String) : Cell :=
    match env.find (some journals.name) name with
    | .found _ x => x
    | _ => .null
  let dataId : Cell :=
    match env.find (some data.name) "id" with
    | .found _ x => x
    | _ => .null
  let entry : Row := journals.table.columns.map fun c => (c.name, entryCell c.name)
  .all [
    (entryCell "entity_type").holds .eq .text (.text entityType) .none,
    (entryCell "data_id").holds .eq .numeric dataId .numeric,
    (entryCell "recorded_at").holds .le .numeric (.instant i) .none,
    (entryCell "version").holds .eq .numeric (lastVersion rows entry i) .none]

namespace OrderExpr

def cell (env : Env) : OrderExpr → Cell
  | column c => c.cell env
  | raw r => r.cell env

end OrderExpr

namespace OutputColumn

def cell (env : Env) : OutputColumn → Cell
  | column c _ => c.cell env
  | constant v _ => ((Binding.ofValue (.scalar v)).bind (.scalar v)).toCell

def affinity : OutputColumn → Affinity
  | column c _ => c.affinity
  | constant _ _ => .none

/-- What a column of the answer holds.  A constant moment has lost its offset. -/
def scalar (env : Env) : OutputColumn → Scalar
  | column c _ => (c.cell env).toScalar c.column.type
  | constant (.moment m) _ => .moment { m with offset := none }
  | constant (.float .nan) _ => .null
  | constant v _ => v

end OutputColumn

/-! ## Order and number of rows -/

/-- The order of two rows by their keys, of which some count downwards. -/
def compareKeys : List (Cell × Cell × Bool) → Ordering
  | [] => .eq
  | (a, b, descending) :: rest =>
    match a.compare b with
    | .eq => compareKeys rest
    | o => if descending then o.swap else o

def inOrder (orders : List (OrderExpr × Bool)) (outer : Env) (a b : List Relation) : Bool :=
  compareKeys (orders.map fun (e, descending) =>
    (e.cell (a :: outer), e.cell (b :: outer), descending)) != .gt

/-- Sorts rows that are equal in order as they came. -/
def sortRows (orders : List (OrderExpr × Bool)) (outer : Env) (rs : List (List Relation)) :
    List (List Relation) :=
  if orders.isEmpty then rs else rs.mergeSort (inOrder orders outer)

/-- The first rows; a negative number is no limit. -/
def limitRows {α : Type} (limit : Option Int) (rs : List α) : List α :=
  match limit with
  | some (.ofNat n) => rs.take n
  | _ => rs

/-! ## Evaluation -/

mutual

def Clause.truth (db : Database) (env : Env) : Clause → Truth
  | .compare op c t => (c.cell env).holds op c.affinity (t.cell env c) t.affinity
  | .isNull c negated => some ((c.cell env).isNull != negated)
  | .amongValues c vs negated =>
    Expression.negateIf negated (.any ((listedBounds c vs).map fun b =>
      (c.cell env).holds .eq c.affinity b.toCell .none))
  | .amongRows c q negated =>
    Expression.negateIf negated (.any ((q.firstCells db env).map fun (x, aff) =>
      (c.cell env).holds .eq c.affinity x aff))
  | .raw r => (r.cell env).toTruth
  | .parts op cs => Clause.joinedTruth env op (cs.zip (Clause.truths db env cs))
  | .group c => c.truth db env
  | .truthOf c negated => Expression.negateIf negated (c.truth db env)
  | .inverse c => (c.truth db env).not
  | .hasRows q => some (!(q.matching db env).isEmpty)
  | .validAt journals data kind i =>
    validAtTruth env (db.tableRows Schema.journals) journals data kind i

def Clause.truths (db : Database) (env : Env) : List Clause → List Truth
  | [] => []
  | c :: cs => c.truth db env :: Clause.truths db env cs

/-- Adds the rows of the joins to those of the relations before them. -/
def JoinedSource.extend (db : Database) (outer : Env) :
    List JoinedSource → List (List Relation) → List (List Relation)
  | [], rs => rs
  | .mk source on keepsAll :: js, rs =>
    JoinedSource.extend db outer js (rs.flatMap fun r =>
      let joined := (db.tableRows source.table).filterMap fun row =>
        let r := r ++ [source.relation row]
        if on.truth db (r :: outer) == some true then some r else none
      if joined.isEmpty && keepsAll then [r ++ [source.relation []]] else joined)

/-- The rows of its relations that a statement keeps, in their order. -/
def Select.matching (db : Database) (outer : Env) : Select → List (List Relation)
  | ⟨_, base, joins, conditions, orders, limit⟩ =>
    let joined := JoinedSource.extend db outer joins
      ((db.tableRows base.table).map fun row => [base.relation row])
    let kept := joined.filter fun r =>
      Clause.joinedTruth (r :: outer) .and
        (conditions.zip (Clause.truths db (r :: outer) conditions)) == some true
    limitRows limit (sortRows orders outer kept)

/-- The first column of the answer, with the affinity of its cells. -/
def Select.firstCells (db : Database) (outer : Env) : Select → List (Cell × Affinity)
  | ⟨columns, base, joins, conditions, orders, limit⟩ =>
    let joined := JoinedSource.extend db outer joins
      ((db.tableRows base.table).map fun row => [base.relation row])
    let kept := joined.filter fun r =>
      Clause.joinedTruth (r :: outer) .and
        (conditions.zip (Clause.truths db (r :: outer) conditions)) == some true
    (limitRows limit (sortRows orders outer kept)).filterMap fun r =>
      columns.head?.map fun c => (c.cell (r :: outer), c.affinity)

end

/-! ## What the store takes -/

/-- The values in a statement in the order in which they are written; `none` is a parameter without
a value. -/
abbrev Slots := List (Option Bound)

namespace RawFragment

def slots (r : RawFragment) : Slots := (Fragment.paramNames r.sql).map r.bound?

end RawFragment

mutual

def Clause.slots : Clause → Slots
  | .compare _ c (.value s) => [some ((Binding.ofColumn c.column.type s).bind (.scalar s))]
  | .amongValues c vs _ => (listedBounds c vs).map some
  | .amongRows _ q _ => q.slots
  | .raw r => r.slots
  | .parts _ cs => Clause.allSlots cs
  | .group c => c.slots
  | .truthOf c _ => c.slots
  | .inverse c => c.slots
  | .hasRows q => q.slots
  | _ => []

def Clause.allSlots : List Clause → Slots
  | [] => []
  | c :: cs => c.slots ++ Clause.allSlots cs

def JoinedSource.slots : List JoinedSource → Slots
  | [] => []
  | .mk _ on _ :: js => on.slots ++ JoinedSource.slots js

def Select.slots : Select → Slots
  | ⟨columns, _, joins, conditions, orders, limit⟩ =>
    (columns.filterMap fun c => match c with
      | .constant v _ => some (some ((Binding.ofValue (.scalar v)).bind (.scalar v)))
      | .column _ _ => none) ++
    JoinedSource.slots joins ++ Clause.allSlots conditions ++
    (orders.flatMap fun (e, _) => match e with
      | .raw r => r.slots
      | .column _ => []) ++
    (limit.map fun n => some (Binding.plain.bind (.int n))).toList

end

namespace Slots

/-- Every parameter has a value. -/
def values (slots : Slots) : Except Failure (List Bound) :=
  slots.mapM fun s => match s with
    | some b => .ok b
    | none => .error (.cannotBind .parameterWithoutValue)

end Slots

/-- Something that has to hold of a statement. -/
def requires (b : Bool) : Except Failure Unit :=
  if b then .ok () else .error .rejectedStatement

/-- The relations of a statement without rows. -/
def emptyRelations (sources : List Source) : List Relation := sources.map fun s => s.relation []

def checkExpression (env : Env) (e : Except Failure Expression) : Except Failure Unit := do
  requires ((← e).isResolved env)

/-- Conditions next to each other can be read. -/
def checkJoined (env : Env) (op : Conjunction) (cs : List Clause) : Except Failure Unit :=
  let written := cs.filter fun c => !c.isBlank
  if written.any Clause.isRaw then
    checkExpression env (Clause.joinedExpression op (written.map fun c => (c, Truth.unknown)))
  else .ok ()

mutual

def Clause.check (env : Env) : Clause → Except Failure Unit
  | .compare _ c (.column d) => requires (c.isKnown env && d.isKnown env)
  | .compare _ c _ | .isNull c _ | .amongValues c _ _ => requires (c.isKnown env)
  | .amongRows c q _ => do
    requires (c.isKnown env && q.columns.length == 1)
    q.check env
  | .raw r => if r.isEmpty then .ok () else checkExpression env r.expression?
  | .parts op cs => do
    checkJoined env op cs
    Clause.checkAll env cs
  | .group c => do
    requires (!c.isBlank)
    c.check env
  | .truthOf c _ => do
    requires (!c.isBlank)
    c.check env
  | .inverse c => do
    requires (!c.isBlank)
    c.check env
  | .hasRows q => q.check env
  | .validAt journals data _ _ =>
    requires ((journals.columns.all fun c => c.isKnown env) &&
      (data.columns.filter fun c => c.column.name == "id").all fun c => c.isKnown env)

/-- The conditions in a list one by one; text among them is read with the others. -/
def Clause.checkAll (env : Env) : List Clause → Except Failure Unit
  | [] => .ok ()
  | .raw _ :: cs => Clause.checkAll env cs
  | c :: cs => do
    c.check env
    Clause.checkAll env cs

/-- The conditions of joins, which see all relations by name but refer only to those before. -/
def JoinedSource.check (all : List Relation) (outer : Env) :
    List Source → List JoinedSource → Except Failure Unit
  | _, [] => .ok ()
  | before, .mk source on _ :: js => do
    requires (!on.isBlank)
    on.check (all :: outer)
    on.check (emptyRelations (before ++ [source]) :: outer)
    JoinedSource.check all outer (before ++ [source]) js

def Select.check (outer : Env) : Select → Except Failure Unit
  | ⟨columns, base, joins, conditions, orders, _⟩ => do
    let all := emptyRelations (base :: joins.map JoinedSource.source)
    let env := all :: outer
    requires (columns.all fun c => match c with
      | .column sc _ => sc.isKnown env
      | .constant _ _ => true)
    JoinedSource.check all outer [base] joins
    checkJoined env .and conditions
    Clause.checkAll env conditions
    orders.forM fun (e, _) => match e with
      | .column c => requires (c.isKnown env)
      | .raw r => checkExpression env r.expression?

end

/-! ## Answers -/

namespace Select

/-- The names of the columns of an answer. -/
def names (s : Select) : Except Failure (List String) :=
  ((writeColumns 0 Labels.empty s.columns).run Naming.empty).map fun (cs, _) => cs.map (·.2)

/-- The store takes a statement if it can be written, its values can be bound, its names mean
something, and there is room for its values. -/
def checkAll (s : Select) : Except Failure Unit := do
  let _ ← s.render
  let bounds ← s.slots.values
  Bound.check (bounds.filter fun b => match b with
    | .refused _ => false
    | _ => true)
  s.check []
  Bound.check bounds

def answer (s : Select) (db : Database) : Except Failure (List (List (String × Scalar))) := do
  s.checkAll
  let names ← s.names
  let rows := s.matching db []
  if !rows.isEmpty && names.eraseDups.length != names.length then throw .ambiguousColumn
  return rows.map fun r => names.zip (s.columns.map fun c => c.scalar [r])

end Select

namespace Query

/-- The rows of the answer to a query. -/
def run (q : Query) : Action (List (List (String × Scalar))) := do
  let s ← liftM q.compile
  Action.openCore
  Action.read s.shared.answer

/-- The values in the column `id` of an answer, each once. -/
def runIds (q : Query) : Action (List Scalar) := do
  let rows ← q.run
  let ids ← rows.mapM fun r => match r.lookup "id" with
    | some v => pure v
    | none => throw .missingItem
  return ids.eraseDups

end Query

end Chronicle
