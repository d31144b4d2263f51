import Chronicle.Kind
import Chronicle.Query.Basic
import Chronicle.Text.Word

/-!
# Reading a query as of a timestamp

A query on the live table of a kind becomes a query on the journal of that kind.  Per entity the
one entry that was valid at the time is joined, and with it the live table for the time of
creation, which no payload has; entities without an entry at that time drop out.

* `Substitution.column`: where a column of the live table is found in the journal;
* `Substitution.predicate`: the columns of a condition replaced, where all of its parts have a
  counterpart in the journal;
* `Substitution.rawText`: the same in the text of a condition written in SQL;
* `Query.asOfTimestamp`: the whole query.
-/

namespace Chronicle

open Chronicle.Calendar Chronicle.Text

/-! ## Replacing names in text -/

/-- A piece of text to be replaced. -/
structure TextRule where
  pattern : List Char
  replacement : List Char
  /-- Not at the tail of an identifier, nor after a point or a quote. -/
  atStart : Bool
  /-- Not at the head of a longer identifier. -/
  atEnd : Bool
  deriving Repr

namespace TextRule

def opens : Option Char → Bool
  | none => true
  | some c => !(isWord c || c == '.' || c == '"')

def closes : Option Char → Bool
  | none => true
  | some c => !isWord c

/-- Whether the rule applies at the start of `cs`, after the character `before`. -/
def applies (r : TextRule) (before : Option Char) (cs : List Char) : Bool :=
  r.pattern.isPrefixOf cs && (!r.atStart || opens before) &&
    (!r.atEnd || closes (cs.drop r.pattern.length).head?)

/-- All occurrences from left to right; `skip` characters belong to one that has been replaced. -/
def replaceFrom (r : TextRule) : Option Char → Nat → List Char → List Char
  | _, _, [] => []
  | _, skip + 1, c :: cs => replaceFrom r (some c) skip cs
  | before, 0, c :: cs =>
    if r.applies before (c :: cs) then
      r.replacement ++ replaceFrom r (some c) (r.pattern.length - 1) cs
    else c :: replaceFrom r (some c) 0 cs

def replaceAll (r : TextRule) (cs : List Char) : List Char := r.replaceFrom none 0 cs

/-- Rules one after another. -/
def replaceEach (rules : List TextRule) (cs : List Char) : List Char :=
  rules.foldl (fun cs r => r.replaceAll cs) cs

theorem replaceAll_nil (r : TextRule) : r.replaceAll [] = [] := rfl

theorem replaceEach_append (rs ss : List TextRule) (cs : List Char) :
    replaceEach (rs ++ ss) cs = replaceEach ss (replaceEach rs cs) := by
  simp [replaceEach]

end TextRule

/-! ## Columns -/

/-- A kind whose live table is read as of an instant. -/
structure Substitution where
  kind : Kind
  timestamp : Timestamp
  instant : Instant
  deriving Repr

namespace Substitution

def build (kind : Kind) (timestamp : Timestamp) (moment : Option Moment) (clock : Instant) :
    Except Failure Substitution :=
  (timestamp.resolveAt moment clock).map fun i => ⟨kind, timestamp, i⟩

/-- The live table and the journal of the kind. -/
def isOwnTable (s : Substitution) (table : String) : Bool :=
  table == s.kind.table.name || table == s.kind.journal.name

def journalColumn (name : String) : ColumnRef := ⟨Kind.journalsName, name⟩

def liveColumn (name : String) : ColumnRef := ⟨Kind.journablesAlias, name⟩

/-- Where a column is found: the id and the time of the last change in the table of journals, the
time of creation in the live table, all else in the payload. -/
def column (s : Substitution) (ref : ColumnRef) : ColumnRef :=
  if !s.isOwnTable ref.table then ref
  else if ref.name == "id" then journalColumn "entity_id"
  else if ref.name == "created_at" then liveColumn "created_at"
  else if ref.name == "updated_at" then journalColumn "recorded_at"
  else ⟨s.kind.journal.name, ref.name⟩

theorem column_of_other (s : Substitution) (ref : ColumnRef) (h : s.isOwnTable ref.table = false) :
    s.column ref = ref := by
  simp [column, h]

def operand (s : Substitution) : Operand → Operand
  | .column ref => .column (s.column ref)
  | .value v => .value v

/-! ## Text -/

/-- The rules for one column: its bare and its quoted name. -/
def columnRules (table name : String) (target : ColumnRef) : List TextRule :=
  [⟨(table ++ "." ++ name).toList, target.qualifiedName.toList, true, true⟩,
    ⟨("\"" ++ table ++ "\".\"" ++ name ++ "\"").toList,
      ("\"" ++ target.table ++ "\".\"" ++ target.name ++ "\"").toList, false, false⟩]

/-- The special columns first, then whatever else is qualified by the live table. -/
def textRules (s : Substitution) : List TextRule :=
  let table := s.kind.table.name
  let journal := s.kind.journal.name
  columnRules table "updated_at" (journalColumn "recorded_at") ++
    columnRules table "created_at" (liveColumn "created_at") ++
    columnRules table "id" (journalColumn "entity_id") ++
    [⟨(table ++ ".").toList, (journal ++ ".").toList, true, false⟩,
      ⟨("\"" ++ table ++ "\".").toList, ("\"" ++ journal ++ "\".").toList, false, false⟩]

def rawText (s : Substitution) (sql : String) : String :=
  String.ofList (TextRule.replaceEach s.textRules sql.toList)

def raw (s : Substitution) (r : RawFragment) : RawFragment := { r with sql := s.rawText r.sql }

/-! ## Conditions -/

/-- Text may stand inside one grouping; deeper down it is refused. -/
def maxRawDepth : Int := 1

def rawTooDeep (depth : Int) : Failure :=
  .unsupportedPredicate "RawFragment" (some
    ("raw SQL nested " ++ toString depth ++ " groupings deep cannot be rewritten reliably"))

mutual

/-- A condition inside `depth` groupings with its columns replaced. -/
def predicate (s : Substitution) (depth : Int) : Predicate → Except Failure Predicate
  | .equality c v => .ok (.equality (s.column c) (s.operand v))
  | .notEqual c v => .ok (.notEqual (s.column c) (s.operand v))
  | .comparison c op v => .ok (.comparison (s.column c) op (s.operand v))
  | .membership c values subquery negated =>
    .ok (.membership (s.column c) values subquery negated)
  | .raw r => if maxRawDepth < depth then .error (rawTooDeep depth) else .ok (.raw (s.raw r))
  | .grouping ps conjunction => (s.predicates (depth + 1) ps).map (.grouping · conjunction)
  | p => .error (.unsupportedPredicate p.kindName none)

def predicates (s : Substitution) (depth : Int) : List Predicate → Except Failure (List Predicate)
  | [] => .ok []
  | p :: ps => do
    let p ← s.predicate depth p
    let ps ← s.predicates depth ps
    return p :: ps

end

def join (s : Substitution) : Join → Except Failure Join
  | .table name given on outer => (s.predicates 0 on).map (.table name given · outer)
  | j => .ok j

/-! ## Projections and orders -/

/-- The columns of an entity in the journal, under the names they have in the live table. -/
def entityColumns (s : Substitution) : List Projection :=
  s.kind.payload.map (fun name => .column ⟨s.kind.journal.name, name⟩ (some name)) ++
    [.column (journalColumn "entity_id") (some "id"),
      .column (liveColumn "created_at") (some "created_at"),
      .column (journalColumn "recorded_at") (some "updated_at")]

def isIdColumn (s : Substitution) : Projection → Bool
  | .column ref _ => ref.name == "id" && s.isOwnTable ref.table
  | _ => false

/-- A projection keeps the name that its column has without a label. -/
def projection (s : Substitution) : Projection → List Projection
  | .column ref label =>
    let name := match label with
      | some l => if l = "" then ref.name else l
      | none => ref.name
    [.column (s.column ref) (some name)]
  | .allColumns table => if s.isOwnTable table then s.entityColumns else [.allColumns table]
  | p => [p]

/-- Without projections the key of the timestamp and all columns of the entity; a single id stays
the id of the entity under its own name. -/
def projections (s : Substitution) (ps : List Projection) : List Projection :=
  match ps with
  | [] => .constant (.text s.timestamp.key) "timestamp" :: s.entityColumns
  | [.column ref label] =>
    if s.isIdColumn (.column ref label) then [.column (s.column ref) (some "id")]
    else s.projection (.column ref label)
  | ps => ps.flatMap s.projection

def orderTarget (s : Substitution) : OrderTarget → OrderTarget
  | .column ref => .column (s.column ref)
  | .raw r => .raw (s.raw r)

def order (s : Substitution) (o : OrderBy) : OrderBy := { o with target := s.orderTarget o.target }

/-! ## The whole query -/

/-- The entry that was valid at the instant. -/
def entryJoin (s : Substitution) : Join := .asOf s.kind.name s.kind.journal.name s.instant.moment

/-- The live row of the entry's entity. -/
def liveJoin (s : Substitution) : Join :=
  .table s.kind.table.name (some Kind.journablesAlias)
    [.equality (liveColumn "id") (.column (journalColumn "entity_id"))] false

/-- Joins on the journal come first, so that the others may refer to it. -/
def journalFirst (joins : List Join) : List Join :=
  joins.filter Join.isAsOf ++ joins.filter (!Join.isAsOf ·)

def query (s : Substitution) (q : Query) : Except Failure Query := do
  let conditions ← s.predicates 0 q.conditions
  let joins ← q.joins.mapM s.join
  return {
    table := s.kind.journal.name
    joins := journalFirst (joins ++ [s.entryJoin, s.liveJoin])
    conditions := conditions
    projections := s.projections q.projections
    orders := q.orders.map s.order
    limit := q.limit
    asOf := some s.timestamp.key
    readonly := true }

end Substitution

namespace Query

/-- The query as of a timestamp.  A relative one is seen from `moment`, or from the clock. -/
def asOfTimestamp (q : Query) (timestamp : Value) (moment : Option Moment) (clock : Instant) :
    Except Failure Query := do
  if let some key := q.asOf then throw (.alreadyHistoric key)
  match Kind.ofTable? q.table with
  | none => throw (.tableNotJournaled q.table)
  | some kind =>
    let timestamp ← timestamp.toTimestamp
    let s ← Substitution.build kind timestamp moment clock
    s.query q

end Query

end Chronicle
