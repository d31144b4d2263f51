import Chronicle.Decimal.Numeral
import Chronicle.Decimal.Shortest
import Chronicle.Statement.Basic
import Chronicle.Text.Blank
import Chronicle.Value

/-!
# Cells

What the store keeps in one place of a table, and how cells compare.

* `Cell.compare`: the order of all cells: nothing, then numbers, then texts;
* `Affinity`: the form that a column prefers for its cells, and into which it turns others;
* `Truth`: truth values of conditions, which may be unknown;
* `Cell.holds`: comparisons, unknown if a side is missing.
-/

namespace Chronicle

open Chronicle.Calendar Chronicle.Decimal Chronicle.Text

/-- A cell.  Moments are kept as what a clock in UTC shows, in a text of fixed width. -/
inductive Cell
  | null
  | int (i : Int)
  | real (x : Binary64)
  | text (s : String)
  | instant (i : Instant)
  deriving DecidableEq, Repr, Inhabited

namespace Cell

def isNull : Cell → Bool
  | null => true
  | _ => false

/-- The text that a cell is or would be. -/
def asText : Cell → String
  | null => ""
  | int i => toString i
  | real x => x.storedText
  | text s => s
  | instant i => i.moment.storedText

/-- Cells of different classes are ordered by their class. -/
def rank : Cell → Nat
  | null => 0
  | int _ | real _ => 1
  | text _ | instant _ => 2

def orderOf {α : Type} [LT α] [DecidableLT α] [DecidableEq α] (a b : α) : Ordering :=
  if a < b then .lt else if a = b then .eq else .gt

/-- The order of cells.  Texts are ordered by their characters, and moments as the texts they are
kept in. -/
def compare : Cell → Cell → Ordering
  | int a, int b => orderOf a b
  | int a, real b => ((b.compareInt? a).map Ordering.swap).getD .eq
  | real a, int b => (a.compareInt? b).getD .eq
  | real a, real b => (a.compare? b).getD .eq
  | instant a, instant b => orderOf a.micros b.micros
  | a, b =>
    if a.rank = b.rank then
      if a.rank = 2 then orderOf a.asText b.asText else .eq
    else orderOf a.rank b.rank

end Cell

/-! ## Affinity -/

/-- What a column turns its cells into, and what they are compared with. -/
inductive Affinity
  | numeric
  | text
  | none
  deriving DecidableEq, Repr, Inhabited

namespace ColumnType

def affinity : ColumnType → Affinity
  | integer | boolean | instant => .numeric
  | text => .text

end ColumnType

namespace Cell

/-- The whole numbers that the store has room for. -/
def isStorable (i : Int) : Bool := -9223372036854775808 ≤ i && i ≤ 9223372036854775807

/-- A number as a cell: a whole one if it has no fraction. -/
def ofReal (x : Binary64) : Cell :=
  match x.toInt? with
  | some i => if isStorable i then .int i else .real x
  | none => .real x

/-- The number that a text is, blanks around it aside; any other text stays a text. -/
def numberOfText (s : String) : Cell :=
  match Numeral.ofChars? (trimBlanks s.toList) with
  | some n => if n.plain && isStorable n.toInt then .int n.toInt else ofReal n.toBinary64
  | none => .text s

/-- A cell in the form that an affinity prefers. -/
def under (c : Cell) : Affinity → Cell
  | .numeric =>
    match c with
    | real x => ofReal x
    | text s => numberOfText s
    | c => c
  | .text =>
    match c with
    | int i => .text (toString i)
    | real x => .text x.storedText
    | c => c
  | .none => c

/-- The affinity under which two sides are compared: numeric if one side is, that of text if one
side is a column of text and the other no column. -/
def shared (a b : Affinity) : Affinity :=
  match a, b with
  | .numeric, _ | _, .numeric => .numeric
  | .text, .none | .none, .text => .text
  | _, _ => .none

end Cell

/-! ## Truth -/

/-- A truth value; `none` is unknown. -/
abbrev Truth := Option Bool

namespace Truth

def unknown : Truth := none

def not (t : Truth) : Truth := t.map (!·)

def and : Truth → Truth → Truth
  | some false, _ | _, some false => some false
  | some true, t => t
  | none, _ => none

def or : Truth → Truth → Truth
  | some true, _ | _, some true => some true
  | some false, t => t
  | none, _ => none

def all (ts : List Truth) : Truth := ts.foldr and (some true)
def any (ts : List Truth) : Truth := ts.foldr or (some false)

theorem all_eq_true_iff (ts : List Truth) : all ts = some true ↔ ∀ t ∈ ts, t = some true := by
  induction ts with
  | nil => simp [all]
  | cons t ts ih =>
    have : all (t :: ts) = and t (all ts) := rfl
    rw [this, List.forall_mem_cons, ← ih]
    rcases t with _ | _ | _ <;> rcases all ts with _ | _ | _ <;> simp [and]

theorem any_eq_true_iff (ts : List Truth) : any ts = some true ↔ ∃ t ∈ ts, t = some true := by
  induction ts with
  | nil => simp [any]
  | cons t ts ih =>
    have : any (t :: ts) = or t (any ts) := rfl
    simp only [this, List.mem_cons, exists_eq_or_imp, ← ih]
    rcases t with _ | _ | _ <;> rcases any ts with _ | _ | _ <;> simp [or]

theorem not_not (t : Truth) : t.not.not = t := by rcases t with _ | _ | _ <;> rfl

theorem and_comm (s t : Truth) : s.and t = t.and s := by
  rcases s with _ | _ | _ <;> rcases t with _ | _ | _ <;> rfl

theorem not_and (s t : Truth) : (s.and t).not = s.not.or t.not := by
  rcases s with _ | _ | _ <;> rcases t with _ | _ | _ <;> rfl

end Truth

namespace Cell

/-- A truth value as a cell. -/
def ofTruth : Truth → Cell
  | none => .null
  | some b => .int (Scalar.ofBool b)

/-- The number at the beginning of a text; zero if there is none. -/
def leadingNumber (s : String) : Binary64 :=
  match Numeral.take (s.toList.dropWhile isBlank) with
  | some (n, _) => n.toBinary64
  | none => .zero

/-- The truth value that a cell has as a condition: numbers other than zero are true. -/
def toTruth : Cell → Truth
  | null => none
  | int i => some (i != 0)
  | real x => some (!x.isZero)
  | text s => some (!(leadingNumber s).isZero)
  | instant i => some (!(leadingNumber (Cell.instant i).asText).isZero)

/-- Whether an order is one that a comparison asks for. -/
def fits (op : Relator) (o : Ordering) : Bool :=
  match op with
  | .eq => o == .eq
  | .ne => o != .eq
  | .lt => o == .lt
  | .le => o != .gt
  | .gt => o == .gt
  | .ge => o != .lt

/-- A comparison of two cells with the affinities of their sides. -/
def holds (op : Relator) (a : Cell) (aff : Affinity) (b : Cell) (aff' : Affinity) : Truth :=
  if a.isNull || b.isNull then .unknown
  else
    let aff := shared aff aff'
    some (fits op ((a.under aff).compare (b.under aff)))

theorem holds_null_left (op : Relator) (aff : Affinity) (b : Cell) (aff' : Affinity) :
    holds op .null aff b aff' = none := rfl

theorem holds_negate (op : Relator) (a : Cell) (aff : Affinity) (b : Cell) (aff' : Affinity) :
    holds op.negate a aff b aff' = (holds op a aff b aff').not := by
  unfold holds
  split
  · rfl
  · simp only [Truth.not, Option.map_some]
    cases op <;>
      cases (a.under (shared aff aff')).compare (b.under (shared aff aff')) <;> rfl

end Cell

end Chronicle
