import Chronicle.Query.OfRecord

/-!
# Proper queries

A query is proper when nothing foreign stands in the place of a condition or a projection.  Proper
queries are those that plain data can describe.

* `Query.survivesRecord`: whether a query comes back the same from plain data.
-/

namespace Chronicle

open Chronicle.Record

namespace Projection

def isProper : Projection → Bool
  | foreign _ => false
  | _ => true

end Projection

mutual

def Predicate.isProper : Predicate → Bool
  | .membership _ _ (some q) _ => q.isProper
  | .grouping ps _ => Predicate.areProper ps
  | .negation p => p.isProper
  | .existence q _ => q.isProper
  | .foreign _ => false
  | _ => true

def Predicate.areProper : List Predicate → Bool
  | [] => true
  | p :: ps => p.isProper && Predicate.areProper ps

def Join.isProper : Join → Bool
  | .table _ _ on _ => Predicate.areProper on
  | .asOf _ _ _ => true

def Join.areProper : List Join → Bool
  | [] => true
  | j :: js => j.isProper && Join.areProper js

def Query.isProper : Query → Bool
  | ⟨_, joins, conditions, projections, _, _, _, _⟩ =>
    Join.areProper joins && Predicate.areProper conditions && projections.all Projection.isProper

end

theorem Predicate.areProper_iff (ps : List Predicate) :
    Predicate.areProper ps = true ↔ ∀ p ∈ ps, p.isProper = true := by
  induction ps with
  | nil => simp [Predicate.areProper]
  | cons p ps ih => simp [Predicate.areProper, ih]

theorem Join.areProper_iff (js : List Join) :
    Join.areProper js = true ↔ ∀ j ∈ js, j.isProper = true := by
  induction js with
  | nil => simp [Join.areProper]
  | cons j js ih => simp [Join.areProper, ih]

namespace Query

/-- Whether reading the record of a query gives the query again. -/
def survivesRecord (q : Query) : Checked Bool :=
  (ofRecord q.toRecord).map fun r => q.isProper && r.toRecord.agrees q.toRecord

end Query

end Chronicle
