import Chronicle.Proofs.Statement.Lookup

/-!
# Resolved statements

In a resolved statement every column belongs to a relation in view, and no text is left to be read.

* `Clause.Resolved`, `Select.Resolved`: conditions and statements of this form.
-/

namespace Chronicle

open Chronicle.Calendar

/-! ## Resolved conditions and statements -/

namespace Term

def Resolved (p : SourceColumn → Prop) : Term → Prop
  | column c => p c
  | _ => True

end Term

namespace OutputColumn

def Resolved (p : SourceColumn → Prop) : OutputColumn → Prop
  | column c _ => p c
  | constant _ _ => True

end OutputColumn

namespace OrderExpr

def Resolved (p : SourceColumn → Prop) : OrderExpr → Prop
  | column c => p c
  | raw _ => False

theorem Resolved.exists_column {p : SourceColumn → Prop} {e : OrderExpr} (h : e.Resolved p) :
    ∃ c, e = .column c := by
  cases e with
  | column c => exact ⟨c, rfl⟩
  | raw r => exact h.elim

end OrderExpr

mutual

/-- The columns of a condition have a property, its subqueries are resolved, and it has no text. -/
def Clause.Resolved (p : SourceColumn → Prop) : Clause → Prop
  | .compare _ c t => p c ∧ t.Resolved p
  | .isNull c _ => p c
  | .amongValues c _ _ => p c
  | .amongRows c q _ => p c ∧ q.Resolved
  | .raw _ => False
  | .parts _ cs => Clause.AllResolved p cs
  | .group c => c.Resolved p
  | .truthOf c _ => c.Resolved p
  | .inverse c => c.Resolved p
  | .hasRows q => q.Resolved
  | .validAt _ _ _ _ => False

def Clause.AllResolved (p : SourceColumn → Prop) : List Clause → Prop
  | [] => True
  | c :: cs => c.Resolved p ∧ Clause.AllResolved p cs

/-- Every join refers to the relations before it and to its own. -/
def JoinedSource.AllResolved (before : List Source) : List JoinedSource → Prop
  | [] => True
  | .mk source on _ :: js =>
    on.Resolved (SourceColumn.InView (before ++ [source])) ∧
      JoinedSource.AllResolved (before ++ [source]) js

def Select.Resolved : Select → Prop
  | ⟨columns, base, joins, conditions, orders, _⟩ =>
    JoinedSource.AllResolved [base] joins ∧
      Clause.AllResolved (SourceColumn.InView (base :: joins.map JoinedSource.source)) conditions ∧
      (∀ c ∈ columns, c.Resolved (SourceColumn.InView (base :: joins.map JoinedSource.source))) ∧
      ∀ o ∈ orders, o.1.Resolved (SourceColumn.InView (base :: joins.map JoinedSource.source))

end

theorem Clause.allResolved_iff {p : SourceColumn → Prop} {cs : List Clause} :
    Clause.AllResolved p cs ↔ ∀ c ∈ cs, c.Resolved p := by
  induction cs with
  | nil => simp [Clause.AllResolved]
  | cons c cs ih => simp [Clause.AllResolved, ih]

theorem Term.Resolved.imp {p q : SourceColumn → Prop} (hpq : ∀ c, p c → q c) {t : Term}
    (h : t.Resolved p) : t.Resolved q := by
  cases t with
  | column c => exact hpq c h
  | value s => trivial
  | truth b => trivial

mutual

theorem Clause.resolved_imp {p q : SourceColumn → Prop} (hpq : ∀ c, p c → q c) :
    ∀ c : Clause, c.Resolved p → c.Resolved q
  | .compare _ c _, h => ⟨hpq c h.1, h.2.imp hpq⟩
  | .isNull c _, h => hpq c h
  | .amongValues c _ _, h => hpq c h
  | .amongRows c _ _, h => ⟨hpq c h.1, h.2⟩
  | .raw _, h => h
  | .parts _ cs, h => Clause.allResolved_imp hpq cs h
  | .group c, h => Clause.resolved_imp hpq c h
  | .truthOf c _, h => Clause.resolved_imp hpq c h
  | .inverse c, h => Clause.resolved_imp hpq c h
  | .hasRows _, h => h
  | .validAt _ _ _ _, h => h

theorem Clause.allResolved_imp {p q : SourceColumn → Prop} (hpq : ∀ c, p c → q c) :
    ∀ cs : List Clause, Clause.AllResolved p cs → Clause.AllResolved q cs
  | [], _ => trivial
  | c :: cs, h => ⟨Clause.resolved_imp hpq c h.1, Clause.allResolved_imp hpq cs h.2⟩

end

end Chronicle
