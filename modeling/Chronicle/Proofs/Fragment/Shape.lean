import Mathlib.Data.List.Forall2
import Chronicle.Store.Expression

/-!
# Expressions of one shape

The value of an expression depends on its literals and columns, its leaves.  Expressions of one shape
have the same value where their leaves do, each in its own statement.

* `Expression.leaves`: the literals and columns of an expression, from left to right;
* `Expression.Matches`: expressions of one shape whose leaves are related;
* `Expression.Matches.forall₂_leaves`, `Expression.Matches.of_leaves`: the relation, leaf by leaf;
* `Expression.Matches.eval_eq`: leaves of the same meaning make the same value.
-/

namespace Chronicle

namespace Expression

/-! ## Leaves -/

mutual

/-- The literals and columns of an expression, from left to right. -/
def leaves : Expression → List Expression
  | settled _ => []
  | literal c => [literal c]
  | column relation name isQuoted => [column relation name isQuoted]
  | compare _ a b | same a b _ | and a b | or a b => leaves a ++ leaves b
  | isTruth a _ _ | minus a | lower a | upper a | not a => leaves a
  | like a pattern none _ => leaves a ++ leaves pattern
  | like a pattern (some escape) _ => leaves a ++ (leaves pattern ++ leaves escape)
  | between a low high _ => leaves a ++ (leaves low ++ leaves high)
  | among a items _ => leaves a ++ leavesOf items

def leavesOf : List Expression → List Expression
  | [] => []
  | e :: es => leaves e ++ leavesOf es

end

mutual

/-- Every name means something if the leaves do. -/
theorem isResolved_eq (env : Env) : ∀ e : Expression,
    isResolved env e = (leaves e).all (isResolved env)
  | settled _ => rfl
  | literal _ => rfl
  | column relation name isQuoted => by rw [leaves, List.all_cons, List.all_nil, Bool.and_true]
  | compare _ a b => by
    rw [isResolved, isResolved_eq env a, isResolved_eq env b, leaves, List.all_append]
  | same a b _ => by
    rw [isResolved, isResolved_eq env a, isResolved_eq env b, leaves, List.all_append]
  | isTruth a _ _ => by rw [isResolved, isResolved_eq env a, leaves]
  | minus a => by rw [isResolved, isResolved_eq env a, leaves]
  | lower a => by rw [isResolved, isResolved_eq env a, leaves]
  | upper a => by rw [isResolved, isResolved_eq env a, leaves]
  | like a pattern none _ => by
    rw [isResolved, isResolved_eq env a, isResolved_eq env pattern, leaves, List.all_append]
  | like a pattern (some escape) _ => by
    rw [isResolved, isResolved_eq env a, isResolved_eq env pattern, isResolved_eq env escape, leaves,
      List.all_append, List.all_append, Bool.and_assoc]
  | between a low high _ => by
    rw [isResolved, isResolved_eq env a, isResolved_eq env low, isResolved_eq env high, leaves,
      List.all_append, List.all_append, Bool.and_assoc]
  | among a items _ => by
    rw [isResolved, isResolved_eq env a, areResolved_eq env items, leaves, List.all_append]
  | not a => by rw [isResolved, isResolved_eq env a, leaves]
  | and a b => by
    rw [isResolved, isResolved_eq env a, isResolved_eq env b, leaves, List.all_append]
  | or a b => by
    rw [isResolved, isResolved_eq env a, isResolved_eq env b, leaves, List.all_append]

theorem areResolved_eq (env : Env) : ∀ es : List Expression,
    areResolved env es = (leavesOf es).all (isResolved env)
  | [] => rfl
  | e :: es => by
    rw [areResolved, isResolved_eq env e, areResolved_eq env es, leavesOf, List.all_append]

end

/-- Expressions of one shape whose literals and columns are related. -/
inductive Matches (R : Expression → Expression → Prop) : Expression → Expression → Prop
  | settled (t : Truth) : Matches R (.settled t) (.settled t)
  | literal {c c' : Cell} : R (.literal c) (.literal c') → Matches R (.literal c) (.literal c')
  | column {r r' : Option String} {n n' : String} {q q' : Bool} :
      R (.column r n q) (.column r' n' q') → Matches R (.column r n q) (.column r' n' q')
  | compare (op : Relator) {a a' b b' : Expression} :
      Matches R a a' → Matches R b b' → Matches R (.compare op a b) (.compare op a' b')
  | same {a a' b b' : Expression} (negated : Bool) :
      Matches R a a' → Matches R b b' → Matches R (.same a b negated) (.same a' b' negated)
  | isTruth {a a' : Expression} (b negated : Bool) :
      Matches R a a' → Matches R (.isTruth a b negated) (.isTruth a' b negated)
  | minus {a a' : Expression} : Matches R a a' → Matches R (.minus a) (.minus a')
  | lower {a a' : Expression} : Matches R a a' → Matches R (.lower a) (.lower a')
  | upper {a a' : Expression} : Matches R a a' → Matches R (.upper a) (.upper a')
  | like {a a' p p' : Expression} (negated : Bool) : Matches R a a' → Matches R p p' →
      Matches R (.like a p none negated) (.like a' p' none negated)
  | likeEscape {a a' p p' e e' : Expression} (negated : Bool) :
      Matches R a a' → Matches R p p' → Matches R e e' →
      Matches R (.like a p (some e) negated) (.like a' p' (some e') negated)
  | between {a a' l l' h h' : Expression} (negated : Bool) :
      Matches R a a' → Matches R l l' → Matches R h h' →
      Matches R (.between a l h negated) (.between a' l' h' negated)
  | among {a a' : Expression} {es es' : List Expression} (negated : Bool) :
      Matches R a a' → List.Forall₂ (Matches R) es es' →
      Matches R (.among a es negated) (.among a' es' negated)
  | not {a a' : Expression} : Matches R a a' → Matches R (.not a) (.not a')
  | and {a a' b b' : Expression} :
      Matches R a a' → Matches R b b' → Matches R (.and a b) (.and a' b')
  | or {a a' b b' : Expression} :
      Matches R a a' → Matches R b b' → Matches R (.or a b) (.or a' b')


namespace Matches

variable {R S : Expression → Expression → Prop}

mutual

theorem forall₂_leaves : ∀ {e e' : Expression}, Matches R e e' → List.Forall₂ R e.leaves e'.leaves
  | _, _, .settled _ => .nil
  | _, _, .literal h => .cons h .nil
  | _, _, .column h => .cons h .nil
  | _, _, .compare _ ha hb => List.rel_append ha.forall₂_leaves hb.forall₂_leaves
  | _, _, .same _ ha hb => List.rel_append ha.forall₂_leaves hb.forall₂_leaves
  | _, _, .isTruth _ _ ha => ha.forall₂_leaves
  | _, _, .minus ha => ha.forall₂_leaves
  | _, _, .lower ha => ha.forall₂_leaves
  | _, _, .upper ha => ha.forall₂_leaves
  | _, _, .like _ ha hp => List.rel_append ha.forall₂_leaves hp.forall₂_leaves
  | _, _, .likeEscape _ ha hp he =>
    List.rel_append ha.forall₂_leaves (List.rel_append hp.forall₂_leaves he.forall₂_leaves)
  | _, _, .between _ ha hl hh =>
    List.rel_append ha.forall₂_leaves (List.rel_append hl.forall₂_leaves hh.forall₂_leaves)
  | _, _, .among _ ha hes => List.rel_append ha.forall₂_leaves (forall₂_leavesOf hes)
  | _, _, .not ha => ha.forall₂_leaves
  | _, _, .and ha hb => List.rel_append ha.forall₂_leaves hb.forall₂_leaves
  | _, _, .or ha hb => List.rel_append ha.forall₂_leaves hb.forall₂_leaves

theorem forall₂_leavesOf : ∀ {es es' : List Expression}, List.Forall₂ (Matches R) es es' →
    List.Forall₂ R (leavesOf es) (leavesOf es')
  | _, _, .nil => .nil
  | _, _, .cons h hes => List.rel_append h.forall₂_leaves (forall₂_leavesOf hes)

end

/-- What is related next to related lists is related in each of them. -/
theorem forall₂_of_append {as as' bs bs' : List Expression} (ha : List.Forall₂ R as as')
    (h : List.Forall₂ S (as ++ bs) (as' ++ bs')) : List.Forall₂ S as as' ∧ List.Forall₂ S bs bs' := by
  induction ha with
  | nil => exact ⟨.nil, h⟩
  | cons _ _ ih =>
    cases h with
    | cons hl h => exact ⟨.cons hl (ih h).1, (ih h).2⟩

mutual

/-- The leaves of expressions of one shape may be related in another way. -/
theorem of_leaves : ∀ {e e' : Expression}, Matches R e e' → List.Forall₂ S e.leaves e'.leaves →
    Matches S e e'
  | _, _, .settled t, _ => .settled t
  | _, _, .literal _, .cons h _ => .literal h
  | _, _, .column _, .cons h _ => .column h
  | _, _, .compare op ha hb, h =>
    have hs := forall₂_of_append ha.forall₂_leaves h
    .compare op (ha.of_leaves hs.1) (hb.of_leaves hs.2)
  | _, _, .same negated ha hb, h =>
    have hs := forall₂_of_append ha.forall₂_leaves h
    .same negated (ha.of_leaves hs.1) (hb.of_leaves hs.2)
  | _, _, .isTruth b negated ha, h => .isTruth b negated (ha.of_leaves h)
  | _, _, .minus ha, h => .minus (ha.of_leaves h)
  | _, _, .lower ha, h => .lower (ha.of_leaves h)
  | _, _, .upper ha, h => .upper (ha.of_leaves h)
  | _, _, .like negated ha hp, h =>
    have hs := forall₂_of_append ha.forall₂_leaves h
    .like negated (ha.of_leaves hs.1) (hp.of_leaves hs.2)
  | _, _, .likeEscape negated ha hp he, h =>
    have hs := forall₂_of_append ha.forall₂_leaves h
    have ht := forall₂_of_append hp.forall₂_leaves hs.2
    .likeEscape negated (ha.of_leaves hs.1) (hp.of_leaves ht.1) (he.of_leaves ht.2)
  | _, _, .between negated ha hl hh, h =>
    have hs := forall₂_of_append ha.forall₂_leaves h
    have ht := forall₂_of_append hl.forall₂_leaves hs.2
    .between negated (ha.of_leaves hs.1) (hl.of_leaves ht.1) (hh.of_leaves ht.2)
  | _, _, .among negated ha hes, h =>
    have hs := forall₂_of_append ha.forall₂_leaves h
    .among negated (ha.of_leaves hs.1) (items_of_leaves hes hs.2)
  | _, _, .not ha, h => .not (ha.of_leaves h)
  | _, _, .and ha hb, h =>
    have hs := forall₂_of_append ha.forall₂_leaves h
    .and (ha.of_leaves hs.1) (hb.of_leaves hs.2)
  | _, _, .or ha hb, h =>
    have hs := forall₂_of_append ha.forall₂_leaves h
    .or (ha.of_leaves hs.1) (hb.of_leaves hs.2)

theorem items_of_leaves : ∀ {es es' : List Expression}, List.Forall₂ (Matches R) es es' →
    List.Forall₂ S (leavesOf es) (leavesOf es') → List.Forall₂ (Matches S) es es'
  | _, _, .nil, _ => .nil
  | _, _, .cons he hes, h =>
    have hs := forall₂_of_append he.forall₂_leaves h
    .cons (he.of_leaves hs.1) (items_of_leaves hes hs.2)

end

end Matches

/-! ## Values -/

/-- Leaves with the same cell and the same affinity, each in its own statement. -/
structure MeansSame (env env' : Env) (l l' : Expression) : Prop where
  cell : l'.eval env' = l.eval env
  affinity : l'.affinity env' = l.affinity env

section Values

variable {env env' : Env}

theorem Matches.affinity_eq {e e' : Expression} (h : Matches (MeansSame env env') e e') :
    e'.affinity env' = e.affinity env := by
  cases h with
  | column h => exact h.affinity
  | _ => rfl

mutual

/-- Expressions of one shape have the same value where their leaves do. -/
theorem Matches.eval_eq : ∀ {e e' : Expression}, Matches (MeansSame env env') e e' →
    e'.eval env' = e.eval env
  | _, _, .settled _ => rfl
  | _, _, .literal h => h.cell
  | _, _, .column h => h.cell
  | _, _, .compare _ ha hb => by
    rw [eval, eval, ha.eval_eq, hb.eval_eq, ha.affinity_eq, hb.affinity_eq]
  | _, _, .same _ ha hb => by
    rw [eval, eval, ha.eval_eq, hb.eval_eq, ha.affinity_eq, hb.affinity_eq]
  | _, _, .isTruth _ _ ha => by rw [eval, eval, ha.eval_eq]
  | _, _, .minus ha => by rw [eval, eval, ha.eval_eq]
  | _, _, .lower ha => by rw [eval, eval, ha.eval_eq]
  | _, _, .upper ha => by rw [eval, eval, ha.eval_eq]
  | _, _, .like _ ha hp => by rw [eval, eval, ha.eval_eq, hp.eval_eq]
  | _, _, .likeEscape _ ha hp he => by rw [eval, eval, ha.eval_eq, hp.eval_eq, he.eval_eq]
  | _, _, .between _ ha hl hh => by
    rw [eval, eval, ha.eval_eq, hl.eval_eq, hh.eval_eq, ha.affinity_eq, hl.affinity_eq,
      hh.affinity_eq]
  | _, _, .among _ ha hes => by
    rw [eval, eval, ha.eval_eq, ha.affinity_eq, Matches.evalAll_eq hes]
  | _, _, .not ha => by rw [eval, eval, ha.eval_eq]
  | _, _, .and ha hb => by rw [eval, eval, ha.eval_eq, hb.eval_eq]
  | _, _, .or ha hb => by rw [eval, eval, ha.eval_eq, hb.eval_eq]

theorem Matches.evalAll_eq : ∀ {es es' : List Expression},
    List.Forall₂ (Matches (MeansSame env env')) es es' → evalAll env' es' = evalAll env es
  | _, _, .nil => rfl
  | _, _, .cons he hes => by rw [evalAll, evalAll, he.eval_eq, Matches.evalAll_eq hes]

end

end Values

end Expression

end Chronicle
