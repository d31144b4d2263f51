import Chronicle.Proofs.AsOf.Compiles

/-!
# What cannot be read as of a timestamp

Negations, subqueries that are asked for rows, things that are no conditions, and texts inside two
groupings or more have no counterpart in the journal.  A query that has one of them in its
conditions or in those of its joins is refused for the first one, from left to right and from the
outside in; every other query can be read as of every timestamp.

* `Predicate.Encloses`: a condition inside a number of groupings of another;
* `Predicate.nodes`: all of them in their order;
* `Refused`: an outcome that the first condition without a counterpart decides;
* `Substitution.refused_query`: the outcome for a whole query is one;
* `Query.asOf_refused_iff`: which queries are refused, and for what.
-/

namespace Chronicle

open Chronicle.Calendar

namespace Predicate

/-! ## Conditions inside conditions -/

/-- `a` is the condition itself, or is found in it inside `n` groupings. -/
inductive Encloses : Predicate → Nat → Predicate → Prop
  | itself (p : Predicate) : Encloses p 0 p
  | member {ps : List Predicate} {conjunction : Conjunction} {p a : Predicate} {n : Nat}
      (hp : p ∈ ps) (ha : Encloses p n a) : Encloses (.grouping ps conjunction) (n + 1) a

mutual

/-- The conditions in a condition that is inside `n` groupings, each with the number of groupings
around it. -/
def nodes (n : Nat) : Predicate → List (Nat × Predicate)
  | .grouping ps conjunction => (n, .grouping ps conjunction) :: allNodes (n + 1) ps
  | p => [(n, p)]

def allNodes (n : Nat) : List Predicate → List (Nat × Predicate)
  | [] => []
  | p :: ps => p.nodes n ++ allNodes n ps

end

theorem allNodes_eq_flatMap (n : Nat) (ps : List Predicate) :
    allNodes n ps = ps.flatMap (nodes n) := by
  induction ps with
  | nil => rw [allNodes, List.flatMap_nil]
  | cons p ps ih => rw [allNodes, List.flatMap_cons, ih]

/-- A condition that is no grouping encloses itself alone. -/
theorem mem_nodes_leaf_iff {p : Predicate} (hleaf : ∀ ps conjunction, p ≠ .grouping ps conjunction)
    {m n : Nat} {a : Predicate} : (m, a) ∈ p.nodes n ↔ ∃ k, p.Encloses k a ∧ m = n + k := by
  have hnodes : p.nodes n = [(n, p)] := by
    cases p with
    | grouping ps conjunction => exact absurd rfl (hleaf ps conjunction)
    | _ => rfl
  rw [hnodes, List.mem_singleton]
  constructor
  · intro h
    cases h
    exact ⟨0, .itself p, rfl⟩
  · rintro ⟨_, _ | _, rfl⟩
    · rfl
    · exact absurd rfl (hleaf _ _)

mutual

/-- What is found in a condition is what it encloses. -/
theorem mem_nodes_iff : ∀ (p : Predicate) {m n : Nat} {a : Predicate},
    (m, a) ∈ p.nodes n ↔ ∃ k, p.Encloses k a ∧ m = n + k
  | .grouping ps conjunction, m, n, a => by
    rw [nodes, List.mem_cons, mem_allNodes_iff ps]
    constructor
    · rintro (h | ⟨p, hp, k, ha, rfl⟩)
      · cases h
        exact ⟨0, .itself _, rfl⟩
      · exact ⟨k + 1, .member hp ha, by omega⟩
    · rintro ⟨_, _ | ⟨hp, ha⟩, rfl⟩
      · exact .inl rfl
      · exact .inr ⟨_, hp, _, ha, by omega⟩
  | .equality _ _, _, _, _ | .notEqual _ _, _, _, _ | .comparison _ _ _, _, _, _ |
    .membership _ _ _ _, _, _, _ | .raw _, _, _, _ | .negation _, _, _, _ |
    .existence _ _, _, _, _ | .foreign _, _, _, _ =>
    mem_nodes_leaf_iff (by nofun)

theorem mem_allNodes_iff : ∀ (ps : List Predicate) {m n : Nat} {a : Predicate},
    (m, a) ∈ allNodes n ps ↔ ∃ p ∈ ps, ∃ k, p.Encloses k a ∧ m = n + k
  | [], _, _, _ => by simp only [allNodes, List.not_mem_nil, false_and, exists_false]
  | p :: ps, m, n, a => by
    rw [allNodes, List.mem_append, mem_nodes_iff p, mem_allNodes_iff ps, List.exists_mem_cons_iff]

end

/-! ## Counterparts -/

/-- Whether a condition inside `n` groupings has no counterpart, whatever is inside of it. -/
def lacksCounterpart (n : Nat) : Predicate → Bool
  | .negation _ | .existence _ _ | .foreign _ => true
  | .raw _ => 2 ≤ n
  | .equality _ _ | .notEqual _ _ | .comparison _ _ _ | .membership _ _ _ _ | .grouping _ _ => false

/-- What is said of a condition without a counterpart beside its kind. -/
def refusalDetail (n : Nat) : Predicate → Option String
  | .raw _ => some
      ("raw SQL nested " ++ toString (n : Int) ++ " groupings deep cannot be rewritten reliably")
  | _ => none

/-- The refusal of a condition without a counterpart. -/
def refusal (n : Nat) (p : Predicate) : Failure :=
  .unsupportedPredicate p.kindName (p.refusalDetail n)

end Predicate

/-! ## Outcomes that a list of conditions decides -/

/-- The outcome is the refusal of the first condition without a counterpart, and a success where
there is none. -/
def Refused {α : Type} (nodes : List (Nat × Predicate)) (x : Except Failure α) : Prop :=
  match nodes.find? fun node => node.2.lacksCounterpart node.1 with
  | some node => x = .error (node.2.refusal node.1)
  | none => ∃ y, x = .ok y

namespace Refused

variable {α β : Type} {nodes nodes' : List (Nat × Predicate)} {x : Except Failure α}

theorem ok (y : α) : Refused [] (.ok y : Except Failure α) := ⟨y, rfl⟩

/-- One condition alone. -/
theorem of_node {n : Nat} {p : Predicate}
    (hlacks : p.lacksCounterpart n = true → x = .error (p.refusal n))
    (hhas : p.lacksCounterpart n = false → ∃ y, x = .ok y) : Refused [(n, p)] x := by
  unfold Refused
  cases h : p.lacksCounterpart n with
  | true => simpa only [List.find?_cons, h] using hlacks h
  | false => simpa only [List.find?_cons, h, List.find?_nil] using hhas h

/-- A condition with a counterpart decides nothing. -/
theorem cons_of_has {n : Nat} {p : Predicate} (hhas : p.lacksCounterpart n = false)
    (hx : Refused nodes x) : Refused ((n, p) :: nodes) x := by
  unfold Refused
  rw [List.find?_cons_of_neg (by rw [hhas]; exact Bool.false_ne_true)]
  exact hx

theorem bind {f : α → Except Failure β} (hx : Refused nodes x)
    (hf : ∀ y, Refused nodes' (f y)) : Refused (nodes ++ nodes') (x >>= f) := by
  unfold Refused at hx ⊢
  rw [List.find?_append]
  split at hx
  · next node hnode =>
    rw [hnode, hx]
    rfl
  · next hnone =>
    obtain ⟨y, rfl⟩ := hx
    rw [hnone]
    exact hf y

theorem map (f : α → β) (hx : Refused nodes x) : Refused nodes (x.map f) := by
  unfold Refused at hx ⊢
  split at hx
  · rw [hx]
    rfl
  · obtain ⟨y, rfl⟩ := hx
    exact ⟨f y, rfl⟩

/-- Where each condition has a counterpart the outcome is a success. -/
theorem exists_ok (hx : Refused nodes x)
    (hhas : ∀ node ∈ nodes, node.2.lacksCounterpart node.1 = false) : ∃ y, x = .ok y := by
  have hnone : (nodes.find? fun node => node.2.lacksCounterpart node.1) = none :=
    List.find?_eq_none.mpr fun node hnode => by
      rw [hhas node hnode]
      exact Bool.false_ne_true
  rw [Refused, hnone] at hx
  exact hx

/-- Where some condition has no counterpart the outcome is a refusal. -/
theorem exists_error (hx : Refused nodes x)
    (hlacks : ∃ node ∈ nodes, node.2.lacksCounterpart node.1 = true) :
    ∃ node : Nat × Predicate, x = .error (node.2.refusal node.1) := by
  unfold Refused at hx
  split at hx
  · next node _ => exact ⟨node, hx⟩
  · next hnone =>
    obtain ⟨node, hnode, hl⟩ := hlacks
    exact absurd hl (List.find?_eq_none.mp hnone node hnode)

/-- The first condition without a counterpart is the one that is named. -/
theorem eq_error {n : Nat} {a : Predicate} {before after : List (Nat × Predicate)}
    (hx : Refused nodes x) (hnodes : nodes = before ++ (n, a) :: after)
    (hbefore : ∀ node ∈ before, node.2.lacksCounterpart node.1 = false)
    (ha : a.lacksCounterpart n = true) : x = .error (a.refusal n) := by
  have hfirst : (nodes.find? fun node => node.2.lacksCounterpart node.1) = some (n, a) := by
    rw [List.find?_eq_some_iff_append]
    refine ⟨ha, before, after, hnodes, fun node hnode => ?_⟩
    rw [hbefore node hnode]
    rfl
  rw [Refused, hfirst] at hx
  exact hx

/-- A list gone through from left to right. -/
theorem mapM {γ : Type} {f : γ → Except Failure α} {nodesOf : γ → List (Nat × Predicate)}
    (hf : ∀ c, Refused (nodesOf c) (f c)) (cs : List γ) :
    Refused (cs.flatMap nodesOf) (cs.mapM f) := by
  induction cs with
  | nil => exact ok []
  | cons c cs ih =>
    rw [List.mapM_cons, List.flatMap_cons]
    refine bind (hf c) fun y => ?_
    rw [← List.append_nil (cs.flatMap nodesOf)]
    exact bind ih fun ys => ok (y :: ys)

end Refused

/-! ## Queries -/

namespace Query

/-- The conditions of a query, and then those of its joins in their order. -/
def statedConditions (q : Query) : List Predicate := q.conditions ++ q.joins.flatMap Join.conditions

/-- All conditions inside them, from left to right and from the outside in. -/
def nodes (q : Query) : List (Nat × Predicate) := Predicate.allNodes 0 q.statedConditions

theorem mem_nodes_iff {q : Query} {n : Nat} {a : Predicate} :
    (n, a) ∈ q.nodes ↔ ∃ p ∈ q.statedConditions, p.Encloses n a := by
  simp only [nodes, Predicate.mem_allNodes_iff, Nat.zero_add, exists_eq_right']

end Query

namespace Substitution

mutual

/-- Whether a condition has a counterpart is decided by what it encloses. -/
theorem refused_predicate (s : Substitution) :
    ∀ (p : Predicate) (n : Nat), Refused (p.nodes n) (s.predicate n p)
  | .grouping ps conjunction, n => by
    rw [Predicate.nodes, predicate]
    exact .cons_of_has rfl ((refused_predicates s ps (n + 1)).map _)
  | .raw r, n => by
    refine .of_node (fun h => ?_) fun h => ?_
    · have hn : 2 ≤ n := of_decide_eq_true h
      rw [predicate, if_pos (show maxRawDepth < n by unfold maxRawDepth; omega)]
      rfl
    · have hn : ¬2 ≤ n := of_decide_eq_false h
      rw [predicate, if_neg (show ¬maxRawDepth < n by unfold maxRawDepth; omega)]
      exact ⟨_, rfl⟩
  | .equality _ _, _ | .notEqual _ _, _ | .comparison _ _ _, _ | .membership _ _ _ _, _ =>
    .of_node nofun fun _ => ⟨_, rfl⟩
  | .negation _, _ | .existence _ _, _ | .foreign _, _ => .of_node (fun _ => rfl) nofun

theorem refused_predicates (s : Substitution) :
    ∀ (ps : List Predicate) (n : Nat), Refused (Predicate.allNodes n ps) (s.predicates n ps)
  | [], _ => .ok []
  | p :: ps, n => by
    rw [Predicate.allNodes, predicates]
    refine (refused_predicate s p n).bind fun p' => ?_
    rw [← List.append_nil (Predicate.allNodes n ps)]
    exact (refused_predicates s ps n).bind fun ps' => .ok (p' :: ps')

end

theorem refused_join (s : Substitution) (j : Join) :
    Refused (Predicate.allNodes 0 j.conditions) (s.join j) := by
  cases j with
  | table name given on outer => exact (s.refused_predicates on 0).map _
  | asOf entityType dataTable timestamp => exact .ok _

/-- Whether a query can be read as of an instant is decided by its conditions and those of its
joins. -/
theorem refused_query (s : Substitution) (q : Query) : Refused q.nodes (s.query q) := by
  have hnodes : q.nodes = Predicate.allNodes 0 q.conditions ++
      (q.joins.flatMap (fun j => Predicate.allNodes 0 j.conditions) ++ []) := by
    simp only [Query.nodes, Query.statedConditions, Predicate.allNodes_eq_flatMap,
      List.flatMap_append, List.flatMap_assoc, List.append_nil]
  rw [hnodes]
  exact (s.refused_predicates q.conditions 0).bind fun ps =>
    (Refused.mapM s.refused_join q.joins).bind fun js => .ok _

end Substitution

namespace Query

section AsOf

variable {kind : Kind} {q : Query} {timestamp : Value} {t : Timestamp} {moment : Option Moment}
  {clock i : Instant}

/-- A query on a live table as of a timestamp that denotes an instant. -/
theorem asOfTimestamp_eq_query (hlive : q.asOf = none) (htable : q.table = kind.table.name)
    (ht : timestamp.toTimestamp = .ok t) (hi : t.resolveAt moment clock = .ok i) :
    q.asOfTimestamp timestamp moment clock = (⟨kind, t, i⟩ : Substitution).query q := by
  have hkind : Kind.ofTable? q.table = some kind := htable ▸ kind.ofTable?_table
  unfold asOfTimestamp
  rw [hlive, hkind]
  change (timestamp.toTimestamp >>= fun t =>
    Substitution.build kind t moment clock >>= fun s => s.query q) = _
  rw [ht]
  change (Substitution.build kind t moment clock >>= fun s => s.query q) = _
  rw [Substitution.build, hi]
  rfl

/-- A query on the live table of a kind is refused as of a timestamp if its conditions or those of
its joins enclose one without a counterpart: a negation, a subquery that is asked for rows, what is
no condition, or a text inside two groupings.  The first of these is named.  All other queries can
be read as of the timestamp. -/
theorem asOf_refused_iff (hlive : q.asOf = none) (htable : q.table = kind.table.name)
    (ht : timestamp.toTimestamp = .ok t) (hi : t.resolveAt moment clock = .ok i) :
    ((∃ name detail, q.asOfTimestamp timestamp moment clock =
        .error (.unsupportedPredicate name detail)) ↔
      ∃ p ∈ q.statedConditions, ∃ n a, p.Encloses n a ∧ a.lacksCounterpart n = true) ∧
    (∀ before n a after, q.nodes = before ++ (n, a) :: after →
      (∀ node ∈ before, node.2.lacksCounterpart node.1 = false) → a.lacksCounterpart n = true →
        q.asOfTimestamp timestamp moment clock =
          .error (.unsupportedPredicate a.kindName (a.refusalDetail n))) ∧
    ((∀ p ∈ q.statedConditions, ∀ n a, p.Encloses n a → a.lacksCounterpart n = false) →
      ∃ q', q.asOfTimestamp timestamp moment clock = .ok q') := by
  rw [asOfTimestamp_eq_query hlive htable ht hi]
  have hdecided := (⟨kind, t, i⟩ : Substitution).refused_query q
  have hreads : (∀ p ∈ q.statedConditions, ∀ n a, p.Encloses n a → a.lacksCounterpart n = false) →
      ∃ q', (⟨kind, t, i⟩ : Substitution).query q = .ok q' := by
    intro hhas
    refine hdecided.exists_ok fun ⟨n, a⟩ hnode => ?_
    obtain ⟨p, hp, ha⟩ := mem_nodes_iff.mp hnode
    exact hhas p hp n a ha
  refine ⟨⟨?_, ?_⟩, fun before n a after => hdecided.eq_error, hreads⟩
  · rintro ⟨name, detail, hrefused⟩
    by_contra hnone
    obtain ⟨q', hq'⟩ := hreads fun p hp n a ha =>
      Bool.eq_false_iff.mpr fun hlacks => hnone ⟨p, hp, n, a, ha, hlacks⟩
    cases hq'.symm.trans hrefused
  · rintro ⟨p, hp, n, a, ha, hlacks⟩
    obtain ⟨⟨m, b⟩, hb⟩ := hdecided.exists_error ⟨(n, a), mem_nodes_iff.mpr ⟨p, hp, ha⟩, hlacks⟩
    exact ⟨_, _, hb⟩

end AsOf

end Query

/-- Work packages with a text inside two groupings, a negation, and projects joined on what is no
condition. -/
def unreadable : Query where
  table := "work_packages"
  joins := [.table "projects" none [.foreign (.text "active")] false]
  conditions := [
    .grouping [.equality ⟨"work_packages", "done"⟩ (.value .null),
      .grouping [.raw ⟨"work_packages.done", []⟩] .or] .and,
    .negation (.equality ⟨"work_packages", "done"⟩ (.value .null))]
  projections := []
  orders := []
  limit := .all
  asOf := none
  readonly := false

/-- The text is named, which comes first; without the conditions it is the join; and without that
the query can be read. -/
theorem Query.asOf_refused_iff_unreadable :
    unreadable.asOfTimestamp (.timestamp (.absolute noonInUtc)) none noonInUtc =
      .error (.unsupportedPredicate "RawFragment"
        (some "raw SQL nested 2 groupings deep cannot be rewritten reliably")) ∧
    (∃ name detail, { unreadable with conditions := [] }.asOfTimestamp
      (.timestamp (.absolute noonInUtc)) none noonInUtc =
        .error (.unsupportedPredicate name detail)) ∧
    ∃ q', { unreadable with conditions := [], joins := [] }.asOfTimestamp
      (.timestamp (.absolute noonInUtc)) none noonInUtc = .ok q' := by
  have htable : ∀ q : Query, q.table = "work_packages" →
      q.table = Kind.workPackage.table.name := fun _ h => h
  refine ⟨?_, ?_, ?_⟩
  · exact (asOf_refused_iff rfl (htable _ rfl) rfl rfl).2.1 (unreadable.nodes.take 3) 2
      (.raw ⟨"work_packages.done", []⟩) (unreadable.nodes.drop 4) rfl (by decide) rfl
  · exact (asOf_refused_iff rfl (htable _ rfl) rfl rfl).1.mpr
      ⟨_, List.mem_singleton_self _, 0, _, .itself _, rfl⟩
  · exact (asOf_refused_iff rfl (htable _ rfl) rfl rfl).2.2 nofun

end Chronicle
