import Chronicle.Proofs.Fragment.Joined
import Chronicle.Proofs.Outcome
import Chronicle.Proofs.Statement.Renamed

/-!
# Conditions next to each other

Texts among conditions are read together with their neighbours.  Where each text is a list of
conditions joined by the same conjunction, the whole has the truth that the conditions have one by
one, and the store takes it if it takes each of them.

* `RawFragment.IsListOf`, `Clause.TextsAreLists`: texts that are lists of conditions;
* `Clause.joinedTruth_eq`: the truth of conditions next to each other;
* `Clause.check_parts_iff`: whether the store takes them;
* `Clause.joinedTruth_singleton`, `Clause.check_singleton_iff`: a condition on its own.
-/

namespace Chronicle

theorem requires_eq_ok_iff {b : Bool} : requires b = .ok () ↔ b = true := by
  cases b with
  | true => exact ⟨fun _ => rfl, fun _ => rfl⟩
  | false => exact ⟨nofun, nofun⟩

/-! ## Texts -/

namespace RawFragment

/-- A text that is a list of conditions joined by a conjunction. -/
def IsListOf (op : Conjunction) (r : RawFragment) : Prop :=
  ∃ ls e, r.lexemes = .ok ls ∧ Expression.IsListOf op ls e

instance (op : Conjunction) (r : RawFragment) : Decidable (r.IsListOf op) :=
  match hls : r.lexemes with
  | .error _ => .isFalse fun ⟨_, _, h, _⟩ => nomatch hls.symm.trans h
  | .ok ls =>
    match he : Expression.parseList op (Expression.steps op ls.length) ls with
    | some (e, []) => .isTrue ⟨ls, e, hls, he⟩
    | some (_, _ :: _) | none => .isFalse fun ⟨ls', e, h, h'⟩ => by
      obtain rfl : ls = ls' := Except.ok.inj (hls.symm.trans h)
      cases he.symm.trans h'

/-- A text can be read, and its names mean something. -/
def isResolved (env : Env) (r : RawFragment) : Bool :=
  match r.expression? with
  | .ok e => e.isResolved env
  | .error _ => false

variable {r : RawFragment} {e : Expression}

theorem expression?_eq_ok_iff :
    r.expression? = .ok e ↔ ∃ ls, r.lexemes = .ok ls ∧ Expression.ofLexemes? ls = some e := by
  unfold expression?
  rw [bind_eq_ok_iff]
  refine exists_congr fun ls => and_congr_right fun _ => ?_
  cases Expression.ofLexemes? ls with
  | none => exact ⟨nofun, nofun⟩
  | some f =>
    exact ⟨fun h => congrArg some (Except.ok.inj h), fun h => congrArg pure (Option.some.inj h)⟩

theorem toTruth_cell (h : r.expression? = .ok e) (env : Env) :
    (r.cell env).toTruth = e.truth env := by
  rw [cell, h]
  rfl

theorem isResolved_eq (h : r.expression? = .ok e) (env : Env) :
    r.isResolved env = e.isResolved env := by
  rw [isResolved, h]

theorem checkExpression_iff (env : Env) :
    checkExpression env r.expression? = .ok () ↔ r.isResolved env = true := by
  unfold isResolved
  cases r.expression? with
  | error f => exact ⟨nofun, nofun⟩
  | ok e => exact requires_eq_ok_iff

end RawFragment

namespace Clause

variable {op : Conjunction} {env : Env} {db : Database}

theorem check_raw_iff (r : RawFragment) :
    (raw r).check env = .ok () ↔ (r.isEmpty = false → r.isResolved env = true) := by
  rw [check]
  split
  · next h => exact ⟨fun _ hne => (Bool.noConfusion (h.symm.trans hne)), fun _ => rfl⟩
  · next h =>
    rw [RawFragment.checkExpression_iff]
    exact ⟨fun hr _ => hr, fun hr => hr (Bool.eq_false_iff.mpr h)⟩

/-! ## Texts among conditions -/

/-- The truth of a condition among others; that of a text is read from it. -/
def partTruth (env : Env) : Clause × Truth → Truth
  | (raw r, _) => (r.cell env).toTruth
  | (_, t) => t

/-- The names in a text among other conditions mean something. -/
def partResolved (env : Env) : Clause → Bool
  | raw r => r.isResolved env
  | _ => true

theorem exists_part {x : Clause × Truth} (h : ∀ r, x.1 = .raw r → r.IsListOf op) :
    ∃ g : List Lexeme × Expression, partLexemes x = .ok g.1 ∧ Expression.IsListOf op g.1 g.2 ∧
      ∀ env, g.2.truth env = partTruth env x ∧ g.2.isResolved env = partResolved env x.1 := by
  obtain ⟨c, t⟩ := x
  cases c with
  | raw r =>
    obtain ⟨ls, e, hls, he⟩ := h r rfl
    have hread := RawFragment.expression?_eq_ok_iff.mpr ⟨ls, hls, he.ofLexemes?⟩
    exact ⟨(ls, e), hls, he, fun env =>
      ⟨(RawFragment.toTruth_cell hread env).symm, (RawFragment.isResolved_eq hread env).symm⟩⟩
  | _ =>
    exact ⟨([.settled t], .settled t), rfl, Expression.isListOf_settled op t, fun env =>
      ⟨Cell.toTruth_ofTruth t, rfl⟩⟩

theorem exists_parts {xs : List (Clause × Truth)}
    (h : ∀ x ∈ xs, ∀ r, x.1 = .raw r → r.IsListOf op) :
    ∃ groups : List (List Lexeme × Expression), xs.mapM partLexemes = .ok (groups.map Prod.fst) ∧
      (∀ g ∈ groups, Expression.IsListOf op g.1 g.2) ∧ groups.length = xs.length ∧ ∀ env,
        (groups.map fun g => g.2.truth env) = xs.map (partTruth env) ∧
        (groups.all fun g => g.2.isResolved env) = xs.all fun x => partResolved env x.1 := by
  induction xs with
  | nil => exact ⟨[], rfl, fun _ hg => (nomatch hg), rfl, fun _ => ⟨rfl, rfl⟩⟩
  | cons x xs ih =>
    obtain ⟨hx, hxs⟩ := List.forall_mem_cons.mp h
    obtain ⟨g, hlexemes, hlist, hsame⟩ := exists_part hx
    obtain ⟨groups, hmap, hlists, hlength, hall⟩ := ih hxs
    refine ⟨g :: groups, mapM_cons_eq_ok_iff.mpr ⟨_, _, hlexemes, hmap, rfl⟩,
      List.forall_mem_cons.mpr ⟨hlist, hlists⟩, congrArg Nat.succ hlength, fun env => ?_⟩
    obtain ⟨htruth, hresolved⟩ := hsame env
    obtain ⟨htruths, hresolveds⟩ := hall env
    rw [List.map_cons, List.map_cons, htruth, htruths, List.all_cons, List.all_cons, hresolved,
      hresolveds]
    exact ⟨rfl, rfl⟩

variable (op) in
/-- Conditions next to each other are read as one. -/
theorem exists_joinedExpression {xs : List (Clause × Truth)} (hne : xs ≠ [])
    (h : ∀ x ∈ xs, ∀ r, x.1 = .raw r → r.IsListOf op) :
    ∃ e, joinedExpression op xs = .ok e ∧ ∀ env,
      e.truth env = Truth.joinAll op (xs.map (partTruth env)) ∧
      e.isResolved env = xs.all fun x => partResolved env x.1 := by
  obtain ⟨groups, hmap, hlists, hlength, hall⟩ := exists_parts h
  have hgroups : groups ≠ [] := by
    rintro rfl
    exact hne (List.length_eq_zero_iff.mp hlength.symm)
  obtain ⟨e, he, hsum⟩ := Expression.exists_ofLexemes? hgroups hlists
  refine ⟨e, ?_, fun env => ?_⟩
  · unfold joinedExpression
    refine bind_eq_ok_iff.mpr ⟨_, hmap, ?_⟩
    unfold Expression.joinWord at he
    simp only [he]
    rfl
  · rw [(hsum env).1, (hsum env).2, (hall env).1, (hall env).2]
    exact ⟨rfl, rfl⟩

theorem joinedExpression_raw (op : Conjunction) (r : RawFragment) (t : Truth) :
    joinedExpression op [(raw r, t)] = r.expression? := by
  unfold joinedExpression RawFragment.expression?
  cases h : r.lexemes with
  | error f =>
    have hmap : [(raw r, t)].mapM partLexemes = .error f := by
      rw [List.mapM_cons]
      exact bind_eq_error_iff.mpr (.inl h)
    rw [hmap]
    rfl
  | ok ls =>
    have hmap : [(raw r, t)].mapM partLexemes = .ok [ls] :=
      mapM_singleton_eq_ok_iff.mpr ⟨ls, h, rfl⟩
    have hflat : ([ls].intersperse [.name false (word op)]).flatten = ls := List.append_nil ls
    rw [hmap]
    dsimp only [bind, Except.bind]
    rw [hflat]

/-! ## Truth -/

theorem truths_eq_map (db : Database) (env : Env) (cs : List Clause) :
    truths db env cs = cs.map (truth db env) := by
  induction cs with
  | nil => rfl
  | cons c cs ih => rw [truths, ih, List.map_cons]

/-- The conditions for which something is written. -/
def shown (cs : List Clause) : List Clause := cs.filter fun c => !c.isBlank

theorem isEmpty_of_mem_shown {cs : List Clause} {r : RawFragment} (h : raw r ∈ shown cs) :
    raw r ∈ cs ∧ r.isEmpty = false := by
  obtain ⟨hmem, hblank⟩ := List.mem_filter.mp h
  exact ⟨hmem, Bool.not_eq_true' _ |>.mp hblank⟩

/-- The texts among conditions are lists of conditions joined by a conjunction. -/
def TextsAreLists (op : Conjunction) (cs : List Clause) : Prop :=
  ∀ r, raw r ∈ cs → r.isEmpty = false → r.IsListOf op

section Lists

variable {cs : List Clause} (h : TextsAreLists op cs)

include h

/-- The conditions that are written are read as one expression. -/
theorem TextsAreLists.exists_expression (hne : shown cs ≠ []) (t : Clause → Truth) :
    ∃ e, joinedExpression op ((shown cs).map fun c => (c, t c)) = .ok e ∧ ∀ env,
      e.truth env = Truth.joinAll op (((shown cs).map fun c => (c, t c)).map (partTruth env)) ∧
      e.isResolved env =
        ((shown cs).map fun c => (c, t c)).all fun x => partResolved env x.1 := by
  refine exists_joinedExpression op (mt List.map_eq_nil_iff.mp hne) fun x hx r hr => ?_
  obtain ⟨c, hc, rfl⟩ := List.mem_map.mp hx
  obtain rfl : c = raw r := hr
  obtain ⟨hmem, hempty⟩ := isEmpty_of_mem_shown hc
  exact h r hmem hempty

/-- Conditions next to each other have the truth that they have one by one. -/
theorem joinedTruth_eq : joinedTruth env op (cs.zip (truths db env cs)) =
    Truth.joinAll op ((shown cs).map (truth db env)) := by
  have hwritten : (cs.zip (truths db env cs)).filter (fun x => !x.1.isBlank) =
      (shown cs).map fun c => (c, c.truth db env) := by
    rw [truths_eq_map, ← List.map_prod_left_eq_zip, List.filter_map]
    rfl
  have hsecond : ((shown cs).map fun c => (c, c.truth db env)).map Prod.snd =
      (shown cs).map (truth db env) := by
    rw [List.map_map]
    rfl
  unfold joinedTruth
  simp only [hwritten, hsecond]
  cases hraw : ((shown cs).map fun c => (c, c.truth db env)).any fun x => x.1.isRaw with
  | true =>
    have hne : shown cs ≠ [] := by
      intro e
      rw [e] at hraw
      cases hraw
    obtain ⟨e, he, hsum⟩ := h.exists_expression hne fun c => c.truth db env
    have hpart : ∀ c : Clause, partTruth env (c, c.truth db env) = c.truth db env := by
      intro c
      cases c with
      | raw r => rw [truth]; rfl
      | _ => rfl
    rw [if_pos rfl, he]
    change e.truth env = _
    rw [(hsum env).1, List.map_map]
    exact congrArg _ (List.map_congr_left fun c _ => hpart c)
  | false =>
    rw [if_neg Bool.false_ne_true]
    cases op <;> rfl

/-! ## Acceptance -/

theorem checkJoined_iff : checkJoined env op cs = .ok () ↔
    ∀ r, raw r ∈ cs → (raw r).check env = .ok () := by
  have hwritten : (cs.filter fun c => !c.isBlank) = shown cs := rfl
  unfold checkJoined
  simp only [hwritten]
  split
  · next hraw =>
    have hne : shown cs ≠ [] := by
      intro e
      rw [e] at hraw
      cases hraw
    obtain ⟨e, he, hsum⟩ := h.exists_expression hne fun _ => .unknown
    have hcheck : checkExpression env (joinedExpression op ((shown cs).map fun c =>
        (c, Truth.unknown))) = .ok () ↔ e.isResolved env = true := by
      rw [he]
      exact requires_eq_ok_iff
    rw [hcheck, (hsum env).2, List.all_map, List.all_eq_true]
    constructor
    · intro hall r hr
      rw [check_raw_iff]
      exact fun hempty => hall (raw r) (List.mem_filter.mpr ⟨hr, by rw [isBlank, hempty]; rfl⟩)
    · intro hall c hc
      cases c with
      | raw r =>
        obtain ⟨hmem, hempty⟩ := isEmpty_of_mem_shown hc
        exact (check_raw_iff r).mp (hall r hmem) hempty
      | _ => rfl
  · next hraw =>
    refine ⟨fun _ r hr => (check_raw_iff r).mpr fun hempty => absurd ?_ hraw, fun _ => rfl⟩
    exact List.any_eq_true.mpr ⟨raw r, List.mem_filter.mpr ⟨hr, by rw [isBlank, hempty]; rfl⟩, rfl⟩

omit h in
theorem checkAll_iff : checkAll env cs = .ok () ↔
    ∀ c ∈ cs, c.isRaw = false → c.check env = .ok () := by
  induction cs with
  | nil => exact ⟨fun _ c hc => (nomatch hc), fun _ => by rw [checkAll]⟩
  | cons c cs ih =>
    rw [List.forall_mem_cons, ← ih]
    cases hc : c.isRaw with
    | true =>
      obtain ⟨r, rfl⟩ : ∃ r, c = raw r := by cases c <;> first | exact ⟨_, rfl⟩ | cases hc
      rw [checkAll]
      exact ⟨fun hcs => ⟨nofun, hcs⟩, fun hcs => hcs.2⟩
    | false =>
      rw [checkAll_cons hc, bind_eq_ok_iff]
      exact ⟨fun ⟨_, hcheck, hcs⟩ => ⟨fun _ => hcheck, hcs⟩,
        fun ⟨hcheck, hcs⟩ => ⟨(), hcheck rfl, hcs⟩⟩

/-- The store takes conditions next to each other if it takes each of them. -/
theorem check_next_iff : checkJoined env op cs = .ok () ∧ checkAll env cs = .ok () ↔
    ∀ c ∈ cs, c.check env = .ok () := by
  rw [checkJoined_iff h, checkAll_iff]
  constructor
  · rintro ⟨hraws, hothers⟩ c hc
    cases hraw : c.isRaw with
    | false => exact hothers c hc hraw
    | true =>
      obtain ⟨r, rfl⟩ : ∃ r, c = raw r := by cases c <;> first | exact ⟨_, rfl⟩ | cases hraw
      exact hraws r hc
  · exact fun hall => ⟨fun r hr => hall _ hr, fun c hc _ => hall c hc⟩

end Lists

/-! ## A condition on its own -/

theorem joinedTruth_singleton (c : Clause) : joinedTruth env op ([c].zip (truths db env [c])) =
    if c.isBlank then Truth.joinAll op [] else c.truth db env := by
  by_cases hraw : ∃ r, c = raw r
  · obtain ⟨r, rfl⟩ := hraw
    rw [truths_eq_map]
    change joinedTruth env op [(raw r, (raw r).truth db env)] = _
    cases hblank : (raw r).isBlank with
    | true =>
      have hnone : [(raw r, (raw r).truth db env)].filter (fun x => !x.1.isBlank) = [] := by
        rw [List.filter_cons_of_neg (by rw [hblank]; exact Bool.false_ne_true), List.filter_nil]
      unfold joinedTruth
      simp only [hnone]
      cases op <;> rfl
    | false =>
      have hone : [(raw r, (raw r).truth db env)].filter (fun x => !x.1.isBlank) =
          [(raw r, (raw r).truth db env)] := by
        rw [List.filter_cons_of_pos (by rw [hblank]; rfl), List.filter_nil]
      unfold joinedTruth
      simp only [hone, joinedExpression_raw]
      rw [truth, RawFragment.cell]
      cases r.expression? <;> rfl
  · have hlists : TextsAreLists op [c] := fun r hr =>
      absurd ⟨r, (List.mem_singleton.mp hr).symm⟩ hraw
    rw [joinedTruth_eq hlists, shown]
    cases hblank : c.isBlank with
    | true => rw [List.filter_cons_of_neg (by rw [hblank]; exact Bool.false_ne_true)]; rfl
    | false =>
      rw [List.filter_cons_of_pos (by rw [hblank]; rfl), List.filter_nil, List.map_singleton,
        Truth.joinAll_cons, Truth.join_joinAll_nil]
      rfl

theorem check_singleton_iff (c : Clause) :
    checkJoined env op [c] = .ok () ∧ checkAll env [c] = .ok () ↔ c.check env = .ok () := by
  by_cases hraw : ∃ r, c = raw r
  · obtain ⟨r, rfl⟩ := hraw
    have hall : checkAll env [raw r] = .ok () := by rw [checkAll, checkAll]
    rw [check, and_iff_left hall]
    unfold checkJoined
    cases hempty : r.isEmpty with
    | true =>
      have hnone : [raw r].filter (fun c => !c.isBlank) = [] := by
        rw [List.filter_cons_of_neg (by rw [isBlank, hempty]; exact Bool.false_ne_true),
          List.filter_nil]
      simp only [hnone]
      rfl
    | false =>
      have hone : [raw r].filter (fun c => !c.isBlank) = [raw r] := by
        rw [List.filter_cons_of_pos (by rw [isBlank, hempty]; rfl), List.filter_nil]
      simp only [hone, List.map_singleton, joinedExpression_raw]
      rfl
  · have hlists : TextsAreLists op [c] := fun r hr =>
      absurd ⟨r, (List.mem_singleton.mp hr).symm⟩ hraw
    rw [check_next_iff hlists, List.forall_mem_singleton]

end Clause

end Chronicle
