import Chronicle.Proofs.Statement.Shared
import Chronicle.Statement.Text
import Chronicle.Store.Answer

/-!
# What conditions are written with

Parentheses and negations change neither the values nor the texts with which conditions are written,
nor the order of these.

* `Clause.SameContent`: conditions that are written with the same values and texts;
* `Select.exists_render_iff`: whether a statement can be written depends on these alone.
-/

namespace Chronicle

open Chronicle.Statement

/-! ## What is written -/

namespace Written

variable {α β γ : Type}

/-- What writing something does to the names in use. -/
def effect (w : Written α) (n : Naming) : Except Failure Naming := (w n).map Prod.snd

theorem effect_pure (a : α) : effect (pure a : Written α) = fun n => .ok n := rfl

theorem run_bind (w : Written α) (f : α → Written β) (n : Naming) :
    (w >>= f) n = (w n).bind fun p => f p.1 p.2 := rfl

theorem effect_bind (w : Written α) (f : α → Written β) (n : Naming) :
    effect (w >>= f) n = (w n).bind fun p => effect (f p.1) p.2 := by
  rw [effect, run_bind]
  cases w n <;> rfl

theorem effect_bind_congr {w : Written α} {f : α → Written β} {g : α → Written γ}
    (h : ∀ a, effect (f a) = effect (g a)) : effect (w >>= f) = effect (w >>= g) := by
  funext n
  rw [effect_bind, effect_bind]
  simp only [h]

/-- Where what follows does not depend on a text, only its effect counts. -/
theorem effect_bind_of_const {w : Written α} {f : α → Written β} {e : Naming → Except Failure Naming}
    (h : ∀ a, effect (f a) = e) : effect (w >>= f) = fun n => (effect w n).bind e := by
  funext n
  rw [effect_bind]
  simp only [h]
  rw [effect]
  cases w n <;> rfl

theorem effect_bind_eq {w w' : Written α} {f : α → Written β} (a : α)
    (hf : ∀ b, effect (f b) = effect (f a)) (h : effect w = effect w') :
    effect (w >>= f) = effect (w' >>= f) := by
  rw [effect_bind_of_const hf, effect_bind_of_const hf, h]

theorem effect_bind_pure (w : Written α) (f : α → β) :
    effect (w >>= fun a => pure (f a)) = effect w := by
  rw [effect_bind_of_const fun a => effect_pure (f a)]
  funext n
  cases effect w n <;> rfl

end Written

namespace Clause

/-- Lists of conditions that are written with the same values and texts in the same order. -/
inductive SameContent : List Clause → List Clause → Prop
  | refl (cs : List Clause) : SameContent cs cs
  | symm {cs ds : List Clause} : SameContent cs ds → SameContent ds cs
  | trans {cs ds es : List Clause} : SameContent cs ds → SameContent ds es → SameContent cs es
  | append {as bs cs ds : List Clause} : SameContent as bs → SameContent cs ds →
      SameContent (as ++ cs) (bs ++ ds)
  | group (c : Clause) : SameContent [.group c] [c]
  | truthOf (c : Clause) (negated : Bool) : SameContent [.truthOf c negated] [c]
  | inverse (c : Clause) : SameContent [.inverse c] [c]
  | parts (op : Conjunction) (cs : List Clause) : SameContent [.parts op cs] cs
  | compare (op op' : Relator) (c : SourceColumn) (t : Term) :
      SameContent [.compare op c t] [.compare op' c t]
  | isNull (c : SourceColumn) (negated negated' : Bool) :
      SameContent [.isNull c negated] [.isNull c negated']
  | amongValues (c : SourceColumn) (vs : List Scalar) (negated negated' : Bool) :
      SameContent [.amongValues c vs negated] [.amongValues c vs negated']
  | amongRows (c : SourceColumn) (q : Select) (negated negated' : Bool) :
      SameContent [.amongRows c q negated] [.amongRows c q negated']

theorem allSlots_append (cs ds : List Clause) :
    allSlots (cs ++ ds) = allSlots cs ++ allSlots ds := by
  induction cs with
  | nil => rfl
  | cons c cs ih => rw [List.cons_append, allSlots, allSlots, ih, List.append_assoc]

theorem allSlots_singleton (c : Clause) : allSlots [c] = c.slots := by
  rw [allSlots, allSlots, List.append_nil]

theorem allFragments_singleton (c : Clause) : allFragments [c] = c.fragments := by
  rw [allFragments, allFragments, List.append_nil]

/-- What writing conditions does to the names in use. -/
def naming (cs : List Clause) : Naming → Except Failure Naming := Written.effect (writeAll cs)

theorem naming_cons (c : Clause) (cs : List Clause) :
    naming (c :: cs) = fun n => (Written.effect c.write n).bind (naming cs) := by
  have hsteps : writeAll (c :: cs) =
      c.write >>= fun text => writeAll cs >>= fun texts => pure (text :: texts) := by
    rw [writeAll]
  unfold naming
  rw [hsteps]
  exact Written.effect_bind_of_const fun text => Written.effect_bind_pure (writeAll cs) _

theorem naming_singleton (c : Clause) : naming [c] = Written.effect c.write := by
  rw [naming_cons]
  funext n
  cases Written.effect c.write n <;> rfl

theorem naming_append (cs ds : List Clause) :
    naming (cs ++ ds) = fun n => (naming cs n).bind (naming ds) := by
  induction cs with
  | nil => rfl
  | cons c cs ih =>
    rw [List.cons_append, naming_cons, naming_cons, ih]
    funext n
    dsimp only
    cases Written.effect c.write n <;> rfl

namespace SameContent

variable {cs ds : List Clause}

theorem allSlots_eq (h : SameContent cs ds) : allSlots cs = allSlots ds := by
  induction h with
  | refl => rfl
  | symm _ ih => exact ih.symm
  | trans _ _ ih ih' => exact ih.trans ih'
  | append _ _ ih ih' => rw [allSlots_append, allSlots_append, ih, ih']
  | group c => rw [allSlots_singleton, allSlots_singleton, slots]
  | truthOf c _ => rw [allSlots_singleton, allSlots_singleton, slots]
  | inverse c => rw [allSlots_singleton, allSlots_singleton, slots]
  | parts op cs => rw [allSlots_singleton, slots]
  | compare op op' c t =>
    rw [allSlots_singleton, allSlots_singleton]
    cases t <;> simp only [slots]
  | isNull =>
    rw [allSlots_singleton, allSlots_singleton]
    simp only [slots]
  | amongValues => rw [allSlots_singleton, allSlots_singleton, slots, slots]
  | amongRows => rw [allSlots_singleton, allSlots_singleton, slots, slots]

theorem allFragments_eq (h : SameContent cs ds) : allFragments cs = allFragments ds := by
  induction h with
  | refl => rfl
  | symm _ ih => exact ih.symm
  | trans _ _ ih ih' => exact ih.trans ih'
  | append _ _ ih ih' => rw [allFragments_append, allFragments_append, ih, ih']
  | group c => rw [allFragments_singleton, allFragments_singleton, fragments]
  | truthOf c _ => rw [allFragments_singleton, allFragments_singleton, fragments]
  | inverse c => rw [allFragments_singleton, allFragments_singleton, fragments]
  | parts op cs => rw [allFragments_singleton, fragments]
  | compare => rw [allFragments_singleton, allFragments_singleton, fragments, fragments]
  | isNull => rw [allFragments_singleton, allFragments_singleton, fragments, fragments]
  | amongValues => rw [allFragments_singleton, allFragments_singleton, fragments, fragments]
  | amongRows => rw [allFragments_singleton, allFragments_singleton, fragments, fragments]

theorem naming_eq (h : SameContent cs ds) : naming cs = naming ds := by
  induction h with
  | refl => rfl
  | symm _ ih => exact ih.symm
  | trans _ _ ih ih' => exact ih.trans ih'
  | append _ _ ih ih' => rw [naming_append, naming_append, ih, ih']
  | group c =>
    rw [naming_singleton, naming_singleton, write]
    exact Written.effect_bind_pure c.write _
  | truthOf c _ =>
    rw [naming_singleton, naming_singleton, write]
    exact Written.effect_bind_pure c.write _
  | inverse c =>
    rw [naming_singleton, naming_singleton, write]
    exact Written.effect_bind_pure c.write _
  | parts op cs =>
    rw [naming_singleton, write]
    exact Written.effect_bind_pure (writeAll cs) _
  | compare op op' c t =>
    rw [naming_singleton, naming_singleton, write, write]
    exact (Written.effect_bind_pure (writeTerm c t) _).trans
      (Written.effect_bind_pure (writeTerm c t) _).symm
  | isNull =>
    rw [naming_singleton, naming_singleton, write, write]
    exact (Written.effect_pure _).trans (Written.effect_pure _).symm
  | amongValues c vs negated negated' =>
    rw [naming_singleton, naming_singleton, write, write]
    exact Written.effect_bind_congr fun name => (Written.effect_bind_pure (addParam _) _).trans
      (Written.effect_bind_pure (addParam _) _).symm
  | amongRows c q negated negated' =>
    rw [naming_singleton, naming_singleton, write, write]
    exact (Written.effect_bind_pure q.write _).trans (Written.effect_bind_pure q.write _).symm

end SameContent

end Clause

/-- Whether a statement can be written depends on the content of its conditions only. -/
theorem Select.exists_render_iff {s : Select} {cs ds : List Clause}
    (h : Clause.SameContent cs ds) :
    (∃ x, ({ s with conditions := cs } : Select).render = .ok x) ↔
      ∃ x, ({ s with conditions := ds } : Select).render = .ok x := by
  have heffect : Written.effect ({ s with conditions := cs } : Select).write =
      Written.effect ({ s with conditions := ds } : Select).write := by
    rw [Select.write, Select.write]
    refine Written.effect_bind_congr fun columns => Written.effect_bind_congr fun joins => ?_
    refine Written.effect_bind_eq [] (fun texts => ?_) h.naming_eq
    refine Written.effect_bind_congr fun orders => ?_
    cases s.limit with
    | none => rfl
    | some n => exact Written.effect_bind_congr fun _ => rfl
  have hiff : ∀ t : Select, (∃ x, t.render = .ok x) ↔
      ∃ n, Written.effect t.write Naming.empty = .ok n := by
    intro t
    have hrender : t.render = (t.write Naming.empty).map fun p => (p.1, p.2.values) := rfl
    rw [hrender, Written.effect]
    cases t.write Naming.empty with
    | error f => exact ⟨fun ⟨_, hx⟩ => (nomatch hx), fun ⟨_, hx⟩ => (nomatch hx)⟩
    | ok p => exact ⟨fun _ => ⟨_, rfl⟩, fun _ => ⟨_, rfl⟩⟩
  rw [hiff, hiff, heffect]

end Chronicle
