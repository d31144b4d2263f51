import Std.Data.String.ToNat
import Chronicle.Proofs.Statement.Resolved

/-!
# Statements without text can be written

Every parameter of such a statement is named by the library, and no two of these names are alike.

* `Naming.Fresh`: all parameters so far have names that were generated before;
* `Written.Succeeds`: something can be written whatever was written before;
* `Select.names_eq`: the names of an answer whose columns have different names;
* `Select.write_succeeds`: resolved statements can be written.
-/

namespace Chronicle

open Chronicle.Calendar Chronicle.Statement

/-! ## Generated names -/

namespace Statement.Counters

theorem eq_of_append_cons {α : Type} {a : α} {l l' r r' : List α} (hr : a ∉ r) (hr' : a ∉ r')
    (h : l ++ a :: r = l' ++ a :: r') : l = l' ∧ r = r' := by
  rcases List.append_eq_append_iff.mp h with ⟨m, hm, hr''⟩ | ⟨m, hm, hr''⟩
  · cases m with
    | nil => exact ⟨by rw [hm, List.append_nil], (List.cons.inj hr'').2⟩
    | cons b m =>
      obtain ⟨-, rfl⟩ := List.cons.inj hr''
      exact absurd (List.mem_append_right m List.mem_cons_self) hr
  · cases m with
    | nil => exact ⟨by rw [hm, List.append_nil], (List.cons.inj hr'').2.symm⟩
    | cons b m =>
      obtain ⟨-, rfl⟩ := List.cons.inj hr''
      exact absurd (List.mem_append_right m List.mem_cons_self) hr'

/-- A generated name tells its stem and its number. -/
theorem name_injective {s t : String} {m n : Nat}
    (h : s ++ "_" ++ toString m = t ++ "_" ++ toString n) : s = t ∧ m = n := by
  have hlist := congrArg String.toList h
  simp only [String.toList_append, List.append_assoc] at hlist
  have hdigits : ∀ k : Nat, '_' ∉ (toString k).toList := by
    intro k
    rw [Nat.toString_eq_ofList_toDigits, String.toList_ofList]
    exact Nat.underscore_not_in_toDigits
  obtain ⟨hs, hn⟩ := eq_of_append_cons (hdigits m) (hdigits n) hlist
  exact ⟨String.toList_inj.mp hs, Nat.repr_injective (String.toList_inj.mp hn)⟩

end Statement.Counters

namespace Naming

/-- The next number for a stem. -/
def next (n : Naming) (stem : String) : Nat := (n.counters.lookup stem).getD 1

/-- Every parameter has a name that was generated before. -/
def Fresh (n : Naming) : Prop :=
  ∀ p ∈ n.params, ∃ stem k, p.name = stem ++ "_" ++ toString k ∧ k < n.next stem

theorem Fresh.empty : Fresh Naming.empty := fun _ hp => nomatch hp

/-- The naming after a name has been generated. -/
def bumped (n : Naming) (stem : String) : Naming :=
  { n with counters := (n.counters.fresh stem).2 }

/-- The naming after the name has been given to a parameter. -/
def named (n : Naming) (stem : String) (v : ParamValue) : Naming :=
  { n.bumped stem with params := n.params ++ [⟨(n.counters.fresh stem).1, v, true⟩] }

theorem next_bumped (n : Naming) (stem s : String) :
    (n.bumped stem).next s = if s = stem then n.next stem + 1 else n.next s := by
  unfold bumped next Counters.fresh
  rw [List.lookup_cons]
  split
  · next h => simp [beq_iff_eq.mp h]
  · next h => rw [if_neg fun e => by simp [e] at h]

theorem Fresh.bumped {n : Naming} (h : n.Fresh) (stem : String) : (n.bumped stem).Fresh := by
  intro p hp
  obtain ⟨s, k, hname, hk⟩ := h p hp
  refine ⟨s, k, hname, ?_⟩
  rw [next_bumped]
  split
  · next e =>
    subst e
    omega
  · exact hk

theorem Fresh.named {n : Naming} (h : n.Fresh) (stem : String) (v : ParamValue) :
    (n.named stem v).Fresh := by
  intro p hp
  rcases List.mem_append.mp hp with hp | hp
  · exact h.bumped stem p hp
  · cases List.mem_singleton.mp hp
    refine ⟨stem, n.next stem, rfl, ?_⟩
    have hnext := n.next_bumped stem stem
    rw [if_pos rfl] at hnext
    exact Nat.lt_of_lt_of_eq (Nat.lt_succ_self _) hnext.symm

/-- A generated name is none of those before. -/
theorem Fresh.ne_fresh {n : Naming} (h : n.Fresh) (stem : String) {p : Param} (hp : p ∈ n.params) :
    p.name ≠ (n.counters.fresh stem).1 := by
  obtain ⟨t, k, hname, hk⟩ := h p hp
  rw [hname]
  intro e
  obtain ⟨rfl, rfl⟩ := Counters.name_injective e
  exact Nat.lt_irrefl _ hk

theorem Fresh.addParam {n : Naming} (h : n.Fresh) (stem : String) (v : ParamValue) :
    addParam ⟨(n.counters.fresh stem).1, v, true⟩ (n.bumped stem) = .ok ((), n.named stem v) := by
  have hfree : ((n.bumped stem).params.any fun q =>
      q.name == (n.counters.fresh stem).1 && (true || q.generated)) = false := by
    rw [List.any_eq_false]
    intro q hq
    simp only [Bool.true_or, Bool.and_true, beq_iff_eq]
    exact h.ne_fresh stem hq
  exact if_neg (Bool.eq_false_iff.mp hfree)

end Naming

/-! ## Writing -/

namespace Written

variable {α β : Type}

/-- Something can be written, whatever was written before. -/
def Succeeds (w : Written α) : Prop :=
  ∀ n : Naming, n.Fresh → ∃ (a : α) (n' : Naming), w n = .ok (a, n') ∧ n'.Fresh

theorem Succeeds.pure (a : α) : Succeeds (Pure.pure a : Written α) :=
  fun n hn => ⟨a, n, rfl, hn⟩

theorem Succeeds.bind {w : Written α} {f : α → Written β} (hw : w.Succeeds)
    (hf : ∀ a, (f a).Succeeds) : Succeeds (w >>= f) := by
  intro n hn
  obtain ⟨a, n', hwn, hn'⟩ := hw n hn
  obtain ⟨b, n'', hfn, hn''⟩ := hf a n' hn'
  refine ⟨b, n'', ?_, hn''⟩
  have steps : (w >>= f) n = (w n).bind fun p => f p.1 p.2 := rfl
  rw [steps, hwn]
  exact hfn

theorem succeeds_freshName (s : String) : Succeeds (freshName s) :=
  fun n hn => ⟨(n.counters.fresh s).1, n.bumped s, rfl, hn.bumped s⟩

/-- A name that has just been generated can be given to a parameter. -/
theorem succeeds_named (s : String) (v : ParamValue) (f : String → α) :
    Succeeds (do
      let name ← freshName s
      addParam ⟨name, v, true⟩
      return f name) := by
  intro n hn
  refine ⟨f (n.counters.fresh s).1, n.named s v, ?_, hn.named s v⟩
  have steps : (do
      let name ← freshName s
      addParam ⟨name, v, true⟩
      return f name : Written α) n =
      (addParam ⟨(n.counters.fresh s).1, v, true⟩ (n.bumped s)).bind fun p =>
        .ok (f (n.counters.fresh s).1, p.2) := rfl
  rw [steps, hn.addParam s v]
  rfl

theorem succeeds_generated (s : String) (v : ParamValue) : Succeeds (generated s v) :=
  succeeds_named s v fun name => ":" ++ name

theorem succeeds_mapM {xs : List α} {f : α → Written β} (h : ∀ x ∈ xs, (f x).Succeeds) :
    Succeeds (xs.mapM f) := by
  induction xs with
  | nil => exact .pure []
  | cons x xs ih =>
    rw [List.mapM_cons]
    refine (h x List.mem_cons_self).bind fun y => ?_
    exact (ih fun x' hx' => h x' (List.mem_cons_of_mem _ hx')).bind fun ys => .pure (y :: ys)

end Written

/-! ## Columns -/

section Columns

open Written

theorem repeatedLabel_succeeds (labels : Labels) (name : String) (id : Identity) :
    Succeeds (repeatedLabel labels name id) := by
  unfold repeatedLabel
  split
  · exact (succeeds_freshName _).bind fun _ => .pure _
  · split
    · exact (succeeds_freshName _).bind fun _ => .pure _
    · exact (succeeds_freshName _).bind fun _ => .pure _

/-- The text of a column before it is given a label. -/
def OutputColumn.write (c : OutputColumn) : Written String :=
  match c with
  | .column sc _ => pure sc.writtenName
  | .constant v _ => generated "param" (.one (.scalar v))

/-- A column with its label, its name in a row, and the names in use from then on. -/
def OutputColumn.labelled (c : OutputColumn) (place : Nat) (labels : Labels) (text : String) :
    Written (String × String × Labels) := do
  match c.label? with
  | some l =>
    return (text ++ " AS " ++ written l, l, ⟨labels.inUse ++ [(l, c.identity place)], labels.made⟩)
  | none =>
    match c.plainName? with
    | none =>
      let l ← freshName "anon"
      return (text ++ " AS " ++ l, l, labels)
    | some name =>
      if (labels.inUse.lookup name).isSome then
        let (l, labels) ← repeatedLabel labels name (c.identity place)
        return (text ++ " AS " ++ l, l, labels)
      else return (text, name, { labels with inUse := labels.inUse ++ [(name, c.identity place)] })

theorem writeColumn_eq (place : Nat) (labels : Labels) (c : OutputColumn) :
    writeColumn place labels c = (c.write >>= c.labelled place labels) := by
  cases c <;> rfl

theorem OutputColumn.write_succeeds (c : OutputColumn) : Succeeds c.write := by
  cases c with
  | column sc label => exact .pure _
  | constant v label => exact succeeds_generated _ _

theorem writeColumn_succeeds (place : Nat) (labels : Labels) (c : OutputColumn) :
    Succeeds (writeColumn place labels c) := by
  rw [writeColumn_eq]
  refine c.write_succeeds.bind fun text => ?_
  unfold OutputColumn.labelled
  split
  · exact .pure _
  · split
    · exact (succeeds_freshName _).bind fun _ => .pure _
    · split
      · exact (repeatedLabel_succeeds _ _ _).bind fun _ => .pure _
      · exact .pure _

theorem writeColumns_succeeds (place : Nat) (labels : Labels) (cs : List OutputColumn) :
    Succeeds (writeColumns place labels cs) := by
  induction cs generalizing place labels with
  | nil => exact .pure []
  | cons c cs ih =>
    exact (writeColumn_succeeds place labels c).bind fun x =>
      (ih (place + 1) x.2.2).bind fun _ => .pure _

/-! ## Names -/

/-- The name of a column where no two have the same; at most one column has none of its own. -/
def OutputColumn.name (c : OutputColumn) : String := c.plainName?.getD "anon_1"

theorem OutputColumn.label?_eq_some {c : OutputColumn} {l : String} (h : c.label? = some l) :
    c.plainName? = some l := by
  cases c with
  | column sc label =>
    cases h
    rfl
  | constant v label => exact h

/-- Writing the text of a column leaves the stem of columns without names alone. -/
theorem OutputColumn.run_write (c : OutputColumn) {n : Naming} (hn : n.Fresh) :
    ∃ text n', c.write n = .ok (text, n') ∧ n'.Fresh ∧ n'.next "anon" = n.next "anon" := by
  cases c with
  | column sc label => exact ⟨_, n, rfl, hn, rfl⟩
  | constant v label =>
    refine ⟨":" ++ (n.counters.fresh "param").1, n.named "param" (.one (.scalar v)), ?_,
      hn.named _ _, ?_⟩
    · have steps : OutputColumn.write (.constant v label) n =
          (addParam ⟨(n.counters.fresh "param").1, .one (.scalar v), true⟩ (n.bumped "param")).bind
            fun p => .ok (":" ++ (n.counters.fresh "param").1, p.2) := rfl
      rw [steps, hn.addParam]
      rfl
    · have hnext := n.next_bumped "param" "anon"
      rw [if_neg (by decide)] at hnext
      exact hnext

/-- A column whose name is not in use keeps it. -/
theorem run_writeColumn {c : OutputColumn} {labels : Labels} {n : Naming} (hn : n.Fresh)
    (huse : ∀ name, c.plainName? = some name → labels.inUse.lookup name = none)
    (hanon : c.plainName? = none → n.next "anon" = 1) (place : Nat) :
    ∃ (text : String) (labels' : Labels) (n' : Naming),
      writeColumn place labels c n = .ok ((text, c.name, labels'), n') ∧ n'.Fresh ∧
        (∀ name, some name ≠ c.plainName? → labels'.inUse.lookup name = labels.inUse.lookup name) ∧
        (c.plainName? ≠ none → n'.next "anon" = n.next "anon") := by
  obtain ⟨text, n', hwrite, hn', hnext⟩ := c.run_write hn
  have steps : writeColumn place labels c n = c.labelled place labels text n' := by
    have hbind : (c.write >>= c.labelled place labels) n =
        (c.write n).bind fun p => c.labelled place labels p.1 p.2 := rfl
    rw [writeColumn_eq, hbind, hwrite]
    rfl
  have hsnoc : ∀ (l name : String), some name ≠ some l →
      (labels.inUse ++ [(l, c.identity place)]).lookup name = labels.inUse.lookup name := by
    intro l name hne
    rw [List.lookup_append, List.lookup_cons, show (name == l) = false from
      beq_eq_false_iff_ne.mpr fun e => hne (congrArg some e)]
    exact Option.or_none
  rw [steps]
  unfold OutputColumn.labelled OutputColumn.name
  cases hl : c.label? with
  | some l =>
    have hplain := OutputColumn.label?_eq_some hl
    rw [hplain]
    exact ⟨_, _, n', rfl, hn', hsnoc l, fun _ => hnext⟩
  | none =>
    cases hp : c.plainName? with
    | none =>
      refine ⟨text ++ " AS " ++ (n'.counters.fresh "anon").1, labels, n'.bumped "anon", ?_,
        hn'.bumped _, fun _ _ => rfl, fun h => absurd rfl h⟩
      have hone : (n'.counters.lookup "anon").getD 1 = 1 := hnext.trans (hanon hp)
      have hname : (n'.counters.fresh "anon").1 = "anon_1" := by
        unfold Counters.fresh
        rw [hone]
        rfl
      rw [← hname]
      rfl
    | some name =>
      dsimp only
      rw [huse name hp, Option.isSome_none, if_neg Bool.false_ne_true]
      exact ⟨_, _, n', rfl, hn', hsnoc name, fun _ => hnext⟩

/-- Columns whose names are different keep their names. -/
theorem run_writeColumns {cs : List OutputColumn} (hcs : (cs.map OutputColumn.plainName?).Nodup)
    {labels : Labels} {n : Naming} (hn : n.Fresh)
    (huse : ∀ c ∈ cs, ∀ name, c.plainName? = some name → labels.inUse.lookup name = none)
    (hanon : none ∈ cs.map OutputColumn.plainName? → n.next "anon" = 1) (place : Nat) :
    ∃ (texts : List (String × String)) (n' : Naming),
      writeColumns place labels cs n = .ok (texts, n') ∧ texts.map (·.2) = cs.map (·.name) := by
  induction cs generalizing labels n place with
  | nil => exact ⟨[], n, rfl, rfl⟩
  | cons c cs ih =>
    rw [List.map_cons, List.nodup_cons] at hcs
    rw [List.map_cons] at hanon
    obtain ⟨text, labels', n', hc, hn', hlabels, hnext⟩ := run_writeColumn hn
      (huse c List.mem_cons_self) (fun h => hanon (h ▸ List.mem_cons_self)) place
    have huse' : ∀ d ∈ cs, ∀ name, d.plainName? = some name → labels'.inUse.lookup name = none := by
      intro d hd name hname
      rw [hlabels name fun e => hcs.1 (e ▸ hname ▸ List.mem_map_of_mem hd)]
      exact huse d (List.mem_cons_of_mem _ hd) name hname
    have hanon' : none ∈ cs.map OutputColumn.plainName? → n'.next "anon" = 1 := by
      intro hmem
      rw [hnext fun e => hcs.1 (e ▸ hmem)]
      exact hanon (List.mem_cons_of_mem _ hmem)
    obtain ⟨texts, n'', hrest, hnames⟩ := ih hcs.2 hn' huse' hanon' (place + 1)
    refine ⟨(text, c.name) :: texts, n'', ?_, ?_⟩
    · have steps : writeColumns place labels (c :: cs) n =
          (writeColumn place labels c n).bind fun p =>
            (writeColumns (place + 1) p.1.2.2 cs p.2).bind fun q =>
              .ok ((p.1.1, p.1.2.1) :: q.1, q.2) := rfl
      rw [steps, hc]
      simp only [Except.bind, hrest]
    · rw [List.map_cons, List.map_cons, hnames]

/-- The names of an answer whose columns have different names. -/
theorem Select.names_eq {s : Select} (h : (s.columns.map OutputColumn.plainName?).Nodup) :
    s.names = .ok (s.columns.map (·.name)) := by
  have hfree : ∀ c ∈ s.columns, ∀ name, c.plainName? = some name →
      Labels.empty.inUse.lookup name = none := fun _ _ _ _ => rfl
  obtain ⟨texts, n, hrun, hnames⟩ := run_writeColumns h .empty hfree (fun _ => rfl) 0
  have steps : s.names = (writeColumns 0 .empty s.columns .empty).map fun p => p.1.map (·.2) := rfl
  rw [steps, hrun, ← hnames]
  rfl

end Columns

/-! ## Conditions and statements -/

section Statements

open Written

theorem writeTerm_succeeds (c : SourceColumn) (t : Term) : Succeeds (writeTerm c t) := by
  cases t with
  | column d => exact .pure _
  | value s => exact succeeds_generated _ _
  | truth b => exact .pure _

theorem writeValidAt_succeeds (data : Source) (entityType : String) (instant : Instant) :
    Succeeds (writeValidAt data entityType instant) :=
  (succeeds_generated _ _).bind fun _ => (succeeds_generated _ _).bind fun _ =>
    (succeeds_freshName _).bind fun _ => .pure _

theorem Clause.writeAll_succeeds {cs : List Clause} (h : ∀ c ∈ cs, Succeeds c.write) :
    Succeeds (Clause.writeAll cs) := by
  induction cs with
  | nil => exact .pure []
  | cons c cs ih =>
    exact (h c List.mem_cons_self).bind fun _ =>
      (ih fun d hd => h d (List.mem_cons_of_mem _ hd)).bind fun _ => .pure _

theorem JoinedSource.writeAll_succeeds {js : List JoinedSource}
    (h : ∀ j ∈ js, Succeeds j.on.write) : Succeeds (JoinedSource.writeAll js) := by
  induction js with
  | nil => exact .pure ""
  | cons j js ih =>
    obtain ⟨source, on, outer⟩ := j
    exact ((h _ List.mem_cons_self).bind fun _ => .pure _).bind fun _ =>
      (ih fun d hd => h d (List.mem_cons_of_mem _ hd)).bind fun _ => .pure _

/-- A statement can be written if its parts can. -/
theorem Select.write_succeeds_of {s : Select} (hj : ∀ j ∈ s.joins, Succeeds j.on.write)
    (hc : ∀ c ∈ s.conditions, Succeeds c.write)
    (ho : ∀ o ∈ s.orders, ∃ c, o.1 = .column c) : Succeeds s.write := by
  obtain ⟨columns, base, joins, conditions, orders, limit⟩ := s
  rw [Select.write]
  refine (writeColumns_succeeds 0 .empty columns).bind fun _ => ?_
  refine (JoinedSource.writeAll_succeeds hj).bind fun _ => ?_
  refine (Clause.writeAll_succeeds hc).bind fun _ => ?_
  refine (succeeds_mapM ?_).bind fun _ => ?_
  · intro o hmem
    obtain ⟨c, he⟩ := ho o hmem
    obtain ⟨e, descending⟩ := o
    cases he
    exact (Succeeds.pure _).bind fun _ => .pure _
  · cases limit with
    | none => exact (Succeeds.pure _).bind fun _ => .pure _
    | some n => exact (succeeds_generated _ _).bind fun _ => (Succeeds.pure _).bind fun _ => .pure _

mutual

/-- A condition without text can be written. -/
theorem Clause.write_succeeds : ∀ (c : Clause) {p : SourceColumn → Prop}, c.Resolved p →
    Succeeds c.write
  | .compare _ c t, _, _ => (writeTerm_succeeds c t).bind fun _ => .pure _
  | .isNull _ _, _, _ => .pure _
  | .amongValues _ _ _, _, _ => succeeds_named _ _ _
  | .amongRows _ q _, _, h => (Select.write_succeeds q h.2).bind fun _ => .pure _
  | .raw _, _, h => h.elim
  | .parts _ cs, _, h => (Clause.writeAll_succeeds (Clause.each_write_succeeds cs h)).bind
      fun _ => .pure _
  | .group c, _, h => (Clause.write_succeeds c h).bind fun _ => .pure _
  | .truthOf c _, _, h => (Clause.write_succeeds c h).bind fun _ => .pure _
  | .inverse c, _, h => (Clause.write_succeeds c h).bind fun _ => .pure _
  | .hasRows q, _, h => (Select.write_succeeds q h).bind fun _ => .pure _
  | .validAt _ _ _ _, _, h => h.elim

theorem Clause.each_write_succeeds : ∀ (cs : List Clause) {p : SourceColumn → Prop},
    Clause.AllResolved p cs → ∀ c ∈ cs, Succeeds c.write
  | [], _, _ => fun _ hc => nomatch hc
  | c :: cs, _, h => List.forall_mem_cons.mpr
      ⟨Clause.write_succeeds c h.1, Clause.each_write_succeeds cs h.2⟩

theorem JoinedSource.each_write_succeeds : ∀ (js : List JoinedSource) {before : List Source},
    JoinedSource.AllResolved before js → ∀ j ∈ js, Succeeds j.on.write
  | [], _, _ => fun _ hj => nomatch hj
  | .mk _ on _ :: js, _, h => List.forall_mem_cons.mpr
      ⟨Clause.write_succeeds on h.1, JoinedSource.each_write_succeeds js h.2⟩

/-- A resolved statement can be written. -/
theorem Select.write_succeeds : ∀ q : Select, q.Resolved → Succeeds q.write
  | ⟨_, _, joins, conditions, _, _⟩, h =>
    Select.write_succeeds_of (JoinedSource.each_write_succeeds joins h.1)
      (Clause.each_write_succeeds conditions h.2.1) fun o ho => (h.2.2.2 o ho).exists_column

end

/-- What can be written has a text. -/
theorem Select.render_of_succeeds {s : Select} (h : Succeeds s.write) :
    ∃ x, s.render = .ok x := by
  obtain ⟨text, n, hw, -⟩ := h Naming.empty .empty
  have hrun : s.write.run Naming.empty = .ok (text, n) := hw
  exact ⟨(text, n.values), by rw [Select.render, hrun]; rfl⟩

end Statements

end Chronicle
