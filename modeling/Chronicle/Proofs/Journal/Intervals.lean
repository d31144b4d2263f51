import Chronicle.Proofs.Journal.Timeline

/-!
# Intervals of validity

A version of an entity holds from the time at which it was recorded until the next one was, and the
last version holds from its time on.  From the first time on exactly one version holds.

* `Journal.Consecutive`: entries whose versions count from one and whose times do not go back;
* `Journal.HoldsAt`: an entry holds at an instant;
* `Journal.Consecutive.holding_eq_some_iff`: the last entry recorded by an instant is the one that
  holds then;
* `Journal.intervals_partition`: what the reads of an entity answer, and how these answers belong
  together.
-/

namespace Chronicle

open Chronicle.Calendar

namespace Journal

/-! ## Consecutive entries -/

/-- Versions that count from one, none recorded before the version that precedes it. -/
structure Consecutive (es : List Entry) : Prop where
  versions : es.map Entry.version = (List.range es.length).map fun k : Nat => (k : Int) + 1
  times : es.Pairwise fun a b => a.recordedAt.micros ≤ b.recordedAt.micros

/-- An entry holds at an instant if it was recorded by then and the version after it was not. -/
def HoldsAt (es : List Entry) (i : Instant) (e : Entry) : Prop :=
  e ∈ es ∧ e.recordedAt.micros ≤ i.micros ∧
    (e.version = es.length ∨
      ∃ next ∈ es, next.version = e.version + 1 ∧ i.micros < next.recordedAt.micros)

/-- The last entry that was recorded by an instant. -/
def holding (es : List Entry) (i : Instant) : Option Entry :=
  (es.filter fun e => e.recordedAt.micros ≤ i.micros).getLast?

theorem entryAtIn_eq_holding (db : Database) (kind : Kind) (id : Int) (i : Instant) :
    entryAtIn db kind id i = holding (entriesIn db kind id) i := rfl

/-- An instant parts the entries into those recorded by then and those recorded later. -/
theorem exists_parted {es : List Entry}
    (h : es.Pairwise fun a b => a.recordedAt.micros ≤ b.recordedAt.micros) (i : Instant) :
    ∃ before later, es = before ++ later ∧ (∀ e ∈ before, e.recordedAt.micros ≤ i.micros) ∧
      ∀ e ∈ later, i.micros < e.recordedAt.micros := by
  induction es with
  | nil => exact ⟨[], [], rfl, nofun, nofun⟩
  | cons e es ih =>
    obtain ⟨he, hes⟩ := List.pairwise_cons.mp h
    by_cases hi : e.recordedAt.micros ≤ i.micros
    · obtain ⟨before, later, rfl, hb, hl⟩ := ih hes
      exact ⟨e :: before, later, rfl, List.forall_mem_cons.mpr ⟨hi, hb⟩, hl⟩
    · have hlt : i.micros < e.recordedAt.micros := Nat.lt_of_not_le hi
      exact ⟨[], e :: es, rfl, nofun, List.forall_mem_cons.mpr
        ⟨hlt, fun e' he' => Nat.lt_of_lt_of_le hlt (he e' he')⟩⟩

theorem holding_parted {before later : List Entry} {i : Instant}
    (hb : ∀ e ∈ before, e.recordedAt.micros ≤ i.micros)
    (hl : ∀ e ∈ later, i.micros < e.recordedAt.micros) :
    holding (before ++ later) i = before.getLast? := by
  have hbefore : (before.filter fun e => e.recordedAt.micros ≤ i.micros) = before :=
    List.filter_eq_self.mpr fun e he => decide_eq_true (hb e he)
  have hlater : (later.filter fun e => e.recordedAt.micros ≤ i.micros) = [] :=
    List.filter_eq_nil_iff.mpr fun e he hle => by
      have := hl e he
      have := of_decide_eq_true hle
      omega
  rw [holding, List.filter_append, hbefore, hlater, List.append_nil]

theorem exists_holding {es : List Entry} {e : Entry} {i : Instant} (he : e ∈ es)
    (hi : e.recordedAt.micros ≤ i.micros) : ∃ e', holding es i = some e' := by
  cases hnone : holding es i with
  | some e' => exact ⟨e', rfl⟩
  | none =>
    have hempty := List.filter_eq_nil_iff.mp (List.getLast?_eq_none_iff.mp hnone) e he
    exact absurd (decide_eq_true hi) hempty

namespace Consecutive

variable {es : List Entry} {e e' : Entry} {i j : Instant}

/-- The version of an entry is its place. -/
theorem version_eq {before later : List Entry} (h : Consecutive (before ++ e :: later)) :
    e.version = before.length + 1 := by
  have hv := congrArg (fun vs => vs[before.length]?) h.versions
  simpa using hv

theorem exists_place (h : Consecutive es) (he : e ∈ es) : ∃ before later,
    es = before ++ e :: later ∧ e.version = before.length + 1 := by
  obtain ⟨before, later, rfl⟩ := List.append_of_mem he
  exact ⟨before, later, rfl, h.version_eq⟩

theorem version_le (h : Consecutive es) (he : e ∈ es) : e.version ≤ es.length := by
  obtain ⟨before, later, rfl, hv⟩ := h.exists_place he
  simp only [List.length_append, List.length_cons]
  omega

theorem pairwise (h : Consecutive es) : es.Pairwise fun a b =>
    a.version < b.version ∧ a.recordedAt.micros ≤ b.recordedAt.micros := by
  refine List.Pairwise.and ?_ h.times
  have hrange : ((List.range es.length).map fun k : Nat => (k : Int) + 1).Pairwise (· < ·) := by
    rw [List.pairwise_map]
    exact List.pairwise_lt_range.imp fun {a b} hab => by omega
  rw [← h.versions] at hrange
  exact List.pairwise_map.mp hrange

/-- Versions and times grow together. -/
theorem recordedAt_le (h : Consecutive es) (he : e ∈ es) (he' : e' ∈ es)
    (hv : e.version ≤ e'.version) : e.recordedAt.micros ≤ e'.recordedAt.micros := by
  obtain ⟨before, later, rfl⟩ := List.append_of_mem he
  obtain ⟨-, hlater, hbefore⟩ := List.pairwise_append.mp h.pairwise
  rcases List.mem_append.mp he' with hmem | hmem
  · have := (hbefore e' hmem e List.mem_cons_self).1
    omega
  · rcases List.mem_cons.mp hmem with rfl | hmem
    · exact Nat.le_refl _
    · exact ((List.pairwise_cons.mp hlater).1 e' hmem).2

/-- Entries are told apart by their versions. -/
theorem eq_of_version (h : Consecutive es) (he : e ∈ es) (he' : e' ∈ es)
    (hv : e.version = e'.version) : e = e' := by
  obtain ⟨before, later, hes, hb⟩ := h.exists_place he
  obtain ⟨before', later', hes', hb'⟩ := h.exists_place he'
  have hlength : before.length = before'.length := by omega
  exact (List.cons.inj (List.append_inj_right (hes.symm.trans hes') hlength)).1

/-- No entry holds before the first one was recorded. -/
theorem holding_eq_none_iff (h : Consecutive es) :
    holding es i = none ↔
      es = [] ∨ ∃ first, es.head? = some first ∧ i.micros < first.recordedAt.micros := by
  obtain ⟨before, later, rfl, hb, hl⟩ := exists_parted h.times i
  rw [holding_parted hb hl, List.getLast?_eq_none_iff]
  cases before with
  | nil =>
    cases later with
    | nil => simp
    | cons e later => simpa using hl e List.mem_cons_self
  | cons e before =>
    have := hb e List.mem_cons_self
    simp
    omega

/-- The entry that is found stands just before those that were recorded later. -/
theorem exists_of_holding (h : Consecutive es) (hi : holding es i = some e) :
    ∃ before later, es = before ++ e :: later ∧ e.version = before.length + 1 ∧
      (∀ e' ∈ before, e'.recordedAt.micros ≤ i.micros) ∧ e.recordedAt.micros ≤ i.micros ∧
      ∀ e' ∈ later, i.micros < e'.recordedAt.micros := by
  obtain ⟨recorded, later, rfl, hr, hl⟩ := exists_parted h.times i
  rw [holding_parted hr hl] at hi
  obtain ⟨before, rfl⟩ := List.getLast?_eq_some_iff.mp hi
  rw [List.append_assoc, List.singleton_append] at h ⊢
  exact ⟨before, later, rfl, h.version_eq, fun e' he' => hr e' (List.mem_append_left _ he'),
    hr e (List.mem_append_right _ List.mem_cons_self), hl⟩

/-- Among the entries recorded by an instant, the one that is found has the latest time, and the
last version. -/
theorem le_of_holding (h : Consecutive es) (hi : holding es i = some e) (he' : e' ∈ es)
    (hle : e'.recordedAt.micros ≤ i.micros) :
    e'.recordedAt.micros ≤ e.recordedAt.micros ∧ e'.version ≤ e.version := by
  obtain ⟨before, later, rfl, hv, -, -, hl⟩ := h.exists_of_holding hi
  have hversion : e'.version ≤ e.version := by
    rcases List.mem_append.mp he' with hmem | hmem
    · exact Int.le_of_lt ((List.pairwise_append.mp h.pairwise).2.2 e' hmem e List.mem_cons_self).1
    · rcases List.mem_cons.mp hmem with rfl | hmem
      · exact Int.le_refl _
      · exact absurd hle (Nat.not_le_of_lt (hl e' hmem))
  exact ⟨h.recordedAt_le he' (by simp) hversion, hversion⟩

theorem holdsAt_of_holding (h : Consecutive es) (hi : holding es i = some e) :
    HoldsAt es i e := by
  obtain ⟨before, later, rfl, hv, -, hle, hl⟩ := h.exists_of_holding hi
  refine ⟨by simp, hle, ?_⟩
  cases later with
  | nil =>
    refine Or.inl ?_
    simp only [List.length_append, List.length_singleton]
    omega
  | cons next later =>
    refine Or.inr ⟨next, by simp, ?_, hl next List.mem_cons_self⟩
    have hnext : Consecutive ((before ++ [e]) ++ next :: later) := by
      rw [List.append_assoc]
      exact h
    have := hnext.version_eq
    simp only [List.length_append, List.length_singleton] at this
    omega

/-- An entry is found just where it holds, so one entry holds at most. -/
theorem holding_eq_some_iff (h : Consecutive es) : holding es i = some e ↔ HoldsAt es i e := by
  refine ⟨h.holdsAt_of_holding, fun ⟨he, hle, hlast⟩ => ?_⟩
  obtain ⟨e₁, h₁⟩ := exists_holding he hle
  obtain ⟨he₁, hle₁, -⟩ := h.holdsAt_of_holding h₁
  have hge := (h.le_of_holding h₁ he hle).2
  have hbound : e₁.version ≤ e.version := by
    rcases hlast with hlast | ⟨next, hnext, hv, hlt⟩
    · exact hlast ▸ h.version_le he₁
    · -- a version from the next one on would not have been recorded by then
      refine Int.not_lt.mp fun hgt => ?_
      have := h.recordedAt_le hnext he₁ (by omega)
      omega
  rw [h₁, h.eq_of_version he₁ he (Int.le_antisymm hbound hge)]

/-- A later instant finds no smaller version. -/
theorem holding_mono (h : Consecutive es) (hij : i.micros ≤ j.micros)
    (hi : holding es i = some e) : ∃ e', holding es j = some e' ∧ e.version ≤ e'.version := by
  obtain ⟨he, hle, -⟩ := h.holdsAt_of_holding hi
  obtain ⟨e', hj⟩ := exists_holding he (Nat.le_trans hle hij)
  exact ⟨e', hj, (h.le_of_holding hj he (Nat.le_trans hle hij)).2⟩

end Consecutive

/-! ## The reads of an entity -/

section Reads

variable {db : Database} (h : Regular db) (kind : Kind) (id : Int)

include h

theorem Regular.map_entriesIn {α : Type} (f : Entry → α) (g : Row → α)
    (hfg : ∀ r data, f (entryOfRows kind r data) = g r) :
    (entriesIn db kind id).map f = (rowsOf db kind id).map g := by
  rw [h.entriesIn_eq]
  have hfound : ∀ r ∈ rowsOf db kind id, ((entryOf? db kind r).map f) = some (g r) := by
    intro r hr
    obtain ⟨data, -, hdata⟩ := h.find?_payload hr
    rw [entryOf?, hdata, Option.map_some, Option.map_some, hfg]
  rw [List.map_filterMap, List.filterMap_congr hfound, List.filterMap_eq_map']

theorem Regular.length_entriesIn_eq :
    (entriesIn db kind id).length = (rowsOf db kind id).length := by
  simpa using congrArg List.length (h.map_entriesIn kind id (fun _ => ()) (fun _ => ()) fun _ _ => rfl)

theorem Regular.consecutive : Consecutive (entriesIn db kind id) where
  versions := by
    have hv := congrArg (List.map intCell) (h.versions kind id)
    rw [List.map_map, List.map_map] at hv
    rw [h.map_entriesIn kind id Entry.version (fun r => intCell (r.cell "version")) fun _ _ => rfl,
      h.length_entriesIn_eq kind id]
    exact hv
  times := by
    have ht : ((entriesIn db kind id).map fun e => e.recordedAt.micros).Pairwise (· ≤ ·) := by
      rw [h.map_entriesIn kind id (fun e => e.recordedAt.micros) timeOf fun _ _ => rfl,
        List.pairwise_map]
      exact h.times kind id
    exact List.pairwise_map.mp ht

/-- The entries of an entity are of its kind and have its number. -/
theorem Regular.of_mem_entriesIn {e : Entry} (he : e ∈ entriesIn db kind id) :
    e.kind = kind ∧ e.entityId = id := by
  obtain ⟨r, hr, hfound⟩ := (mem_entriesIn_iff _ _ _ _).mp he
  obtain ⟨data, -, rfl⟩ := Option.map_eq_some_iff.mp hfound
  obtain ⟨version, dataId, time, e⟩ := h.exists_of_mem_rowsOf hr
  refine ⟨rfl, ?_⟩
  rw [entryOfRows, e]
  simp [intCell]

theorem Regular.answer_count : (count (some kind) (some id)).answer db =
    ifStorable id (entriesIn db kind id).length := by
  rw [h.length_entriesIn_eq kind id]
  exact answer_read id (fun db => (rowsOf db kind id).length) db

end Reads

/-- The reads of an entity answer from one list of versions, counted from one and with times that
do not go back.  No version holds before the time of the first one; from then on exactly one does,
which is the one that is read, the latest of all that were recorded by then and never a smaller
version than an earlier instant had. -/
theorem intervals_partition {db : Database} (hdb : db.Reached) (kind : Kind) (id : Int) :
    ∃ (es : List Entry) (found : Instant → Option Entry),
      (entries kind id).answer db = ifStorable id es ∧
      (count (some kind) (some id)).answer db = ifStorable id es.length ∧
      (latest kind id).answer db = ifStorable id es.getLast? ∧
      (∀ (timestamp : Value) (now : Option Moment) (clock : Instant),
        (entryAt kind id timestamp now clock).answer db =
          (timestamp.toTimestamp.bind fun t => t.resolveAt now clock).bind fun i =>
            ifStorable id (found i)) ∧
      (∀ e ∈ es, e.kind = kind ∧ e.entityId = id) ∧
      es.map Entry.version = (List.range es.length).map (fun k : Nat => (k : Int) + 1) ∧
      ∀ i,
        (found i = none ↔
          es = [] ∨ ∃ first, es.head? = some first ∧ i.micros < first.recordedAt.micros) ∧
        (found i ≠ none → ∃! e, HoldsAt es i e) ∧
        (∀ e, found i = some e ↔ HoldsAt es i e) ∧
        (∀ e, found i = some e → ∀ e' ∈ es, e'.recordedAt.micros ≤ i.micros →
          e'.recordedAt.micros ≤ e.recordedAt.micros ∧ e'.version ≤ e.version) ∧
        ∀ j e, i.micros ≤ j.micros → found i = some e →
          ∃ e', found j = some e' ∧ e.version ≤ e'.version := by
  have h := hdb.regular
  have hes := h.consecutive kind id
  refine ⟨entriesIn db kind id, entryAtIn db kind id, answer_entries db kind id,
    h.answer_count kind id, answer_latest db kind id, answer_entryAt db kind id,
    fun e => h.of_mem_entriesIn kind id, hes.versions, fun i => ?_⟩
  simp only [entryAtIn_eq_holding]
  refine ⟨hes.holding_eq_none_iff, fun hne => ?_, fun e => hes.holding_eq_some_iff,
    fun e hi e' he' hle => hes.le_of_holding hi he' hle, fun j e hij hi => hes.holding_mono hij hi⟩
  obtain ⟨e, hi⟩ := Option.ne_none_iff_exists'.mp hne
  refine ⟨e, hes.holding_eq_some_iff.mp hi, fun e' he' => ?_⟩
  exact Option.some.inj ((hes.holding_eq_some_iff.mpr he').symm.trans hi)

/-- A work package with two entries at noon. -/
def redrafted : Database := .after
  [.record .workPackage 7 [("subject", .text "Draft")] (some (noon 0)) firstDay,
    .record .workPackage 7 [("subject", .text "Plan")] (some (noon 0)) firstDay]

theorem intervals_partition_redrafted : ∃ (es : List Entry) (i : Instant),
    (noon 0).toInstant = .ok i ∧ (entries .workPackage 7).answer redrafted = .ok es ∧
      es.map Entry.version = [1, 2] ∧ ∃! e, HoldsAt es i e := by
  have hreached : redrafted.Reached := ⟨_, rfl⟩
  obtain ⟨es, found, hes, -, -, -, -, hversions, hfound⟩ :=
    intervals_partition hreached .workPackage 7
  have hentries : es = entriesIn redrafted .workPackage 7 :=
    Except.ok.inj (hes.symm.trans (answer_entries redrafted .workPackage 7))
  have htimes : es.map (fun e => e.recordedAt.micros) = [63850161600000000, 63850161600000000] := by
    rw [hentries, hreached.regular.map_entriesIn _ _ _ timeOf fun _ _ => rfl]
    decide +kernel
  have hlength : es.length = 2 := by simpa using congrArg List.length htimes
  rw [hlength] at hversions
  refine ⟨es, ⟨63850161600000000⟩, rfl, hes, hversions, (hfound _).2.1 fun hnone => ?_⟩
  rcases (hfound _).1.mp hnone with rfl | ⟨first, hfirst, hlt⟩
  · cases hlength
  · have hhead := congrArg List.head? htimes
    rw [List.head?_map, hfirst, Option.map_some, List.head?_cons, Option.some.injEq] at hhead
    exact absurd hhead (Nat.ne_of_gt hlt)

end Journal

end Chronicle
