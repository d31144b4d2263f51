import Chronicle.Proofs.Entity.Current

/-!
# The time of the last change

A write leaves two times behind: that of the last change in the live row, and that of the new entry
in the journal.  Each of the two has its own rule for what is taken if several times are given.

* `Entity.Write.changeTime`, `Entity.Write.recordTime`: the time that each rule takes;
* `Entity.updatedAt_of_insertInto`, `Entity.updatedAt_of_saveInto`: the row keeps the time that the
  entity in hand had;
* `Entity.Write.exists_times`: both times after a journaled write;
* `Entity.Write.Agrees`: when the two times are the same.
-/

namespace Chronicle

open Chronicle.Calendar

namespace Schema

def updatedColumn : Column := ⟨"updated_at", .instant, false⟩

end Schema

theorem Kind.updatedColumn_mem (k : Kind) : Schema.updatedColumn ∈ k.table.columns := by
  cases k <;> decide

/-! ## Moments in the store -/

theorem Binding.bindInstant_instant {i : Instant} (hi : i.micros < Instant.bound) :
    Binding.bindInstant (.instant i) = .cell (.instant i) := by
  simp only [Value.instant, Binding.bindInstant, Instant.toStored_moment hi]

/-- A moment equals what is stored as the same instant only. -/
theorem Cell.eq_of_equals_instant {i : Instant} (hi : i.micros < Instant.bound) {c : Cell}
    (hc : ColumnType.instant.Takes c)
    (h : (Value.instant i).equals (.scalar (c.toScalar .instant)) = true) : c = .instant i := by
  cases c with
  | instant j =>
    obtain ⟨hoi, hwi⟩ := Instant.moment_spec hi
    obtain ⟨hoj, hwj⟩ := Instant.moment_spec hc
    change i.moment.equals j.moment = true at h
    simp only [Moment.equals, hoi, hoj, hwi, hwj, beq_iff_eq] at h
    obtain ⟨i⟩ := i
    obtain ⟨j⟩ := j
    have hij : i = j := by
      simp only at h
      omega
    rw [hij]
  | null => cases h
  | int _ => exact hc.elim
  | real _ => exact hc.elim
  | text _ => exact hc.elim

namespace Entity

variable {e e' : Entity} {kind : Kind} {clock i : Instant} {db db' : Database} {r : Row}

/-! ## Values under a name -/

/-- A value stands under a name, and no other one does. -/
def Gives (fs : List (String × Value)) (name : String) (v : Value) : Prop :=
  (name, v) ∈ fs ∧ ∀ f ∈ fs, f.1 = name → f.2 = v

namespace Gives

variable {fs : List (String × Value)} {name : String} {v : Value} (h : Gives fs name v)

include h

theorem lookup_filter (p : String × Value → Bool) :
    (fs.filter p).lookup name = if p (name, v) then some v else none := by
  split
  · next hp =>
    obtain ⟨w, hw⟩ : ∃ w, (fs.filter p).lookup name = some w := Option.isSome_iff_exists.mp
      (List.lookup_isSome_iff.mpr ⟨_, List.mem_filter.mpr ⟨h.1, hp⟩, beq_self_eq_true name⟩)
    obtain ⟨before, later, hfs, -⟩ := List.lookup_eq_some_iff.mp hw
    have hmem : (name, w) ∈ fs.filter p := hfs ▸ List.mem_append_right _ List.mem_cons_self
    exact hw.trans (congrArg some (h.2 _ (List.mem_filter.mp hmem).1 rfl))
  · next hp =>
    rw [List.lookup_eq_none_iff]
    intro f hf
    obtain ⟨hf, hpf⟩ := List.mem_filter.mp hf
    rw [bne_iff_ne]
    rintro rfl
    exact hp (h.2 f hf rfl ▸ hpf)

end Gives

/-- Other values under one name leave those under other names where they are. -/
theorem lookup_replaced (fs : List (String × Value)) (name : String) (w : Value) (n : String) :
    (fs.map fun f => if f.1 == name then (name, w) else f).lookup n =
      if n = name then (fs.lookup n).map fun _ => w else fs.lookup n := by
  induction fs with
  | nil => simp
  | cons f fs ih =>
    obtain ⟨m, v⟩ := f
    rw [List.map_cons, List.lookup_cons]
    by_cases hm : m = name
    · subst hm
      rw [if_pos (beq_self_eq_true m), List.lookup_cons, ih]
      by_cases hn : n = m
      · simp [hn]
      · simp [hn, show (n == m) = false by simpa using hn]
    · rw [if_neg (by simpa using hm), List.lookup_cons, ih]
      by_cases hn : n = m
      · subst hn
        simp [hm]
      · simp [show (n == m) = false by simpa using hn]

theorem gives_set (e : Entity) (name : String) (v : Value) : Gives (e.set name v).values name v := by
  unfold set
  split
  · next h =>
    obtain ⟨f, hf, hname⟩ := List.lookup_isSome_iff.mp h
    have hname : (f.1 == name) = true := beq_iff_eq.mpr (beq_iff_eq.mp hname).symm
    refine ⟨List.mem_map.mpr ⟨f, hf, if_pos hname⟩, fun g hg hgn => ?_⟩
    obtain ⟨f', -, rfl⟩ := List.mem_map.mp hg
    by_cases hf' : (f'.1 == name) = true
    · rw [if_pos hf']
    · rw [if_neg hf'] at hgn
      exact absurd (beq_iff_eq.mpr hgn) hf'
  · next h =>
    refine ⟨List.mem_append_right _ List.mem_cons_self, fun g hg hgn => ?_⟩
    rcases List.mem_append.mp hg with hg | hg
    · exact absurd (List.lookup_isSome_iff.mpr ⟨g, hg, beq_iff_eq.mpr hgn.symm⟩) h
    · rw [List.mem_singleton.mp hg]

/-! ## The row keeps the time of the entity in hand -/

theorem updatedAt_ofRow (h : r.cell "updated_at" = .instant i) :
    (ofRow kind r).updatedAt = some i.moment := by
  have hget : (ofRow kind r).get? "updated_at" = _ := get?_ofRow kind.updatedColumn_mem r
  rw [updatedAt, hget, show Schema.updatedColumn.name = "updated_at" from rfl, h]
  rfl

theorem updatedAt_of_insertInto (hi : i.micros < Instant.bound)
    (hv : Database.valueOf e.kind.table (e.values.filter fun f => !f.2.isNull) clock "updated_at" =
      .instant i) (h : e.insertInto clock db = .ok (e', db')) : e'.updatedAt = some i.moment := by
  obtain ⟨r, hr, rfl⟩ := insertInto_eq_ok_iff.mp h
  refine updatedAt_ofRow ((Database.cell_of_insert e.kind.table_mem hr e.kind.updatedColumn_mem
    (by decide)).trans ?_)
  change ((Binding.bindInstant (Database.valueOf _ _ clock "updated_at")).toCell).under _ = _
  rw [hv, Binding.bindInstant_instant hi]
  rfl

/-- A row that is given the values of an entity in hand, where they differ, has its time. -/
theorem cell_updated_of_changes (hi : i.micros < Instant.bound)
    (hg : Gives e.values "updated_at" (.instant i)) {old : Row} (hold : e.kind.table.Fits old) :
    (Database.revised e.kind.table old (e.changes old)).cell "updated_at" = .instant i := by
  have hlookup : (e.changes old).lookup "updated_at" =
      if (!(((ofRow e.kind old).get? "updated_at").any (Value.instant i).equals) &&
        "updated_at" != "id") = true then some (.instant i) else none := hg.lookup_filter _
  split at hlookup
  · have hcell := Database.cell_revised_of_some e.kind.table_mem hold e.kind.updatedColumn_mem
      hlookup
    refine hcell.trans ?_
    change (Binding.bindInstant (.instant i)).toCell.under _ = _
    rw [Binding.bindInstant_instant hi]
    rfl
  · next hsame =>
    rw [Database.cell_revised_of_none hlookup]
    have hget : (ofRow e.kind old).get? "updated_at" = _ := get?_ofRow e.kind.updatedColumn_mem old
    rw [hget] at hsame
    have htakes := hold.takes _ e.kind.updatedColumn_mem (by decide)
    have hequals : ¬(!(Value.instant i).equals
        (.scalar ((old.cell "updated_at").toScalar .instant)) && true) = true := hsame
    exact Cell.eq_of_equals_instant hi htakes (by simpa using hequals)

theorem updatedAt_of_saveInto (hs : db.Sound) (hi : i.micros < Instant.bound)
    (hg : Gives e.values "updated_at" (.instant i)) (h : e.saveInto clock db = .ok (e', db')) :
    e'.updatedAt = some i.moment := by
  have hfits := fun old hfound => hs.fits _ e.kind.table_mem old (mem_of_row? (e := e) hfound)
  rcases saveInto_cases h with ⟨-, hinsert⟩ | ⟨old, hfound, hsame, rfl, -⟩ |
    ⟨old, r, hfound, hu, rfl⟩
  · refine updatedAt_of_insertInto hi ?_ hinsert
    rw [Database.valueOf, hg.lookup_filter]
    rfl
  · have hcell := cell_updated_of_changes hi hg (hfits old hfound)
    rw [hsame] at hcell
    exact updatedAt_ofRow ((Database.cell_revised_of_none rfl).symm.trans hcell)
  · obtain ⟨-, rfl, -⟩ := Database.update_eq_ok_iff.mp hu
    exact updatedAt_ofRow (cell_updated_of_changes hi hg (hfits old hfound))

/-! ## The time of an entity in hand -/

/-- The time of the last change that is given with the values of a new entity. -/
def statedTime (values : List (String × Value)) : Option Moment :=
  match values.lookup "updated_at" with
  | some (.scalar (.moment m)) => some m
  | _ => none

theorem gives_of_assign {values : List (String × Value)} {recordedAt : Option Moment}
    (h : e.assign values recordedAt clock = (e', none)) :
    ∃ i, Journal.recordingTime recordedAt clock = .ok i ∧
      Gives e'.values "updated_at" (.instant i) := by
  unfold assign at h
  split at h
  · cases h
  · split at h
    · cases h
    · cases recordedAt with
      | none =>
        cases h
        exact ⟨clock, rfl, gives_set _ _ _⟩
      | some m =>
        cases hm : m.toInstant with
        | error f => simp [hm] at h
        | ok i =>
          simp only [hm] at h
          cases h
          exact ⟨i, hm, gives_set _ _ _⟩

/-- A new entity has the time it is given, and else the present. -/
theorem gives_new (kind : Kind) (values : List (String × Value)) (clock : Instant) :
    Gives (new kind values clock).values "updated_at"
      ((values.lookup "updated_at").getD (.instant clock)) := by
  have hcolumn : Schema.updatedColumn.name = "updated_at" := rfl
  constructor
  · refine List.mem_filterMap.mpr ⟨Schema.updatedColumn, kind.updatedColumn_mem, ?_⟩
    rw [hcolumn]
    cases values.lookup "updated_at" <;> rfl
  · intro f hf hname
    obtain ⟨c, hc, hfc⟩ := List.mem_filterMap.mp hf
    have hcol : ∀ k ∈ Kind.all, ∀ c ∈ k.table.columns, c.name = "updated_at" →
        c = Schema.updatedColumn := by decide
    have hcname : c.name = f.1 := by
      split at hfc
      · cases hfc
        rfl
      · split at hfc
        · cases hfc
        · cases hfc
          rfl
    obtain rfl := hcol kind kind.mem_all c hc (hcname.trans hname)
    rw [hcolumn] at hfc
    cases hv : values.lookup "updated_at" with
    | none =>
      rw [hv] at hfc
      cases hfc
      rfl
    | some v =>
      rw [hv] at hfc
      cases hfc
      rfl

theorem lookup_normalizeTime_of_ne {values values' : List (String × Value)} {name n : String}
    (h : normalizeTime values name = .ok values') (hn : n ≠ name) :
    values'.lookup n = values.lookup n := by
  unfold normalizeTime at h
  split at h
  · exact Except.ok.inj h ▸ rfl
  · exact Except.ok.inj h ▸ rfl
  · obtain ⟨i, -, h⟩ := bind_eq_ok_iff.mp h
    rw [← Except.ok.inj h, lookup_replaced, if_neg hn]
  · cases h

/-- What is known of the time of a new entity once it has been brought into UTC. -/
theorem exists_statedTime {values values' : List (String × Value)} (clock : Instant)
    (h : normalizeTime values "updated_at" = .ok values') :
    ∃ i, Journal.recordingTime (statedTime values) clock = .ok i ∧
      (values'.lookup "updated_at" = some (.instant i) ∨
        ((values'.lookup "updated_at").getD .null).isNull = true ∧ i = clock) := by
  unfold normalizeTime at h
  rw [statedTime]
  split at h
  · next hv =>
    cases h
    exact ⟨clock, by rw [hv]; rfl, Or.inr ⟨by rw [hv]; rfl, rfl⟩⟩
  · next hv =>
    cases h
    exact ⟨clock, by rw [hv]; rfl, Or.inr ⟨by rw [hv]; rfl, rfl⟩⟩
  · next m hv =>
    obtain ⟨i, hi, h⟩ := bind_eq_ok_iff.mp h
    refine ⟨i, by rw [hv]; exact hi, Or.inl ?_⟩
    rw [← Except.ok.inj h, lookup_replaced, if_pos rfl, hv]
    rfl
  · cases h

/-- The time of the last change in a new row. -/
theorem valueOf_new {values : List (String × Value)} {i : Instant}
    (h : values.lookup "updated_at" = some (.instant i) ∨
      ((values.lookup "updated_at").getD .null).isNull = true ∧ i = clock) :
    Database.valueOf kind.table ((new kind values clock).values.filter fun f => !f.2.isNull) clock
      "updated_at" = .instant i := by
  have husual : ((kind.table.column? "updated_at").map fun c => Value.scalar (c.usual clock)).getD
      .null = .instant clock := by cases kind <;> rfl
  rw [Database.valueOf, (gives_new kind values clock).lookup_filter]
  rcases h with h | ⟨h, rfl⟩
  · rw [h]
    rfl
  · cases hv : values.lookup "updated_at" with
    | none => rfl
    | some v =>
      rw [hv] at h
      have hnull : (!v.isNull) = false := by simpa using h
      simp only [Option.getD_some, hnull, Bool.false_eq_true, if_false]
      exact husual

/-! ## Both times of a write -/

namespace Write

variable {w : Write} {recordedAt : Option Moment} {clock : WallClock}

/-- The time that the live row is given; it is the present if there is none.  A new entity does not
look at the time of the entry. -/
def changeTime (recordedAt : Option Moment) : Write → Option Moment
  | create _ values => statedTime values
  | update _ _ => recordedAt

/-- The time that the entry is given; it is the present if there is none. -/
def recordTime (recordedAt : Option Moment) (w : Write) : Option Moment :=
  recordedAt.or (w.changeTime recordedAt)

/-- The first step of a write leaves the time of the change. -/
theorem updatedAt_of_live (hs : db.Sound)
    (h : w.live recordedAt clock.instant db = .ok (e, db')) :
    ∃ i, Journal.recordingTime (w.changeTime recordedAt) clock.instant = .ok i ∧
      e.updatedAt = some i.moment := by
  cases w with
  | create kind values =>
    obtain ⟨values₁, h₁, h⟩ := bind_eq_ok_iff.mp h
    obtain ⟨values₂, h₂, h⟩ := bind_eq_ok_iff.mp h
    obtain ⟨i, hi, hv⟩ := exists_statedTime clock.instant h₂
    rw [statedTime, lookup_normalizeTime_of_ne h₁ (by decide)] at hi
    exact ⟨i, hi, updatedAt_of_insertInto (Journal.recordingTime_lt hi) (valueOf_new hv) h⟩
  | update e₀ values =>
    rw [live] at h
    split at h
    · cases h
    · next e₁ hassign =>
      obtain ⟨i, hi, hg⟩ := gives_of_assign hassign
      exact ⟨i, hi, updatedAt_of_saveInto hs (Journal.recordingTime_lt hi) hg h⟩

/-- A journaled write that succeeds leaves both times behind: one in the row that it answers, the
other in the line that it appends. -/
theorem exists_times (h : Journal.Regular db)
    (hrun : (w.action recordedAt clock.instant).run db = (.ok e, db')) :
    ∃ r changed recorded,
      Journal.recordingTime (w.changeTime recordedAt) clock.instant = .ok changed ∧
      Journal.recordingTime (w.recordTime recordedAt) clock.instant = .ok recorded ∧
      e = ofRow e.kind r ∧ e.updatedAt = some changed.moment ∧
      db.Journals db' e.kind r recorded ∧
      ∀ k : Kind, ∀ x ∈ db'.tableRows k.table, k = e.kind ∧ x = r ∨ x ∈ db.tableRows k.table := by
  obtain ⟨r, time, he, htime, hj, hothers⟩ := exists_row h hrun
  obtain ⟨db₁, hl⟩ : ∃ db₁, w.live recordedAt clock.instant db = .ok (e, db₁) := by
    cases w with
    | create kind values => exact (live_of_create hrun).imp fun _ h => h.1
    | update e₀ values => exact (live_of_update hrun).imp fun _ h => h.1
  obtain ⟨changed, hchanged, hupdated⟩ := updatedAt_of_live h.sound hl
  refine ⟨r, changed, time, hchanged, ?_, he, hupdated, hj, hothers⟩
  rw [← htime, recordTime]
  cases recordedAt with
  | some m => rfl
  | none =>
    simp only [Option.none_or, hchanged, hupdated]
    exact (Instant.toInstant_moment (Journal.recordingTime_lt hchanged)).symm

/-- The time of the entry is that of the change: it is not given, or it is given for a change, or
the entity is new and is given the same time, or is created just then. -/
def Agrees (recordedAt : Option Moment) (clock : Instant) : Write → Prop
  | create _ values => ∀ m, recordedAt = some m →
      m.toInstant = Journal.recordingTime (statedTime values) clock
  | update _ _ => True

theorem agrees_iff (w : Write) (recordedAt : Option Moment) (clock : Instant) :
    w.Agrees recordedAt clock ↔ Journal.recordingTime (w.recordTime recordedAt) clock =
      Journal.recordingTime (w.changeTime recordedAt) clock := by
  cases w with
  | create kind values =>
    cases recordedAt with
    | none => exact iff_of_true nofun rfl
    | some m => exact ⟨fun h => h m rfl, fun h _ hm => Option.some.inj hm ▸ h⟩
  | update e₀ values => cases recordedAt <;> exact iff_of_true trivial rfl

end Write

end Entity

end Chronicle
