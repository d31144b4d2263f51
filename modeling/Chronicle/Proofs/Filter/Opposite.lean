import Mathlib.Data.Set.List
import Chronicle.Proofs.Filter.Compared

/-!
# Opposite conditions

Of two conditions that ask for the opposite of each other no entity passes both.  One of the two lets
it pass, except where equality, or its denial, is asked of an attribute without a value, or of a
number that the store has no room for: then neither does.

* `Filter.LetsPass`: an entity is among those that a filter lets pass;
* `Filter.letsPass_iff_passes`, `Filter.letsPass_pattern_iff`: when it is, by comparison or by pattern;
* `Filter.Opposes`: filters of one condition each, one the opposite of the other;
* `Filter.opposes_iff`: when one of the two lets an entity pass.
-/

namespace Chronicle

open Chronicle.Calendar

/-! ## Entities that pass -/

namespace Filter

/-- A filter lets an entity pass, among those with some numbers. -/
def LetsPass (f : Filter) (ids : List Int) (timestamp : Value) (moment : Option Moment)
    (clock : Instant) (db : Database) (n : Int) : Prop :=
  ∃ found, (f.matching (ids.map .int) timestamp moment clock).answer db = .ok found ∧
    .int n ∈ found

section LetsPass

variable {f : Filter} {ids : List Int} {timestamp : Value} {t : Timestamp} {moment : Option Moment}
  {clock i : Instant} {db : Database} (hdb : Journal.Regular db)
  (hids : ∀ n ∈ ids, Cell.isStorable n = true) (ht : timestamp.toTimestamp = .ok t)
  (hi : t.resolveAt moment clock = .ok i) (hbound : i.micros < Instant.bound) {live : Row}
  (hl : live ∈ db.tableRows f.kind.table) (hid : live.id ∈ ids) {e : Entry}
  (he : Journal.entryAtIn db f.kind live.id i = some e)

include hdb hl hid he

/-- An entity passes if the query asks for what is true of it. -/
theorem letsPass_iff {ps : List Predicate} {q : Query} (hps : f.predicates clock = .ok ps)
    (hq : (f.numbersQuery ps ids).asOfTimestamp timestamp moment clock = .ok q)
    {p : Row → Entry → Prop} (h : f.Lists q db i ids p) :
    f.LetsPass ids timestamp moment clock db live.id ↔ p live e := by
  obtain ⟨rows, hrows, hnumbers, hmem⟩ := h
  obtain ⟨found, hfound, -, hfrom⟩ := exists_runIds hrows hnumbers
  rw [LetsPass, matching_eq_runIds hps hq, hfound]
  constructor
  · rintro ⟨_, ⟨rfl⟩, hn⟩
    obtain ⟨live', hl', e', he', heq, -, hp⟩ := (hmem _).mp ((hfrom _).mp hn)
    obtain rfl := hdb.sound.eq_of_id f.kind.table_mem hl' hl (Scalar.int.inj heq).symm
    rwa [Option.some.inj (he.symm.trans he')]
  · exact fun hp => ⟨found, rfl, (hfrom _).mpr ((hmem _).mpr ⟨live, hl, e, he, rfl, hid, hp⟩)⟩

include hids ht hi hbound

/-- By comparison an entity passes if the conditions hold for its attributes. -/
theorem letsPass_iff_passes (hf : f.IsTyped) :
    f.LetsPass ids timestamp moment clock db live.id ↔ f.Passes (Journal.attributesIn live e) := by
  obtain ⟨ps, ds, hpredicates, hps, hds, hfrom, hto⟩ := f.exists_clauses hf clock
  obtain ⟨q, hq, hlists⟩ := exists_lists hids ht hi hbound hfrom hto hdb hps hds
  exact letsPass_iff hdb hl hid he hpredicates hq hlists

/-- By pattern it passes if the pattern is true of the cell of its attribute. -/
theorem letsPass_pattern_iff {field : String} (hfield : f.kind.hasAttribute field = true)
    {lacks : Bool} {v : String}
    (hpredicates : f.predicates clock = .ok [.raw (f.fragment field lacks v)]) :
    f.LetsPass ids timestamp moment clock db live.id ↔
      Condition.patternTruth lacks v ((Journal.stateRow f.kind live e).cell field) = some true := by
  obtain ⟨q, hq, hlists⟩ := exists_lists_pattern hfield lacks v ids ht hi hbound hids hdb
  exact letsPass_iff hdb hl hid he hpredicates hq hlists

end LetsPass

end Filter

/-! ## Conditions that are opposites -/

/-- Conditions on one attribute, with the same values, of which one asks for the opposite of the
other. -/
structure Condition.Opposes (c d : Condition) : Prop where
  field : d.field = c.field
  values : d.values = c.values
  operators : (c.operator, d.operator) ∈
    [(Operator.equals, Operator.differs), (.contains, .lacks), (.isPresent, .isMissing)]

/-- A filter has a single condition, on an attribute that is no point in time, with values of its
type. -/
structure Filter.AsksOnly (f : Filter) (c : Condition) : Prop where
  conditions : f.conditions = [c]
  lasting : c.field ∉ Condition.timeFields
  values : ∀ v ∈ c.values, v ≠ .null ∧ (f.kind.columnOf c.field).type.Admits v

/-- A value of a type can be compared if the store has room for it. -/
theorem ColumnType.Admits.has {type : ColumnType} {v : Value} (h : type.Admits v)
    (hnull : v ≠ .null) (hroom : ∀ i, v = .int i → Cell.isStorable i = true) : type.Has v := by
  cases h with
  | null => exact absurd rfl hnull
  | int i => exact .int (hroom i rfl)
  | text s => exact .text s
  | bool b => exact .bool b

namespace Condition

/-- Of equality with some values and its denial one holds, for an attribute that has a value, and
none for an attribute without one. -/
theorem Opposes.holds {c d : Condition} (h : c.Opposes d) (hop : c.operator = .equals)
    {type : ColumnType} (hv : ∀ v ∈ c.values, type.Has v) {x : Cell} (hx : type.Takes x) :
    ¬(c.Holds type (x.toScalar type) ∧ d.Holds type (x.toScalar type)) ∧
      ((c.Holds type (x.toScalar type) ∨ d.Holds type (x.toScalar type)) ↔
        x.toScalar type ≠ .null) := by
  have hop' : d.operator = .differs := by
    have hoperators := h.operators
    rw [hop] at hoperators
    simpa using hoperators
  have hpresent : ∀ v ∈ c.values, type.order (x.toScalar type) v = some .eq →
      x.toScalar type ≠ .null := by
    intro v hmem ho hnull
    have hsome := (hv v hmem).isSome_order hx
    rw [ho, (Cell.toScalar_eq_null_iff x type).mp hnull] at hsome
    cases hsome
  rw [holds_equals hv hop, holds_differs (h.values ▸ hv) hop', h.values]
  refine ⟨?_, ?_, fun hnull => ?_⟩
  · rintro ⟨⟨v, hmem, ho⟩, -, hnone⟩
    exact hnone v hmem ho
  · rintro (⟨v, hmem, ho⟩ | ⟨hnull, -⟩)
    · exact hpresent v hmem ho
    · exact hnull
  · by_cases hsome : ∃ v ∈ c.values, type.order (x.toScalar type) v = some .eq
    · exact .inl hsome
    · exact .inr ⟨hnull, fun v hmem ho => hsome ⟨v, hmem, ho⟩⟩

end Condition

namespace Filter

section AsksOnly

variable {f : Filter} {c : Condition} (h : f.AsksOnly c)

include h

theorem AsksOnly.mem : c ∈ f.conditions := h.conditions ▸ List.mem_singleton_self c

theorem AsksOnly.hasAttribute : f.kind.hasAttribute c.field = true := f.known c h.mem

/-- The values are compared as they are. -/
theorem AsksOnly.read (clock : Instant) : c.comparedValues clock = .ok c.values :=
  if_neg fun htime => h.lasting (List.contains_iff_mem.mp htime)

theorem AsksOnly.isTyped (hc : c.IsTyped (f.kind.columnOf c.field).type) : f.IsTyped := by
  rw [IsTyped, h.conditions]
  exact List.forall_mem_singleton.mpr hc

section Entity

variable {ids : List Int} {timestamp : Value} {t : Timestamp} {moment : Option Moment}
  {clock i : Instant} {db : Database} (hdb : Journal.Regular db)
  (hids : ∀ n ∈ ids, Cell.isStorable n = true) (ht : timestamp.toTimestamp = .ok t)
  (hi : t.resolveAt moment clock = .ok i) (hbound : i.micros < Instant.bound) {live : Row}
  (hl : live ∈ db.tableRows f.kind.table) (hid : live.id ∈ ids) {e : Entry}
  (he : Journal.entryAtIn db f.kind live.id i = some e)

include hdb hids ht hi hbound hl hid he

/-- An entity passes if the condition holds for its attribute. -/
theorem AsksOnly.letsPass_iff_holds (hc : c.IsTyped (f.kind.columnOf c.field).type) :
    f.LetsPass ids timestamp moment clock db live.id ↔ c.Holds (f.kind.columnOf c.field).type
      (((Journal.stateRow f.kind live e).cell c.field).toScalar (f.kind.columnOf c.field).type) := by
  obtain ⟨hcolumn, hname⟩ := Kind.columnOf_spec h.hasAttribute
  have hlookup := hdb.lookup_attributesIn hl he hcolumn
  rw [hname] at hlookup
  rw [letsPass_iff_passes hdb hids ht hi hbound hl hid he (h.isTyped hc), Passes, h.conditions,
    List.forall_mem_singleton, hlookup]
  simp only [Option.some.injEq, Value.scalar.injEq, exists_eq_left']

/-- By pattern it passes if the pattern is true of the cell of its attribute. -/
theorem AsksOnly.letsPass_iff_pattern (hop : c.operator = .contains ∨ c.operator = .lacks)
    {v : Value} (hv : c.values = [v]) : f.LetsPass ids timestamp moment clock db live.id ↔
      Condition.patternTruth (c.operator = .lacks) v.plain
        ((Journal.stateRow f.kind live e).cell c.field) = some true :=
  letsPass_pattern_iff hdb hids ht hi hbound hl hid he h.hasAttribute
    (predicates_of_pattern h.conditions hop ((h.read clock).trans (congrArg _ hv)))

end Entity

/-- With one whole number among them all values are whole numbers. -/
theorem AsksOnly.exists_numbers {i : Int} (hi : .int i ∈ c.values) :
    (f.kind.columnOf c.field).type = .integer ∧ ∃ ns : List Int, ns.map Value.int = c.values := by
  have hint : ∀ {type : ColumnType}, type.Admits (.int i) → type = .integer := by
    rintro _ ⟨⟩
    rfl
  have htype := hint (h.values _ hi).2
  have hall : c.values ∈ {vs : List Value | ∀ v ∈ vs, v ∈ Set.range Value.int} := by
    intro v hv
    obtain ⟨hnull, hadmits⟩ := h.values v hv
    rw [htype] at hadmits
    cases hadmits with
    | null => exact absurd rfl hnull
    | int j => exact ⟨j, rfl⟩
  rw [← Set.range_list_map] at hall
  exact ⟨htype, hall⟩

/-- If an entity passes by equality or its denial, the store has room for the values. -/
theorem AsksOnly.storable_of_letsPass (hop : c.operator = .equals ∨ c.operator = .differs)
    {ids : List Int} {timestamp : Value} {moment : Option Moment} {clock : Instant} {db : Database}
    {n : Int} (hproper : ∀ u, timestamp = .timestamp u → u.IsProper)
    (hpass : f.LetsPass ids timestamp moment clock db n) {i : Int} (hi : .int i ∈ c.values) :
    Cell.isStorable i = true := by
  obtain ⟨found, hfound, -⟩ := hpass
  obtain ⟨htype, ns, hns⟩ := h.exists_numbers hi
  have hcompares : c.ComparesWith clock (ns.map .int) := by
    refine ⟨by rcases hop with hop | hop <;> rw [hop] <;> rfl, ?_,
      List.forall_mem_map.mpr fun _ _ => rfl⟩
    rw [h.read, ← hns, List.map_map]
    rfl
  have hall : ∀ c' ∈ f.conditions, ∃ ss, c'.ComparesWith clock ss := by
    rw [h.conditions]
    exact List.forall_mem_singleton.mpr ⟨_, hcompares⟩
  obtain ⟨vs, hvs, hcells⟩ := exists_cells_of_matching hproper hfound hall h.mem hcompares
  rw [Kind.mapM_inUtc_int] at hvs
  cases hvs
  have hmem : i ∈ ns := by
    rw [← hns] at hi
    obtain ⟨j, hj, heq⟩ := List.mem_map.mp hi
    cases heq
    exact hj
  have hplain : Binding.ofColumn (f.kind.columnOf c.field).type
      ((ns.map Scalar.int).headD .null) = .plain := by
    cases ns with
    | nil => cases hmem
    | cons j ns =>
      rw [htype]
      rfl
  obtain ⟨y, hy⟩ := hcells (.int i) (List.mem_map_of_mem hmem)
  rw [hplain] at hy
  by_contra hroom
  have hrefused : Binding.plain.bind (.int i) = .refused .integerOutOfRange := if_neg hroom
  exact nomatch hrefused.symm.trans hy

end AsksOnly

/-- Of two opposite conditions no entity passes both.  It passes one of them, unless equality or its
denial is asked of an attribute without a value, or of a number that the store has no room for. -/
theorem opposes_iff {f g : Filter} {c d : Condition} (hf : f.AsksOnly c) (hg : g.AsksOnly d)
    (hkind : g.kind = f.kind) (h : c.Opposes d) {ids : List Int}
    (hids : ∀ n ∈ ids, Cell.isStorable n = true) {timestamp : Value} {moment : Option Moment}
    {clock : Instant} (hproper : ∀ u, timestamp = .timestamp u → u.IsProper) {db : Database}
    (hdb : db.Reached) {live : Row} (hl : live ∈ db.tableRows f.kind.table) (hid : live.id ∈ ids)
    {e : Entry}
    (he : (Journal.entryAt f.kind live.id timestamp moment clock).answer db = .ok (some e)) :
    ¬(f.LetsPass ids timestamp moment clock db live.id ∧
        g.LetsPass ids timestamp moment clock db live.id) ∧
      ((f.LetsPass ids timestamp moment clock db live.id ∨
          g.LetsPass ids timestamp moment clock db live.id) ↔
        (c.operator = .equals → (Journal.attributesIn live e).lookup c.field ≠ some .null ∧
          ∀ i, .int i ∈ c.values → Cell.isStorable i = true)) := by
  obtain ⟨t, i, ht, hi, hroom, he⟩ := Journal.answer_entryAt_eq_ok_iff.mp he
  have hbound := EntityView.resolveAt_lt (Value.isProper_toTimestamp ht hproper) hi
  have hregular := hdb.regular
  have hl' : live ∈ db.tableRows g.kind.table := hkind ▸ hl
  have he' : Journal.entryAtIn db g.kind live.id i = some e := hkind ▸ he
  have hholds := hf.letsPass_iff_holds hregular hids ht hi hbound hl hid he
  have hholds' := hg.letsPass_iff_holds hregular hids ht hi hbound hl' hid he'
  rw [hkind, h.field] at hholds'
  have hoperators := h.operators
  simp only [List.mem_cons, Prod.mk.injEq, List.not_mem_nil, or_false] at hoperators
  rcases hoperators with ⟨hop, hop'⟩ | ⟨hop, hop'⟩ | ⟨hop, hop'⟩
  · by_cases hstorable : ∀ i, .int i ∈ c.values → Cell.isStorable i = true
    · have hv : ∀ v ∈ c.values, (f.kind.columnOf c.field).type.Has v := fun v hv =>
        (hf.values v hv).2.has (hf.values v hv).1 fun i hi => hstorable i (hi ▸ hv)
      obtain ⟨hcolumn, hname⟩ := Kind.columnOf_spec hf.hasAttribute
      have htakes := hregular.takes_stateRow hl he hroom hcolumn
      have hlookup := hregular.lookup_attributesIn hl he hcolumn
      rw [hname] at htakes hlookup
      rw [hholds (by rw [Condition.IsTyped, hop]; exact .inr hv),
        hholds' (by rw [Condition.IsTyped, hop', h.values]; exact .inr hv), hlookup]
      obtain ⟨hnone, hone⟩ := h.holds hop hv htakes
      have hmissing : ∀ x : Scalar, some (Value.scalar x) = some .null ↔ x = .null := fun x => by
        simp [Value.null]
      exact ⟨hnone, hone.trans ⟨fun hx _ => ⟨mt (hmissing _).mp hx, hstorable⟩,
        fun hall => mt (hmissing _).mpr (hall hop).1⟩⟩
    · have hneither : ¬f.LetsPass ids timestamp moment clock db live.id := fun hpass =>
        hstorable fun i hi => hf.storable_of_letsPass (.inl hop) hproper hpass hi
      have hneither' : ¬g.LetsPass ids timestamp moment clock db live.id := fun hpass =>
        hstorable fun i hi => hg.storable_of_letsPass (.inr hop') hproper hpass (h.values ▸ hi)
      exact ⟨fun hboth => hneither hboth.1, iff_of_false (not_or.mpr ⟨hneither, hneither'⟩)
        fun hall => hstorable (hall hop).2⟩
  · obtain ⟨v, hv⟩ : ∃ v, c.values = [v] := by
      have hfits := c.fits
      rw [hop] at hfits
      exact List.length_eq_one_iff.mp (beq_iff_eq.mp hfits)
    have hcontains := hf.letsPass_iff_pattern hregular hids ht hi hbound hl hid he (.inl hop) hv
    have hlacks := hg.letsPass_iff_pattern hregular hids ht hi hbound hl' hid he' (.inr hop')
      (h.values.trans hv)
    rw [hop] at hcontains
    rw [hop', hkind, h.field] at hlacks
    have hopposite := Condition.patternTruth_lacks_iff v.plain
      ((Journal.stateRow f.kind live e).cell c.field)
    rw [hcontains, hlacks, hop]
    exact ⟨fun hboth => hopposite.mp hboth.2 hboth.1,
      iff_of_true ((em _).imp_right hopposite.mpr) fun heq => absurd heq (by decide)⟩
  · rw [hholds (by rw [Condition.IsTyped, hop]; trivial),
      hholds' (by rw [Condition.IsTyped, hop']; trivial), Condition.holds_present (.inl hop),
      Condition.holds_missing (.inl hop'), hop]
    exact ⟨fun hboth => hboth.1 hboth.2, iff_of_true (em' _) fun heq => absurd heq (by decide)⟩

/-- Work packages of which an attribute is compared with a text. -/
def draftIn (field : String) (op : Operator) (hop : op.accepts 1 = true)
    (hfield : Kind.workPackage.hasAttribute field = true) : Filter :=
  ⟨"draft", .workPackage, [⟨field, op, [.text "Draft"], hop⟩], List.forall_mem_singleton.mpr hfield⟩

/-- The first work package passes at noon. -/
def LetsDraftPass (f : Filter) : Prop :=
  f.LetsPass [1] (.timestamp (.absolute noonInUtc)) none Journal.firstDay.instant staffed 1

/-- A work package without description passes neither by equality nor by its denial, but by one of the
patterns; by its subject it passes one of each. -/
theorem opposes_iff_drafts :
    ¬((draftIn "description" .equals (by decide) (by decide)).LetsDraftPass ∨
      (draftIn "description" .differs (by decide) (by decide)).LetsDraftPass) ∧
    ((draftIn "description" .contains (by decide) (by decide)).LetsDraftPass ∨
      (draftIn "description" .lacks (by decide) (by decide)).LetsDraftPass) ∧
    ((draftIn "subject" .equals (by decide) (by decide)).LetsDraftPass ∨
      (draftIn "subject" .differs (by decide) (by decide)).LetsDraftPass) := by
  obtain ⟨live, hl, hid⟩ := List.mem_map.mp (ids_staffed ▸ List.mem_singleton_self 1)
  have hmem : live.id ∈ [1] := List.mem_singleton.mpr hid
  have hids : ∀ n ∈ [(1 : Int)], Cell.isStorable n = true := by decide
  have hshown : ∀ live ∈ staffed.tableRows Kind.workPackage.table,
      (Journal.entryAtIn staffed .workPackage 1 noonInUtc).map (fun e =>
        ["subject", "description"].map fun n =>
          ((Journal.attributesIn live e).lookup n).bind Value.toScalar?) =
        some [some (.text "Draft"), some .null] := by
    decide +kernel
  obtain ⟨e, he, hvalues⟩ := Option.map_eq_some_iff.mp (hshown live hl)
  simp only [List.map_cons, List.map_nil, List.cons.injEq, and_true] at hvalues
  obtain ⟨hsubject, hdescription⟩ := hvalues
  have hentry : (Journal.entryAt .workPackage live.id (.timestamp (.absolute noonInUtc)) none
      Journal.firstDay.instant).answer staffed = .ok (some e) := by
    rw [hid]
    exact Journal.answer_entryAt_eq_ok_iff.mpr ⟨_, _, rfl, rfl, by decide, he⟩
  have hpasses : ∀ field op op' hop hop' hfield, field ∉ Condition.timeFields →
      (Kind.workPackage.columnOf field).type = .text → (op, op') ∈
        [(Operator.equals, Operator.differs), (.contains, .lacks), (.isPresent, .isMissing)] →
      ((draftIn field op hop hfield).LetsDraftPass ∨ (draftIn field op' hop' hfield).LetsDraftPass ↔
        (op = .equals → (Journal.attributesIn live e).lookup field ≠ some .null)) := by
    intro field op op' hop hop' hfield hlasting htype hoperators
    have hvalue : ∀ v ∈ [Value.text "Draft"],
        v ≠ .null ∧ (Kind.workPackage.columnOf field).type.Admits v :=
      List.forall_mem_singleton.mpr ⟨nofun, htype ▸ .text "Draft"⟩
    have hf : (draftIn field op hop hfield).AsksOnly ⟨field, op, [.text "Draft"], hop⟩ :=
      ⟨rfl, hlasting, hvalue⟩
    have hg : (draftIn field op' hop' hfield).AsksOnly ⟨field, op', [.text "Draft"], hop'⟩ :=
      ⟨rfl, hlasting, hvalue⟩
    have hone := (opposes_iff hf hg rfl ⟨rfl, rfl, hoperators⟩ hids isProper_noonInUtc
      (⟨_, rfl⟩ : staffed.Reached) hl hmem hentry).2
    rw [hid] at hone
    refine hone.trans (imp_congr_right fun _ => and_iff_left fun i hi => ?_)
    cases List.mem_singleton.mp hi
  have hequality := fun field hfield hlasting htype => hpasses field .equals .differs (by decide)
    (by decide) hfield hlasting htype (by decide)
  refine ⟨fun hone => ?_, ?_, ?_⟩
  · have hpresent := (hequality "description" (by decide) (by decide) rfl).mp hone rfl
    obtain ⟨w, hw, hnull⟩ := Option.bind_eq_some_iff.mp hdescription
    cases w <;> cases hnull
    exact hpresent hw
  · exact (hpasses "description" .contains .lacks (by decide) (by decide) (by decide) (by decide) rfl
      (by decide)).mpr nofun
  · refine (hequality "subject" (by decide) (by decide) rfl).mpr fun _ hlookup => ?_
    rw [hlookup] at hsubject
    cases hsubject

end Filter

end Chronicle
