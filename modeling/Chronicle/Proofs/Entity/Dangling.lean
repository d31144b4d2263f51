import Chronicle.Proofs.Journal.Append

/-!
# References that lead nowhere

A work package may name its project by a number that no project has.  A store that checks its
references refuses such a row where it takes one in, and where it takes another reference for an old
one.

* `Database.RefersSoundly`: every work package has a stored project, or none;
* `Database.gainsDangling`: some work package has a new reference that leads nowhere;
* `Database.insert_of_gains`, `Database.insert_missingReference`: what is refused of new rows;
* `Database.update_of_gains`, `Database.update_missingReference`: what is refused of changed ones.
-/

namespace Chronicle

open Chronicle.Calendar

/-! ## References -/

/-- A reference leads to no row. -/
def Failure.missingReference : Failure := .constraint "FOREIGN KEY constraint failed"

namespace Database

/-- The number of a stored project, or no number. -/
def refers (db : Database) (c : Cell) : Bool :=
  c.isNull || (db.tableRows Schema.projects).any fun p => p.cell "id" == c

/-- Every work package has a stored project, or none. -/
def RefersSoundly (db : Database) : Prop :=
  ∀ r ∈ db.tableRows Schema.workPackages, db.refers (r.cell "project_id") = true

/-- Some work package has a reference that it did not have before, and that leads nowhere. -/
def gainsDangling (db db' : Database) : Bool :=
  (db'.tableRows Schema.workPackages).any fun r => !db'.refers (r.cell "project_id") &&
    (db.tableRows Schema.workPackages).all fun s =>
      s.id != r.id || s.cell "project_id" != r.cell "project_id"

/-- The same rows in a store that does not check references. -/
def unchecked (db : Database) : Database := { db with checksReferences := false }

theorem gainsDangling_eq_true_iff {db db' : Database} : db.gainsDangling db' = true ↔
    ∃ r ∈ db'.tableRows Schema.workPackages, db'.refers (r.cell "project_id") = false ∧
      ∀ s ∈ db.tableRows Schema.workPackages, s.id = r.id →
        s.cell "project_id" ≠ r.cell "project_id" := by
  simp only [gainsDangling, List.any_eq_true, List.all_eq_true, Bool.and_eq_true,
    Bool.not_eq_true', Bool.or_eq_true, bne_iff_ne, ← imp_iff_not_or]

theorem gainsDangling_of_same {db db' : Database}
    (h : db'.tableRows Schema.workPackages = db.tableRows Schema.workPackages) :
    db.gainsDangling db' = false := by
  by_contra hgains
  obtain ⟨r, hr, -, hnew⟩ := gainsDangling_eq_true_iff.mp (Bool.not_eq_false _ ▸ hgains)
  exact hnew r (h ▸ hr) rfl rfl

theorem refers_of_same {db db' : Database}
    (h : db'.tableRows Schema.projects = db.tableRows Schema.projects) :
    db'.refers = db.refers := by
  funext c
  rw [refers, refers, h]

/-- Rows are all that counts. -/
theorem gainsDangling_congr {db db' db₁ : Database} (h : db₁.rows = db'.rows) :
    db.gainsDangling db₁ = db.gainsDangling db' := by
  obtain ⟨rows, checks⟩ := db₁
  cases h
  rfl

variable {db db' : Database} {r old : Row}

/-! ## Rows that are taken in -/

/-- A cell of a column of numbers is of the form that numbers prefer. -/
theorem under_of_takes {c : Cell} (h : ColumnType.integer.Takes c) : c.under .numeric = c := by
  cases c with
  | real x => exact h.2
  | text s => exact h
  | _ => rfl

theorem under_project_id (h : Schema.workPackages.Fits r) :
    (r.cell "project_id").under .numeric = r.cell "project_id" :=
  under_of_takes (h.takes ⟨"project_id", .integer, true⟩ (by decide) (by decide))

/-- A row of work packages is refused if the store checks and its reference is among the columns in
question and leads nowhere. -/
theorem checkReferences_workPackages (hr : Schema.workPackages.Fits r) (columns : List String) :
    checkReferences db Schema.workPackages columns r =
      if db.checksReferences && columns.contains "project_id" && !db.refers (r.cell "project_id")
      then .error .missingReference else .ok () := by
  have hreferences : Schema.workPackages.references = [("project_id", Schema.projects)] := rfl
  simp only [checkReferences, hreferences, List.any_cons, List.any_nil, Bool.or_false,
    under_project_id hr, refers, Bool.not_or, Bool.and_assoc, Failure.missingReference]

theorem refers_setRows_workPackages (rows : List Row) :
    (db.setRows Schema.workPackages rows).refers = db.refers :=
  refers_of_same (tableRows_setRows_of_ne db rows (by decide))

/-- A new work package adds a reference that leads nowhere if its own one does. -/
theorem gainsDangling_place (hfresh : ∀ s ∈ db.tableRows Schema.workPackages, s.id ≠ r.id) :
    db.gainsDangling (db.setRows Schema.workPackages
      (place r (db.tableRows Schema.workPackages))) = !db.refers (r.cell "project_id") := by
  rw [Bool.eq_iff_iff, gainsDangling_eq_true_iff, tableRows_setRows, refers_setRows_workPackages,
    Bool.not_eq_true']
  constructor
  · rintro ⟨s, hs, hdangles, hnew⟩
    rcases (mem_place r s _).mp hs with rfl | hs
    · exact hdangles
    · exact absurd rfl (hnew s hs rfl)
  · intro hdangles
    exact ⟨r, (mem_place r r _).mpr (Or.inl rfl), hdangles,
      fun s hs hid => absurd hid (hfresh s hs)⟩

/-- A work package that is replaced adds a reference that leads nowhere if its own one does and is
another one than before. -/
theorem gainsDangling_replaced (hs : db.Sound) (hold : old ∈ db.tableRows Schema.workPackages)
    (hid : r.id = old.id) :
    db.gainsDangling (db.setRows Schema.workPackages ((db.tableRows Schema.workPackages).map
      fun s => if s.cell "id" == old.cell "id" then r else s)) = true ↔
        db.refers (r.cell "project_id") = false ∧ old.cell "project_id" ≠ r.cell "project_id" := by
  rw [gainsDangling_eq_true_iff, tableRows_setRows, refers_setRows_workPackages]
  constructor
  · rintro ⟨u, hu, hdangles, hnew⟩
    obtain ⟨s, hmem, rfl⟩ := List.mem_map.mp hu
    split at hdangles
    · next heq =>
      rw [if_pos heq] at hnew
      exact ⟨hdangles, hnew old hold hid.symm⟩
    · next heq =>
      rw [if_neg heq] at hnew
      exact absurd rfl (hnew s hmem rfl)
  · rintro ⟨hdangles, hdiffers⟩
    refine ⟨r, List.mem_map.mpr ⟨old, hold, if_pos (beq_self_eq_true _)⟩, hdangles, ?_⟩
    intro s hmem hsame
    obtain rfl := hs.eq_of_id (by decide) hmem hold (hsame.trans hid)
    exact hdiffers

end Database

/-! ## Why rows are refused -/

theorem Binding.refused_cases {b : Binding} {v : Value} {f : Failure} (h : b.bind v = .refused f) :
    f = .integerOutOfRange ∨ f = .unbindableValue := by
  cases b with
  | plain =>
    change Binding.bindPlain v = _ at h
    unfold Binding.bindPlain at h
    split at h <;> try cases h
    · split at h <;> cases h
      exact Or.inl rfl
    · exact Or.inr rfl
  | truth =>
    change Binding.bindTruth v = _ at h
    unfold Binding.bindTruth at h
    split at h <;> try cases h
    · split at h <;> cases h
    · split at h
      · cases h
      · split at h <;> cases h
  | clock =>
    change Binding.bindClock v = _ at h
    unfold Binding.bindClock at h
    split at h <;> cases h
  | day =>
    change Binding.bindDay v = _ at h
    unfold Binding.bindDay at h
    split at h <;> cases h
  | instant =>
    change Binding.bindInstant v = _ at h
    unfold Binding.bindInstant at h
    split at h <;> try cases h
    · split at h <;> cases h

/-- Values are refused for what they are, not for what they refer to. -/
theorem Bound.ne_missingReference {bs : List Bound} {f : Failure}
    (hbs : ∀ cause, .refused cause ∈ bs → cause ≠ .missingReference)
    (h : Bound.check bs = .error f) : f ≠ .missingReference := by
  rw [Bound.check_eq] at h
  split at h
  · next hm =>
    cases h
    obtain ⟨b, -, hb⟩ := List.exists_of_findSome?_eq_some hm
    cases b <;> cases hb
    exact fun h => nomatch h
  · split at h
    · next hr =>
      cases h
      obtain ⟨b, hmem, hb⟩ := List.exists_of_findSome?_eq_some hr
      cases b with
      | refused cause =>
        cases hb
        exact hbs _ hmem
      | cell | mistyped => cases hb
    · cases h

theorem Binding.ne_missingReference {b : Binding} {v : Value} {f : Failure}
    (h : b.bind v = .refused f) : f ≠ .missingReference := by
  rcases Binding.refused_cases h with rfl | rfl <;> exact fun h => nomatch h

namespace Database

theorem constraint_ne_missingReference {start : String} {c : Char}
    (h : start.toList.head? = some c) (hc : c ≠ 'F') (text : String) :
    Failure.constraint (start ++ text) ≠ .missingReference := by
  intro heq
  have hchars : (start ++ text).toList.head? = some 'F' := by
    rw [Failure.constraint.inj heq]
    rfl
  rw [String.toList_append, List.head?_append, h, Option.some_or] at hchars
  exact hc (Option.some.inj hchars)

theorem checkFilled_ne_missingReference {t : Table} {r : Row} {f : Failure}
    (h : checkFilled t r = .error f) : f ≠ .missingReference := by
  unfold checkFilled at h
  split at h <;> cases h
  exact constraint_ne_missingReference rfl (by decide) _

theorem checkUnique_ne_missingReference {t : Table} {others : List Row} {r : Row} {f : Failure}
    (h : checkUnique t others r = .error f) : f ≠ .missingReference := by
  unfold checkUnique at h
  split at h <;> cases h
  exact constraint_ne_missingReference rfl (by decide) _

theorem bindColumns_ne_missingReference {cs : List Column} {values : String → Value} {f : Failure}
    (h : bindColumns cs values = .error f) : f ≠ .missingReference := by
  rcases bind_eq_error_iff.mp h with h | ⟨_, -, h⟩
  · refine Bound.ne_missingReference (fun cause hc => ?_) h
    simp only [List.map_map, List.mem_map] at hc
    obtain ⟨c, -, hc⟩ := hc
    exact Binding.ne_missingReference hc
  · cases h

/-- Only what is checked last is refused for its reference. -/
theorem checks_ne_missingReference {α : Type} {db : Database} {t : Table} {others : List Row}
    {columns : List String} {r : Row} {a : α} {f : Failure}
    (hrefers : checkReferences db t columns r = .ok ())
    (h : (do
      checkFilled t r
      checkUnique t others r
      checkReferences db t columns r
      return a) = .error f) : f ≠ .missingReference := by
  rcases bind_eq_error_iff.mp h with h | ⟨-, -, h⟩
  · exact checkFilled_ne_missingReference h
  rcases bind_eq_error_iff.mp h with h | ⟨-, -, h⟩
  · exact checkUnique_ne_missingReference h
  rcases bind_eq_error_iff.mp h with h | ⟨-, -, h⟩
  · rw [hrefers] at h
    cases h
  · cases h

theorem insert_ne_missingReference {db : Database} {t : Table} {values : List (String × Value)}
    {clock : Instant} {f : Failure}
    (hrefers : ∀ r, checkReferences db t t.columnNames r = .ok ())
    (h : db.insert t values clock = .error f) : f ≠ .missingReference := by
  unfold insert at h
  rcases bind_eq_error_iff.mp h with h | ⟨cells, -, h⟩
  · exact bindColumns_ne_missingReference h
  rcases bind_eq_error_iff.mp h with h | ⟨id, -, h⟩
  · unfold idCell at h
    split at h <;> cases h
    exact @constraint_ne_missingReference "datatype mismatch" _ rfl (by decide) ""
  exact checks_ne_missingReference (hrefers _) h

theorem update_ne_missingReference {db : Database} {t : Table} {old : Row}
    {values : List (String × Value)} {f : Failure}
    (hrefers : ∀ columns r, checkReferences db t columns r = .ok ())
    (h : db.update t old values = .error f) : f ≠ .missingReference := by
  unfold update at h
  rcases bind_eq_error_iff.mp h with h | ⟨cells, -, h⟩
  · exact bindColumns_ne_missingReference h
  exact checks_ne_missingReference (hrefers _ _) h

/-! ## Rows that are not checked -/

/-- The result of a change of the store, which checks as before. -/
def rechecked (db : Database) (p : Row × Database) : Row × Database :=
  (p.1, { p.2 with checksReferences := db.checksReferences })

/-- References are checked last. -/
theorem insert_eq_unchecked (db : Database) (t : Table) (values : List (String × Value))
    (clock : Instant) : db.insert t values clock = (do
      let p ← db.unchecked.insert t values clock
      checkReferences db t t.columnNames p.1
      return db.rechecked p) := by
  unfold insert
  iterate 4
    rw [bind_assoc]
    refine bind_congr fun _ => ?_
  rfl

theorem update_eq_unchecked (db : Database) (t : Table) (old : Row)
    (values : List (String × Value)) : db.update t old values = (do
      let p ← db.unchecked.update t old values
      checkReferences db t ((changedColumns t values).map (·.name)) p.1
      return db.rechecked p) := by
  unfold update
  iterate 3
    rw [bind_assoc]
    refine bind_congr fun _ => ?_
  rfl

theorem Sound.unchecked {db : Database} (h : db.Sound) : db.unchecked.Sound := ⟨h.fits, h.ordered⟩

section Rows

variable {db db' : Database} {kind : Kind} {values : List (String × Value)} {clock : Instant}
  {r old : Row}

/-- Rows of projects add no reference. -/
theorem gainsDangling_setRows_projects (db : Database) (rows : List Row) :
    db.gainsDangling (db.setRows (Kind.project).table rows) = false :=
  gainsDangling_of_same (tableRows_setRows_of_ne db rows (by decide))

/-- The check of references fails for work packages only, in a store that checks. -/
theorem of_checkReferences {columns : List String} {f : Failure} (hr : kind.table.Fits r)
    (h : checkReferences db kind.table columns r = .error f) :
    db.checksReferences = true ∧ kind = .workPackage ∧ db.refers (r.cell "project_id") = false := by
  cases kind with
  | project =>
    rw [checkReferences_of_none rfl] at h
    cases h
  | workPackage =>
    rw [show (Kind.workPackage).table = Schema.workPackages from rfl,
      checkReferences_workPackages hr] at h
    split at h
    · next hrefused =>
      simp only [Bool.and_eq_true, Bool.not_eq_true'] at hrefused
      exact ⟨hrefused.1.1, rfl, hrefused.2⟩
    · cases h

/-- A new row that adds a reference that leads nowhere is refused in a store that checks. -/
theorem insert_of_gains (hs : db.Sound)
    (hi : db.unchecked.insert kind.table values clock = .ok (r, db'))
    (hchecks : db.checksReferences = true) (hgains : db.gainsDangling db' = true) :
    db.insert kind.table values clock = .error .missingReference := by
  have href : checkReferences db kind.table kind.table.columnNames r =
      .error .missingReference := by
    have hfresh := hs.unchecked.id_ne_of_insert kind.table_mem hi
    have hfits := fits_of_insert kind.table_mem hi
    rw [tableRows_of_insert hi] at hgains
    cases kind with
    | project => cases (gainsDangling_setRows_projects db _).symm.trans hgains
    | workPackage =>
      have hdangles : (!db.refers (r.cell "project_id")) = true :=
        (gainsDangling_place hfresh).symm.trans hgains
      refine (checkReferences_workPackages hfits _).trans ?_
      rw [hchecks, hdangles]
      rfl
  rw [insert_eq_unchecked, hi]
  exact bind_eq_error_iff.mpr (Or.inr ⟨_, rfl, bind_eq_error_iff.mpr (Or.inl href)⟩)

/-- A new row is refused for its reference only if there is no such project. -/
theorem insert_missingReference (h : db.insert kind.table values clock = .error .missingReference) :
    db.checksReferences = true ∧ kind = .workPackage ∧ ∃ r db',
      db.unchecked.insert kind.table values clock = .ok (r, db') ∧
      r ∈ db'.tableRows kind.table ∧ db.refers (r.cell "project_id") = false := by
  rw [insert_eq_unchecked] at h
  rcases bind_eq_error_iff.mp h with hfree | ⟨⟨r, db'⟩, hi, hlast⟩
  · exact absurd rfl (insert_ne_missingReference (fun _ => rfl) hfree)
  · rcases bind_eq_error_iff.mp hlast with href | ⟨_, -, hret⟩
    · obtain ⟨hchecks, hkind, hdangles⟩ :=
        of_checkReferences (fits_of_insert kind.table_mem hi) href
      refine ⟨hchecks, hkind, r, db', hi, ?_, hdangles⟩
      rw [tableRows_of_insert hi, tableRows_setRows]
      exact (mem_place r r _).mpr (Or.inl rfl)
    · cases hret

/-- Other values in a row that add a reference that leads nowhere are refused in a store that
checks. -/
theorem update_of_gains (hs : db.Sound) (hold : old ∈ db.tableRows kind.table)
    (hid : values.lookup "id" = none)
    (hu : db.unchecked.update kind.table old values = .ok (r, db'))
    (hchecks : db.checksReferences = true) (hgains : db.gainsDangling db' = true) :
    db.update kind.table old values = .error .missingReference := by
  obtain ⟨hfits, hsame⟩ := fits_of_update kind.table_mem (hs.fits _ kind.table_mem old hold) hid hu
  obtain ⟨-, hr, -, -, -, hdb'⟩ := update_eq_ok_iff.mp hu
  have href : checkReferences db kind.table ((changedColumns kind.table values).map (·.name)) r =
      .error .missingReference := by
    rw [hdb'] at hgains
    cases kind with
    | project => cases (gainsDangling_setRows_projects db _).symm.trans hgains
    | workPackage =>
      obtain ⟨hdangles, hdiffers⟩ := (gainsDangling_replaced hs hold hsame).mp hgains
      have hgiven : (values.lookup "project_id").isSome = true := by
        by_contra hnone
        refine hdiffers ?_
        rw [hr, cell_revised_of_none (Option.not_isSome_iff_eq_none.mp hnone)]
      have hchanged : ((changedColumns Schema.workPackages values).map (·.name)).contains
          "project_id" = true := by
        refine List.contains_iff_mem.mpr
          (List.mem_map.mpr ⟨⟨"project_id", .integer, true⟩, ?_, rfl⟩)
        exact List.mem_filter.mpr ⟨by decide, hgiven⟩
      refine (checkReferences_workPackages hfits _).trans ?_
      rw [hchecks, show (Kind.workPackage).table = Schema.workPackages from rfl, hchanged, hdangles]
      rfl
  rw [update_eq_unchecked, hu]
  exact bind_eq_error_iff.mpr (Or.inr ⟨_, rfl, bind_eq_error_iff.mpr (Or.inl href)⟩)

theorem update_missingReference (hs : db.Sound) (hold : old ∈ db.tableRows kind.table)
    (hid : values.lookup "id" = none)
    (h : db.update kind.table old values = .error .missingReference) :
    db.checksReferences = true ∧ kind = .workPackage ∧ ∃ r db',
      db.unchecked.update kind.table old values = .ok (r, db') ∧
      r ∈ db'.tableRows kind.table ∧ db.refers (r.cell "project_id") = false := by
  rw [update_eq_unchecked] at h
  rcases bind_eq_error_iff.mp h with hfree | ⟨⟨r, db'⟩, hu, hlast⟩
  · exact absurd rfl (update_ne_missingReference (fun _ _ => rfl) hfree)
  · rcases bind_eq_error_iff.mp hlast with href | ⟨_, -, hret⟩
    · obtain ⟨hfits, -⟩ := fits_of_update kind.table_mem (hs.fits _ kind.table_mem old hold) hid hu
      obtain ⟨hchecks, hkind, hdangles⟩ := of_checkReferences hfits href
      obtain ⟨-, -, -, -, -, hdb'⟩ := update_eq_ok_iff.mp hu
      refine ⟨hchecks, hkind, r, db', hu, ?_, hdangles⟩
      rw [hdb', tableRows_setRows]
      exact List.mem_map.mpr ⟨old, hold, if_pos (beq_self_eq_true _)⟩
    · cases hret

end Rows

end Database

end Chronicle
