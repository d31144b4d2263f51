import Chronicle.Proofs.AsOf.Substitution

/-!
# Text as of an instant

Where text is rewritten, pieces of it are replaced from left to right and all else stays as it is.

* `TextRule.Rewrites`: a text with some pieces replaced that a rule applies to;
* `TextRule.IsQualified`: what the rules for the columns of a table have in common;
* `Fragment.Declares`: a parameter that occurs in a text;
* `Substitution.declared_rawText`: the parameters of a text stay, apart from one that has the name of
  the live table.
-/

namespace Chronicle

open Chronicle.Text

/-! ## Pieces that are replaced -/

namespace TextRule

variable {r : TextRule}

/-- A text behind a character with some pieces replaced that the rule applies to. -/
inductive Rewrites (r : TextRule) : Option Char → List Char → List Char → Prop
  | nil (before : Option Char) : Rewrites r before [] []
  | keep {before : Option Char} {c : Char} {cs cs' : List Char} :
      Rewrites r (some c) cs cs' → Rewrites r before (c :: cs) (c :: cs')
  | hit {before : Option Char} {cs cs' : List Char} :
      r.applies before (r.pattern ++ cs) = true → Rewrites r r.pattern.getLast? cs cs' →
      Rewrites r before (r.pattern ++ cs) (r.replacement ++ cs')

/-- What belongs to a piece that has been replaced is passed over. -/
theorem replaceFrom_skip (r : TextRule) (before : Option Char) (skipped cs : List Char) :
    r.replaceFrom before skipped.length (skipped ++ cs) =
      r.replaceFrom (skipped.getLast?.or before) 0 cs := by
  induction skipped generalizing before with
  | nil => rfl
  | cons c skipped ih =>
    rw [List.length_cons, List.cons_append, replaceFrom, ih, List.getLast?_cons]
    cases skipped.getLast? <;> rfl

theorem replaceFrom_hit {before : Option Char} {cs : List Char} (hp : r.pattern ≠ [])
    (h : r.applies before (r.pattern ++ cs) = true) :
    r.replaceFrom before 0 (r.pattern ++ cs) =
      r.replacement ++ r.replaceFrom r.pattern.getLast? 0 cs := by
  obtain ⟨c, pattern, hpattern⟩ := List.exists_cons_of_ne_nil hp
  have hskip := replaceFrom_skip r (some c) pattern cs
  rw [hpattern] at h ⊢
  rw [List.cons_append] at h ⊢
  rw [replaceFrom, if_pos h, hpattern, List.length_cons, Nat.add_sub_cancel, hskip,
    List.getLast?_cons]
  cases pattern.getLast? <;> rfl

theorem exists_of_applies {before : Option Char} {cs : List Char}
    (h : r.applies before cs = true) : ∃ rest, cs = r.pattern ++ rest := by
  unfold applies at h
  simp only [Bool.and_eq_true, List.isPrefixOf_iff_prefix] at h
  obtain ⟨rest, hrest⟩ := h.1.1
  exact ⟨rest, hrest.symm⟩

/-- A rule replaces pieces that it applies to. -/
theorem rewrites_replaceFrom (hp : r.pattern ≠ []) (before : Option Char) (cs : List Char) :
    r.Rewrites before cs (r.replaceFrom before 0 cs) := by
  induction hn : cs.length using Nat.strongRecOn generalizing before cs with
  | ind n ih =>
    cases cs with
    | nil => exact .nil before
    | cons c cs =>
      by_cases h : r.applies before (c :: cs) = true
      · obtain ⟨rest, hrest⟩ := exists_of_applies h
        have hshorter : rest.length < n := by
          have hlength := congrArg List.length hrest
          have hpositive := List.length_pos_of_ne_nil hp
          rw [List.length_append] at hlength
          omega
        rw [hrest] at h ⊢
        rw [replaceFrom_hit hp h]
        exact .hit h (ih _ hshorter _ _ rfl)
      · rw [replaceFrom, if_neg h]
        exact .keep (ih _ (by rw [← hn, List.length_cons]; omega) _ _ rfl)

/-! ## Rules for the columns of a table -/

/-- Two characters are the same or both belong to words. -/
def areAlike : Option Char → Option Char → Bool
  | some a, some b => a == b || (isWord a && isWord b)
  | _, _ => false

/-- A rule for names that are qualified by a table.  Without quotes the table stands at the start of
a word and a point follows; with quotes a quote comes first.  The replacement begins and ends like
the pattern. -/
structure IsQualified (table : List Char) (r : TextRule) : Prop where
  heads : areAlike r.pattern.head? r.replacement.head? = true
  lasts : areAlike r.pattern.getLast? r.replacement.getLast? = true
  noColon : ':' ∉ r.pattern
  shape : r.pattern.head? = some '"' ∨ (r.atStart = true ∧ r.pattern.takeWhile isWord = table ∧
    (r.pattern.dropWhile isWord).head? = some '.')

end TextRule

theorem Substitution.isQualified_textRules (s : Substitution) :
    ∀ r ∈ s.textRules, r.IsQualified s.kind.table.name.toList := by
  have hall : ∀ k ∈ Kind.all, ∀ r ∈ (⟨k, default, default⟩ : Substitution).textRules,
      TextRule.areAlike r.pattern.head? r.replacement.head? = true ∧
      TextRule.areAlike r.pattern.getLast? r.replacement.getLast? = true ∧ ':' ∉ r.pattern ∧
      (r.pattern.head? = some '"' ∨ (r.atStart = true ∧
        r.pattern.takeWhile isWord = k.table.name.toList ∧
        (r.pattern.dropWhile isWord).head? = some '.')) := by decide +kernel
  intro r hr
  obtain ⟨hheads, hlasts, hcolon, hshape⟩ := hall s.kind s.kind.mem_all r hr
  exact ⟨hheads, hlasts, hcolon, hshape⟩

/-! ## Parameters -/

namespace Fragment

/-- Behind a character, a parameter of a given name occurs in a text. -/
inductive Declares (name : List Char) : Option Char → List Char → Prop
  | here {before : Option Char} {cs : List Char} : before.any blocksColon = false →
      declaredName cs = some name → Declares name before (':' :: cs)
  | later {before : Option Char} {c : Char} {cs : List Char} :
      Declares name (some c) cs → Declares name before (c :: cs)

theorem declares_of_mem {name : List Char} {before : Option Char} {skip : Nat} {cs : List Char}
    (h : name ∈ declaredFrom before skip cs) : Declares name before cs := by
  induction cs generalizing before skip with
  | nil =>
    rw [declaredFrom] at h
    cases h
  | cons c cs ih =>
    cases skip with
    | succ skip => exact .later (ih h)
    | zero =>
      rw [declaredFrom] at h
      split at h
      · next hc =>
        rw [Bool.and_eq_true, beq_iff_eq, Bool.not_eq_true'] at hc
        obtain ⟨rfl, hbefore⟩ := hc
        split at h
        · next found hfound =>
          rcases List.mem_cons.mp h with rfl | h
          · exact .here hbefore hfound
          · exact .later (ih h)
        · exact .later (ih h)
      · exact .later (ih h)

/-- The name of a parameter is a run of word characters that stands first. -/
theorem declaredName_spec {cs name : List Char} (h : declaredName cs = some name) :
    (∀ c ∈ name, isWord c = true) ∧ name <+: cs := by
  have hrun : ∀ c ∈ cs.takeWhile isWord, isWord c = true := 
    List.all_eq_true.mp List.all_takeWhile
  unfold declaredName at h
  dsimp only at h
  split at h
  · split at h
    · cases h
    · cases h
      exact ⟨fun c hc => hrun c (List.dropLast_subset _ hc),
        (List.dropLast_prefix _).trans (List.takeWhile_prefix _)⟩
  · split at h
    · cases h
    · cases h
      exact ⟨hrun, List.takeWhile_prefix _⟩

theorem mem_of_declares {name : List Char} {before : Option Char} {cs : List Char}
    (h : Declares name before cs) {skip : Nat} (hskip : ∀ c ∈ cs.take skip, isWord c = true) :
    name ∈ declaredFrom before skip cs := by
  induction h generalizing skip with
  | @here before cs hbefore hname =>
    cases skip with
    | succ skip =>
      have hword : isWord ':' = true := hskip ':' List.mem_cons_self
      exact absurd hword (by decide)
    | zero =>
      rw [declaredFrom, if_pos (by rw [hbefore]; rfl), hname]
      exact List.mem_cons_self
  | @later before c cs _ ih =>
    cases skip with
    | succ skip => exact ih fun d hd => hskip d (List.mem_cons_of_mem _ hd)
    | zero =>
      have hzero : ∀ d ∈ cs.take 0, isWord d = true := fun d hd => nomatch hd
      rw [declaredFrom]
      split
      · split
        · next found hfound =>
          refine List.mem_cons_of_mem _ (ih fun d hd => ?_)
          obtain ⟨hwords, rest, hrest⟩ := declaredName_spec hfound
          rw [← hrest, List.take_left] at hd
          exact hwords d hd
        · exact ih hzero
      · exact ih hzero

theorem declares_append {name : List Char} {before : Option Char} (us : List Char) {cs : List Char}
    (h : Declares name (us.getLast?.or before) cs) : Declares name before (us ++ cs) := by
  induction us generalizing before with
  | nil => exact h
  | cons u us ih =>
    refine .later (ih ?_)
    rw [List.getLast?_cons] at h
    cases hl : us.getLast? with
    | none =>
      rw [hl] at h
      exact h
    | some v =>
      rw [hl] at h
      exact h

/-- No parameter begins where there is no colon. -/
theorem declares_of_append {name : List Char} {before : Option Char} {us cs : List Char}
    (hus : ':' ∉ us) (h : Declares name before (us ++ cs)) :
    Declares name (us.getLast?.or before) cs := by
  induction us generalizing before with
  | nil => exact h
  | cons u us ih =>
    rw [List.mem_cons, not_or] at hus
    cases h with
    | here => exact absurd rfl hus.1
    | later h =>
      have hrest := ih hus.2 h
      rw [List.getLast?_cons]
      cases hl : us.getLast? with
      | none =>
        rw [hl] at hrest
        exact hrest
      | some v =>
        rw [hl] at hrest
        exact hrest

end Fragment

namespace TextRule

variable {r : TextRule} {table : List Char}

/-- What a colon after a character means is the same after another one that is alike. -/
theorem any_blocksColon_of_areAlike {a b : Option Char} (h : areAlike a b = true) :
    a.any Fragment.blocksColon = b.any Fragment.blocksColon := by
  cases a with
  | none => cases h
  | some a =>
    cases b with
    | none => cases h
    | some b =>
      simp only [areAlike, Bool.or_eq_true, beq_iff_eq, Bool.and_eq_true] at h
      rcases h with rfl | ⟨ha, hb⟩
      · rfl
      · simp [Fragment.blocksColon, ha, hb]

/-- Where the rule applies to a name without quotes, the character before is no word character. -/
theorem not_applies_of_isWord (h : r.atStart = true) {c : Char} (hc : isWord c = true)
    (cs : List Char) : r.applies (some c) cs = false := by
  simp [applies, h, opens, hc]

/-- A rule for quoted names replaces a quote by a quote. -/
theorem IsQualified.heads_of_quoted (hr : r.IsQualified table)
    (h : r.pattern.head? = some '"') : ∃ us vs, r.pattern = '"' :: us ∧ r.replacement = '"' :: vs := by
  have hheads := hr.heads
  rw [h] at hheads
  cases hreplacement : r.replacement with
  | nil =>
    rw [hreplacement] at hheads
    cases hheads
  | cons v vs =>
    obtain ⟨us, hus⟩ : ∃ us, r.pattern = '"' :: us := List.head?_eq_some_iff.mp h
    rw [hreplacement] at hheads
    have hv : v = '"' := by
      have hquote : isWord '"' = false := by decide
      simp only [areAlike, List.head?_cons, hquote, Bool.false_and, Bool.or_false, beq_iff_eq]
        at hheads
      exact hheads.symm
    exact ⟨us, vs, hus, by rw [hv]⟩

/-- Behind a word character the run of word characters stays, and so does a colon behind it. -/
theorem Rewrites.run (hr : r.IsQualified table) {before : Option Char} {cs cs' : List Char}
    (h : r.Rewrites before cs cs') (hb : before.any isWord = true) :
    cs'.takeWhile isWord = cs.takeWhile isWord ∧
      ((cs'.dropWhile isWord).head? = some ':' ↔ (cs.dropWhile isWord).head? = some ':') := by
  cases h with
  | nil => exact ⟨rfl, Iff.rfl⟩
  | @keep before c cs cs' hrest =>
    cases hc : isWord c with
    | true =>
      obtain ⟨htake, hdrop⟩ := hrest.run hr hc
      simp only [List.takeWhile_cons, List.dropWhile_cons, hc, if_true, htake]
      exact ⟨trivial, hdrop⟩
    | false => simp [hc]
  | hit happlies _ =>
    rcases hr.shape with hquoted | ⟨hstart, -⟩
    · obtain ⟨us, vs, hus, hvs⟩ := hr.heads_of_quoted hquoted
      have hquote : isWord '"' = false := by decide
      simp [hus, hvs, hquote]
    · cases before with
      | none => cases hb
      | some b => cases (not_applies_of_isWord hstart hb _).symm.trans happlies

/-- The name of a parameter stays unless it is that of the table. -/
theorem Rewrites.declaredName (hr : r.IsQualified table) {cs cs' name : List Char}
    (h : r.Rewrites (some ':') cs cs') (hname : Fragment.declaredName cs = some name)
    (hne : name ≠ table) : Fragment.declaredName cs' = some name := by
  have hquote : isWord '"' = false := by decide
  cases h with
  | nil => exact hname
  | @keep _ c cs cs' hrest =>
    cases hc : isWord c with
    | true =>
      obtain ⟨htake, hdrop⟩ := hrest.run hr hc
      rw [← hname]
      unfold Fragment.declaredName
      simp only [List.takeWhile_cons, List.dropWhile_cons, hc, if_true, htake, beq_iff_eq, hdrop]
    | false =>
      rw [← hname]
      simp [Fragment.declaredName, hc]
  | @hit _ cs cs' happlies _ =>
    rcases hr.shape with hquoted | ⟨-, htable, hpoint⟩
    · obtain ⟨us, -, hus, -⟩ := hr.heads_of_quoted hquoted
      rw [hus] at hname
      simp [Fragment.declaredName, hquote] at hname
    · obtain ⟨more, hmore⟩ := List.head?_eq_some_iff.mp hpoint
      have hpattern : r.pattern = table ++ '.' :: more := by
        rw [← htable, ← hmore, List.takeWhile_append_dropWhile]
      have hwords : ∀ c ∈ table, isWord c = true :=
        htable ▸ List.all_eq_true.mp List.all_takeWhile
      have hpoint : isWord '.' = false := by decide
      rw [hpattern, List.append_assoc, Fragment.declaredName,
        List.takeWhile_append_of_pos hwords, List.dropWhile_append_of_pos hwords] at hname
      simp [hpoint] at hname
      exact absurd hname.2.symm hne

/-- A parameter that does not have the name of the table stays. -/
theorem Rewrites.declares (hr : r.IsQualified table) {before before' : Option Char}
    {cs cs' name : List Char} (h : r.Rewrites before cs cs')
    (hb : before'.any Fragment.blocksColon = before.any Fragment.blocksColon)
    (hname : Fragment.Declares name before cs) (hne : name ≠ table) :
    Fragment.Declares name before' cs' := by
  induction h generalizing before' with
  | nil => cases hname
  | keep hrest ih =>
    cases hname with
    | here hbefore hfound => exact .here (hb ▸ hbefore) (hrest.declaredName hr hfound hne)
    | later hlater => exact .later (ih rfl hlater)
  | @hit before cs cs' happlies _ ih =>
    have hrest := Fragment.declares_of_append hr.noColon hname
    have hlasts := hr.lasts
    cases hpattern : r.pattern.getLast? with
    | none =>
      rw [hpattern] at hlasts
      cases hlasts
    | some p =>
      cases hreplacement : r.replacement.getLast? with
      | none =>
        rw [hpattern, hreplacement] at hlasts
        cases hlasts
      | some q =>
        refine Fragment.declares_append _ ?_
        rw [hpattern] at hrest hlasts ih
        rw [hreplacement] at hlasts ⊢
        exact ih (any_blocksColon_of_areAlike hlasts).symm hrest

theorem IsQualified.pattern_ne_nil (hr : r.IsQualified table) : r.pattern ≠ [] := by
  intro h
  have hlasts := hr.lasts
  rw [h] at hlasts
  cases hlasts

theorem declares_replaceEach {rules : List TextRule} (hrules : ∀ r ∈ rules, r.IsQualified table)
    {cs name : List Char} (h : Fragment.Declares name none cs) (hne : name ≠ table) :
    Fragment.Declares name none (replaceEach rules cs) := by
  induction rules generalizing cs with
  | nil => exact h
  | cons r rules ih =>
    rw [List.forall_mem_cons] at hrules
    exact ih hrules.2 ((rewrites_replaceFrom hrules.1.pattern_ne_nil none cs).declares hrules.1 rfl
      h hne)

end TextRule

/-- A parameter occurs in a text that is rewritten unless it has the name of the live table. -/
theorem Substitution.declared_rawText (s : Substitution) {sql name : String}
    (h : name ∈ Fragment.declared sql) (hne : name ≠ s.kind.table.name) :
    name ∈ Fragment.declared (s.rawText sql) := by
  rw [Fragment.declared, List.mem_eraseDups, List.mem_map] at h ⊢
  obtain ⟨cs, hcs, rfl⟩ := h
  have htable : cs ≠ s.kind.table.name.toList := by
    rintro rfl
    exact hne (String.ofList_toList)
  refine ⟨cs, Fragment.mem_of_declares ?_ (fun d hd => nomatch hd), rfl⟩
  rw [rawText, String.toList_ofList]
  exact TextRule.declares_replaceEach s.isQualified_textRules (Fragment.declares_of_mem hcs) htable

end Chronicle
