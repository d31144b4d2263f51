import Chronicle.Proofs.AsOf.Text
import Mathlib.Data.List.Chain

/-!
# References in text as of an instant

A text in which references to columns are written, with or without quotes, and are kept apart from
one another: as of an instant each reference is the one that `Substitution.column` gives, in the
same style, and all else stays as it is.

* `Mention`, `Passage`: written references, and what texts of this kind consist of;
* `TextRule.Begins`: where a reference to a given table begins;
* `TextRule.replaceFrom_between`, `TextRule.replaceFrom_tail`: stretches that stay;
* `TextRule.Acts.replaceAll`: a rule that acts on each reference acts on the whole text;
* `Substitution.acts_textRules`: what each of the rules does to a reference;
* `Substitution.raw_passages`: all rules one after another.
-/

namespace Chronicle

open Chronicle.Text

/-! ## Written references -/

/-- A name, in quotes or not. -/
def spelled (quoted : Bool) (name : List Char) : List Char :=
  if quoted then '"' :: (name ++ ['"']) else name

theorem spelled_bare (name : List Char) : spelled false name = name := rfl

theorem spelled_quoted_append (name us : List Char) :
    spelled true name ++ us = '"' :: (name ++ '"' :: us) := by
  rw [spelled, if_pos rfl, List.cons_append, List.append_assoc, List.singleton_append]

/-- A reference to a column as it stands in a text. -/
structure Mention where
  ref : ColumnRef
  quoted : Bool
  deriving DecidableEq

/-- A name of ASCII letters, digits and underscores. -/
def IsPlainName (name : String) : Prop :=
  name ≠ "" ∧ ∀ c ∈ name.toList, c.isAlphanum = true ∨ c = '_'

instance (name : String) : Decidable (IsPlainName name) :=
  inferInstanceAs (Decidable (_ ∧ _))

namespace Mention

def text (m : Mention) : List Char :=
  spelled m.quoted m.ref.table.toList ++ '.' :: spelled m.quoted m.ref.name.toList

theorem text_append (m : Mention) (us : List Char) :
    m.text ++ us = spelled m.quoted m.ref.table.toList ++
      '.' :: (spelled m.quoted m.ref.name.toList ++ us) := by
  rw [text, List.append_assoc, List.cons_append]

/-- Both names are plain. -/
def IsPlain (m : Mention) : Prop := IsPlainName m.ref.table ∧ IsPlainName m.ref.name

instance (m : Mention) : Decidable m.IsPlain := inferInstanceAs (Decidable (_ ∧ _))

/-- A reference in one of the styles becomes another one. -/
def redirect (quoted : Bool) (ref target : ColumnRef) (m : Mention) : Mention :=
  if m = ⟨ref, quoted⟩ then ⟨target, quoted⟩ else m

/-- What is qualified by a table in one of the styles is qualified by another one. -/
def requalify (quoted : Bool) (table other : String) (m : Mention) : Mention :=
  if m.quoted = quoted ∧ m.ref.table = table then ⟨⟨other, m.ref.name⟩, quoted⟩ else m

end Mention

/-- A character that does not continue a reference. -/
def Separates (c : Char) : Prop := isWord c = false ∧ c ≠ '.' ∧ c ≠ '"'

instance (c : Char) : Decidable (Separates c) := inferInstanceAs (Decidable (_ ∧ _ ∧ _))

/-- Texts consist of references and of what stands before, between and behind them. -/
inductive Passage
  | mention (m : Mention)
  | other (text : String)
  deriving DecidableEq

namespace Passage

def chars : Passage → List Char
  | mention m => m.text
  | other text => text.toList

/-- The text that passages make up. -/
def text (ps : List Passage) : String := String.ofList (ps.flatMap chars)

/-- References are by plain names; what else there is does not contain the name of the table. -/
def IsPlain (table : String) : Passage → Prop
  | mention m => m.IsPlain
  | other text => text ≠ "" ∧ ¬table.toList <:+: text.toList

instance (table : String) : DecidablePred (IsPlain table)
  | mention m => inferInstanceAs (Decidable m.IsPlain)
  | other _ => inferInstanceAs (Decidable (_ ∧ _))

/-- What may follow one another: no two references touch, and the characters next to a reference
separate it from what is beyond. -/
def Adjoins : Passage → Passage → Prop
  | mention _, other text => ∀ c ∈ text.toList.head?, Separates c
  | other text, mention _ => ∀ c ∈ text.toList.getLast?, Separates c
  | mention _, mention _ => False
  | other _, other _ => False

-- By name, so that the one character is looked at and not all characters that there are.
instance : DecidableRel Adjoins
  | mention _, other text => Option.decidableForallMem text.toList.head?
  | other text, mention _ => Option.decidableForallMem text.toList.getLast?
  | mention _, mention _ => .isFalse id
  | other _, other _ => .isFalse id

def mapMention (f : Mention → Mention) : Passage → Passage
  | mention m => mention (f m)
  | other text => other text

theorem map_mapMention_congr {ps : List Passage} {f g : Mention → Mention}
    (h : ∀ m, mention m ∈ ps → f m = g m) : ps.map (mapMention f) = ps.map (mapMention g) := by
  refine List.map_congr_left fun p hp => ?_
  cases p with
  | mention m => exact congrArg mention (h m hp)
  | other text => rfl

theorem mapMention_id : mapMention id = id := by
  funext p
  cases p <;> rfl

theorem mapMention_comp (f g : Mention → Mention) :
    mapMention (f ∘ g) = mapMention f ∘ mapMention g := by
  funext p
  cases p <;> rfl

end Passage

/-! ## Words -/

/-- A run of word characters that is not empty. -/
def IsRun (w : List Char) : Prop := w ≠ [] ∧ ∀ c ∈ w, isWord c = true

theorem IsPlainName.isRun {name : String} (h : IsPlainName name) : IsRun name.toList := by
  refine ⟨fun hnil => h.1 (String.toList_eq_nil_iff.mp hnil), fun c hc => ?_⟩
  rcases h.2 c hc with hc | rfl
  · refine isWord_of_isAlphanum ?_ hc
    rcases Bool.or_eq_true_iff.mp (show (c.isAlpha || c.isDigit) = true from hc) with hc | hc
    · rcases Bool.or_eq_true_iff.mp (show (c.isUpper || c.isLower) = true from hc) with hc | hc
      · exact Nat.lt_of_le_of_lt (show c.toNat ≤ 90 from (of_decide_eq_true hc).2) (by decide)
      · exact Nat.lt_of_le_of_lt (show c.toNat ≤ 122 from
          of_decide_eq_true (Bool.and_eq_true_iff.mp hc).2) (by decide)
    · exact Nat.lt_of_le_of_lt (show c.toNat ≤ 57 from
        of_decide_eq_true (Bool.and_eq_true_iff.mp hc).2) (by decide)
  · decide

theorem isWord_head {c : Char} (hc : isWord c = false) (cs : List Char) :
    ∀ d ∈ (c :: cs).head?, isWord d = false := by
  rintro d ⟨⟩
  exact hc

/-- Runs of word characters end where other characters begin. -/
theorem run_inj {u v us vs : List Char} (hu : ∀ c ∈ u, isWord c = true)
    (hv : ∀ c ∈ v, isWord c = true) (hus : ∀ c ∈ us.head?, isWord c = false)
    (hvs : ∀ c ∈ vs.head?, isWord c = false) (h : u ++ us = v ++ vs) : u = v ∧ us = vs := by
  have htake : ∀ {w ws : List Char}, (∀ c ∈ w, isWord c = true) →
      (∀ c ∈ ws.head?, isWord c = false) → (w ++ ws).takeWhile isWord = w := by
    intro w ws hw hws
    rw [List.takeWhile_append_of_pos hw]
    cases ws with
    | nil => rw [List.takeWhile_nil, List.append_nil]
    | cons c ws =>
      rw [List.takeWhile_cons_of_neg (by rw [hws c rfl]; exact Bool.false_ne_true), List.append_nil]
  have huv : u = v := by rw [← htake hu hus, h, htake hv hvs]
  subst huv
  exact ⟨rfl, List.append_cancel_left h⟩

theorem spelled_inj {quoted : Bool} {u v us vs : List Char} (hu : IsRun u) (hv : IsRun v)
    (hus : quoted = false → ∀ c ∈ us.head?, isWord c = false)
    (hvs : quoted = false → ∀ c ∈ vs.head?, isWord c = false)
    (h : spelled quoted u ++ us = spelled quoted v ++ vs) : u = v ∧ us = vs := by
  cases quoted with
  | false => exact run_inj hu.2 hv.2 (hus rfl) (hvs rfl) h
  | true =>
    rw [spelled_quoted_append, spelled_quoted_append] at h
    obtain ⟨huv, hrest⟩ := run_inj hu.2 hv.2 (isWord_head (by decide) us)
      (isWord_head (by decide) vs) (List.cons.inj h).2
    exact ⟨huv, (List.cons.inj hrest).2⟩

namespace TextRule

variable {r : TextRule} {quoted : Bool} {table rest : List Char}

/-! ## Where a reference to a table begins -/

/-- A reference to a column of a table in a style begins here, behind a character. -/
def Begins (quoted : Bool) (table : List Char) (before : Option Char) (cs : List Char) : Prop :=
  (quoted = false → opens before = true) ∧ spelled quoted table ++ ['.'] <+: cs

theorem begins_bare_iff {before : Option Char} {cs : List Char} :
    Begins false table before cs ↔ opens before = true ∧ table ++ ['.'] <+: cs :=
  and_congr_left' (imp_iff_right rfl)

theorem begins_quoted_iff {before : Option Char} {cs : List Char} :
    Begins true table before cs ↔ ∃ ds, cs = '"' :: ds ∧ table ++ ['"', '.'] <+: ds := by
  unfold Begins
  rw [spelled_quoted_append, and_iff_right nofun]
  constructor
  · intro hprefix
    obtain ⟨ds, rfl⟩ := hprefix
    exact ⟨_, rfl, List.prefix_append _ ds⟩
  · rintro ⟨ds, rfl, hprefix⟩
    exact List.cons_prefix_cons.mpr ⟨rfl, hprefix⟩

theorem closes_iff {next : Option Char} : closes next = true ↔ ∀ c ∈ next, isWord c = false := by
  cases next with
  | none => exact iff_of_true rfl nofun
  | some c => simp [closes]

/-- Whether a rule applies where its pattern is found. -/
theorem applies_append_iff {before : Option Char} {cs : List Char} :
    r.applies before (r.pattern ++ cs) = true ↔ (r.atStart = true → opens before = true) ∧
      (r.atEnd = true → ∀ c ∈ cs.head?, isWord c = false) := by
  have hprefix : r.pattern.isPrefixOf (r.pattern ++ cs) = true :=
    List.isPrefixOf_iff_prefix.mpr (List.prefix_append _ _)
  rw [applies, List.drop_left, hprefix, Bool.true_and, Bool.and_eq_true, Bool.or_eq_true,
    Bool.or_eq_true, closes_iff, Bool.not_eq_true', Bool.not_eq_true', ← Bool.not_eq_true,
    ← Bool.not_eq_true, ← imp_iff_not_or, ← imp_iff_not_or]

/-- A rule for what is qualified by a table, in one of the two styles. -/
structure Names (r : TextRule) (quoted : Bool) (table rest : List Char) : Prop where
  run : IsRun table
  pattern : r.pattern = spelled quoted table ++ '.' :: rest
  atStart : r.atStart = !quoted

theorem Names.begins (hr : r.Names quoted table rest) {before : Option Char} {cs : List Char}
    (h : r.applies before cs = true) : Begins quoted table before cs := by
  unfold applies at h
  simp only [Bool.and_eq_true, List.isPrefixOf_iff_prefix, hr.atStart, Bool.not_not,
    Bool.or_eq_true] at h
  refine ⟨fun hbare => h.1.2.resolve_left (by rw [hbare]; exact Bool.false_ne_true), ?_⟩
  refine List.IsPrefix.trans ⟨rest, ?_⟩ (hr.pattern ▸ h.1.1)
  rw [List.append_assoc, List.singleton_append]

/-- Where no reference begins the text stays. -/
theorem Names.replaceFrom_cons (hr : r.Names quoted table rest) {before : Option Char} {c : Char}
    {cs : List Char} (h : ¬Begins quoted table before (c :: cs)) :
    r.replaceFrom before 0 (c :: cs) = c :: r.replaceFrom (some c) 0 cs := by
  rw [replaceFrom, if_neg fun happlies => h (hr.begins happlies)]

/-- No name of a table stands where no word begins. -/
theorem not_prefix_of_head (hrun : IsRun table) {cs : List Char}
    (hcs : ∀ c ∈ cs.head?, isWord c = false) (us : List Char) : ¬table ++ us <+: cs := by
  intro hprefix
  obtain ⟨t, ts, rfl⟩ := List.exists_cons_of_ne_nil hrun.1
  obtain ⟨more, rfl⟩ := hprefix
  cases (hcs t rfl).symm.trans (hrun.2 t List.mem_cons_self)

/-- No reference begins in a word: without quotes it would begin earlier, with quotes not here. -/
theorem not_begins_of_isWord {before : Option Char} {c : Char} {cs : List Char}
    (hc : isWord c = true) (hbefore : opens before = false) :
    ¬Begins quoted table before (c :: cs) := by
  intro hbegins
  cases quoted with
  | false => cases hbefore.symm.trans (begins_bare_iff.mp hbegins).1
  | true =>
    obtain ⟨ds, hds, -⟩ := begins_quoted_iff.mp hbegins
    obtain rfl : c = '"' := (List.cons.inj hds).1
    exact absurd hc (by decide)

/-- No reference begins with another character than that of a word or a quote. -/
theorem not_begins_of_other (hrun : IsRun table) {before : Option Char} {c : Char} {cs : List Char}
    (hc : isWord c = false) (hquote : c ≠ '"') : ¬Begins quoted table before (c :: cs) := by
  intro hbegins
  cases quoted with
  | false => exact not_prefix_of_head hrun (isWord_head hc cs) _ (begins_bare_iff.mp hbegins).2
  | true =>
    obtain ⟨ds, hds, -⟩ := begins_quoted_iff.mp hbegins
    exact hquote (List.cons.inj hds).1

/-- A reference that begins with a quote goes on with the name of the table, a quote and a point. -/
theorem not_begins_of_quote (hrun : IsRun table) {before : Option Char} {cs : List Char}
    (h : ¬table ++ ['"', '.'] <+: cs) : ¬Begins quoted table before ('"' :: cs) := by
  intro hbegins
  cases quoted with
  | false =>
    exact not_prefix_of_head hrun (isWord_head (by decide) cs) _ (begins_bare_iff.mp hbegins).2
  | true =>
    obtain ⟨ds, hds, hprefix⟩ := begins_quoted_iff.mp hbegins
    exact h ((List.cons.inj hds).2 ▸ hprefix)

/-! ## Stretches that stay -/

section Stretches

variable {before : Option Char} {cs cs' : List Char}

/-- A word stays behind a character that no reference begins after. -/
theorem Names.replaceFrom_word (hr : r.Names quoted table rest) {w : List Char}
    (hw : ∀ c ∈ w, isWord c = true) (hbefore : opens before = false)
    (hcs : ∀ b, r.replaceFrom b 0 cs = cs') : r.replaceFrom before 0 (w ++ cs) = w ++ cs' := by
  induction w generalizing before with
  | nil => exact hcs before
  | cons c w ih =>
    obtain ⟨hc, hw⟩ := List.forall_mem_cons.mp hw
    have hnext : opens (some c) = false := by simp [opens, hc]
    rw [List.cons_append, hr.replaceFrom_cons (not_begins_of_isWord hc hbefore), ih hw hnext,
      List.cons_append]

/-- The name of a column stays behind the point. -/
theorem Names.replaceFrom_column (hr : r.Names quoted table rest) (style : Bool) {name : List Char}
    (hname : IsRun name) (hhead : ∀ c ∈ cs.head?, Separates c)
    (hcs : ∀ b, r.replaceFrom b 0 cs = cs') :
    r.replaceFrom (some '.') 0 (spelled style name ++ cs) = spelled style name ++ cs' := by
  cases style with
  | false => exact hr.replaceFrom_word hname.2 rfl hcs
  | true =>
    have hopening : ¬table ++ ['"', '.'] <+: name ++ '"' :: cs := by
      rintro ⟨more, hmore⟩
      rw [List.append_assoc] at hmore
      obtain ⟨-, hrest⟩ := run_inj hr.run.2 hname.2
        (isWord_head (by decide) _) (isWord_head (by decide) _) hmore
      obtain rfl : '.' :: more = cs := (List.cons.inj hrest).2
      exact (hhead '.' rfl).2.1 rfl
    have hclosing : ∀ b, r.replaceFrom b 0 ('"' :: cs) = '"' :: cs' := fun b => by
      rw [hr.replaceFrom_cons (not_begins_of_quote hr.run
        (not_prefix_of_head hr.run (fun c hc => (hhead c hc).1) _)), hcs]
    rw [spelled_quoted_append, spelled_quoted_append,
      hr.replaceFrom_cons (not_begins_of_quote hr.run hopening),
      hr.replaceFrom_word hname.2 rfl hclosing]

/-- The name of a table stays where the rule does not apply. -/
theorem Names.replaceFrom_table (hr : r.Names quoted table rest) (style : Bool) {name : List Char}
    (hname : IsRun name) (hfirst : r.applies before (spelled style name ++ '.' :: cs) = false)
    (hcs : ∀ b, r.replaceFrom b 0 ('.' :: cs) = cs') :
    r.replaceFrom before 0 (spelled style name ++ '.' :: cs) = spelled style name ++ cs' := by
  have hnot : ¬r.applies before (spelled style name ++ '.' :: cs) = true := by
    rw [hfirst]
    exact Bool.false_ne_true
  cases style with
  | false =>
    obtain ⟨d, ds, rfl⟩ := List.exists_cons_of_ne_nil hname.1
    obtain ⟨hd, hds⟩ := List.forall_mem_cons.mp hname.2
    have hnext : opens (some d) = false := by simp [opens, hd]
    rw [spelled_bare, List.cons_append] at hnot ⊢
    rw [replaceFrom, if_neg hnot, hr.replaceFrom_word hds hnext hcs, List.cons_append]
  | true =>
    have hclosing : ∀ b, r.replaceFrom b 0 ('"' :: '.' :: cs) = '"' :: cs' := fun b => by
      rw [hr.replaceFrom_cons (not_begins_of_quote hr.run
        (not_prefix_of_head hr.run (isWord_head (by decide) _) _)), hcs]
    rw [spelled_quoted_append] at hnot ⊢
    rw [replaceFrom, if_neg hnot, hr.replaceFrom_word hname.2 rfl hclosing, spelled_quoted_append]

/-- A reference that the rule does not apply to stays. -/
theorem Names.replaceFrom_mention (hr : r.Names quoted table rest) {m : Mention} (hm : m.IsPlain)
    (hhead : ∀ c ∈ cs.head?, Separates c) (hcs : ∀ b, r.replaceFrom b 0 cs = cs')
    (hfirst : r.applies before (m.text ++ cs) = false) :
    r.replaceFrom before 0 (m.text ++ cs) = m.text ++ cs' := by
  have hpoint : ∀ b, r.replaceFrom b 0 ('.' :: (spelled m.quoted m.ref.name.toList ++ cs)) =
      '.' :: (spelled m.quoted m.ref.name.toList ++ cs') := fun b => by
    rw [hr.replaceFrom_cons (not_begins_of_other hr.run (by decide) (by decide)),
      hr.replaceFrom_column m.quoted hm.2.isRun hhead hcs]
  rw [m.text_append] at hfirst ⊢
  rw [m.text_append, hr.replaceFrom_table m.quoted hm.1.isRun hfirst hpoint]

/-- A text without the name of the table has it neither across its end, if no word is cut there. -/
theorem not_prefix_of_last (hrun : IsRun table) {us : List Char} (hus : ¬table <:+: us)
    (hlast : cs = [] ∨ ∃ c ∈ us.getLast?, isWord c = false) (more : List Char) :
    ¬table ++ more <+: us ++ cs := by
  intro hmore
  have hprefix : table <+: us ++ cs := (List.prefix_append table more).trans hmore
  rcases hlast with rfl | ⟨c, hc, hother⟩
  · rw [List.append_nil] at hprefix
    exact hus hprefix.isInfix
  · rcases List.prefix_or_prefix_of_prefix hprefix (List.prefix_append us cs) with h | h
    · exact hus h.isInfix
    · cases hother.symm.trans (hrun.2 c (h.subset (List.mem_of_getLast? hc)))

/-- No reference to the table begins in a text without its name, if one that follows is separated
from the text. -/
theorem not_begins_of_absent (hrun : IsRun table) {u : Char} {us : List Char}
    (hus : ¬table <:+: u :: us) (hlast : cs = [] ∨ ∀ c ∈ (u :: us).getLast?, Separates c) :
    ¬Begins quoted table before (u :: (us ++ cs)) := by
  intro hbegins
  cases quoted with
  | false =>
    refine not_prefix_of_last hrun hus (hlast.imp_right fun h => ?_) _
      (begins_bare_iff.mp hbegins).2
    exact ⟨_, rfl, (h _ rfl).1⟩
  | true =>
    obtain ⟨ds, hds, hprefix⟩ := begins_quoted_iff.mp hbegins
    obtain ⟨rfl, rfl⟩ := List.cons.inj hds
    refine not_prefix_of_last hrun (fun h => hus (h.trans (List.suffix_cons _ us).isInfix))
      (hlast.imp_right fun h => ?_) _ hprefix
    cases us with
    | nil => exact absurd rfl (h '"' rfl).2.2
    | cons v us => exact ⟨_, rfl, (h _ rfl).1⟩

/-- What does not contain the name of the table stays if a reference that follows is separated from
it. -/
theorem Names.replaceFrom_other (hr : r.Names quoted table rest) {us : List Char}
    (hus : ¬table <:+: us) (hlast : cs = [] ∨ ∀ c ∈ us.getLast?, Separates c)
    (hcs : r.replaceFrom (us.getLast?.or before) 0 cs = cs') :
    r.replaceFrom before 0 (us ++ cs) = us ++ cs' := by
  induction us generalizing before with
  | nil => exact hcs
  | cons u us ih =>
    have hnext : r.replaceFrom (some u) 0 (us ++ cs) = us ++ cs' := by
      refine ih (fun h => hus (h.trans (List.suffix_cons u us).isInfix)) ?_ ?_
      · refine hlast.imp_right fun h c hc => h c ?_
        rw [List.getLast?_cons, hc]
        rfl
      · rw [← hcs, List.getLast?_cons]
        cases us.getLast? <;> rfl
    have hstays : r.replaceFrom before 0 (u :: (us ++ cs)) =
        u :: r.replaceFrom (some u) 0 (us ++ cs) :=
      hr.replaceFrom_cons (not_begins_of_absent hr.run hus hlast)
    rw [List.cons_append, hstays, hnext, List.cons_append]

end Stretches

/-! ## References that are replaced -/

section Mentions

variable {before : Option Char} {cs cs' : List Char}

/-- A reference to the table begins where one is written in the style of the rule. -/
theorem begins_mention_iff (hrun : IsRun table) {m : Mention} (hm : m.IsPlain)
    (hopens : opens before = true) : Begins quoted table before (m.text ++ cs) ↔
      m.quoted = quoted ∧ m.ref.table.toList = table := by
  rw [m.text_append]
  constructor
  · intro hbegins
    have hstyle : m.quoted = quoted := by
      cases hq : m.quoted with
      | false =>
        cases quoted with
        | false => rfl
        | true =>
          obtain ⟨ds, hds, -⟩ := begins_quoted_iff.mp hbegins
          obtain ⟨t, ts, ht⟩ := List.exists_cons_of_ne_nil hm.1.isRun.1
          rw [hq, spelled_bare, ht] at hds
          obtain rfl : t = '"' := (List.cons.inj hds).1
          exact absurd (hm.1.isRun.2 '"' (ht ▸ List.mem_cons_self)) (by decide)
      | true =>
        cases quoted with
        | false =>
          rw [hq, spelled_quoted_append] at hbegins
          exact absurd (begins_bare_iff.mp hbegins).2
            (not_prefix_of_head hrun (isWord_head (by decide) _) _)
        | true => rfl
    obtain ⟨more, hmore⟩ := hbegins.2
    rw [hstyle, List.append_assoc, List.singleton_append] at hmore
    exact ⟨hstyle, (spelled_inj hrun hm.1.isRun (fun _ => isWord_head (by decide) _)
      (fun _ => isWord_head (by decide) _) hmore).1.symm⟩
  · rintro ⟨rfl, rfl⟩
    refine ⟨fun _ => hopens, List.prefix_append_right_inj _ |>.mpr ⟨_, rfl⟩⟩

/-- What a rule does to each reference of a text. -/
structure Acts (r : TextRule) (table : String) (f : Mention → Mention) : Prop where
  names : ∃ quoted rest, r.Names quoted table.toList rest
  plain : ∀ m : Mention, m.IsPlain → (f m).IsPlain
  replaces : ∀ {m : Mention} {before : Option Char} {cs cs' : List Char}, m.IsPlain →
    opens before = true → (∀ c ∈ cs.head?, Separates c) → (∀ b, r.replaceFrom b 0 cs = cs') →
      r.replaceFrom before 0 (m.text ++ cs) = (f m).text ++ cs'

/-! ## Rules for one column -/

/-- A rule for a column: its reference in a style becomes another one. -/
def columnRule (quoted : Bool) (ref target : ColumnRef) : TextRule :=
  ⟨Mention.text ⟨ref, quoted⟩, Mention.text ⟨target, quoted⟩, !quoted, !quoted⟩

theorem names_columnRule {ref : ColumnRef} (htable : IsPlainName ref.table) (target : ColumnRef) :
    (columnRule quoted ref target).Names quoted ref.table.toList
      (spelled quoted ref.name.toList) := ⟨htable.isRun, rfl, rfl⟩

/-- The rule applies to its own reference alone. -/
theorem applies_columnRule_iff {ref : ColumnRef} (htable : IsPlainName ref.table)
    (hname : IsPlainName ref.name) (target : ColumnRef) {m : Mention} (hm : m.IsPlain)
    (hopens : opens before = true) (hhead : ∀ c ∈ cs.head?, Separates c) :
    (columnRule quoted ref target).applies before (m.text ++ cs) = true ↔ m = ⟨ref, quoted⟩ := by
  constructor
  · intro happlies
    obtain ⟨hstyle, ht⟩ := (begins_mention_iff htable.isRun hm hopens).mp
      ((names_columnRule htable target).begins happlies)
    obtain ⟨more, hmore⟩ := exists_of_applies happlies
    rw [hmore] at happlies
    have hcloses : quoted = false → ∀ c ∈ more.head?, isWord c = false := fun hq =>
      (applies_append_iff.mp happlies).2 (by rw [columnRule, hq]; rfl)
    obtain ⟨⟨t, c⟩, style⟩ := m
    obtain rfl : style = quoted := hstyle
    obtain rfl : t = ref.table := String.toList_injective ht
    change _ = Mention.text ⟨ref, style⟩ ++ more at hmore
    rw [Mention.text_append, Mention.text_append] at hmore
    have hrest := (List.cons.inj (List.append_cancel_left hmore)).2
    have hc := (spelled_inj hm.2.isRun hname.isRun (fun _ c hc => (hhead c hc).1) hcloses hrest).1
    obtain rfl : c = ref.name := String.toList_injective hc
    rfl
  · rintro rfl
    exact applies_append_iff.mpr ⟨fun _ => hopens, fun _ c hc => (hhead c hc).1⟩

/-- A rule for a column replaces the references to it. -/
theorem acts_columnRule (quoted : Bool) {ref target : ColumnRef} (htable : IsPlainName ref.table)
    (hname : IsPlainName ref.name)
    (htarget : IsPlainName target.table ∧ IsPlainName target.name) :
    (columnRule quoted ref target).Acts ref.table (Mention.redirect quoted ref target) where
  names := ⟨quoted, _, names_columnRule htable target⟩
  plain m hm := by
    unfold Mention.redirect
    split
    · exact htarget
    · exact hm
  replaces {m before cs cs'} hm hopens hhead hcs := by
    have happlies : (columnRule quoted ref target).applies before (m.text ++ cs) = true ↔
        m = ⟨ref, quoted⟩ := applies_columnRule_iff htable hname target hm hopens hhead
    unfold Mention.redirect
    split
    · next hself =>
      subst hself
      have hne : (columnRule quoted ref target).pattern ≠ [] := by
        simp [columnRule, Mention.text]
      exact (replaceFrom_hit hne (happlies.mpr rfl)).trans (by rw [hcs]; rfl)
    · next hother =>
      exact (names_columnRule htable target).replaceFrom_mention hm hhead hcs
        (Bool.eq_false_iff.mpr (mt happlies.mp hother))

/-! ## Rules for a table -/

/-- A rule for a table: what is qualified by it in a style is qualified by another one. -/
def tableRule (quoted : Bool) (table other : String) : TextRule :=
  ⟨spelled quoted table.toList ++ ['.'], spelled quoted other.toList ++ ['.'], !quoted, false⟩

/-- A rule for a table replaces the tables of references. -/
theorem acts_tableRule (quoted : Bool) {table other : String} (htable : IsPlainName table)
    (hother : IsPlainName other) :
    (tableRule quoted table other).Acts table (Mention.requalify quoted table other) := by
  have hnames : (tableRule quoted table other).Names quoted table.toList [] :=
    ⟨htable.isRun, rfl, rfl⟩
  refine ⟨⟨quoted, [], hnames⟩, fun m hm => ?_, fun {m before cs cs'} hm hopens hhead hcs => ?_⟩
  · unfold Mention.requalify
    split
    · exact ⟨hother, hm.2⟩
    · exact hm
  unfold Mention.requalify
  split
  · next hself =>
    obtain ⟨⟨t, c⟩, style⟩ := m
    obtain ⟨rfl, rfl⟩ : style = quoted ∧ t = table := hself
    have happlies : (tableRule style t other).applies before
        ((tableRule style t other).pattern ++ (spelled style c.toList ++ cs)) = true :=
      applies_append_iff.mpr ⟨fun _ => hopens, nofun⟩
    have hpattern : (tableRule style t other).pattern ++ (spelled style c.toList ++ cs) =
        Mention.text ⟨⟨t, c⟩, style⟩ ++ cs := by
      rw [Mention.text_append, tableRule, List.append_assoc, List.singleton_append]
    have hne : (tableRule style t other).pattern ≠ [] := by simp [tableRule]
    have hlast : (tableRule style t other).pattern.getLast? = some '.' := List.getLast?_concat
    rw [← hpattern, replaceFrom_hit hne happlies, hlast,
      hnames.replaceFrom_column style hm.2.isRun hhead hcs, Mention.text_append, tableRule,
      List.append_assoc, List.singleton_append]
  · next hother =>
    refine hnames.replaceFrom_mention hm hhead hcs (Bool.eq_false_iff.mpr fun happlies => ?_)
    obtain ⟨hstyle, ht⟩ := (begins_mention_iff htable.isRun hm hopens).mp (hnames.begins happlies)
    exact hother ⟨hstyle, String.toList_injective ht⟩

end Mentions

/-! ## Whole texts -/

section Passages

variable {f : Mention → Mention} {ps : List Passage}

theorem opens_of_separates {c : Char} (hc : Separates c) : opens (some c) = true := by
  simp [opens, hc.1, hc.2.1, hc.2.2]

/-- What follows a reference is nothing, or separates it. -/
theorem head_separates {table : String} {m : Mention} (hplain : ∀ p ∈ ps, p.IsPlain table)
    (hadjoins : ∀ p ∈ ps.head?, Passage.Adjoins (.mention m) p) :
    ∀ c ∈ (ps.flatMap Passage.chars).head?, Separates c := by
  cases ps with
  | nil => exact nofun
  | cons p ps =>
    cases p with
    | mention m' => exact (hadjoins _ rfl).elim
    | other text =>
      have hne : text.toList ≠ [] := mt String.toList_eq_nil_iff.mp (hplain _ List.mem_cons_self).1
      intro c hc
      have htext : (Passage.other text).chars = text.toList := rfl
      rw [List.flatMap_cons, htext, List.head?_append_of_ne_nil _ hne] at hc
      exact hadjoins _ rfl c hc

/-- A rule that acts on each reference acts on all references of a text, and on nothing else. -/
theorem Acts.replaceFrom {table : String} (hr : r.Acts table f) {before : Option Char}
    (hplain : ∀ p ∈ ps, p.IsPlain table) (hchain : ps.IsChain Passage.Adjoins)
    (hbefore : ∀ m, ps.head? = some (.mention m) → opens before = true) :
    r.replaceFrom before 0 (ps.flatMap Passage.chars) =
      (ps.map (Passage.mapMention f)).flatMap Passage.chars := by
  obtain ⟨quoted, rest, hnames⟩ := hr.names
  induction ps generalizing before with
  | nil => cases before <;> rfl
  | cons p ps ih =>
    obtain ⟨hp, hps⟩ := List.forall_mem_cons.mp hplain
    obtain ⟨hadjoins, hnext⟩ := List.isChain_cons.mp hchain
    rw [List.flatMap_cons, List.map_cons, List.flatMap_cons]
    cases p with
    | mention m =>
      refine hr.replaces hp (hbefore m rfl) (head_separates hps hadjoins) fun b => ?_
      exact ih hps hnext fun m' hm' => (hadjoins _ hm').elim
    | other text =>
      refine hnames.replaceFrom_other hp.2 ?_ (ih hps hnext fun m hm => ?_)
      · cases ps with
        | nil => exact .inl rfl
        | cons p ps =>
          cases p with
          | mention m => exact .inr (hadjoins _ rfl)
          | other text' => exact (hadjoins _ rfl).elim
      · have hne : text.toList ≠ [] := mt String.toList_eq_nil_iff.mp hp.1
        obtain ⟨c, hc⟩ := Option.ne_none_iff_exists'.mp (mt List.getLast?_eq_none_iff.mp hne)
        have hlast : ((Passage.other text).chars.getLast?.or before) = some c := by
          rw [show (Passage.other text).chars = text.toList from rfl, hc]
          rfl
        rw [hlast]
        exact opens_of_separates (hadjoins _ hm c hc)

theorem Acts.replaceAll {table : String} (hr : r.Acts table f)
    (hplain : ∀ p ∈ ps, p.IsPlain table) (hchain : ps.IsChain Passage.Adjoins) :
    r.replaceAll (ps.flatMap Passage.chars) =
      (ps.map (Passage.mapMention f)).flatMap Passage.chars :=
  hr.replaceFrom hplain hchain fun _ _ => rfl

theorem isPlain_mapMention {table : String} (hf : ∀ m : Mention, m.IsPlain → (f m).IsPlain)
    (hplain : ∀ p ∈ ps, p.IsPlain table) :
    ∀ p ∈ ps.map (Passage.mapMention f), p.IsPlain table := by
  rw [List.forall_mem_map]
  intro p hp
  cases p with
  | mention m => exact hf m (hplain _ hp)
  | other text => exact hplain _ hp

theorem isChain_mapMention (hchain : ps.IsChain Passage.Adjoins) :
    (ps.map (Passage.mapMention f)).IsChain Passage.Adjoins := by
  refine List.isChain_map_of_isChain (Passage.mapMention f) (fun p p' h => ?_) hchain
  cases p <;> cases p' <;> exact h

/-- What several rules do to a reference. -/
def redirected (fs : List (Mention → Mention)) (m : Mention) : Mention :=
  fs.foldl (fun m f => f m) m

/-- Rules one after another act on the references one after another. -/
theorem replaceEach_passages {table : String} {rules : List TextRule}
    {fs : List (Mention → Mention)} (hrules : List.Forall₂ (fun r f => r.Acts table f) rules fs)
    (hplain : ∀ p ∈ ps, p.IsPlain table) (hchain : ps.IsChain Passage.Adjoins) :
    replaceEach rules (ps.flatMap Passage.chars) =
      (ps.map (Passage.mapMention (redirected fs))).flatMap Passage.chars := by
  induction hrules generalizing ps with
  | nil =>
    have hsame : redirected [] = id := rfl
    rw [hsame, Passage.mapMention_id, List.map_id]
    rfl
  | @cons r f rules fs hr _ ih =>
    have hsame : redirected (f :: fs) = redirected fs ∘ f := rfl
    have hstep : replaceEach (r :: rules) (ps.flatMap Passage.chars) =
        replaceEach rules (r.replaceAll (ps.flatMap Passage.chars)) := rfl
    rw [hstep, hr.replaceAll hplain hchain, ih (isPlain_mapMention hr.plain hplain)
      (isChain_mapMention hchain), List.map_map, hsame, Passage.mapMention_comp]

end Passages

end TextRule

/-! ## All rules -/

namespace Substitution

open TextRule

/-- The counterpart of a reference, in the same style. -/
def mention (s : Substitution) (m : Mention) : Mention := ⟨s.column m.ref, m.quoted⟩

/-- What the rules do to a reference one after another: the special columns, and then all others. -/
def redirections (s : Substitution) : List (Mention → Mention) :=
  let live := s.kind.table.name
  [.redirect false ⟨live, "updated_at"⟩ (journalColumn "recorded_at"),
    .redirect true ⟨live, "updated_at"⟩ (journalColumn "recorded_at"),
    .redirect false ⟨live, "created_at"⟩ (liveColumn "created_at"),
    .redirect true ⟨live, "created_at"⟩ (liveColumn "created_at"),
    .redirect false ⟨live, "id"⟩ (journalColumn "entity_id"),
    .redirect true ⟨live, "id"⟩ (journalColumn "entity_id"),
    .requalify false live s.kind.journal.name,
    .requalify true live s.kind.journal.name]

theorem columnRules_eq (table name : String) (target : ColumnRef) :
    columnRules table name target =
      [columnRule false ⟨table, name⟩ target, columnRule true ⟨table, name⟩ target] := by
  simp [columnRules, columnRule, Mention.text, spelled, ColumnRef.qualifiedName]

theorem textRules_eq (s : Substitution) : s.textRules =
    [columnRule false ⟨s.kind.table.name, "updated_at"⟩ (journalColumn "recorded_at"),
      columnRule true ⟨s.kind.table.name, "updated_at"⟩ (journalColumn "recorded_at"),
      columnRule false ⟨s.kind.table.name, "created_at"⟩ (liveColumn "created_at"),
      columnRule true ⟨s.kind.table.name, "created_at"⟩ (liveColumn "created_at"),
      columnRule false ⟨s.kind.table.name, "id"⟩ (journalColumn "entity_id"),
      columnRule true ⟨s.kind.table.name, "id"⟩ (journalColumn "entity_id"),
      tableRule false s.kind.table.name s.kind.journal.name,
      tableRule true s.kind.table.name s.kind.journal.name] := by
  simp [textRules, columnRules_eq, tableRule, spelled]

theorem isPlainName_tables (k : Kind) :
    IsPlainName k.table.name ∧ IsPlainName k.journal.name := by
  cases k <;> decide

/-- Each of the rules acts on references. -/
theorem acts_textRules (s : Substitution) : List.Forall₂
    (fun r f => r.Acts s.kind.table.name f) s.textRules s.redirections := by
  obtain ⟨hlive, hjournal⟩ := isPlainName_tables s.kind
  rw [textRules_eq, redirections]
  have hcolumn : ∀ quoted {name : String} {target : ColumnRef}, IsPlainName name →
      IsPlainName target.table ∧ IsPlainName target.name →
        (columnRule quoted ⟨s.kind.table.name, name⟩ target).Acts s.kind.table.name
          (Mention.redirect quoted ⟨s.kind.table.name, name⟩ target) :=
    fun quoted {_ _} hname htarget => acts_columnRule quoted hlive hname htarget
  exact .cons (hcolumn _ (by decide) (by decide)) <| .cons (hcolumn _ (by decide) (by decide)) <|
    .cons (hcolumn _ (by decide) (by decide)) <| .cons (hcolumn _ (by decide) (by decide)) <|
    .cons (hcolumn _ (by decide) (by decide)) <| .cons (hcolumn _ (by decide) (by decide)) <|
    .cons (acts_tableRule _ hlive hjournal) <| .cons (acts_tableRule _ hlive hjournal) .nil

/-- A reference to another table stays. -/
theorem redirected_of_ne (s : Substitution) {m : Mention}
    (hm : m.ref.table ≠ s.kind.table.name) : redirected s.redirections m = m := by
  have hcolumn : ∀ quoted name target,
      m.redirect quoted ⟨s.kind.table.name, name⟩ target = m := fun quoted name target =>
    if_neg fun h => hm (congrArg (fun m => m.ref.table) h)
  have htable : ∀ quoted other, m.requalify quoted s.kind.table.name other = m :=
    fun quoted other => if_neg fun h => hm h.2
  simp only [redirected, redirections, List.foldl_cons, List.foldl_nil, hcolumn, htable]

theorem live_ne_added (k : Kind) : Kind.journalsName ≠ k.table.name ∧
    Kind.journablesAlias ≠ k.table.name ∧ k.journal.name ≠ k.table.name := by
  cases k <;> decide

/-- No counterpart is in the live table. -/
theorem column_table_ne (s : Substitution) (ref : ColumnRef) :
    (s.column ref).table ≠ s.kind.table.name := by
  obtain ⟨hjournals, hjournables, hjournal⟩ := live_ne_added s.kind
  cases hown : s.isOwnTable ref.table with
  | false =>
    rw [s.column_of_other ref hown]
    intro h
    rw [h, s.isOwnTable_table] at hown
    cases hown
  | true =>
    rw [column_own hown]
    split
    · exact hjournals
    split
    · exact hjournables
    split
    · exact hjournals
    · exact hjournal

/-- A reference by plain names has a counterpart by plain names. -/
theorem isPlain_mention (s : Substitution) {m : Mention} (hm : m.IsPlain) :
    (s.mention m).IsPlain := by
  change IsPlainName (s.column m.ref).table ∧ IsPlainName (s.column m.ref).name
  cases hown : s.isOwnTable m.ref.table with
  | false => rwa [s.column_of_other m.ref hown]
  | true =>
    rw [column_own hown]
    split
    · exact (by decide : IsPlainName Kind.journalsName ∧ IsPlainName "entity_id")
    split
    · exact (by decide : IsPlainName Kind.journablesAlias ∧ IsPlainName "created_at")
    split
    · exact (by decide : IsPlainName Kind.journalsName ∧ IsPlainName "recorded_at")
    · exact ⟨(isPlainName_tables s.kind).2, hm.2⟩

/-- A reference to the live table becomes that to its counterpart. -/
theorem redirected_live (s : Substitution) (name : String) (quoted : Bool) :
    redirected s.redirections ⟨⟨s.kind.table.name, name⟩, quoted⟩ =
      s.mention ⟨⟨s.kind.table.name, name⟩, quoted⟩ := by
  obtain ⟨hjournals, hjournables, hjournal⟩ := live_ne_added s.kind
  rw [mention, column_own s.isOwnTable_table]
  -- One of the rules applies in each case, and what it gives is in another table.
  by_cases hid : name = "id"
  · subst hid
    cases quoted <;> simp [redirected, redirections, Mention.redirect, Mention.requalify,
      journalColumn, hjournals]
  by_cases hcreated : name = "created_at"
  · subst hcreated
    cases quoted <;> simp [redirected, redirections, Mention.redirect, Mention.requalify,
      liveColumn, hjournables]
  by_cases hupdated : name = "updated_at"
  · subst hupdated
    cases quoted <;> simp [redirected, redirections, Mention.redirect, Mention.requalify,
      journalColumn, hjournals]
  · cases quoted <;> simp [redirected, redirections, Mention.redirect, Mention.requalify,
      hid, hcreated, hupdated, hjournal]

/-- The rules turn references into their counterparts, apart from those to the journal, which they
do not know. -/
theorem redirected_eq_mention (s : Substitution) {m : Mention}
    (hm : m.ref.table ≠ s.kind.journal.name) : redirected s.redirections m = s.mention m := by
  obtain ⟨⟨table, name⟩, quoted⟩ := m
  by_cases hlive : table = s.kind.table.name
  · subst hlive
    exact s.redirected_live name quoted
  · have hother : s.isOwnTable table = false := by simp [isOwnTable, hlive, show table ≠ _ from hm]
    rw [s.redirected_of_ne hlive, mention, s.column_of_other ⟨table, name⟩ hother]

/-- All rules one after another, where what they do to the references is known. -/
theorem raw_text (s : Substitution) {ps : List Passage} (params : List (String × Value))
    {f : Mention → Mention} (hplain : ∀ p ∈ ps, p.IsPlain s.kind.table.name)
    (hchain : ps.IsChain Passage.Adjoins)
    (hf : ∀ m, .mention m ∈ ps → redirected s.redirections m = f m) :
    s.raw ⟨Passage.text ps, params⟩ =
      ⟨Passage.text (ps.map (Passage.mapMention f)), params⟩ := by
  rw [raw, rawText, Passage.text, String.toList_ofList,
    replaceEach_passages s.acts_textRules hplain hchain, Passage.map_mapMention_congr hf]
  rfl

/-- In a text of references by plain names, none of them to the journal, and of what separates
them without the name of the live table, each reference becomes its counterpart, in the same style,
and all else stays.  In the result nothing is replaced. -/
theorem raw_passages (s : Substitution) (ps : List Passage) (params : List (String × Value))
    (hplain : ∀ p ∈ ps, p.IsPlain s.kind.table.name)
    (hjournal : ∀ m, .mention m ∈ ps → m.ref.table ≠ s.kind.journal.name)
    (hchain : ps.IsChain Passage.Adjoins) :
    s.raw ⟨Passage.text ps, params⟩ =
      ⟨Passage.text (ps.map (Passage.mapMention s.mention)), params⟩ ∧
    s.raw (s.raw ⟨Passage.text ps, params⟩) = s.raw ⟨Passage.text ps, params⟩ := by
  have hfirst := s.raw_text params hplain hchain fun m hm =>
    s.redirected_eq_mention (hjournal m hm)
  have hstays : ∀ m, .mention m ∈ ps.map (Passage.mapMention s.mention) →
      redirected s.redirections m = id m := by
    intro m hm
    obtain ⟨p, -, hp⟩ := List.mem_map.mp hm
    cases p with
    | mention m' =>
      obtain rfl : s.mention m' = m := Passage.mention.inj hp
      exact s.redirected_of_ne (s.column_table_ne _)
    | other text => cases hp
  refine ⟨hfirst, ?_⟩
  rw [hfirst, s.raw_text params (isPlain_mapMention (fun _ => s.isPlain_mention) hplain)
    (isChain_mapMention hchain) hstays, Passage.mapMention_id, List.map_id]

/-- The number of a work package beside an attribute whose name begins like it, and the time of
creation of something else. -/
def identified : List Passage :=
  [.other "(", .mention ⟨⟨"work_packages", "id"⟩, true⟩, .other " = ",
    .mention ⟨⟨"work_packages", "identifier"⟩, false⟩, .other ") < ",
    .mention ⟨⟨"projects", "created_at"⟩, false⟩]

theorem raw_passages_identified :
    (⟨.workPackage, default, default⟩ : Substitution).raw
      ⟨"(\"work_packages\".\"id\" = work_packages.identifier) < projects.created_at", []⟩ =
        ⟨"(\"journals\".\"entity_id\" = work_package_journals.identifier) < projects.created_at",
          []⟩ := by
  have hjournal : ∀ m, Passage.mention m ∈ identified →
      m.ref.table ≠ Kind.workPackage.journal.name := by
    simp only [identified, List.mem_cons, List.not_mem_nil, Passage.mention.injEq, reduceCtorEq,
      false_or, or_false]
    rintro m (rfl | rfl | rfl) <;> decide
  have htext : Passage.text identified =
      "(\"work_packages\".\"id\" = work_packages.identifier) < projects.created_at" := by
    decide +kernel
  have htext' : Passage.text (identified.map (Passage.mapMention
      (⟨.workPackage, default, default⟩ : Substitution).mention)) =
      "(\"journals\".\"entity_id\" = work_package_journals.identifier) < projects.created_at" := by
    decide +kernel
  have hraw := (raw_passages ⟨.workPackage, default, default⟩ identified [] (by decide +kernel)
    hjournal (by decide)).1
  simpa only [htext, htext'] using hraw

end Substitution

end Chronicle
