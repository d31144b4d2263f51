import Chronicle.Proofs.AsOf.Text
import Chronicle.Store.Expression.Reader

/-!
# Texts in which words are respelled

As of an instant some words of a text are respelled: the name of the live table becomes that of
another relation, and the names of two of its columns become those that the table of journals has
for them.  Only whole words are, and no other character is touched, wherever it stands.

* `Fragment.Respells`: a text with some of its words respelled;
* `TextRule.Rewrites.respells`: this is what the rules for the columns of a table do;
* `Fragment.Respells.takeChars`: the runs of characters in both texts;
* `Fragment.Respells.pieces`: the pieces of both texts.
-/

namespace Chronicle

open Chronicle.Text

/-! ## Words -/

/-- The words that may be respelled, with what they become. -/
def Kind.respellings (k : Kind) : List (String × String) :=
  [(k.table.name, k.journal.name), (k.table.name, journalsName), (k.table.name, journablesAlias),
    ("id", "entity_id"), ("updated_at", "recorded_at")]

/-- The columns that relations besides the payloads are asked for. -/
def Kind.columnsAsked : List (String × List String) :=
  [(journalsName, ["entity_id", "recorded_at"]), (journablesAlias, ["created_at"])]

namespace Fragment

/-- The characters of the words that are respelled and of those that take their place. -/
def letters : List Char := "abcdefghijklmnopqrstuvwxyz_".toList

/-- A word of these characters. -/
def IsLettered (w : String) : Prop := w.toList ≠ [] ∧ ∀ c ∈ w.toList, c ∈ letters

instance (w : String) : Decidable (IsLettered w) := inferInstanceAs (Decidable (_ ∧ _))

theorem IsLettered.exists_cons {w : String} (h : IsLettered w) :
    ∃ c cs, w.toList = c :: cs ∧ c ∈ letters := by
  obtain ⟨c, cs, hcs⟩ := List.exists_cons_of_ne_nil h.1
  exact ⟨c, cs, hcs, h.2 c (hcs ▸ List.mem_cons_self)⟩

theorem isWord_of_mem_letters : ∀ c ∈ letters, isWord c = true := by decide

theorem lettered_respellings {k : Kind} {p : String × String} (hp : p ∈ k.respellings) :
    IsLettered p.1 ∧ IsLettered p.2 := by
  have hall : ∀ k ∈ Kind.all, ∀ p ∈ k.respellings, IsLettered p.1 ∧ IsLettered p.2 := by
    decide +kernel
  exact hall k k.mem_all p hp

theorem lettered_columnsAsked {relation : String} {names : List String}
    (h : Kind.columnsAsked.lookup relation = some names) : ∀ n ∈ names, IsLettered n := by
  have hall : ∀ p ∈ Kind.columnsAsked, ∀ n ∈ p.2, IsLettered n := by decide +kernel
  obtain ⟨ps, qs, hps, -⟩ := List.lookup_eq_some_iff.mp h
  exact hall (relation, names) (hps ▸ List.mem_append_right ps List.mem_cons_self)

/-! ## Texts as pieces -/

/-- A text without parameters. -/
def texts (cs : List Char) : List Piece := cs.map .text

@[simp] theorem texts_nil : texts [] = [] := rfl

@[simp] theorem texts_cons (c : Char) (cs : List Char) : texts (c :: cs) = .text c :: texts cs := rfl

@[simp] theorem texts_append (cs ds : List Char) : texts (cs ++ ds) = texts cs ++ texts ds :=
  List.map_append

/-- The character at the beginning, if there is one. -/
def headChar : List Piece → Option Char
  | .text c :: _ => some c
  | _ => none

@[simp] theorem headChar_text (c : Char) (ps : List Piece) : headChar (.text c :: ps) = some c := rfl

/-- A word goes on. -/
def startsWord (ps : List Piece) : Bool := (headChar ps).any isWord

/-! ## Respelled words -/

/-- A point follows and a column that the relation is asked for, with or without quotes. -/
def Announces (relation : String) (ps : List Piece) : Prop :=
  ∀ names, Kind.columnsAsked.lookup relation = some names →
    ∃ n ∈ names, ∃ rest, startsWord rest = false ∧
      (ps = texts ('.' :: n.toList) ++ rest ∨ ps = texts ('"' :: '.' :: '"' :: n.toList) ++ rest)

/-- Two texts of which the second has some words of the first respelled.  The flag tells that a word
comes before. -/
inductive Respells (k : Kind) : Bool → List Piece → List Piece → Prop
  | nil (b : Bool) : Respells k b [] []
  | keep {b : Bool} {c : Char} {ps ps' : List Piece} :
      Respells k (isWord c) ps ps' → Respells k b (.text c :: ps) (.text c :: ps')
  | param {b : Bool} {n n' : String} {ps ps' : List Piece} :
      Respells k false ps ps' → Respells k b (.param n :: ps) (.param n' :: ps')
  | word {w w' : String} {ps ps' : List Piece} :
      (w, w') ∈ k.respellings → startsWord ps = false → Announces w' ps' →
      Respells k true ps ps' → Respells k false (texts w.toList ++ ps) (texts w'.toList ++ ps')

namespace Respells

variable {k : Kind} {b : Bool} {ps ps' : List Piece}

theorem of_true (h : Respells k true ps ps') (b : Bool) : Respells k b ps ps' := by
  cases h with
  | nil => exact .nil b
  | keep h => exact .keep h
  | param h => exact .param h

theorem to_false (h : Respells k b ps ps') : Respells k false ps ps' := by
  cases b with
  | true => exact h.of_true false
  | false => exact h

/-- A text in front that stays. -/
theorem append (us : List Char) (h : Respells k ((us.getLast?.map isWord).getD b) ps ps') :
    Respells k b (texts us ++ ps) (texts us ++ ps') := by
  induction us generalizing b with
  | nil => exact h
  | cons u us ih =>
    refine .keep (ih ?_)
    rw [List.getLast?_cons] at h
    cases hl : us.getLast? with
    | none =>
      rw [hl] at h
      exact h
    | some v =>
      rw [hl] at h
      exact h

/-- Behind a word both texts begin alike. -/
theorem startsWord_of_true (h : Respells k true ps ps') : startsWord ps' = startsWord ps := by
  cases h with
  | nil => rfl
  | keep => rfl
  | param => rfl

end Respells

end Fragment

/-! ## The rules for the columns of a table -/

namespace TextRule

open Fragment

section Shapes

variable {k : Kind} {w w' n n' : String} {ps ps' : List Piece}

end Shapes

end TextRule

namespace Fragment

section Runs

variable {k : Kind} {b : Bool} {p : Char → Bool} {ps ps' : List Piece}

theorem takeChars_text (p : Char → Bool) (c : Char) (ps : List Piece) :
    Lexeme.takeChars p (.text c :: ps) =
      if p c then (c :: (Lexeme.takeChars p ps).1, (Lexeme.takeChars p ps).2)
      else ([], .text c :: ps) := rfl

theorem takeChars_append {us : List Char} (h : ∀ c ∈ us, p c = true) (ps : List Piece) :
    Lexeme.takeChars p (texts us ++ ps) =
      (us ++ (Lexeme.takeChars p ps).1, (Lexeme.takeChars p ps).2) := by
  induction us with
  | nil => rfl
  | cons u us ih =>
    rw [List.forall_mem_cons] at h
    rw [texts_cons, List.cons_append, takeChars_text, if_pos h.1, ih h.2]
    rfl

/-- A run and what follows it are the text. -/
theorem texts_takeChars (p : Char → Bool) (ps : List Piece) :
    texts (Lexeme.takeChars p ps).1 ++ (Lexeme.takeChars p ps).2 = ps := by
  induction ps with
  | nil => rfl
  | cons q ps ih =>
    cases q with
    | param n => rfl
    | text c =>
      rw [takeChars_text]
      split
      · exact congrArg (Piece.text c :: ·) ih
      · rfl

/-- A run has a character that belongs to no word. -/
def IsOdd (cs : List Char) : Prop := ∃ c ∈ cs, isWord c = false

/-- Two runs that are the same, or none of which is a word, or the second of which is a respelled
word. -/
def RunsAlike (k : Kind) (cs cs' : List Char) (more : List Piece) : Prop :=
  cs = cs' ∨ (IsOdd cs ∧ IsOdd cs') ∨
    ∃ w w', (w, w') ∈ k.respellings ∧ cs = w.toList ∧ cs' = w'.toList ∧ Announces w' more

theorem IsOdd.cons {cs : List Char} (h : IsOdd cs) (c : Char) : IsOdd (c :: cs) :=
  h.imp fun _ hd => ⟨List.mem_cons_of_mem c hd.1, hd.2⟩

theorem IsOdd.append {cs : List Char} (h : IsOdd cs) (us : List Char) : IsOdd (us ++ cs) :=
  h.imp fun _ hd => ⟨List.mem_append_right us hd.1, hd.2⟩

/-- Where no word begins, a run is empty or not a word. -/
theorem takeChars_of_not_startsWord (h : startsWord ps = false) :
    (Lexeme.takeChars p ps).1 = [] ∨ IsOdd (Lexeme.takeChars p ps).1 := by
  cases ps with
  | nil => exact .inl rfl
  | cons q ps =>
    cases q with
    | param n => exact .inl rfl
    | text c =>
      rw [takeChars_text]
      split
      · exact .inr ⟨c, List.mem_cons_self, h⟩
      · exact .inl rfl

theorem Respells.takeChars_of_flag (hp : ∀ c ∈ letters, p c = true) (h : Respells k b ps ps') :
    ((Lexeme.takeChars p ps).1 = (Lexeme.takeChars p ps').1 ∨
      (IsOdd (Lexeme.takeChars p ps).1 ∧ IsOdd (Lexeme.takeChars p ps').1) ∨
      (b = false ∧ ∃ w w', (w, w') ∈ k.respellings ∧ (Lexeme.takeChars p ps).1 = w.toList ∧
        (Lexeme.takeChars p ps').1 = w'.toList ∧ Announces w' (Lexeme.takeChars p ps').2)) ∧
      Respells k false (Lexeme.takeChars p ps).2 (Lexeme.takeChars p ps').2 := by
  induction h with
  | nil b => exact ⟨.inl rfl, .nil _⟩
  | param h => exact ⟨.inl rfl, .param h⟩
  | @keep b c ps ps' h ih =>
    obtain ⟨hruns, hrest⟩ := ih
    rw [takeChars_text, takeChars_text]
    by_cases hc : p c = true
    · rw [if_pos hc, if_pos hc]
      refine ⟨?_, hrest⟩
      rcases hruns with heq | ⟨hodd, hodd'⟩ | ⟨hword, -⟩
      · exact .inl (congrArg (c :: ·) heq)
      · exact .inr (.inl ⟨hodd.cons c, hodd'.cons c⟩)
      · exact .inr (.inl ⟨⟨c, List.mem_cons_self, hword⟩, ⟨c, List.mem_cons_self, hword⟩⟩)
    · rw [if_neg hc, if_neg hc]
      exact ⟨.inl rfl, .keep h⟩
  | @word w w' ps ps' hw hps hannounces h ih =>
    obtain ⟨hruns, hrest⟩ := ih
    obtain ⟨hletters, hletters'⟩ := lettered_respellings hw
    rw [takeChars_append fun c hc => hp c (hletters.2 c hc),
      takeChars_append fun c hc => hp c (hletters'.2 c hc)]
    refine ⟨?_, hrest⟩
    -- Behind the word its run either ends or goes on with a character that belongs to no word.
    have hps' : startsWord ps' = false := h.startsWord_of_true.trans hps
    rcases hruns with heq | ⟨hodd, hodd'⟩ | ⟨hflag, -⟩
    · rcases takeChars_of_not_startsWord (p := p) hps with hnil | hodd
      · refine .inr (.inr ⟨rfl, w, w', hw, ?_, ?_, ?_⟩)
        · rw [hnil, List.append_nil]
        · rw [← heq, hnil, List.append_nil]
        · have hsame := texts_takeChars p ps'
          rw [← heq, hnil] at hsame
          change Announces w' (Lexeme.takeChars p ps').2
          rw [show (Lexeme.takeChars p ps').2 = ps' from hsame]
          exact hannounces
      · exact .inr (.inl ⟨hodd.append _, (heq ▸ hodd).append _⟩)
    · exact .inr (.inl ⟨hodd.append _, hodd'.append _⟩)
    · cases hflag

/-- Both texts begin with runs that are alike, and what follows them is respelled. -/
theorem Respells.takeChars (hp : ∀ c ∈ letters, p c = true) (h : Respells k b ps ps') :
    RunsAlike k (Lexeme.takeChars p ps).1 (Lexeme.takeChars p ps').1 (Lexeme.takeChars p ps').2 ∧
      Respells k false (Lexeme.takeChars p ps).2 (Lexeme.takeChars p ps').2 := by
  obtain ⟨hruns, hrest⟩ := h.takeChars_of_flag hp
  exact ⟨hruns.imp_right fun h => h.imp_right And.right, hrest⟩

theorem RunsAlike.eq_nil_iff {cs cs' : List Char} {more : List Piece} (h : RunsAlike k cs cs' more) :
    cs' = [] ↔ cs = [] := by
  rcases h with rfl | ⟨⟨c, hc, -⟩, ⟨c', hc', -⟩⟩ | ⟨w, w', hw, rfl, rfl, -⟩
  · rfl
  · exact iff_of_false (List.ne_nil_of_mem hc') (List.ne_nil_of_mem hc)
  · obtain ⟨hletters, hletters'⟩ := lettered_respellings hw
    exact iff_of_false hletters'.1 hletters.1

/-! ## Beginnings -/

/-- Both texts begin with the same character, or with letters. -/
theorem Respells.headChar_cases (h : Respells k b ps ps') : headChar ps' = headChar ps ∨
    ∃ c ∈ letters, ∃ c' ∈ letters, headChar ps = some c ∧ headChar ps' = some c' := by
  cases h with
  | nil => exact .inl rfl
  | keep => exact .inl rfl
  | param => exact .inl rfl
  | @word w w' _ _ hw =>
    obtain ⟨hletters, hletters'⟩ := lettered_respellings hw
    obtain ⟨c, cs, hcs, hc⟩ := hletters.exists_cons
    obtain ⟨c', cs', hcs', hc'⟩ := hletters'.exists_cons
    rw [hcs, hcs']
    exact .inr ⟨c, hc, c', hc', rfl, rfl⟩

theorem Respells.headChar_eq_iff (h : Respells k b ps ps') {c : Char} (hc : c ∉ letters) :
    headChar ps' = some c ↔ headChar ps = some c := by
  rcases h.headChar_cases with heq | ⟨d, hd, d', hd', heq, heq'⟩
  · rw [heq]
  · rw [heq, heq', Option.some.injEq, Option.some.injEq]
    exact iff_of_false (fun e => hc (e ▸ hd')) fun e => hc (e ▸ hd)

/-- What holds of all letters or of none holds of both beginnings or of none. -/
theorem Respells.any_headChar (h : Respells k b ps ps') {q : Char → Bool} {a : Bool}
    (hq : ∀ c ∈ letters, q c = a) : (headChar ps').any q = (headChar ps).any q := by
  rcases h.headChar_cases with heq | ⟨d, hd, d', hd', heq, heq'⟩
  · rw [heq]
  · rw [heq, heq', Option.any_some, Option.any_some, hq d hd, hq d' hd']

/-- A character with which no word begins that is respelled stays. -/
theorem Respells.of_initial {c : Char} (hc : ∀ p ∈ k.respellings, p.1.toList.head? ≠ some c)
    {qs : List Piece} (h : Respells k b (.text c :: ps) qs) :
    ∃ ps', qs = .text c :: ps' ∧ Respells k (isWord c) ps ps' := by
  generalize hqs : Piece.text c :: ps = qs' at h
  cases h with
  | nil => cases hqs
  | keep h =>
    cases hqs
    exact ⟨_, rfl, h⟩
  | param => cases hqs
  | @word w w' ps ps' hw =>
    obtain ⟨d, ds, hds, -⟩ := (lettered_respellings hw).1.exists_cons
    rw [hds] at hqs
    cases hqs
    exact absurd (congrArg List.head? hds) (hc _ hw)

/-- A character that is no letter stays. -/
theorem Respells.of_cons {c : Char} (hc : c ∉ letters) {qs : List Piece}
    (h : Respells k b (.text c :: ps) qs) :
    ∃ ps', qs = .text c :: ps' ∧ Respells k (isWord c) ps ps' :=
  h.of_initial fun _ hp e => hc ((lettered_respellings hp).1.2 c (List.mem_of_mem_head? e))

/-- A text of such characters stays. -/
theorem Respells.of_append {us : List Char}
    (hus : ∀ c ∈ us, ∀ p ∈ k.respellings, p.1.toList.head? ≠ some c) {qs : List Piece}
    (h : Respells k b (texts us ++ ps) qs) :
    ∃ ps' b', qs = texts us ++ ps' ∧ Respells k b' ps ps' := by
  induction us generalizing b qs with
  | nil => exact ⟨qs, b, rfl, h⟩
  | cons u us ih =>
    rw [List.forall_mem_cons] at hus
    obtain ⟨qs, rfl, hqs⟩ := h.of_initial hus.1
    obtain ⟨ps', b', rfl, hrest⟩ := ih hus.2 hqs
    exact ⟨ps', b', rfl, hrest⟩

theorem Respells.of_param {n : String} {qs : List Piece} (h : Respells k b (.param n :: ps) qs) :
    ∃ n' ps', qs = .param n' :: ps' ∧ Respells k false ps ps' := by
  generalize hqs : Piece.param n :: ps = qs' at h
  cases h with
  | nil => cases hqs
  | keep h => cases hqs
  | param h =>
    cases hqs
    exact ⟨_, _, rfl, h⟩
  | @word w w' ps ps' hw =>
    obtain ⟨d, ds, hds, -⟩ := (lettered_respellings hw).1.exists_cons
    rw [hds] at hqs
    cases hqs

theorem Respells.of_nil {qs : List Piece} (h : Respells k b [] qs) : qs = [] := by
  generalize hqs : [] = qs' at h
  cases h with
  | nil => rfl
  | keep => cases hqs
  | param => cases hqs
  | @word w w' ps ps' hw =>
    obtain ⟨d, ds, hds, -⟩ := (lettered_respellings hw).1.exists_cons
    rw [hds] at hqs
    cases hqs

end Runs

/-! ## Pieces -/

section Pieces

variable {k : Kind} {b : Bool} {before before' : Option Char} {cs cs' : List Char}

theorem texts_injective {cs ds : List Char} (h : texts cs = texts ds) : cs = ds :=
  List.map_injective_iff.mpr (fun _ _ e => Piece.text.inj e) h

theorem texts_eq_cons {q : Piece} {ps : List Piece} (h : texts cs = q :: ps) :
    ∃ c ds, cs = c :: ds ∧ q = .text c ∧ ps = texts ds := by
  obtain ⟨c, ds, rfl, rfl, rfl⟩ := List.map_eq_cons_iff.mp h
  exact ⟨c, ds, rfl, rfl, rfl⟩

theorem texts_eq_append {us : List Char} {ps : List Piece} (h : texts cs = texts us ++ ps) :
    ∃ ds, cs = us ++ ds ∧ ps = texts ds := by
  obtain ⟨us', ds, rfl, hus, rfl⟩ := List.map_eq_append_iff.mp h
  obtain rfl := texts_injective hus
  exact ⟨ds, rfl, rfl⟩

theorem takeChars_texts (p : Char → Bool) (cs : List Char) :
    Lexeme.takeChars p (texts cs) = (cs.takeWhile p, texts (cs.dropWhile p)) := by
  induction cs with
  | nil => rfl
  | cons c cs ih =>
    rw [texts_cons, takeChars_text, ih]
    by_cases hc : p c = true
    · rw [if_pos hc, List.takeWhile_cons_of_pos hc, List.dropWhile_cons_of_pos hc]
    · rw [if_neg hc, List.takeWhile_cons_of_neg hc, List.dropWhile_cons_of_neg hc]
      rfl

theorem headChar_texts (cs : List Char) : headChar (texts cs) = cs.head? := by
  cases cs <;> rfl

/-- What belongs to the name of a parameter is passed over. -/
theorem piecesFrom_skip (before : Option Char) (skipped cs : List Char) :
    piecesFrom before skipped.length (skipped ++ cs) =
      piecesFrom (skipped.getLast?.or before) 0 cs := by
  induction skipped generalizing before with
  | nil => rfl
  | cons c skipped ih =>
    rw [List.length_cons, List.cons_append, piecesFrom, ih, List.getLast?_cons]
    cases skipped.getLast? <;> rfl

theorem paramName_eq_some {name : List Char} (h : paramName cs = some name) :
    name = cs.takeWhile isNameChar ∧ cs.takeWhile isNameChar ≠ [] := by
  unfold paramName at h
  dsimp only at h
  split at h
  · cases h
  · next hname =>
    rw [Bool.or_eq_true, not_or] at hname
    exact ⟨(Option.some.inj h).symm, fun e => hname.1 (List.isEmpty_iff.mpr e)⟩

/-- A parameter, behind which its name is passed over. -/
theorem piecesFrom_of_paramName {name : List Char} (hbefore : before.any guardsColon = false)
    (h : paramName cs = some name) : ∃ last, guardsColon last = true ∧
      piecesFrom before 0 (':' :: cs) =
        .param (String.ofList name) :: piecesFrom (some last) 0 (cs.dropWhile isNameChar) := by
  obtain ⟨hname, hne⟩ := paramName_eq_some h
  obtain ⟨last, hlast⟩ := Option.isSome_iff_exists.mp (List.getLast?_isSome.mpr hne)
  have hrun : isNameChar last = true :=
    List.all_eq_true.mp List.all_takeWhile last (List.mem_of_getLast? hlast)
  refine ⟨last, by simp [guardsColon, hrun], ?_⟩
  rw [piecesFrom, if_pos (by rw [hbefore]; rfl), h]
  have hskip := piecesFrom_skip (some ':') (cs.takeWhile isNameChar) (cs.dropWhile isNameChar)
  rw [List.takeWhile_append_dropWhile, hlast, ← hname] at hskip
  exact congrArg _ hskip

theorem piecesFrom_of_not_param (h : before.any guardsColon = true ∨ c ≠ ':' ∨ paramName cs = none) :
    piecesFrom before 0 (c :: cs) = .text c :: piecesFrom (some c) 0 cs := by
  rw [piecesFrom]
  split
  · next hc =>
    rw [Bool.and_eq_true, beq_iff_eq, Bool.not_eq_true'] at hc
    rcases h with h | h | h
    · cases h.symm.trans hc.2
    · exact absurd hc.1 h
    · rw [h]
  · rfl

/-- A text without colons has no parameters. -/
theorem piecesFrom_append {us : List Char} (h : ':' ∉ us) (before : Option Char) (cs : List Char) :
    piecesFrom before 0 (us ++ cs) = texts us ++ piecesFrom (us.getLast?.or before) 0 cs := by
  induction us generalizing before with
  | nil => rfl
  | cons u us ih =>
    rw [List.mem_cons, not_or] at h
    rw [List.cons_append, piecesFrom_of_not_param (.inr (.inl (Ne.symm h.1))), ih h.2,
      List.getLast?_cons]
    cases us.getLast? <;> rfl

theorem startsWord_piecesFrom (before : Option Char) (cs : List Char) :
    startsWord (piecesFrom before 0 cs) = startsWord (texts cs) := by
  cases cs with
  | nil => rfl
  | cons c cs =>
    by_cases h : before.any guardsColon = true ∨ c ≠ ':' ∨ paramName cs = none
    · rw [piecesFrom_of_not_param h]
      rfl
    · rw [not_or, not_or, not_not, Bool.not_eq_true, Option.eq_none_iff_forall_ne_some] at h
      obtain ⟨hbefore, rfl, hname⟩ := h
      obtain ⟨name, hname⟩ := not_forall_not.mp hname
      obtain ⟨last, -, heq⟩ := piecesFrom_of_paramName hbefore hname
      rw [heq]
      rfl

/-- The characters of what is announced. -/
def announcing : List Char := '.' :: '"' :: letters

/-- What is announced stays where the characters of an announcement do. -/
theorem Announces.imp {w : String} {ps qs : List Piece} (h : Announces w ps)
    (hps : ∀ us rest, (∀ c ∈ us, c ∈ announcing) → ps = texts us ++ rest →
      ∃ rest', qs = texts us ++ rest' ∧ startsWord rest' = startsWord rest) : Announces w qs := by
  intro names hnames
  obtain ⟨n, hn, rest, hrest, hps'⟩ := h names hnames
  have hletters : ∀ c ∈ n.toList, c ∈ announcing := fun c hc =>
    List.mem_cons_of_mem _ (List.mem_cons_of_mem _ ((lettered_columnsAsked hnames n hn).2 c hc))
  rcases hps' with heq | heq
  · obtain ⟨rest', heq', hstarts⟩ := hps _ rest (List.forall_mem_cons.mpr ⟨by decide, hletters⟩) heq
    exact ⟨n, hn, rest', hstarts.trans hrest, .inl heq'⟩
  · obtain ⟨rest', heq', hstarts⟩ := hps _ rest (List.forall_mem_cons.mpr ⟨by decide,
      List.forall_mem_cons.mpr ⟨by decide, List.forall_mem_cons.mpr ⟨by decide, hletters⟩⟩⟩) heq
    exact ⟨n, hn, rest', hstarts.trans hrest, .inr heq'⟩

theorem Announces.piecesFrom {w : String} (h : Announces w (texts cs)) (before : Option Char) :
    Announces w (piecesFrom before 0 cs) := by
  refine h.imp fun us rest hus heq => ?_
  have hcolon : ':' ∉ us := fun hmem => absurd (hus _ hmem) (by decide)
  obtain ⟨ds, rfl, rfl⟩ := texts_eq_append heq
  exact ⟨_, piecesFrom_append hcolon before ds, startsWord_piecesFrom _ _⟩

theorem guardsColon_of_getLast? {w : String} (hw : IsLettered w) (before : Option Char) :
    (w.toList.getLast?.or before).any guardsColon = true := by
  obtain ⟨c, hc⟩ := Option.isSome_iff_exists.mp (List.getLast?_isSome.mpr hw.1)
  rw [hc, Option.some_or, Option.any_some, guardsColon, isNameChar,
    isWord_of_mem_letters c (hw.2 c (List.mem_of_getLast? hc))]
  simp

/-- A parameter is one in both texts, perhaps of another name. -/
theorem Respells.paramName_isSome (h : Respells k false (texts cs) (texts cs')) :
    (paramName cs').isSome = (paramName cs).isSome := by
  have hletters : ∀ c ∈ letters, isNameChar c = true := by decide
  obtain ⟨hruns, hrest⟩ := h.takeChars hletters
  rw [takeChars_texts, takeChars_texts] at hruns hrest
  have hcolon := hrest.headChar_eq_iff (c := ':') (by decide)
  rw [headChar_texts, headChar_texts] at hcolon
  have hempty : (cs'.takeWhile isNameChar).isEmpty = (cs.takeWhile isNameChar).isEmpty := by
    rw [Bool.eq_iff_iff, List.isEmpty_iff, List.isEmpty_iff]
    exact hruns.eq_nil_iff
  have hnext : ((cs'.dropWhile isNameChar).head? == some ':') =
      ((cs.dropWhile isNameChar).head? == some ':') := by
    rw [Bool.eq_iff_iff, beq_iff_eq, beq_iff_eq]
    exact hcolon
  unfold paramName
  dsimp only
  rw [hempty, hnext]
  split <;> rfl

/-- The pieces of respelled texts are respelled. -/
theorem Respells.piecesFrom (h : Respells k b (texts cs) (texts cs'))
    (hbefore : before'.any guardsColon = before.any guardsColon) :
    Respells k b (Fragment.piecesFrom before 0 cs) (Fragment.piecesFrom before' 0 cs') := by
  -- by the length, since a parameter takes as much of the text as its name has characters
  induction hn : cs.length using Nat.strongRecOn generalizing b before before' cs cs' with
  | ind n ih =>
    generalize hps : texts cs = ps at h
    generalize hps' : texts cs' = ps' at h
    cases h with
    | nil =>
      obtain rfl := List.map_eq_nil_iff.mp hps
      obtain rfl := List.map_eq_nil_iff.mp hps'
      exact .nil b
    | param =>
      obtain ⟨c, ds, -, hc, -⟩ := texts_eq_cons hps
      cases hc
    | @keep _ c ps ps' h =>
      obtain ⟨_, ds, rfl, hc, rfl⟩ := texts_eq_cons hps
      obtain ⟨_, ds', rfl, hc', rfl⟩ := texts_eq_cons hps'
      cases hc
      cases hc'
      by_cases hparam : before.any guardsColon = true ∨ c ≠ ':' ∨ paramName ds = none
      · have hparam' : before'.any guardsColon = true ∨ c ≠ ':' ∨ paramName ds' = none := by
          refine hparam.imp (hbefore.trans ·) fun hor => ?_
          by_cases hc : c = ':'
          · subst hc
            have hsome := Respells.paramName_isSome h
            rw [hor.resolve_left (not_not.mpr rfl)] at hsome
            exact .inr (Option.not_isSome_iff_eq_none.mp (by rw [hsome]; decide))
          · exact .inl hc
        rw [piecesFrom_of_not_param hparam, piecesFrom_of_not_param hparam']
        exact .keep (ih ds.length (by rw [← hn, List.length_cons]; omega) h rfl rfl)
      · -- Both texts have a parameter here, and its name may be respelled.
        rw [not_or, not_or, not_not, Bool.not_eq_true] at hparam
        obtain ⟨hguard, rfl, hname⟩ := hparam
        obtain ⟨name, hname⟩ := Option.ne_none_iff_exists'.mp hname
        have hsome := Respells.paramName_isSome h
        rw [hname, Option.isSome_some] at hsome
        obtain ⟨name', hname'⟩ := Option.isSome_iff_exists.mp hsome
        obtain ⟨last, hlast, heq⟩ := piecesFrom_of_paramName hguard hname
        obtain ⟨last', hlast', heq'⟩ := piecesFrom_of_paramName (hbefore.trans hguard) hname'
        have hletters : ∀ c ∈ letters, isNameChar c = true := by decide
        have hrest := (Respells.takeChars hletters h).2
        rw [takeChars_texts, takeChars_texts] at hrest
        rw [heq, heq']
        refine .param (ih _ ?_ hrest (hlast'.trans hlast.symm) rfl)
        have hlength := (List.dropWhile_suffix isNameChar (l := ds)).length_le
        rw [← hn, List.length_cons]
        omega
    | @word w w' ps ps' hw hstart hannounces h =>
      obtain ⟨ds, rfl, rfl⟩ := texts_eq_append hps
      obtain ⟨ds', rfl, rfl⟩ := texts_eq_append hps'
      obtain ⟨hletters, hletters'⟩ : IsLettered w ∧ IsLettered w' := lettered_respellings hw
      have hcolon : ∀ v : String, IsLettered v → ':' ∉ v.toList := fun v hv hmem =>
        absurd (hv.2 _ hmem) (by decide)
      rw [piecesFrom_append (hcolon w hletters), piecesFrom_append (hcolon w' hletters')]
      refine .word hw ((startsWord_piecesFrom _ ds).trans hstart)
        (Announces.piecesFrom hannounces _) (ih ds.length ?_ h ?_ rfl)
      · have hpositive := List.length_pos_of_ne_nil hletters.1
        rw [← hn, List.length_append]
        omega
      · rw [guardsColon_of_getLast? hletters, guardsColon_of_getLast? hletters']

/-! ## Backslashes -/

theorem unescape_cons {q : Piece} {ps : List Piece}
    (h : q ≠ .text '\\' ∨ headChar ps ≠ some ':') : unescape (q :: ps) = q :: unescape ps := by
  rw [unescape.eq_def]
  split
  · next heq => cases heq
  · next heq =>
    cases heq
    rcases h with h | h <;> exact absurd rfl h
  · next heq =>
    cases heq
    rfl

theorem dropWhile_eq_takeChars (p : Char → Bool) (ps : List Piece) :
    (ps.dropWhile fun q => match q with
      | .text c => p c
      | .param _ => false) = (Lexeme.takeChars p ps).2 := by
  induction ps with
  | nil => rfl
  | cons q ps ih =>
    cases q with
    | param n => rfl
    | text c =>
      rw [takeChars_text, List.dropWhile_cons, ih]
      dsimp only
      split <;> rfl

/-- A backslash before a colon is left out, unless a name with another colon follows. -/
theorem unescape_backslash (ps : List Piece) : unescape (.text '\\' :: .text ':' :: ps) =
    if headChar (Lexeme.takeChars isNameChar ps).2 = some ':' then
      .text '\\' :: .text ':' :: unescape ps
    else .text ':' :: unescape ps := by
  have hhead : ∀ qs : List Piece, (qs.head? == some (.text ':')) = true ↔
      headChar qs = some ':' := by
    intro qs
    rw [beq_iff_eq]
    match qs with
    | [] => exact iff_of_false (nomatch ·) (nomatch ·)
    | .text c :: _ => simp [headChar]
    | .param n :: _ => simp [headChar]
  rw [unescape]
  refine ite_congr (propext ((hhead _).trans (iff_of_eq ?_))) (fun _ => rfl) fun _ => rfl
  exact congrArg (headChar · = some ':') (dropWhile_eq_takeChars isNameChar ps)

theorem startsWord_unescape (ps : List Piece) : startsWord (unescape ps) = startsWord ps := by
  match ps with
  | [] => rfl
  | q :: ps =>
    by_cases h : q ≠ .text '\\' ∨ headChar ps ≠ some ':'
    · rw [unescape_cons h]
      cases q <;> rfl
    · rw [not_or, not_not, not_not] at h
      obtain ⟨rfl, hhead⟩ := h
      match ps with
      | .text c :: ps =>
        cases hhead
        rw [unescape_backslash]
        split <;> rfl

theorem unescape_append {us : List Char} (h : '\\' ∉ us) (ps : List Piece) :
    unescape (texts us ++ ps) = texts us ++ unescape ps := by
  induction us with
  | nil => rfl
  | cons u us ih =>
    rw [List.mem_cons, not_or] at h
    have hu : Piece.text u ≠ .text '\\' := fun e => h.1 (Piece.text.inj e).symm
    rw [texts_cons, List.cons_append, unescape_cons (.inl hu), ih h.2, List.cons_append]

theorem Announces.unescape {w : String} {ps : List Piece} (h : Announces w ps) :
    Announces w (unescape ps) := by
  refine h.imp fun us rest hus heq => ?_
  have hbackslash : '\\' ∉ us := fun hmem => absurd (hus _ hmem) (by decide)
  exact ⟨_, by rw [heq, unescape_append hbackslash], startsWord_unescape rest⟩

/-- Without backslashes both texts are respelled as before. -/
theorem Respells.unescape {ps ps' : List Piece} (h : Respells k b ps ps') :
    Respells k b (Fragment.unescape ps) (Fragment.unescape ps') := by
  induction h with
  | nil b => exact .nil b
  | param h ih =>
    have hparam : ∀ n : String, Piece.param n ≠ .text '\\' := fun n => nofun
    rw [unescape_cons (.inl (hparam _)), unescape_cons (.inl (hparam _))]
    exact .param ih
  | @keep b c ps ps' h ih =>
    by_cases hplain : Piece.text c ≠ .text '\\' ∨ headChar ps ≠ some ':'
    · have hplain' : Piece.text c ≠ .text '\\' ∨ headChar ps' ≠ some ':' :=
        hplain.imp_right fun hne => mt (h.headChar_eq_iff (by decide)).mp hne
      rw [unescape_cons hplain, unescape_cons hplain']
      exact .keep ih
    · -- A colon follows in both texts, and what comes behind it ends alike.
      rw [not_or, not_not, not_not] at hplain
      obtain ⟨hc, hhead⟩ := hplain
      cases hc
      match ps with
      | .text c :: ps =>
        cases hhead
        obtain ⟨ps', rfl, hbehind⟩ := h.of_cons (by decide)
        have hletters : ∀ c ∈ letters, isNameChar c = true := by decide
        have hnext := (hbehind.takeChars hletters).2.headChar_eq_iff (c := ':') (by decide)
        have hcolon : Piece.text ':' ≠ .text '\\' := by decide
        rw [unescape_cons (.inl hcolon), unescape_cons (.inl hcolon)] at ih
        obtain ⟨qs, hqs, hrest⟩ := ih.of_cons (by decide)
        cases hqs
        rw [unescape_backslash, unescape_backslash]
        simp only [hnext]
        split
        · exact .keep (.keep hrest)
        · exact .keep hrest
  | @word w w' ps ps' hw hstart hannounces h ih =>
    obtain ⟨hletters, hletters'⟩ : IsLettered w ∧ IsLettered w' := lettered_respellings hw
    have hbackslash : ∀ v : String, IsLettered v → '\\' ∉ v.toList := fun v hv hmem =>
      absurd (hv.2 _ hmem) (by decide)
    rw [unescape_append (hbackslash w hletters), unescape_append (hbackslash w' hletters')]
    exact .word hw ((startsWord_unescape ps).trans hstart) hannounces.unescape ih

/-- The pieces of texts that are respelled. -/
theorem Respells.pieces {sql sql' : String}
    (h : Respells k false (texts sql.toList) (texts sql'.toList)) :
    Respells k false (Fragment.pieces sql) (Fragment.pieces sql') :=
  (h.piecesFrom rfl).unescape

end Pieces

end Fragment

end Chronicle
