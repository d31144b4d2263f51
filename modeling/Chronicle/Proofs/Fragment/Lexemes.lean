import Chronicle.Proofs.Decimal.Reading
import Chronicle.Proofs.Fragment.Respelled
import Chronicle.Proofs.Outcome

/-!
# Lexemes of texts in which words are respelled

A text in which words are respelled is cut into lexemes at the same places.  Names become respelled
names, texts in quotes may become any others, and all else stays.

* `Lexeme.Lexes`: how pieces are cut into lexemes;
* `Lexeme.Quotes`: a text up to its closing quote;
* `Lexeme.Alike`: the lexemes of a text and of one with words respelled;
* `Lexeme.Lexes.respelled`: a respelled text has such lexemes.
-/

namespace Chronicle

open Chronicle.Decimal Chronicle.Text Fragment

namespace Lexeme

/-! ## Cutting -/

/-- Pieces and the lexemes that they are cut into. -/
inductive Lexes (params : String → Cell) : List Piece → List Lexeme → Prop
  | nil : Lexes params [] []
  | param {n : String} {ps : List Piece} {ls : List Lexeme} :
      Lexes params ps ls → Lexes params (.param n :: ps) (.literal (params n) :: ls)
  | text {c : Char} {ps more : List Piece} {ls rest : List Lexeme} :
      takeLexeme c ps = .ok (ls, more) → Lexes params more rest →
      Lexes params (.text c :: ps) (ls ++ rest)

/-- A text up to its closing quote, with what follows it.  The flag tells that a closing quote has
been read, which another one would make a character of the text. -/
inductive Quotes (close : Char) : Bool → List Piece → List Char → List Piece → Prop
  | char {c : Char} {ps more : List Piece} {cs : List Char} : c ≠ close →
      Quotes close false ps cs more → Quotes close false (.text c :: ps) (c :: cs) more
  | close {ps more : List Piece} {cs : List Char} :
      Quotes close true ps cs more → Quotes close false (.text close :: ps) cs more
  | twice {ps more : List Piece} {cs : List Char} :
      Quotes close false ps cs more → Quotes close true (.text close :: ps) (close :: cs) more
  | ends {ps : List Piece} : headChar ps ≠ some close → Quotes close true ps [] ps

theorem quotes_of_takeQuoted {close : Char} {ps more : List Piece} {cs : List Char}
    (h : takeQuoted close ps = .ok (cs, more)) : Quotes close false ps cs more := by
  fun_induction takeQuoted close ps generalizing cs more with
  | case1 c d ps hc hd ih =>
    obtain ⟨⟨ds, rest⟩, hrest, heq⟩ := map_eq_ok_iff.mp h
    cases heq
    rw [beq_iff_eq] at hc hd
    subst hc hd
    exact .close (.twice (ih hrest))
  | case2 c d ps hc hd =>
    cases h
    rw [beq_iff_eq] at hc hd
    subst hc
    exact .close (.ends fun e => hd (Option.some.inj e))
  | case3 c d ps hc ih =>
    obtain ⟨⟨ds, rest⟩, hrest, heq⟩ := map_eq_ok_iff.mp h
    cases heq
    exact .char (fun e => hc (beq_iff_eq.mpr e)) (ih hrest)
  | case4 c hc =>
    cases h
    rw [beq_iff_eq] at hc
    subst hc
    exact .close (.ends (nomatch ·))
  | case6 c n ps hc =>
    cases h
    rw [beq_iff_eq] at hc
    subst hc
    exact .close (.ends (nomatch ·))
  | case5 => cases h
  | case7 => cases h
  | case8 => cases h
  | case9 => cases h

theorem takeQuoted_char {close c : Char} {ps more : List Piece} {cs : List Char} (hc : c ≠ close)
    (h : takeQuoted close ps = .ok (cs, more)) :
    takeQuoted close (.text c :: ps) = .ok (c :: cs, more) := by
  match ps with
  | [] => cases h
  | .param n :: ps =>
    rw [takeQuoted] at h
    cases h
  | .text d :: ps =>
    rw [takeQuoted, if_neg (fun e => hc (beq_iff_eq.mp e)), h]
    rfl

theorem takeQuoted_of_quotes {close : Char} {b : Bool} {ps more : List Piece} {cs : List Char}
    (h : Quotes close b ps cs more) :
    takeQuoted close (if b then .text close :: ps else ps) = .ok (cs, more) := by
  induction h with
  | char hc _ ih => exact takeQuoted_char hc ih
  | close _ ih => exact ih
  | @twice ps _ _ _ ih =>
    change takeQuoted close (.text close :: .text close :: ps) = _
    rw [takeQuoted, if_pos (beq_self_eq_true close), if_pos (beq_self_eq_true close),
      show takeQuoted close ps = _ from ih]
    rfl
  | @ends ps h =>
    change takeQuoted close (.text close :: ps) = _
    match ps with
    | [] => rw [takeQuoted, if_pos (beq_self_eq_true close)]
    | .param n :: ps => rw [takeQuoted, if_pos (beq_self_eq_true close)]
    | .text d :: ps =>
      rw [takeQuoted, if_pos (beq_self_eq_true close),
        if_neg fun e => h (congrArg some (beq_iff_eq.mp e))]

theorem takeQuoted_iff {close : Char} {ps more : List Piece} {cs : List Char} :
    takeQuoted close ps = .ok (cs, more) ↔ Quotes close false ps cs more :=
  ⟨quotes_of_takeQuoted, takeQuoted_of_quotes⟩

section Respelled

variable {k : Kind} {b read : Bool} {close : Char} {ps ps' more : List Piece} {cs us : List Char}

theorem Quotes.append (hus : close ∉ us) (h : Quotes close false ps cs more) :
    Quotes close false (texts us ++ ps) (us ++ cs) more := by
  induction us with
  | nil => exact h
  | cons u us ih =>
    rw [List.mem_cons, not_or] at hus
    exact .char (Ne.symm hus.1) (ih hus.2)

theorem Quotes.of_append (hus : close ∉ us) (h : Quotes close false (texts us ++ ps) cs more) :
    ∃ ds, cs = us ++ ds ∧ Quotes close false ps ds more := by
  induction us generalizing cs with
  | nil => exact ⟨cs, rfl, h⟩
  | cons u us ih =>
    rw [List.mem_cons, not_or] at hus
    cases h with
    | char _ h =>
      obtain ⟨ds, rfl, hds⟩ := ih hus.2 h
      exact ⟨ds, rfl, hds⟩
    | close => exact absurd rfl hus.1

/-- Where no word begins, the text in quotes is empty or not a word. -/
theorem Quotes.of_not_startsWord (hclose : Text.isWord close = false)
    (h : Quotes close false ps cs more) (hps : startsWord ps = false) : cs = [] ∨ IsOdd cs := by
  cases h with
  | char hc h => exact .inr ⟨_, List.mem_cons_self, hps⟩
  | close h =>
    cases h with
    | twice h => exact .inr ⟨_, List.mem_cons_self, hclose⟩
    | ends => exact .inl rfl

theorem Quotes.of_nil (h : Quotes close false ps [] more) : ps = .text close :: more := by
  cases h with
  | close h =>
    cases h with
    | ends => rfl

/-- Respelled texts have their closing quotes at the same places.  The texts in quotes are alike, and
a word that is all there is in quotes may be respelled. -/
theorem Quotes.respelled (hclose : Text.isWord close = false) (hr : Respells k b ps ps')
    (h : Quotes close read ps cs more) :
    ∃ cs' more', Quotes close read ps' cs' more' ∧ Respells k false more more' ∧
      (cs = cs' ∨ (IsOdd cs ∧ IsOdd cs') ∨ (read = false ∧ b = false ∧
        ∃ w w', (w, w') ∈ k.respellings ∧ cs = w.toList ∧ cs' = w'.toList ∧
          Announces w' (.text close :: more'))) := by
  have hletter : close ∉ letters := fun hmem => by
    rw [isWord_of_mem_letters close hmem] at hclose
    cases hclose
  induction hr generalizing read cs more with
  | nil =>
    cases h with
    | ends h => exact ⟨[], [], .ends h, .nil _, .inl rfl⟩
  | param hr =>
    cases h with
    | ends h => exact ⟨[], _, .ends (nomatch ·), .param hr, .inl rfl⟩
  | @keep b c ps ps' hr ih =>
    cases h with
    | char hc h =>
      obtain ⟨cs', more', h', hmore, hsame⟩ := ih h
      refine ⟨c :: cs', more', .char hc h', hmore, ?_⟩
      rcases hsame with rfl | ⟨hodd, hodd'⟩ | ⟨-, hword, -⟩
      · exact .inl rfl
      · exact .inr (.inl ⟨hodd.cons c, hodd'.cons c⟩)
      · exact .inr (.inl ⟨⟨c, List.mem_cons_self, hword⟩, ⟨c, List.mem_cons_self, hword⟩⟩)
    | close h =>
      obtain ⟨cs', more', h', hmore, hsame⟩ := ih h
      refine ⟨cs', more', .close h', hmore, ?_⟩
      rcases hsame with heq | hodd | ⟨hread, -⟩
      · exact .inl heq
      · exact .inr (.inl hodd)
      · cases hread
    | twice h =>
      obtain ⟨cs', more', h', hmore, -⟩ := ih h
      exact ⟨_, more', .twice h', hmore, .inr (.inl ⟨⟨_, List.mem_cons_self, hclose⟩,
        ⟨_, List.mem_cons_self, hclose⟩⟩)⟩
    | ends h => exact ⟨[], _, .ends h, .keep hr, .inl rfl⟩
  | @word w w' ps ps' hw hstart hannounces hr ih =>
    obtain ⟨hletters, hletters'⟩ : IsLettered w ∧ IsLettered w' := lettered_respellings hw
    have hfree : ∀ v : String, IsLettered v → close ∉ v.toList := fun v hv hmem =>
      hletter (hv.2 close hmem)
    cases read with
    | true =>
      have hall := Respells.word hw hstart hannounces hr
      generalize hps : texts w.toList ++ ps = qs at h hall
      cases h with
      | twice h =>
        obtain ⟨c, ds, hds⟩ := List.exists_cons_of_ne_nil hletters.1
        rw [hds] at hps
        cases hps
        exact absurd (hds ▸ List.mem_cons_self) (hfree w hletters)
      | ends h =>
        exact ⟨[], _, .ends (mt (hall.headChar_eq_iff hletter).mp h), hall, .inl rfl⟩
    | false =>
      obtain ⟨ds, rfl, hrest⟩ := h.of_append (hfree w hletters)
      obtain ⟨ds', more', h', hmore, hsame⟩ := ih hrest
      refine ⟨w'.toList ++ ds', more', h'.append (hfree w' hletters'), hmore, ?_⟩
      rcases hsame with rfl | ⟨hodd, hodd'⟩ | ⟨-, hflag, -⟩
      · rcases hrest.of_not_startsWord hclose hstart with rfl | hodd
        · rw [h'.of_nil] at hannounces
          exact .inr (.inr ⟨rfl, rfl, w, w', hw, List.append_nil _, List.append_nil _, hannounces⟩)
        · exact .inr (.inl ⟨hodd.append _, hodd.append _⟩)
      · exact .inr (.inl ⟨hodd.append _, hodd'.append _⟩)
      · cases hflag

end Respelled

/-! ## Lexemes one by one -/

section First

variable {c : Char} {ps : List Piece}

theorem takeLexeme_space (h : isSpace c = true) (ps : List Piece) :
    takeLexeme c ps = .ok ([], ps) := if_pos h

/-- The quotes that a text or a name may stand in, with those that close them. -/
def quotes : List (Char × Char) := [('\'', '\''), ('"', '"'), ('\x60', '\x60'), ('[', ']')]

/-- What stands in quotes is a text or a name. -/
def quoted (c : Char) (cs : List Char) : Lexeme :=
  if c = '\'' then .literal (.text (String.ofList cs)) else .name true (String.ofList cs)

theorem takeLexeme_quoted {close : Char} (h : (c, close) ∈ quotes) (ps : List Piece) :
    takeLexeme c ps = (takeQuoted close ps).map fun p => ([quoted c p.1], p.2) := by
  simp only [quotes, List.mem_cons, Prod.mk.injEq, List.not_mem_nil, or_false] at h
  rcases h with ⟨rfl, rfl⟩ | ⟨rfl, rfl⟩ | ⟨rfl, rfl⟩ | ⟨rfl, rfl⟩ <;> rfl

theorem isNameStart_ne {c d : Char} (h : isNameStart c = true) (hd : isNameStart d = false) :
    c ≠ d := by
  rintro rfl
  cases h.symm.trans hd

/-- A name is a run of the characters of names. -/
theorem takeLexeme_name (h : isNameStart c = true) (ps : List Piece) : takeLexeme c ps =
    .ok ([.name false (String.ofList (takeChars isNameChar (.text c :: ps)).1)],
      (takeChars isNameChar (.text c :: ps)).2) := by
  have hne : ∀ d, isNameStart d = false → (c == d) = false := fun d hd =>
    beq_eq_false_iff_ne.mpr (isNameStart_ne h hd)
  have hspace : isSpace c = false := by
    simp only [isSpace, hne ' ' (by decide), hne '\t' (by decide), hne '\n' (by decide),
      hne '\r' (by decide), hne '\x0c' (by decide), Bool.or_self]
  rw [takeChars_text, if_pos (by simp [isNameChar, h])]
  unfold takeLexeme
  simp only [hspace, hne '\'' (by decide), hne '"' (by decide), hne '\x60' (by decide),
    hne '[' (by decide), h, Bool.or_self, Bool.false_eq_true, if_false, if_true]

/-- A character that begins neither a name nor a text in quotes. -/
def isSign (c : Char) : Bool := !(isSpace c || quotes.any (·.1 == c) || isNameStart c)

/-- A character and the one behind it. -/
def twoChars (c : Char) (second : Option Char) : String := String.ofList (c :: second.toList)

/-- The cell of a number. -/
def numberCell (n : Numeral) : Cell :=
  if n.plain && Cell.isStorable n.toInt then .int n.toInt else .real n.toBinary64

/-- A number at the beginning. -/
def takeNumber (c : Char) (ps : List Piece) : Except Failure (List Lexeme × List Piece) :=
  match Numeral.take (c :: plainStart ps) with
  | some (n, more) =>
    if more.head?.any isNameChar then .error .rejectedStatement
    else
      .ok ([.literal (numberCell n)], ps.drop ((plainStart ps).length + 1 - more.length - 1))
  | none => .error .rejectedStatement

/-- A symbol or a comment at the beginning. -/
def takeMark (c : Char) (ps : List Piece) : Except Failure (List Lexeme × List Piece) :=
  if twoChars c (headChar ps) == "--" then .ok ([], (takeChars (· != '\n') ps).2)
  else if twoChars c (headChar ps) == "/*" then .ok ([], dropComment (ps.drop 1))
  else if twoCharSymbols.contains (twoChars c (headChar ps)) then
    .ok ([.symbol (twoChars c (headChar ps))], ps.drop 1)
  else if oneCharSymbols.contains c then .ok ([.symbol c.toString], ps)
  else if c == '?' then .error .unbindableValue
  else .error .rejectedStatement

theorem head?_plainStart (ps : List Piece) : (plainStart ps).head? = headChar ps := by
  match ps with
  | [] => rfl
  | .param n :: ps => rfl
  | .text c :: ps => rfl

theorem takeLexeme_sign (h : isSign c = true) (ps : List Piece) : takeLexeme c ps =
    if isAsciiDigit c || (c == '.' && (headChar ps).any isAsciiDigit) then takeNumber c ps
    else takeMark c ps := by
  simp only [isSign, quotes, List.any_cons, List.any_nil, Bool.or_false, Bool.not_eq_true',
    Bool.or_eq_false_iff] at h
  obtain ⟨⟨hspace, hquote, hdouble, hback, hbracket⟩, hname⟩ := h
  have hne : ∀ d, (d == c) = false → (c == d) = false := fun d hd => BEq.comm.trans hd
  have hsecond : (c :: plainStart ps)[1]? = headChar ps := by
    rw [List.getElem?_cons_succ, ← List.head?_eq_getElem?, head?_plainStart]
  have htwo : (c :: plainStart ps).take 2 = c :: (headChar ps).toList := by
    rw [← head?_plainStart, List.take_succ_cons]
    cases plainStart ps <;> rfl
  unfold takeLexeme
  simp only [hspace, hne _ hquote, hne _ hdouble, hne _ hback, hne _ hbracket, hname, Bool.or_self,
    Bool.false_eq_true, if_false, hsecond, htwo]
  rfl

/-- What two characters make one lexeme or begin a comment. -/
def marks : List String := "--" :: "/*" :: twoCharSymbols

theorem exists_of_mark {second : Option Char} {s : String} (hs : s ∈ marks)
    (h : twoChars c second = s) : c ≠ '.' ∧ ∃ d, second = some d ∧ d ∉ letters := by
  have hall : ∀ s ∈ marks, s.toList.length = 2 ∧ s.toList.head? ≠ some '.' ∧
      ∀ d ∈ s.toList, d ∉ letters := by decide
  obtain ⟨hlength, hhead, hletters⟩ := hall s hs
  rw [← h, twoChars, String.toList_ofList] at hlength hhead hletters
  cases second with
  | none => cases hlength
  | some d =>
    refine ⟨fun e => hhead (congrArg some e), d, rfl, hletters d ?_⟩
    exact List.mem_cons_of_mem c List.mem_cons_self

theorem takeMark_of_not_mark (h : ∀ s ∈ marks, twoChars c (headChar ps) ≠ s) : takeMark c ps =
    if oneCharSymbols.contains c then .ok ([.symbol c.toString], ps)
    else if c == '?' then .error .unbindableValue
    else .error .rejectedStatement := by
  have hne : ∀ s ∈ marks, (twoChars c (headChar ps) == s) = false := fun s hs =>
    beq_eq_false_iff_ne.mpr (h s hs)
  have hcontains : twoCharSymbols.contains (twoChars c (headChar ps)) = false := by
    rw [Bool.eq_false_iff, Ne, List.contains_iff_mem]
    exact fun hmem => h _ (List.mem_cons_of_mem _ (List.mem_cons_of_mem _ hmem)) rfl
  unfold takeMark
  rw [hne "--" (by decide), hne "/*" (by decide), hcontains]
  rfl

/-- A point in front of anything but a digit is a symbol. -/
theorem takeLexeme_point (h : (headChar ps).any isAsciiDigit = false) :
    takeLexeme '.' ps = .ok ([.symbol "."], ps) := by
  have hpoint : ∀ s ∈ marks, twoChars '.' (headChar ps) ≠ s := fun s hs e =>
    (exists_of_mark hs e).1 rfl
  rw [takeLexeme_sign (by decide), h, takeMark_of_not_mark hpoint]
  rfl

end First

/-! ## Lexemes that are alike -/

/-- The name behind a point, where one comes next. -/
def nameBehind : List Lexeme → Option String
  | .symbol "." :: .name _ s :: _ => some s
  | _ => none

/-- The relation may be asked for what comes behind it. -/
def Asks (relation : String) (column : Option String) : Prop :=
  ∀ names, Kind.columnsAsked.lookup relation = some names →
    ∀ c, column = some c → c ∈ names ∨ IsOdd c.toList

/-- What a name may become before another one that stands behind a point. -/
inductive Becomes (k : Kind) (column : Option String) : String → String → Prop
  | same (n : String) : Becomes k column n n
  | odd {n n' : String} : IsOdd n.toList → IsOdd n'.toList → Becomes k column n n'
  | respelled {w w' : String} : (w, w') ∈ k.respellings → Asks w' column → Becomes k column w w'

/-- Lexemes that are the same apart from names and from what stands in quotes. -/
inductive Alike (k : Kind) : List Lexeme → List Lexeme → Prop
  | nil : Alike k [] []
  | settled (t : Truth) {ls ls' : List Lexeme} :
      Alike k ls ls' → Alike k (.settled t :: ls) (.settled t :: ls')
  | literal (c c' : Cell) {ls ls' : List Lexeme} :
      Alike k ls ls' → Alike k (.literal c :: ls) (.literal c' :: ls')
  | name (q : Bool) {n n' : String} {ls ls' : List Lexeme} : Becomes k (nameBehind ls') n n' →
      Alike k ls ls' → Alike k (.name q n :: ls) (.name q n' :: ls')
  | symbol (s : String) {ls ls' : List Lexeme} :
      Alike k ls ls' → Alike k (.symbol s :: ls) (.symbol s :: ls')

section Announced

variable {k : Kind} {params : String → Cell} {ps : List Piece} {ls : List Lexeme} {n : String}

/-- A name that goes on with a character of no word is not a word. -/
theorem name_or_odd {cs : List Char} (h : cs = [] ∨ IsOdd cs) :
    n.toList ++ cs = n.toList ∨ IsOdd (n.toList ++ cs) :=
  h.imp (fun e => by rw [e, List.append_nil]) fun hodd => hodd.append _

/-- Behind a point there is the name that is announced without quotes, or no word. -/
theorem Lexes.nameBehind_bare (hn : IsLettered n) (hps : startsWord ps = false)
    (h : Lexes params (texts ('.' :: n.toList) ++ ps) ls) :
    ∃ m, nameBehind ls = some m ∧ (m = n ∨ IsOdd m.toList) := by
  have hletters : ∀ c ∈ letters, isAsciiDigit c = false ∧ isNameStart c = true ∧
      isNameChar c = true := by decide
  obtain ⟨hne, hall⟩ := hn
  obtain ⟨d, ds, hds⟩ := List.exists_cons_of_ne_nil hne
  have hd : d ∈ letters := hall d (hds ▸ List.mem_cons_self)
  cases h with
  | text hpoint h =>
    have hhead : (headChar (texts n.toList ++ ps)).any isAsciiDigit = false := by
      rw [hds]
      exact (hletters d hd).1
    cases hpoint.symm.trans (takeLexeme_point hhead)
    have hrun := takeChars_append (p := isNameChar) (fun c hc => (hletters c (hall c hc)).2.2) ps
    have hbehind : Lexes params (texts n.toList ++ ps) _ := h
    generalize hname : texts n.toList ++ ps = qs at hbehind hrun
    cases hbehind with
    | nil =>
      rw [hds] at hname
      cases hname
    | param =>
      rw [hds] at hname
      cases hname
    | text hname' h =>
      have hc := congrArg headChar hname
      rw [hds] at hc
      cases hc
      rw [takeLexeme_name (hletters d hd).2.1, hrun] at hname'
      cases hname'
      refine ⟨_, rfl, ?_⟩
      rw [← String.toList_inj, String.toList_ofList]
      exact name_or_odd (takeChars_of_not_startsWord hps)

/-- The same for a name with quotes. -/
theorem Lexes.nameBehind_quoted (hn : IsLettered n) (hps : startsWord ps = false)
    (h : Lexes params (texts ('.' :: '"' :: n.toList) ++ ps) ls) :
    ∃ m, nameBehind ls = some m ∧ (m = n ∨ IsOdd m.toList) := by
  have hquote : '"' ∉ n.toList := fun hmem => absurd (hn.2 _ hmem) (by decide)
  cases h with
  | text hpoint h =>
    have hhead : (headChar (texts ('"' :: n.toList) ++ ps)).any isAsciiDigit = false := by
      rw [texts_cons, List.cons_append, headChar_text]
      decide
    cases hpoint.symm.trans (takeLexeme_point hhead)
    cases h with
    | text hname h =>
      rw [takeLexeme_quoted (show ('"', '"') ∈ quotes by decide)] at hname
      obtain ⟨⟨cs, more⟩, hcs, heq⟩ := map_eq_ok_iff.mp hname
      cases heq
      obtain ⟨ds, rfl, hrest⟩ := (quotes_of_takeQuoted hcs).of_append hquote
      refine ⟨_, rfl, ?_⟩
      rw [← String.toList_inj, String.toList_ofList]
      exact name_or_odd (hrest.of_not_startsWord (by decide) hps)

/-- A relation is asked for what is announced behind it. -/
theorem Lexes.asks {w : String} (ha : Announces w ps) (h : Lexes params ps ls) :
    Asks w (nameBehind ls) := by
  intro names hnames c hc
  obtain ⟨n, hn, rest, hrest, rfl | rfl⟩ := ha names hnames
  · obtain ⟨m, hm, hname⟩ := h.nameBehind_bare (lettered_columnsAsked hnames n hn) hrest
    cases hm.symm.trans hc
    rcases hname with rfl | hodd
    · exact .inl hn
    · exact .inr hodd
  · cases h with
    | text hname h =>
      rw [takeLexeme_quoted (show ('"', '"') ∈ quotes by decide)] at hname
      obtain ⟨p, -, heq⟩ := map_eq_ok_iff.mp hname
      cases heq
      cases hc

/-- The same behind the closing quote of the relation. -/
theorem Lexes.asks_quoted {w : String} {close : Char} (hclose : close ≠ '.')
    (ha : Announces w (.text close :: ps)) (h : Lexes params ps ls) :
    Asks w (nameBehind ls) := by
  intro names hnames c hc
  obtain ⟨n, hn, rest, hrest, heq | heq⟩ := ha names hnames
  · cases heq
    exact absurd rfl hclose
  · cases heq
    obtain ⟨m, hm, hname⟩ := h.nameBehind_quoted (lettered_columnsAsked hnames n hn) hrest
    cases hm.symm.trans hc
    rcases hname with rfl | hodd
    · exact .inl hn
    · exact .inr hodd

end Announced

/-! ## Lexemes of respelled texts -/

section Simulation

variable {k : Kind} {b : Bool} {c : Char} {ps ps' more : List Piece} {ls : List Lexeme}

theorem numeral_not_initial {c : Char} (hc : IsNumeral c) :
    ∀ p ∈ k.respellings, p.1.toList.head? ≠ some c := by
  have hall : ∀ k ∈ Kind.all, ∀ p ∈ k.respellings, ∀ d ∈ p.1.toList.take 1,
      isAsciiDigit d = false ∧ d ∉ ['.', 'e', 'E', '+', '-'] := by decide +kernel
  intro p hp e
  have hfirst : c ∈ p.1.toList.take 1 := by
    rw [List.take_one, e]
    exact List.mem_singleton_self c
  obtain ⟨hdigit, hmark⟩ := hall k k.mem_all p hp c hfirst
  exact hc.elim (fun h => nomatch hdigit.symm.trans h) hmark

theorem plainStart_append (us : List Char) (ps : List Piece) :
    plainStart (texts us ++ ps) = us ++ plainStart ps :=
  congrArg Prod.fst (takeChars_append (fun _ _ => rfl) ps)

theorem exists_of_plainStart {us rest : List Char} (h : plainStart ps = us ++ rest) :
    ∃ qs, ps = texts us ++ qs ∧ rest = plainStart qs := by
  have hps := texts_takeChars (fun _ => true) ps
  rw [show (takeChars (fun _ => true) ps).1 = us ++ rest from h, texts_append,
    List.append_assoc] at hps
  refine ⟨_, hps.symm, ?_⟩
  rw [← hps, plainStart_append] at h
  exact (List.append_cancel_left h).symm

theorem takeNumber_append {us : List Char} {n : Numeral}
    (h : Numeral.take (c :: (us ++ plainStart ps)) = some (n, plainStart ps))
    (hname : (headChar ps).any isNameChar = false) :
    takeNumber c (texts us ++ ps) = .ok ([.literal (numberCell n)], ps) := by
  have hdrop : (us ++ plainStart ps).length + 1 - (plainStart ps).length - 1 =
      (texts us).length := by
    rw [List.length_append, texts, List.length_map]
    omega
  unfold takeNumber
  rw [plainStart_append, h]
  dsimp only
  rw [head?_plainStart, hname, hdrop, List.drop_left]
  rfl

/-- The characters of a number at the beginning, and how they are read. -/
theorem exists_of_takeNumber (hc : isAsciiDigit c = true ∨ c = '.')
    (h : takeNumber c ps = .ok (ls, more)) : ∃ us n, ps = texts us ++ more ∧
      ls = [.literal (numberCell n)] ∧ (∀ d ∈ us, IsNumeral d) ∧
        (headChar more).any isNameChar = false ∧
          ∀ rest : List Char, rest.head? = headChar more →
            Numeral.take (c :: (us ++ rest)) = some (n, rest) := by
  have hresult := h
  unfold takeNumber at h
  split at h
  · next n after htake =>
    split at h
    · cases h
    · next hafter =>
      have hname : after.head?.any isNameChar = false := Bool.eq_false_iff.mpr hafter
      have hexponent : ∀ d ∈ after.head?, d ≠ 'e' ∧ d ≠ 'E' := by
        intro d hd
        rw [Option.mem_def.mp hd] at hname
        constructor <;> rintro rfl <;> cases hname
      obtain ⟨used, hused, hnumeral, hreads⟩ := Numeral.reads_take htake hexponent
      -- Something has been read, since not even a point is a number on its own.
      obtain ⟨us, rfl⟩ : ∃ us, used = c :: us := by
        match used with
        | d :: us => exact ⟨us, by rw [(List.cons.inj hused).1]⟩
        | [] =>
          rw [List.nil_append] at hused
          rw [← hused] at hname hreads
          rcases hc with hdigit | rfl
          · have hdigitName : isNameChar c = false := hname
            simp [isNameChar, hdigit] at hdigitName
          · cases (hreads ['.'] rfl).symm.trans (show Numeral.take ['.'] = none from rfl)
      rw [List.forall_mem_cons] at hnumeral
      obtain ⟨rest, rfl, rfl⟩ := exists_of_plainStart (List.cons.inj hused).2
      rw [head?_plainStart] at hname hreads
      rw [plainStart_append] at htake
      cases hresult.symm.trans (takeNumber_append htake hname)
      exact ⟨us, n, rfl, rfl, hnumeral.2, hname, hreads⟩
  · cases h

/-- A number is left as it is. -/
theorem takeNumber_respelled (hr : Respells k b ps ps')
    (hc : isAsciiDigit c = true ∨ c = '.') (h : takeNumber c ps = .ok (ls, more)) :
    ∃ more', takeNumber c ps' = .ok (ls, more') ∧ Respells k false more more' := by
  obtain ⟨us, n, rfl, rfl, hnumeral, hname, htake⟩ := exists_of_takeNumber hc h
  obtain ⟨more', b', rfl, hmore⟩ := hr.of_append fun d hd => numeral_not_initial (hnumeral d hd)
  have hletters : ∀ d ∈ letters, isNameChar d = true := by decide
  have hhead : headChar more' = headChar more := by
    rcases hmore.headChar_cases with heq | ⟨d, hd, -, -, heq, -⟩
    · exact heq
    · rw [heq, Option.any_some, hletters d hd] at hname
      cases hname
  refine ⟨more', takeNumber_append (htake _ ?_) (hhead ▸ hname), hmore.to_false⟩
  rw [head?_plainStart, hhead]

theorem dropComment_cons {q : Piece} (h : q ≠ .text '*' ∨ headChar ps ≠ some '/') :
    dropComment (q :: ps) = dropComment ps := by
  rw [dropComment.eq_def]
  split
  · next heq =>
    cases heq
    rcases h with h | h <;> exact absurd rfl h
  · next heq =>
    cases heq
    rfl
  · next heq => cases heq

theorem dropComment_append {us : List Char} (h : '*' ∉ us) (ps : List Piece) :
    dropComment (texts us ++ ps) = dropComment ps := by
  induction us with
  | nil => rfl
  | cons u us ih =>
    rw [List.mem_cons, not_or] at h
    have hu : Piece.text u ≠ .text '*' := fun e => h.1 (Piece.text.inj e).symm
    rw [texts_cons, List.cons_append, dropComment_cons (.inl hu), ih h.2]

/-- Comments end at the same places. -/
theorem dropComment_respelled (hr : Respells k b ps ps') :
    Respells k false (dropComment ps) (dropComment ps') := by
  induction hr with
  | nil => exact .nil _
  | param _ ih =>
    have hparam : ∀ n : String, Piece.param n ≠ .text '*' := fun n => nofun
    rw [dropComment_cons (.inl (hparam _)), dropComment_cons (.inl (hparam _))]
    exact ih
  | @keep b c ps ps' hr ih =>
    by_cases hplain : Piece.text c ≠ .text '*' ∨ headChar ps ≠ some '/'
    · have hplain' : Piece.text c ≠ .text '*' ∨ headChar ps' ≠ some '/' :=
        hplain.imp_right fun hne => mt (hr.headChar_eq_iff (by decide)).mp hne
      rw [dropComment_cons hplain, dropComment_cons hplain']
      exact ih
    · rw [not_or, not_not, not_not] at hplain
      obtain ⟨hc, hhead⟩ := hplain
      cases hc
      match ps with
      | .text c :: ps =>
        cases hhead
        obtain ⟨ps', rfl, hrest⟩ := hr.of_cons (by decide)
        exact hrest.to_false
  | @word w w' ps ps' hw _ _ _ ih =>
    obtain ⟨hletters, hletters'⟩ : IsLettered w ∧ IsLettered w' := lettered_respellings hw
    have hstar : ∀ v : String, IsLettered v → '*' ∉ v.toList := fun v hv hmem =>
      absurd (hv.2 _ hmem) (by decide)
    rw [dropComment_append (hstar w hletters), dropComment_append (hstar w' hletters')]
    exact ih

/-- A symbol is left as it is, and comments are passed over. -/
theorem takeMark_respelled (hr : Respells k b ps ps') (h : takeMark c ps = .ok (ls, more)) :
    ∃ more', takeMark c ps' = .ok (ls, more') ∧ Respells k false more more' := by
  by_cases hmark : ∃ s ∈ marks, twoChars c (headChar ps) = s
  · -- the second character of a mark is no letter, so it is not respelled
    obtain ⟨s, hs, heq⟩ := hmark
    obtain ⟨-, d, hhead, hd⟩ := exists_of_mark hs heq
    match ps with
    | .text e :: ps =>
      cases hhead
      obtain ⟨ps', rfl, hrest⟩ := hr.of_cons hd
      unfold takeMark at h ⊢
      rw [headChar_text] at h ⊢
      split at h
      · next hline =>
        have hbreak : ∀ d ∈ letters, (d != '\n') = true := by decide
        cases h
        exact ⟨_, if_pos hline, (hr.takeChars hbreak).2⟩
      · next hline =>
        rw [if_neg hline]
        split at h
        · next hcomment =>
          cases h
          exact ⟨_, if_pos hcomment, dropComment_respelled hrest⟩
        · next hcomment =>
          rw [if_neg hcomment]
          split at h
          · next htwo =>
            cases h
            exact ⟨_, if_pos htwo, hrest.to_false⟩
          · next htwo =>
            rw [if_neg htwo]
            split at h
            · next hone =>
              cases h
              exact ⟨_, if_pos hone, hr.to_false⟩
            · split at h <;> cases h
  · have hnone : ∀ s ∈ marks, twoChars c (headChar ps) ≠ s := fun s hs e => hmark ⟨s, hs, e⟩
    have hnone' : ∀ s ∈ marks, twoChars c (headChar ps') ≠ s := by
      intro s hs e
      obtain ⟨-, d, hhead, hd⟩ := exists_of_mark hs e
      rw [hhead, ← (hr.headChar_eq_iff hd).mp hhead] at e
      exact hnone s hs e
    rw [takeMark_of_not_mark hnone] at h
    rw [takeMark_of_not_mark hnone']
    split at h
    · next hone =>
      cases h
      exact ⟨ps', if_pos hone, hr.to_false⟩
    · split at h <;> cases h

variable {params : String → Cell} {qs : List Piece}

theorem Becomes.of_runs {cs cs' : List Char} {column : Option String}
    (h : cs = cs' ∨ (IsOdd cs ∧ IsOdd cs') ∨
      ∃ w w', (w, w') ∈ k.respellings ∧ cs = w.toList ∧ cs' = w'.toList ∧ Asks w' column) :
    Becomes k column (String.ofList cs) (String.ofList cs') := by
  rcases h with rfl | ⟨hodd, hodd'⟩ | ⟨w, w', hw, rfl, rfl, hasks⟩
  · exact .same _
  · exact .odd (by rwa [String.toList_ofList]) (by rwa [String.toList_ofList])
  · rw [String.ofList_toList, String.ofList_toList]
    exact .respelled hw hasks

theorem headChar_eq_some {ps : List Piece} (h : headChar ps = some c) :
    ∃ qs, ps = .text c :: qs := by
  match ps with
  | .text d :: qs =>
    cases h
    exact ⟨qs, rfl⟩

/-- What is respelled gives a lexeme where the text gives one. -/
def GivesAlike (k : Kind) (params : String → Cell) (ls : List Lexeme) (more qs : List Piece) :
    Prop :=
  ∃ c' ps' ls' more', qs = .text c' :: ps' ∧ takeLexeme c' ps' = .ok (ls', more') ∧
    Respells k false more more' ∧ ∀ rest rest', Lexes params more' rest' → Alike k rest rest' →
      Alike k (ls ++ rest) (ls' ++ rest')

/-- A name gives a name. -/
theorem name_respelled (hc : isNameStart c = true) (hr : Respells k b (.text c :: ps) qs)
    (h : takeLexeme c ps = .ok (ls, more)) : GivesAlike k params ls more qs := by
  have hletters : ∀ d ∈ letters, isNameStart d = true := by decide
  have hnames : ∀ d ∈ letters, isNameChar d = true := by decide
  obtain ⟨c', hc', hhead⟩ : ∃ c', isNameStart c' = true ∧ headChar qs = some c' := by
    rcases hr.headChar_cases with heq | ⟨-, -, d, hd, -, heq⟩
    · exact ⟨c, hc, heq⟩
    · exact ⟨d, hletters d hd, heq⟩
  obtain ⟨ps', rfl⟩ := headChar_eq_some hhead
  rw [takeLexeme_name hc] at h
  cases h
  obtain ⟨hruns, hmore⟩ := hr.takeChars hnames
  refine ⟨c', ps', _, _, rfl, takeLexeme_name hc' ps', hmore, fun rest rest' hrest halike => ?_⟩
  refine .name false (.of_runs (hruns.imp_right fun h => h.imp_right ?_)) halike
  rintro ⟨w, w', hw, heq, heq', hannounces⟩
  exact ⟨w, w', hw, heq, heq', hrest.asks hannounces⟩

/-- What stands in quotes gives what stands in quotes. -/
theorem quoted_respelled {close : Char} (hc : (c, close) ∈ quotes) (hr : Respells k b ps ps')
    (h : takeLexeme c ps = .ok (ls, more)) : GivesAlike k params ls more (.text c :: ps') := by
  have hall : ∀ q ∈ quotes, Text.isWord q.2 = false ∧ q.2 ≠ '.' := by decide
  obtain ⟨hclose, hpoint⟩ : Text.isWord close = false ∧ close ≠ '.' := hall _ hc
  rw [takeLexeme_quoted hc] at h
  obtain ⟨⟨cs, rest⟩, hcs, heq⟩ := map_eq_ok_iff.mp h
  cases heq
  obtain ⟨cs', more', hcs', hmore, hsame⟩ := (quotes_of_takeQuoted hcs).respelled hclose hr
  refine ⟨c, ps', [quoted c cs'], more', rfl, ?_, hmore, fun rest rest' hrest halike => ?_⟩
  · rw [takeLexeme_quoted hc, takeQuoted_iff.mpr hcs']
    rfl
  · unfold quoted
    split
    · exact .literal _ _ halike
    · refine .name true (.of_runs (hsame.imp_right fun h => h.imp_right ?_)) halike
      rintro ⟨-, -, w, w', hw, heq, heq', hannounces⟩
      exact ⟨w, w', hw, heq, heq', hrest.asks_quoted hpoint hannounces⟩

theorem Alike.append (first : List Lexeme) {ls ls' : List Lexeme} (h : Alike k ls ls') :
    Alike k (first ++ ls) (first ++ ls') := by
  induction first with
  | nil => exact h
  | cons l first ih =>
    cases l with
    | settled t => exact .settled t ih
    | literal c => exact .literal c c ih
    | name q n => exact .name q (.same n) ih
    | symbol s => exact .symbol s ih

/-- Numbers, symbols and comments stay. -/
theorem sign_respelled (hc : isSign c = true) (hr : Respells k b ps ps')
    (h : takeLexeme c ps = .ok (ls, more)) : GivesAlike k params ls more (.text c :: ps') := by
  have hdigits : ∀ d ∈ letters, isAsciiDigit d = false := by decide
  have hgives : ∃ more', takeLexeme c ps' = .ok (ls, more') ∧ Respells k false more more' := by
    rw [takeLexeme_sign hc] at h ⊢
    rw [hr.any_headChar hdigits]
    split at h
    · next hnumber =>
      rw [if_pos hnumber]
      rw [Bool.or_eq_true, Bool.and_eq_true, beq_iff_eq] at hnumber
      exact takeNumber_respelled hr (hnumber.imp_right And.left) h
    · next hmark =>
      rw [if_neg hmark]
      exact takeMark_respelled hr h
  obtain ⟨more', h', hmore⟩ := hgives
  exact ⟨c, ps', ls, more', rfl, h', hmore, fun rest rest' _ halike => halike.append ls⟩

/-- A text that gives a lexeme, or a space or comment, gives a like one where words are respelled. -/
theorem takeLexeme_respelled (hr : Respells k b (.text c :: ps) qs)
    (h : takeLexeme c ps = .ok (ls, more)) : GivesAlike k params ls more qs := by
  by_cases hname : isNameStart c = true
  · exact name_respelled hname hr h
  · have hletters : ∀ d ∈ letters, isNameStart d = true := by decide
    obtain ⟨ps', rfl, hrest⟩ := hr.of_cons fun hmem => hname (hletters c hmem)
    by_cases hspace : isSpace c = true
    · rw [takeLexeme_space hspace] at h
      cases h
      exact ⟨c, ps', [], ps', rfl, takeLexeme_space hspace ps', hrest.to_false,
        fun rest rest' _ halike => halike⟩
    · by_cases hquote : ∃ close, (c, close) ∈ quotes
      · obtain ⟨close, hclose⟩ := hquote
        exact quoted_respelled hclose hrest h
      · have hsign : isSign c = true := by
          have hany : quotes.any (·.1 == c) = false := by
            rw [List.any_eq_false]
            rintro ⟨d, close⟩ hmem heq
            rw [beq_iff_eq] at heq
            exact hquote ⟨close, heq ▸ hmem⟩
          rw [isSign, hany, Bool.eq_false_iff.mpr hspace, Bool.eq_false_iff.mpr hname]
          rfl
        exact sign_respelled hsign hrest h

/-- A respelled text is cut into lexemes that are alike. -/
theorem Lexes.respelled {ls : List Lexeme} (h : Lexes params ps ls) (hr : Respells k b ps qs) :
    ∃ ls', Lexes params qs ls' ∧ Alike k ls ls' := by
  induction h generalizing b qs with
  | nil =>
    obtain rfl := hr.of_nil
    exact ⟨[], .nil, .nil⟩
  | param _ ih =>
    obtain ⟨n', ps', rfl, hrest⟩ := hr.of_param
    obtain ⟨ls', hls', halike⟩ := ih hrest
    exact ⟨_, .param hls', .literal _ _ halike⟩
  | text hfirst _ ih =>
    obtain ⟨c', ps', first', more', rfl, hfirst', hmore, halike⟩ := takeLexeme_respelled hr hfirst
    obtain ⟨rest', hrest', hsame⟩ := ih hmore
    exact ⟨_, .text hfirst' hrest', halike _ _ hrest' hsame⟩

end Simulation

/-- Pieces are cut in one way only. -/
theorem Lexes.unique {params : String → Cell} {ps : List Piece} {ls ls' : List Lexeme}
    (h : Lexes params ps ls) (h' : Lexes params ps ls') : ls = ls' := by
  induction h generalizing ls' with
  | nil =>
    cases h' with
    | nil => rfl
  | param _ ih =>
    cases h' with
    | param hrest => rw [ih hrest]
  | text hfirst _ ih =>
    cases h' with
    | text hfirst' hrest =>
      cases hfirst.symm.trans hfirst'
      rw [ih hrest]

/-! ## One text after another -/

section Trans

variable {k : Kind} {ls ls' ls'' : List Lexeme} {n n' n'' w w' : String}

theorem not_isOdd_of_isLettered (h : IsLettered n) : ¬IsOdd n.toList := by
  rintro ⟨c, hc, hword⟩
  cases hword.symm.trans (isWord_of_mem_letters c (h.2 c hc))

/-- What a relation is asked for is not respelled. -/
theorem not_respelled_of_asked {relation : String} {names : List String}
    (h : Kind.columnsAsked.lookup relation = some names) (hn : n ∈ names) :
    (n, n') ∉ k.respellings := by
  have hall : ∀ k ∈ Kind.all, ∀ p ∈ k.respellings, ∀ q ∈ Kind.columnsAsked, p.1 ∉ q.2 := by
    decide +kernel
  obtain ⟨ps, qs, hps, -⟩ := List.lookup_eq_some_iff.mp h
  exact fun hmem => hall k k.mem_all _ hmem _ (hps ▸ List.mem_append_right ps List.mem_cons_self) hn

theorem Asks.of_alike (h : Asks w (nameBehind ls)) (ha : Alike k ls ls') :
    Asks w (nameBehind ls') := by
  intro names hnames c hc
  unfold nameBehind at hc
  split at hc
  · cases hc
    cases ha with
    | symbol _ ha =>
      cases ha with
      | name q hn _ =>
        have hasked := h names hnames _ rfl
        cases hn with
        | same => exact hasked
        | odd _ hodd => exact .inr hodd
        | respelled hw _ =>
          rcases hasked with hmem | hodd
          · exact absurd hw (not_respelled_of_asked hnames hmem)
          · exact absurd hodd (not_isOdd_of_isLettered (lettered_respellings hw).1)
  · cases hc

theorem Becomes.trans (h : Becomes k (nameBehind ls) n n') (ha : Alike k ls ls')
    (h' : Becomes k (nameBehind ls') n' n'') : Becomes k (nameBehind ls') n n'' := by
  cases h with
  | same => exact h'
  | odd hodd hodd' =>
    cases h' with
    | same => exact .odd hodd hodd'
    | odd _ hodd'' => exact .odd hodd hodd''
    | respelled hw _ => exact absurd hodd' (not_isOdd_of_isLettered (lettered_respellings hw).1)
  | respelled hw hasks =>
    cases h' with
    | same => exact .respelled hw (hasks.of_alike ha)
    | odd hodd _ => exact absurd hodd (not_isOdd_of_isLettered (lettered_respellings hw).2)
    | respelled hw' _ =>
      have hall : ∀ k ∈ Kind.all, ∀ p ∈ k.respellings, ∀ q ∈ k.respellings, p.2 ≠ q.1 := by
        decide +kernel
      exact absurd rfl (hall k k.mem_all _ hw _ hw')

theorem Alike.refl (k : Kind) (ls : List Lexeme) : Alike k ls ls := by
  have h := Alike.append ls (Alike.nil (k := k))
  rwa [List.append_nil] at h

theorem Alike.trans (h : Alike k ls ls') (h' : Alike k ls' ls'') : Alike k ls ls'' := by
  induction h generalizing ls'' with
  | nil => exact h'
  | settled t _ ih =>
    cases h' with
    | settled _ h' => exact .settled t (ih h')
  | literal c c' _ ih =>
    cases h' with
    | literal _ c'' h' => exact .literal c c'' (ih h')
  | name q hn _ ih =>
    cases h' with
    | name _ hn' h' => exact .name q (hn.trans h' hn') (ih h')
  | symbol s _ ih =>
    cases h' with
    | symbol _ h' => exact .symbol s (ih h')

theorem Alike.length_eq (h : Alike k ls ls') : ls'.length = ls.length := by
  induction h with
  | nil => rfl
  | settled _ _ ih => exact congrArg (· + 1) ih
  | literal _ _ _ ih => exact congrArg (· + 1) ih
  | name _ _ _ ih => exact congrArg (· + 1) ih
  | symbol _ _ ih => exact congrArg (· + 1) ih

end Trans

end Lexeme

end Chronicle
