import Chronicle.Filter.Predicate
import Chronicle.Proofs.AsOf.Rows
import Chronicle.Proofs.Decimal.Written
import Chronicle.Proofs.Filter.Predicates
import Chronicle.Proofs.Fragment.Meaning
import Chronicle.Proofs.Statement.Shared

/-!
# Conditions by pattern

The conditions `~` and `!~` are written as text.  As of an instant the column in this text is
replaced and nothing else is, so the text says of the journal what it says of the live table.

* `Lexeme.Cuts`: a text is cut into lexemes piece by piece;
* `TextRule.replaceEach_parted`: the parts of a text are gone through one by one;
* `Condition.pattern`: the text of a condition by pattern, with its parameter;
* `Condition.expression?_pattern`: the expression that it forms;
* `Substitution.raw_pattern`: the text as of an instant;
* `Substitution.cell_raw_pattern`: it has the cell that it has on the live table.
-/

namespace Chronicle

open Chronicle.Decimal Chronicle.Text Fragment

/-! ## Cutting texts -/

/-- A run is empty where the first character does not belong to it. -/
theorem Fragment.takeChars_of_headChar {p : Char → Bool} {ps : List Piece}
    (h : (headChar ps).any p = false) : Lexeme.takeChars p ps = ([], ps) := by
  match ps with
  | [] | .param _ :: _ => rfl
  | .text c :: ps => exact (takeChars_text p c ps).trans (if_neg (Bool.eq_false_iff.mp h))

namespace Lexeme

/-- Pieces are cut into lexemes, in no more steps than there are pieces. -/
def Cuts (params : String → Cell) (ps : List Piece) (ls : List Lexeme) : Prop :=
  ∀ fuel, ps.length < fuel → cut params fuel ps = .ok ls

namespace Cuts

variable {params : String → Cell} {ps more : List Piece} {ls rest : List Lexeme}

theorem ofPieces (h : Cuts params ps ls) : ofPieces params ps = .ok ls := h _ (Nat.lt_succ_self _)

theorem nil (params : String → Cell) : Cuts params [] [] := by
  intro fuel hfuel
  obtain ⟨fuel, rfl⟩ := Nat.exists_eq_add_one.mpr hfuel
  rfl

theorem param (n : String) (h : Cuts params ps ls) :
    Cuts params (.param n :: ps) (.literal (params n) :: ls) := by
  intro fuel hfuel
  obtain ⟨fuel, rfl⟩ := Nat.exists_eq_add_one.mpr (Nat.zero_lt_of_lt hfuel)
  rw [cut, h fuel (Nat.lt_of_succ_lt_succ hfuel)]
  rfl

theorem text {c : Char} (hc : takeLexeme c ps = .ok (ls, more)) (hle : more.length ≤ ps.length)
    (h : Cuts params more rest) : Cuts params (.text c :: ps) (ls ++ rest) := by
  intro fuel hfuel
  obtain ⟨fuel, rfl⟩ := Nat.exists_eq_add_one.mpr (Nat.zero_lt_of_lt hfuel)
  rw [List.length_cons] at hfuel
  rw [cut, hc]
  change (cut params fuel more >>= fun ls' => pure (ls ++ ls')) = _
  rw [h fuel (by omega)]
  rfl

theorem space (h : Cuts params ps ls) : Cuts params (.text ' ' :: ps) ls :=
  h.text (takeLexeme_space (by decide) ps) (Nat.le_refl _)

/-- A name without quotes, behind which no further character of a name comes. -/
theorem word {w : String} (hstart : w.toList.head?.any isNameStart = true)
    (hchars : ∀ c ∈ w.toList, isNameChar c = true)
    (hps : (headChar ps).any isNameChar = false) (h : Cuts params ps ls) :
    Cuts params (texts w.toList ++ ps) (.name false w :: ls) := by
  have hrun := takeChars_append hchars ps
  rw [takeChars_of_headChar hps, List.append_nil] at hrun
  cases hw : w.toList with
  | nil =>
    rw [hw] at hstart
    cases hstart
  | cons c cs =>
    rw [hw] at hstart hrun
    have hlexeme := takeLexeme_name hstart (texts cs ++ ps)
    rw [← List.cons_append, ← texts_cons, hrun, ← hw, String.ofList_toList] at hlexeme
    exact h.text hlexeme (by simp)

/-- What stands in quotes, behind which no further one comes. -/
theorem quoted {c close : Char} {cs : List Char} (hc : (c, close) ∈ quotes) (hcs : close ∉ cs)
    (hps : headChar ps ≠ some close) (h : Cuts params ps ls) :
    Cuts params (.text c :: (texts cs ++ .text close :: ps)) (Lexeme.quoted c cs :: ls) := by
  have hquotes := takeQuoted_iff.mpr (Quotes.append hcs (.close (.ends hps)))
  have hlexeme : takeLexeme c (texts cs ++ .text close :: ps) =
      .ok ([Lexeme.quoted c cs], ps) := by
    rw [takeLexeme_quoted hc, hquotes, List.append_nil]
    rfl
  refine h.text hlexeme ?_
  rw [List.length_append, List.length_cons]
  omega

theorem point (hps : (headChar ps).any isAsciiDigit = false) (h : Cuts params ps ls) :
    Cuts params (.text '.' :: ps) (.symbol "." :: ls) :=
  h.text (takeLexeme_point hps) (Nat.le_refl _)

theorem bracket {c : Char} (hc : c ∈ ['(', ')']) (h : Cuts params ps ls) :
    Cuts params (.text c :: ps) (.symbol c.toString :: ls) := by
  have hall : ∀ c ∈ ['(', ')'], isSign c = true ∧ isAsciiDigit c = false ∧ c ≠ '.' ∧
      oneCharSymbols.contains c = true ∧ ∀ s ∈ marks, s.toList.head? ≠ some c := by decide
  obtain ⟨hsign, hdigit, hpoint, hsymbol, hmarks⟩ := hall c hc
  have hmark : ∀ s ∈ marks, twoChars c (headChar ps) ≠ s := by
    rintro s hs rfl
    exact hmarks _ hs (by rw [twoChars, String.toList_ofList]; rfl)
  have hlexeme : takeLexeme c ps = .ok ([.symbol c.toString], ps) := by
    rw [takeLexeme_sign hsign, hdigit, beq_false_of_ne hpoint, takeMark_of_not_mark hmark, hsymbol]
    rfl
  exact h.text hlexeme (Nat.le_refl _)

end Cuts

end Lexeme

/-! ## Replacing names in parts of a text -/

namespace TextRule

variable {r : TextRule} {x : Char} {us ws : List Char}

/-- Without a character of the pattern nothing is replaced. -/
theorem replaceFrom_of_not_mem {c : Char} (hc : c ∈ r.pattern) (before : Option Char)
    (hws : c ∉ ws) : r.replaceFrom before 0 ws = ws := by
  induction ws generalizing before with
  | nil => rfl
  | cons w ws ih =>
    have happlies : r.applies before (w :: ws) = false := by
      refine Bool.eq_false_iff.mpr fun h => ?_
      obtain ⟨rest, hrest⟩ := exists_of_applies h
      exact hws (hrest ▸ List.mem_append_left rest hc)
    rw [replaceFrom, if_neg (Bool.eq_false_iff.mp happlies),
      ih _ fun h => hws (List.mem_cons_of_mem w h)]

/-- A character parts texts for a rule: its pattern does not reach beyond it, and before and behind
it names end and begin. -/
structure IsParted (r : TextRule) (x : Char) : Prop where
  pattern : r.pattern ≠ [] ∧ x ∉ r.pattern
  opens : opens (some x) = true
  closes : closes (some x) = true

/-- Where a pattern is found before such a character does not depend on what stands behind it. -/
theorem IsParted.applies_append (h : r.IsParted x) (before : Option Char) (us ws : List Char) :
    r.applies before (us ++ x :: ws) = r.applies before us := by
  have hfound : r.pattern.isPrefixOf (us ++ x :: ws) = r.pattern.isPrefixOf us := by
    rw [Bool.eq_iff_iff, List.isPrefixOf_iff_prefix, List.isPrefixOf_iff_prefix]
    refine ⟨fun hfound => ?_, fun hfound => hfound.trans (List.prefix_append us _)⟩
    by_cases hle : r.pattern.length ≤ us.length
    · exact List.prefix_of_prefix_length_le hfound (List.prefix_append us _) hle
    · -- The pattern would reach beyond the character.
      have hreaches : us ++ [x] <+: r.pattern := by
        refine List.prefix_of_prefix_length_le ⟨ws, ?_⟩ hfound (by simp; omega)
        rw [List.append_assoc, List.singleton_append]
      exact absurd (hreaches.subset (List.mem_append_right us (List.mem_singleton_self _)))
        h.pattern.2
  unfold applies
  rw [hfound]
  by_cases hus : r.pattern.isPrefixOf us = true
  · obtain ⟨vs, rfl⟩ := List.isPrefixOf_iff_prefix.mp hus
    have hcloses : TextRule.closes (vs ++ x :: ws).head? = TextRule.closes vs.head? := by
      cases vs with
      | nil => exact h.closes
      | cons v vs => rfl
    rw [List.append_assoc, List.drop_left, List.drop_left, hcloses]
  · rw [Bool.eq_false_iff.mpr hus]
    rfl

/-- Behind such a character texts are gone through as from their start. -/
theorem IsParted.replaceFrom_behind (h : r.IsParted x) (before : Option Char) (ws : List Char) :
    r.replaceFrom before 0 (x :: ws) = x :: r.replaceAll ws := by
  have hnone : r.applies before (x :: ws) = false := by
    have hnil : r.applies before [] = false := by
      cases hp : r.pattern with
      | nil => exact absurd hp h.pattern.1
      | cons c cs =>
        rw [applies, hp]
        rfl
    exact (h.applies_append before [] ws).trans hnil
  have hstart : r.replaceFrom (some x) 0 ws = r.replaceAll ws := by
    cases ws with
    | nil => rfl
    | cons w ws =>
      have hsame : r.applies (some x) (w :: ws) = r.applies none (w :: ws) := by
        rw [applies, applies, h.opens]
        rfl
      rw [replaceAll, replaceFrom, replaceFrom, hsame]
  rw [replaceFrom, if_neg (Bool.eq_false_iff.mp hnone), hstart]

theorem IsParted.replaceFrom_append (h : r.IsParted x) (ws : List Char) (before : Option Char)
    {skip : Nat} (hskip : skip ≤ us.length) : r.replaceFrom before skip (us ++ x :: ws) =
      r.replaceFrom before skip us ++ x :: r.replaceAll ws := by
  induction us generalizing before skip with
  | nil =>
    obtain rfl := Nat.le_zero.mp hskip
    exact h.replaceFrom_behind before ws
  | cons u us ih =>
    match skip with
    | skip + 1 => exact ih (some u) (Nat.le_of_succ_le_succ hskip)
    | 0 =>
      have happlies := h.applies_append before (u :: us) ws
      rw [List.cons_append] at happlies ⊢
      rw [replaceFrom, replaceFrom, happlies]
      split
      · next hfound =>
        obtain ⟨rest, hrest⟩ := exists_of_applies hfound
        have hlength := congrArg List.length hrest
        rw [List.length_cons, List.length_append] at hlength
        rw [ih (some u) (by omega), List.append_assoc]
      · rw [ih (some u) (Nat.zero_le _), List.cons_append]

variable {rules : List TextRule}

/-- The parts of a text are gone through one by one. -/
theorem replaceEach_parted (hrules : ∀ r ∈ rules, r.IsParted x) (us ws : List Char) :
    replaceEach rules (us ++ x :: ws) = replaceEach rules us ++ x :: replaceEach rules ws := by
  induction rules generalizing us ws with
  | nil => rfl
  | cons r rules ih =>
    rw [List.forall_mem_cons] at hrules
    change replaceEach rules (r.replaceFrom none 0 (us ++ x :: ws)) = _
    rw [hrules.1.replaceFrom_append ws none (Nat.zero_le _), ih hrules.2]
    rfl

/-- A part without a character of all patterns stays. -/
theorem replaceEach_of_not_mem {c : Char} (hrules : ∀ r ∈ rules, c ∈ r.pattern) (hws : c ∉ ws) :
    replaceEach rules ws = ws := by
  induction rules with
  | nil => rfl
  | cons r rules ih =>
    rw [List.forall_mem_cons] at hrules
    change replaceEach rules (r.replaceFrom none 0 ws) = ws
    rw [replaceFrom_of_not_mem hrules.1 none hws, ih hrules.2]

end TextRule

/-! ## Pieces -/

namespace Fragment

theorem unescape_texts {cs : List Char} (h : ':' ∉ cs) : unescape (texts cs) = texts cs := by
  induction cs with
  | nil => rfl
  | cons c cs ih =>
    rw [List.mem_cons, not_or] at h
    have hhead : headChar (texts cs) ≠ some ':' := by
      rw [headChar_texts]
      exact fun e => h.2 (List.mem_of_head? e)
    rw [texts_cons, unescape_cons (.inr hhead), ih h.2]

/-- A text with one parameter in it. -/
theorem pieces_param {us name vs : List Char} (hus : ':' ∉ us ∧ '\\' ∉ us)
    (hguard : us.getLast?.any guardsColon = false) (hname : name ≠ [])
    (hchars : ∀ c ∈ name, isNameChar c = true) (hvs : ':' ∉ vs)
    (hbehind : vs.head?.any isNameChar = false) :
    pieces (String.ofList (us ++ ':' :: (name ++ vs))) =
      texts us ++ .param (String.ofList name) :: texts vs := by
  have htake : (name ++ vs).takeWhile isNameChar = name ∧
      (name ++ vs).dropWhile isNameChar = vs := by
    rw [List.takeWhile_append_of_pos hchars, List.dropWhile_append_of_pos hchars]
    cases vs with
    | nil => exact ⟨List.append_nil name, rfl⟩
    | cons v vs =>
      have hv : ¬isNameChar v = true := Bool.eq_false_iff.mp hbehind
      rw [List.takeWhile_cons_of_neg hv, List.dropWhile_cons_of_neg hv, List.append_nil]
      exact ⟨rfl, rfl⟩
  have hparam : paramName (name ++ vs) = some name := by
    unfold paramName
    rw [htake.1, htake.2]
    refine if_neg ?_
    rw [Bool.or_eq_true, List.isEmpty_iff, beq_iff_eq, not_or]
    exact ⟨hname, fun e => hvs (List.mem_of_head? e)⟩
  have hbefore : (us.getLast?.or none).any guardsColon = false := by
    rw [Option.or_none, hguard]
  obtain ⟨last, -, hpieces⟩ := piecesFrom_of_paramName hbefore hparam
  have hrest := piecesFrom_append hvs (some last) []
  rw [List.append_nil, piecesFrom, List.append_nil] at hrest
  have hparam' : Piece.param (String.ofList name) ≠ .text '\\' := Piece.noConfusion
  rw [pieces, String.toList_ofList, piecesFrom_append hus.1, hpieces, htake.2, hrest,
    unescape_append hus.2, unescape_cons (.inl hparam'), unescape_texts hvs]

end Fragment

/-! ## The text of a pattern -/

theorem Expression.columnCell_of_find {env : Env} {relation : Option String} {name : String}
    {c : Column} {x : Cell} (h : env.find relation name = .found c x) :
    columnCell env relation name = x := by
  rw [columnCell, h]

namespace Condition

/-- A column as it is written in a pattern. -/
def quotedColumn (ref : ColumnRef) : String := "\"" ++ ref.table ++ "\".\"" ++ ref.name ++ "\""

/-- The text of `~`, or of `!~`, which holds of what is missing too. -/
def patternText (lacks : Bool) (ref : ColumnRef) (param : String) : String :=
  if lacks then
    "(" ++ quotedColumn ref ++ " IS NULL OR NOT " ++ likeText (quotedColumn ref) param ++ ")"
  else likeText (quotedColumn ref) param

def patternParam (field : String) (index : Nat) : String :=
  field ++ "_" ++ toString index ++ "_pattern"

/-- The condition that a column contains a value, or does not. -/
def pattern (lacks : Bool) (ref : ColumnRef) (param : String) (v : Value) : RawFragment :=
  ⟨patternText lacks ref param, [(param, .text (containing v))]⟩

/-- What stands before the bracket behind the column. -/
def patternHead (lacks : Bool) (ref : ColumnRef) : String :=
  (if lacks then "(" ++ quotedColumn ref ++ " IS NULL OR NOT " else "") ++
    "LOWER(" ++ quotedColumn ref

/-- What stands behind the parameter. -/
def patternEnd (lacks : Bool) : String := ") ESCAPE '\\'" ++ if lacks then ")" else ""

theorem toList_patternText (lacks : Bool) (ref : ColumnRef) (param : String) :
    (patternText lacks ref param).toList = ((patternHead lacks ref).toList ++
      ") LIKE LOWER(".toList) ++ ':' :: (param.toList ++ (patternEnd lacks).toList) := by
  cases lacks <;> simp [patternText, patternHead, patternEnd, likeText]

/-! ## Its lexemes -/

def columnLexemes (ref : ColumnRef) : List Lexeme :=
  [.name true ref.table, .symbol ".", .name true ref.name]

/-- The lexemes of a comparison by pattern. -/
def likeLexemes (ref : ColumnRef) (c : Cell) : List Lexeme :=
  .name false "LOWER" :: .symbol "(" :: (columnLexemes ref ++ [.symbol ")", .name false "LIKE",
    .name false "LOWER", .symbol "(", .literal c, .symbol ")", .name false "ESCAPE",
    .literal (.text "\\")])

def patternLexemes (lacks : Bool) (ref : ColumnRef) (c : Cell) : List Lexeme :=
  if lacks then
    .symbol "(" :: (columnLexemes ref ++ .name false "IS" :: .name false "NULL" ::
      .name false "OR" :: .name false "NOT" :: (likeLexemes ref c ++ [.symbol ")"]))
  else likeLexemes ref c

/-- A column whose names need no quotes. -/
def IsLetteredColumn (ref : ColumnRef) : Prop := IsLettered ref.table ∧ IsLettered ref.name

section Lexemes

open Lexeme

variable {ref : ColumnRef} (href : IsLetteredColumn ref) {params : String → Cell} {ps : List Piece}
  {ls : List Lexeme}

include href

theorem cuts_column (h : Cuts params ps ls) (hps : headChar ps ≠ some '"') :
    Cuts params (texts (quotedColumn ref).toList ++ ps) (columnLexemes ref ++ ls) := by
  have hquote : ∀ n : String, IsLettered n → '"' ∉ n.toList := fun n hn hmem =>
    absurd (hn.2 _ hmem) (by decide)
  have hname := Cuts.quoted (show ('"', '"') ∈ quotes by decide) (hquote _ href.2) hps h
  have htable := Cuts.quoted (show ('"', '"') ∈ quotes by decide) (hquote _ href.1) (by simp)
    (Cuts.point (by rfl) hname)
  have hpieces : texts (quotedColumn ref).toList ++ ps =
      .text '"' :: (texts ref.table.toList ++ .text '"' :: .text '.' :: .text '"' ::
        (texts ref.name.toList ++ .text '"' :: ps)) := by
    simp [quotedColumn]
  rw [hpieces]
  simpa [Lexeme.quoted, columnLexemes] using htable

theorem cuts_like (p : String) (h : Cuts params ps ls) (hps : headChar ps ≠ some '\'') :
    Cuts params (texts ("LOWER(".toList ++ (quotedColumn ref).toList ++ ") LIKE LOWER(".toList) ++
      .param p :: (texts ") ESCAPE '\\'".toList ++ ps)) (likeLexemes ref (params p) ++ ls) := by
  have hescape : Cuts params (texts ") ESCAPE '\\'".toList ++ ps)
      (.symbol ")" :: .name false "ESCAPE" :: .literal (.text "\\") :: ls) :=
    .bracket (by decide) (.space (.word (w := "ESCAPE") (by decide) (by decide) (by rfl)
      (.space (.quoted (show ('\'', '\'') ∈ quotes by decide) (show '\'' ∉ ['\\'] by decide) hps h))))
  have hlike : Cuts params (texts ") LIKE LOWER(".toList ++ .param p ::
      (texts ") ESCAPE '\\'".toList ++ ps)) ([.symbol ")", .name false "LIKE", .name false "LOWER",
        .symbol "(", .literal (params p)] ++ .symbol ")" :: .name false "ESCAPE" ::
          .literal (.text "\\") :: ls) :=
    .bracket (by decide) (.space (.word (w := "LIKE") (by decide) (by decide) (by rfl)
      (.space (.word (w := "LOWER") (by decide) (by decide) (by rfl)
        (.bracket (by decide) (.param p hescape))))))
  have hlower := Cuts.word (w := "LOWER") (by decide) (by decide) (by rfl)
    (.bracket (show '(' ∈ ['(', ')'] by decide)
      (cuts_column href hlike (show some ')' ≠ some '"' by decide)))
  simp only [texts_append, List.append_assoc]
  simpa [likeLexemes] using hlower

theorem cuts_pattern (lacks : Bool) (p : String) :
    Cuts params (texts ((patternHead lacks ref).toList ++ ") LIKE LOWER(".toList) ++ .param p ::
      texts (patternEnd lacks).toList) (patternLexemes lacks ref (params p)) := by
  cases lacks with
  | false =>
    have hlike := cuts_like href p (Cuts.nil params) (by decide)
    simpa [patternHead, patternEnd, patternLexemes] using hlike
  | true =>
    have hlike := cuts_like href p
      (Cuts.bracket (show ')' ∈ ['(', ')'] by decide) (Cuts.nil params))
      (show some ')' ≠ some '\'' by decide)
    have hmissing : Cuts params (texts " IS NULL OR NOT ".toList ++ (texts ("LOWER(".toList ++
        (quotedColumn ref).toList ++ ") LIKE LOWER(".toList) ++ .param p ::
          (texts ") ESCAPE '\\'".toList ++ [.text ')']))) (.name false "IS" :: .name false "NULL" ::
            .name false "OR" :: .name false "NOT" :: (likeLexemes ref (params p) ++ [.symbol ")"])) :=
      .space (.word (w := "IS") (by decide) (by decide) (by rfl)
        (.space (.word (w := "NULL") (by decide) (by decide) (by rfl)
          (.space (.word (w := "OR") (by decide) (by decide) (by rfl)
            (.space (.word (w := "NOT") (by decide) (by decide) (by rfl) (.space hlike))))))))
    have hcolumn := Cuts.bracket (show '(' ∈ ['(', ')'] by decide)
      (cuts_column href hmissing (show some ' ' ≠ some '"' by decide))
    simpa [patternHead, patternEnd, patternLexemes] using hcolumn

end Lexemes

/-! ## Its meaning -/

/-- The name of a parameter. -/
def IsParam (p : String) : Prop := p.toList ≠ [] ∧ ∀ c ∈ p.toList, isWord c = true

/-- The expression that a pattern forms. -/
def patternExpression (lacks : Bool) (ref : ColumnRef) (c : Cell) : Expression :=
  let column := .column (some ref.table) ref.name false
  let like := .like (.lower column) (.lower (.literal c)) (some (.literal (.text "\\"))) false
  if lacks then .or (.same column (.literal .null) false) (.not like) else like

theorem isListOf_patternLexemes (lacks : Bool) (ref : ColumnRef) (c : Cell) :
    Expression.IsListOf .and (patternLexemes lacks ref c) (patternExpression lacks ref c) := by
  unfold Expression.IsListOf
  cases lacks <;> with_unfolding_all rfl

/-- A pattern tells of the cell of its column, whatever the column is called. -/
theorem eval_patternExpression {env env' : Env} {ref ref' : ColumnRef}
    (h : Expression.columnCell env' (some ref'.table) ref'.name =
      Expression.columnCell env (some ref.table) ref.name) (lacks : Bool) (c : Cell) :
    (patternExpression lacks ref' c).eval env' = (patternExpression lacks ref c).eval env := by
  cases lacks <;> simp [patternExpression, Expression.eval, Expression.sameCells, Cell.isNull, h]

section Fragments

variable {ref : ColumnRef} (href : IsLetteredColumn ref) {p : String} (hp : IsParam p)
  (lacks : Bool) (v : Value)

include href hp

theorem pieces_pattern : pieces (patternText lacks ref p) =
    texts ((patternHead lacks ref).toList ++ ") LIKE LOWER(".toList) ++ .param p ::
      texts (patternEnd lacks).toList := by
  have hname : ∀ c ∈ p.toList, Fragment.isNameChar c = true := fun c hc => by
    rw [Fragment.isNameChar, hp.2 c hc]
    rfl
  have hfree : ∀ c ∈ [':', '\\'], c ∉ (patternHead lacks ref).toList ++ ") LIKE LOWER(".toList := by
    intro c hc
    have hquoted : ∀ n : String, IsLettered n → c ∉ n.toList := fun n hn hmem =>
      absurd (hn.2 c hmem) ((show ∀ c ∈ [':', '\\'], c ∉ letters by decide) c hc)
    simp only [List.mem_cons, List.not_mem_nil, or_false] at hc
    rcases hc with rfl | rfl <;> cases lacks <;>
      simp [patternHead, quotedColumn, hquoted _ href.1, hquoted _ href.2]
  have hguard : ((patternHead lacks ref).toList ++ ") LIKE LOWER(".toList).getLast?.any
      guardsColon = false := by
    rw [List.getLast?_append]
    rfl
  have hend : ':' ∉ (patternEnd lacks).toList ∧
      (patternEnd lacks).toList.head?.any Fragment.isNameChar = false := by
    cases lacks <;> decide
  have hpieces := pieces_param ⟨hfree _ (by decide), hfree _ (by decide)⟩ hguard hp.1 hname
    hend.1 hend.2
  rw [← toList_patternText, String.ofList_toList, String.ofList_toList] at hpieces
  exact hpieces

theorem lexemes_pattern : (pattern lacks ref p v).lexemes =
    .ok (patternLexemes lacks ref (.text (containing v))) := by
  have hbound : (pattern lacks ref p v).bound? p = some (.cell (.text (containing v))) := by
    rw [RawFragment.bound?, pattern, List.lookup_cons, beq_self_eq_true]
    rfl
  have hcuts : Lexeme.Cuts (fun n =>
    (((pattern lacks ref p v).bound? n).map Bound.toCell).getD .null) _ _ := cuts_pattern href lacks p
  have hpieces := hcuts.ofPieces
  rw [← pieces_pattern href hp, hbound] at hpieces
  exact hpieces

theorem isEmpty_pattern : (pattern lacks ref p v).isEmpty = false := by
  rw [RawFragment.isEmpty, pattern, pieces_pattern href hp]
  simp

/-- A pattern may stand among conditions all of which hold. -/
theorem isListOf_pattern : (pattern lacks ref p v).IsListOf .and :=
  ⟨_, _, lexemes_pattern href hp lacks v, isListOf_patternLexemes lacks ref _⟩

theorem expression?_pattern : (pattern lacks ref p v).expression? =
    .ok (patternExpression lacks ref (.text (containing v))) :=
  RawFragment.expression?_eq_ok_iff.mpr ⟨_, lexemes_pattern href hp lacks v,
    (isListOf_patternLexemes lacks ref _).ofLexemes?⟩

theorem cell_pattern (env : Env) : (pattern lacks ref p v).cell env =
    (patternExpression lacks ref (.text (containing v))).eval env := by
  rw [RawFragment.cell, expression?_pattern href hp]

end Fragments

end Condition

/-! ## Parameters -/

namespace Condition

/-- What comes behind the last occurrence of a character. -/
theorem behind_inj {α : Type} {x : α} {as bs ds es : List α} (hd : x ∉ ds) (he : x ∉ es)
    (h : as ++ x :: ds = bs ++ x :: es) : ds = es := by
  rcases List.append_eq_append_iff.mp h with ⟨us, -, hus⟩ | ⟨us, -, hus⟩
  · match us with
    | [] => exact (List.cons.inj hus).2
    | u :: us =>
      cases hus
      exact absurd (List.mem_append_right us List.mem_cons_self) hd
  · match us with
    | [] => exact (List.cons.inj hus).2.symm
    | u :: us =>
      cases hus
      exact absurd (List.mem_append_right us List.mem_cons_self) he

theorem toList_patternParam (field : String) (n : Nat) : (patternParam field n).toList =
    field.toList ++ '_' :: (Nat.toDigits 10 n ++ "_pattern".toList) := by
  simp [patternParam, Nat.repr]

theorem isWord_of_mem_toDigits {n : Nat} {c : Char} (h : c ∈ Nat.toDigits 10 n) :
    isWord c = true ∧ c ≠ '_' := by
  have hdigit := Nat.isDigit_of_mem_toDigits (by decide) (by decide) h
  have hbounds : 48 ≤ c.toNat ∧ c.toNat ≤ 57 := by
    unfold Char.isDigit at hdigit
    rw [Bool.and_eq_true, decide_eq_true_eq, decide_eq_true_eq] at hdigit
    exact ⟨hdigit.1, hdigit.2⟩
  refine ⟨isWord_of_isAlphanum (by omega) (by rw [Char.isAlphanum, hdigit, Bool.or_true]), ?_⟩
  rintro rfl
  exact absurd hbounds.2 (by decide)

/-- The parameter of an attribute is the name of one. -/
theorem isParam_patternParam {field : String} (h : IsLettered field) (n : Nat) :
    IsParam (patternParam field n) := by
  rw [IsParam, toList_patternParam]
  refine ⟨by simp, ?_⟩
  simp only [List.forall_mem_append, List.forall_mem_cons]
  exact ⟨fun c hc => isWord_of_mem_letters c (h.2 c hc), by decide,
    fun c hc => (isWord_of_mem_toDigits hc).1, by decide⟩

/-- A reserved name has no underscore in it. -/
theorem patternParam_not_reserved (field : String) (n : Nat) :
    patternParam field n ∉ Fragment.reserved := by
  have hplain : ∀ name ∈ Fragment.reserved, '_' ∉ name.toList := by decide
  intro h
  refine hplain _ h ?_
  rw [toList_patternParam]
  exact List.mem_append_right _ List.mem_cons_self

/-- Conditions at different places have different parameters. -/
theorem index_of_patternParam {f g : String} {m n : Nat} (h : patternParam f m = patternParam g n) :
    m = n := by
  have hlist := congrArg String.toList h
  rw [toList_patternParam, toList_patternParam, ← List.cons_append, ← List.cons_append,
    ← List.append_assoc, ← List.append_assoc, List.append_left_inj] at hlist
  have hfree : ∀ k, '_' ∉ Nat.toDigits 10 k := fun k hmem => (isWord_of_mem_toDigits hmem).2 rfl
  have hdigits := behind_inj (hfree m) (hfree n) hlist
  have hvalue := congrArg digitsValue hdigits
  rwa [digitsValue_toDigits, digitsValue_toDigits] at hvalue

end Condition

/-! ## As of an instant -/

namespace Substitution

open Condition

/-- The columns of the live table, and where they are found, need no quotes. -/
theorem lettered_column (s : Substitution) {c : Column} (hc : c ∈ s.kind.table.columns) :
    IsLetteredColumn ⟨s.kind.table.name, c.name⟩ ∧
      IsLetteredColumn (s.column ⟨s.kind.table.name, c.name⟩) := by
  have hlettered := Schema.lettered_columns s.kind.table_mem hc
  have hline : ∀ name ∈ Schema.journals.columnNames, IsLettered name :=
    List.forall_mem_map.mpr fun _ => Schema.lettered_columns Schema.journals_mem
  obtain ⟨htable, htaken⟩ := s.kind.lettered_names
  refine ⟨⟨htable, hlettered⟩, ?_⟩
  rw [column_own s.isOwnTable_table]
  split
  · exact ⟨htaken _ (by simp [Kind.takenNames, journalColumn]), hline _ (by decide)⟩
  · split
    · next hcreated =>
      exact ⟨htaken _ (by simp [Kind.takenNames, liveColumn]), hcreated ▸ hlettered⟩
    · split
      · exact ⟨htaken _ (by simp [Kind.takenNames, journalColumn]), hline _ (by decide)⟩
      · exact ⟨htaken _ (by simp [Kind.takenNames]), hlettered⟩

/-- The rules replace a column that stands alone. -/
theorem replaceEach_quotedColumn (s : Substitution) {c : Column} (hc : c ∈ s.kind.table.columns) :
    TextRule.replaceEach s.textRules (quotedColumn ⟨s.kind.table.name, c.name⟩).toList =
      (quotedColumn (s.column ⟨s.kind.table.name, c.name⟩)).toList := by
  -- Neither the rules nor the columns depend on the timestamp.
  have hall : ∀ k ∈ Kind.all, ∀ c ∈ k.table.columns,
      TextRule.replaceEach (⟨k, .absolute noonInUtc, noonInUtc⟩ : Substitution).textRules
          (quotedColumn ⟨k.table.name, c.name⟩).toList =
        (quotedColumn ((⟨k, .absolute noonInUtc, noonInUtc⟩ : Substitution).column
          ⟨k.table.name, c.name⟩)).toList := by
    simp only [textRules, columnRules, quotedColumn, ColumnRef.qualifiedName, String.toList_append]
    decide +kernel
  exact hall s.kind s.kind.mem_all c hc

/-- The rules are for qualified names, which have neither blanks nor brackets. -/
theorem pattern_textRules (s : Substitution) :
    ∀ r ∈ s.textRules, '.' ∈ r.pattern ∧ ∀ x ∈ [' ', '(', ')'], x ∉ r.pattern := by
  have hfree : ∀ n, IsLettered n → ∀ x ∈ [' ', '(', ')'], x ∉ n.toList := fun n hn x hx hmem =>
    absurd (hn.2 x hmem) ((show ∀ x ∈ [' ', '(', ')'], x ∉ letters by decide) x hx)
  have htable := hfree _ s.kind.lettered_names.1
  simp only [List.forall_mem_cons, List.not_mem_nil, IsEmpty.forall_iff, implies_true, and_true]
    at htable
  simp [textRules, columnRules, htable]

theorem isParted_textRules (s : Substitution) {x : Char} (hx : x ∈ [' ', '(', ')']) :
    ∀ r ∈ s.textRules, r.IsParted x := by
  intro r hr
  obtain ⟨hpoint, hnone⟩ := s.pattern_textRules r hr
  obtain ⟨hopens, hcloses⟩ := (show ∀ x ∈ [' ', '(', ')'],
    TextRule.opens (some x) = true ∧ TextRule.closes (some x) = true by decide) x hx
  exact ⟨⟨List.ne_nil_of_mem hpoint, hnone x hx⟩, hopens, hcloses⟩

/-- A column of the live table is found under the names of its counterpart. -/
theorem column_eq_counterpart (s : Substitution) (place : Nat) (c : Column) :
    s.column ⟨s.kind.table.name, c.name⟩ =
      ⟨(s.kind.counterpart place ⟨s.kind.liveSource, c⟩).source.name,
        (s.kind.counterpart place ⟨s.kind.liveSource, c⟩).column.name⟩ := by
  rw [column_own s.isOwnTable_table, Kind.counterpart, if_pos rfl]
  dsimp only
  by_cases hid : c.name = "id"
  · rw [if_pos hid, if_pos hid]
    rfl
  · rw [if_neg hid, if_neg hid]
    by_cases hcreated : c.name = "created_at"
    · rw [if_pos hcreated, if_pos hcreated, hcreated]
      rfl
    · rw [if_neg hcreated, if_neg hcreated]
      split <;> rfl

variable (s : Substitution) {c : Column} (hc : c ∈ s.kind.table.columns) {p : String}
  (hp : IsParam p) (lacks : Bool) (v : Value)

include hc

omit hp in
/-- In brackets of their own columns are replaced wherever they stand. -/
theorem replaceEach_bracketed {us vs : List Char} (hus : '.' ∉ us) (hvs : '.' ∉ vs) :
    TextRule.replaceEach s.textRules
        (us ++ '(' :: ((quotedColumn ⟨s.kind.table.name, c.name⟩).toList ++ ')' :: vs)) =
      us ++ '(' :: ((quotedColumn (s.column ⟨s.kind.table.name, c.name⟩)).toList ++ ')' :: vs) := by
  have hpoint := fun r hr => (s.pattern_textRules r hr).1
  rw [TextRule.replaceEach_parted (s.isParted_textRules (by decide)),
    TextRule.replaceEach_of_not_mem hpoint hus,
    TextRule.replaceEach_parted (s.isParted_textRules (by decide)),
    s.replaceEach_quotedColumn hc, TextRule.replaceEach_of_not_mem hpoint hvs]

include hp

/-- As of an instant a pattern is on the column that takes the place of the one it was on. -/
theorem raw_pattern : s.raw (pattern lacks ⟨s.kind.table.name, c.name⟩ p v) =
    pattern lacks (s.column ⟨s.kind.table.name, c.name⟩) p v := by
  have hbehind : '.' ∉ " LIKE LOWER(".toList ++ ':' :: (p.toList ++ (patternEnd lacks).toList) := by
    have hparam : '.' ∉ p.toList := fun h => absurd (hp.2 _ h) (by decide)
    cases lacks <;> simp [hparam, patternEnd]
  have htext : s.rawText (patternText lacks ⟨s.kind.table.name, c.name⟩ p) =
      patternText lacks (s.column ⟨s.kind.table.name, c.name⟩) p := by
    rw [rawText, ← String.ofList_toList (s := patternText _ (s.column _) _)]
    refine congrArg String.ofList ?_
    cases lacks with
    | false =>
      have hparts : ∀ ref, (patternText false ref p).toList = "LOWER".toList ++ '(' ::
          ((quotedColumn ref).toList ++ ')' ::
            (" LIKE LOWER(".toList ++ ':' :: (p.toList ++ (patternEnd false).toList))) := by
        simp [patternText, likeText, patternEnd]
      rw [hparts, hparts, s.replaceEach_bracketed hc (by decide) hbehind]
    | true =>
      have hparts : ∀ ref, (patternText true ref p).toList = [] ++ '(' ::
          ((quotedColumn ref).toList ++ ' ' :: ("IS NULL OR NOT LOWER".toList ++ '(' ::
            ((quotedColumn ref).toList ++ ')' ::
              (" LIKE LOWER(".toList ++ ':' :: (p.toList ++ (patternEnd true).toList))))) := by
        simp [patternText, likeText, patternEnd]
      rw [hparts, hparts, TextRule.replaceEach_parted (s.isParted_textRules (by decide)),
        TextRule.replaceEach_parted (s.isParted_textRules (by decide)),
        s.replaceEach_quotedColumn hc, s.replaceEach_bracketed hc (by decide) hbehind]
      rfl
  rw [raw, pattern, pattern, htext]

/-- It has the cell that it has on the state. -/
theorem cell_raw_pattern {db : Database} (hdb : Journal.Regular db) {x : Held}
    (hx : x.Holds s db []) :
    (s.raw (pattern lacks ⟨s.kind.table.name, c.name⟩ p v)).cell [x.asOf s] =
      (pattern lacks ⟨s.kind.table.name, c.name⟩ p v).cell [x.onState s] := by
  obtain ⟨hlive, htarget⟩ := s.lettered_column hc
  rw [s.raw_pattern hc hp, cell_pattern htarget hp, cell_pattern hlive hp]
  refine eval_patternExpression ?_ lacks _
  have hapart : s.Apart [] := fun u hu => nomatch hu
  have hcounterpart : Env.find [x.asOf s]
      (some (s.kind.counterpart 0 ⟨s.kind.liveSource, c⟩).source.name) _ = .found _ _ :=
    hapart.find_counterpart hx.joined (c := ⟨s.kind.liveSource, c⟩) rfl hc x.payload x.line x.live []
  have hfound := hapart.find_live hx.joined (c := ⟨s.kind.liveSource, c⟩) rfl hc
    (Journal.stateRow s.kind x.live (Journal.entryOfRows s.kind x.line x.payload)) []
  rw [hdb.cell_stateRow hx.live hx.found hc] at hfound
  rw [s.column_eq_counterpart 0 c]
  exact (Expression.columnCell_of_find hcounterpart).trans
    (Expression.columnCell_of_find hfound).symm

end Substitution

end Chronicle
