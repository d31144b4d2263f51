import Chronicle.Proofs.Fragment.Lexemes
import Chronicle.Proofs.Fragment.Shape
import Chronicle.Proofs.Fragment.Steps

/-!
# Expressions of lexemes that are alike

How lexemes are put together depends on symbols and on the words of the language.  These stay where
words are respelled, so lexemes that are alike form expressions of one shape, with respelled names
and other literals at their leaves.

* `Expression.LeafAlike`: leaves with a respelled name or another literal;
* `Expression.simulates`: each step of the reader, by induction on the steps that are left;
* `Expression.matches_of_alike`: the expressions of lexemes that are alike.
-/

namespace Chronicle

open Fragment

namespace Expression

/-! ## Leaves -/

/-- Leaves of which the second has a respelled name or another literal. -/
inductive LeafAlike (k : Kind) : Expression → Expression → Prop
  | literal (c c' : Cell) : LeafAlike k (.literal c) (.literal c')
  | bare (n n' : String) (q : Bool) : LeafAlike k (.column none n q) (.column none n' q)
  | qualified {r r' n n' : String} {next : Option String} (q : Bool) :
      Lexeme.Becomes k (some n') r r' → Lexeme.Becomes k next n n' →
      LeafAlike k (.column (some r) n q) (.column (some r') n' q)

/-! ## Words of the language -/

theorem isWord_of_isAlpha {c : Char} (h : c.isAlpha = true) : Text.isWord c = true := by
  refine Text.isWord_of_isAlphanum ?_ (by rw [Char.isAlphanum, h]; rfl)
  rcases Bool.or_eq_true_iff.mp (show (c.isUpper || c.isLower) = true from h) with h | h
  · exact Nat.lt_of_le_of_lt (show c.toNat ≤ 90 from (of_decide_eq_true h).2) (by decide)
  · exact Nat.lt_of_le_of_lt (show c.toNat ≤ 122 from
      of_decide_eq_true (Bool.and_eq_true_iff.mp h).2) (by decide)

/-- What belongs to no word has one case only. -/
theorem toUpper_of_not_isWord {c : Char} (h : Text.isWord c = false) : c.toUpper = c := by
  unfold Char.toUpper
  refine dif_neg fun hlower => ?_
  have halpha : c.isAlpha = true := Bool.or_eq_true_iff.mpr
    (.inr (Bool.and_eq_true_iff.mpr ⟨decide_eq_true hlower.1, decide_eq_true hlower.2⟩))
  cases h.symm.trans (isWord_of_isAlpha halpha)

/-- The words that have a meaning of their own, in capital letters. -/
def vocabulary : List String := reserved ++ ["TRUE", "FALSE", "LOWER", "UPPER"]

section Words

variable {k : Kind} {column : Option String} {n n' : String}

/-- A name that is no word is none of the language. -/
theorem toUpper_not_mem_of_isOdd (h : IsOdd n.toList) : n.toUpper ∉ vocabulary := by
  have hall : ∀ w ∈ vocabulary, ∀ c ∈ w.toList, Text.isWord c = true := by decide +kernel
  obtain ⟨c, hc, hword⟩ := h
  intro hmem
  have hlist : n.toUpper.toList = n.toList.map Char.toUpper := String.toList_map
  have hin : c ∈ n.toUpper.toList := by
    rw [hlist, List.mem_map]
    exact ⟨c, hc, toUpper_of_not_isWord hword⟩
  cases hword.symm.trans (hall _ hmem c hin)

/-- What a name becomes is a word of the language only where the name is the same. -/
theorem eq_or_of_becomes (h : Lexeme.Becomes k column n n') :
    n' = n ∨ (n.toUpper ∉ vocabulary ∧ n'.toUpper ∉ vocabulary) := by
  have hall : ∀ k ∈ Kind.all, ∀ p ∈ k.respellings,
      p.1.toUpper ∉ vocabulary ∧ p.2.toUpper ∉ vocabulary := by decide +kernel
  cases h with
  | same => exact .inl rfl
  | odd hodd hodd' => exact .inr ⟨toUpper_not_mem_of_isOdd hodd, toUpper_not_mem_of_isOdd hodd'⟩
  | respelled hw _ => exact .inr (hall k k.mem_all _ hw)

theorem beq_of_becomes (h : Lexeme.Becomes k column n n') {w : String} (hw : w ∈ vocabulary) :
    (n'.toUpper == w) = (n.toUpper == w) := by
  rcases eq_or_of_becomes h with rfl | ⟨hn, hn'⟩
  · rfl
  · have hne : ∀ m : String, m ∉ vocabulary → (m == w) = false := fun m hm =>
      beq_eq_false_iff_ne.mpr fun e => hm (e ▸ hw)
    rw [hne _ hn, hne _ hn']

theorem isReserved_of_becomes (h : Lexeme.Becomes k column n n') :
    isReserved n' = isReserved n := by
  rcases eq_or_of_becomes h with rfl | ⟨hn, hn'⟩
  · rfl
  · have hnone : ∀ m : String, m.toUpper ∉ vocabulary → isReserved m = false := fun m hm => by
      rw [isReserved, Bool.eq_false_iff, Ne, List.contains_iff_mem]
      exact fun hmem => hm (List.mem_append_left _ hmem)
    rw [hnone n hn, hnone n' hn']

theorem truthWord?_of_becomes (h : Lexeme.Becomes k column n n') :
    truthWord? n' = truthWord? n := by
  unfold truthWord?
  rw [beq_of_becomes h (w := "TRUE") (by decide), beq_of_becomes h (w := "FALSE") (by decide)]

/-- Lexemes that are the same words of the language, if they are any. -/
def SameWords (l l' : Lexeme) : Prop := ∀ w ∈ vocabulary, l'.isWord w = l.isWord w

theorem sameWords_name (q : Bool) (h : Lexeme.Becomes k column n n') :
    SameWords (.name q n) (.name q n') := by
  intro w hw
  cases q with
  | true => rfl
  | false => exact beq_of_becomes h hw

theorem exists_of_alike_cons {l : Lexeme} {ls ms : List Lexeme}
    (h : Lexeme.Alike k (l :: ls) ms) :
    ∃ l' ls', ms = l' :: ls' ∧ SameWords l l' ∧ Lexeme.Alike k ls ls' := by
  cases h with
  | settled t h => exact ⟨_, _, rfl, fun _ _ => rfl, h⟩
  | literal c c' h => exact ⟨_, _, rfl, fun _ _ => rfl, h⟩
  | name q hn h => exact ⟨_, _, rfl, sameWords_name q hn, h⟩
  | symbol s h => exact ⟨_, _, rfl, fun _ _ => rfl, h⟩

end Words

/-! ## Steps of the reader -/

section Options

variable {α α' β β' : Type} {R : α → α' → Prop} {S : β → β' → Prop} {x : Option α} {x' : Option α'}

theorem rel_bind (h : Option.Rel R x x') {f : α → Option β} {f' : α' → Option β'}
    (hf : ∀ a a', R a a' → Option.Rel S (f a) (f' a')) :
    Option.Rel S (x >>= f) (x' >>= f') := by
  cases h with
  | none => exact .none
  | some h => exact hf _ _ h

theorem rel_elim (h : Option.Rel R x x') {Q : β → β' → Prop} {g : β} {g' : β'} (hg : Q g g')
    {f : α → β} {f' : α' → β'} (hf : ∀ a a', R a a' → Q (f a) (f' a')) :
    Q (x.elim g f) (x'.elim g' f') := by
  cases h with
  | none => exact hg
  | some h => exact hf _ _ h

end Options

theorem nameBehind_eq (ls : List Lexeme) :
    Lexeme.nameBehind ls = (columnBehind ls).map Prod.fst := by
  unfold Lexeme.nameBehind
  split
  · rfl
  · next hne => rw [columnBehind_eq_none fun q s rest => hne q s rest, Option.map_none]

section Steps

variable {k : Kind}

/-- What readers return for lexemes that are alike. -/
def ParsedAlike (k : Kind) : Parsed → Parsed → Prop :=
  Option.Rel fun p p' => Matches (LeafAlike k) p.1 p'.1 ∧ Lexeme.Alike k p.2 p'.2

theorem ParsedAlike.some {a a' : Expression} {ls ls' : List Lexeme}
    (ha : Matches (LeafAlike k) a a') (h : Lexeme.Alike k ls ls') :
    ParsedAlike k (some (a, ls)) (some (a', ls')) := Option.Rel.some ⟨ha, h⟩

theorem dropSymbol_alike (s : String) {ls ls' : List Lexeme} (h : Lexeme.Alike k ls ls') :
    Option.Rel (Lexeme.Alike k) (dropSymbol s ls) (dropSymbol s ls') := by
  cases h with
  | nil => exact .none
  | settled => exact .none
  | literal => exact .none
  | name => exact .none
  | symbol t h =>
    unfold dropSymbol
    dsimp only
    split
    · exact .some h
    · exact .none

theorem columnBehind_alike {ls ls' : List Lexeme} (h : Lexeme.Alike k ls ls') :
    Option.Rel (fun p p' => (∃ next, Lexeme.Becomes k next p.1 p'.1) ∧ Lexeme.Alike k p.2 p'.2)
      (columnBehind ls) (columnBehind ls') := by
  have hdrop := dropSymbol_alike "." h
  unfold columnBehind
  generalize dropSymbol "." ls = x at hdrop ⊢
  generalize dropSymbol "." ls' = x' at hdrop ⊢
  cases hdrop with
  | none => exact .none
  | some h =>
    cases h with
    | nil => exact .none
    | settled => exact .none
    | literal => exact .none
    | symbol => exact .none
    | name q hn h => exact .some ⟨⟨_, hn⟩, h⟩

end Steps

/-! ## Readers -/

section Readers

variable {k : Kind} {fuel : Nat} {ls ls' : List Lexeme} {a a' : Expression}

/-- What readers of several expressions return for lexemes that are alike. -/
def ItemsAlike (k : Kind) :
    Option (List Expression × List Lexeme) → Option (List Expression × List Lexeme) → Prop :=
  Option.Rel fun p p' => List.Forall₂ (Matches (LeafAlike k)) p.1 p'.1 ∧ Lexeme.Alike k p.2 p'.2

/-- With some steps left, every reader returns what is alike for lexemes that are alike. -/
structure Simulates (k : Kind) (fuel : Nat) : Prop where
  or : ∀ {ls ls'}, Lexeme.Alike k ls ls' → ParsedAlike k (parseOr fuel ls) (parseOr fuel ls')
  orTail : ∀ {a a' ls ls'}, Matches (LeafAlike k) a a' → Lexeme.Alike k ls ls' →
    ParsedAlike k (parseOrTail fuel a ls) (parseOrTail fuel a' ls')
  and : ∀ {ls ls'}, Lexeme.Alike k ls ls' → ParsedAlike k (parseAnd fuel ls) (parseAnd fuel ls')
  andTail : ∀ {a a' ls ls'}, Matches (LeafAlike k) a a' → Lexeme.Alike k ls ls' →
    ParsedAlike k (parseAndTail fuel a ls) (parseAndTail fuel a' ls')
  not : ∀ {ls ls'}, Lexeme.Alike k ls ls' → ParsedAlike k (parseNot fuel ls) (parseNot fuel ls')
  equalityTail : ∀ {a a' ls ls'}, Matches (LeafAlike k) a a' → Lexeme.Alike k ls ls' →
    ParsedAlike k (parseEqualityTail fuel a ls) (parseEqualityTail fuel a' ls')
  is : ∀ {a a' ls ls'} (negated : Bool), Matches (LeafAlike k) a a' → Lexeme.Alike k ls ls' →
    ParsedAlike k (parseIs fuel a negated ls) (parseIs fuel a' negated ls')
  relative : ∀ {a a' ls ls'} {word word' : Lexeme} (negated : Bool), Matches (LeafAlike k) a a' →
    SameWords word word' → Lexeme.Alike k ls ls' →
    ParsedAlike k (parseRelative fuel a negated word ls) (parseRelative fuel a' negated word' ls')
  items : ∀ {ls ls'}, Lexeme.Alike k ls ls' →
    ItemsAlike k (parseItems fuel ls) (parseItems fuel ls')
  order : ∀ {ls ls'}, Lexeme.Alike k ls ls' →
    ParsedAlike k (parseOrder fuel ls) (parseOrder fuel ls')
  orderTail : ∀ {a a' ls ls'}, Matches (LeafAlike k) a a' → Lexeme.Alike k ls ls' →
    ParsedAlike k (parseOrderTail fuel a ls) (parseOrderTail fuel a' ls')
  operand : ∀ {ls ls'}, Lexeme.Alike k ls ls' →
    ParsedAlike k (parseOperand fuel ls) (parseOperand fuel ls')

namespace Simulates

theorem or_succ (ih : Simulates k fuel) (h : Lexeme.Alike k ls ls') :
    ParsedAlike k (parseOr (fuel + 1) ls) (parseOr (fuel + 1) ls') := by
  simp only [parseOr]
  exact rel_bind (ih.and h) fun p p' hp => ih.orTail hp.1 hp.2

theorem orTail_succ (ih : Simulates k fuel) (ha : Matches (LeafAlike k) a a')
    (h : Lexeme.Alike k ls ls') :
    ParsedAlike k (parseOrTail (fuel + 1) a ls) (parseOrTail (fuel + 1) a' ls') := by
  cases ls with
  | nil =>
    cases h
    simp only [parseOrTail]
    exact .some ha .nil
  | cons l ls =>
    obtain ⟨l', ls', rfl, hl, hls⟩ := exists_of_alike_cons h
    simp only [parseOrTail, hl "OR" (by decide)]
    split
    · exact rel_bind (ih.and hls) fun p p' hp => ih.orTail (.or ha hp.1) hp.2
    · exact .some ha h

theorem and_succ (ih : Simulates k fuel) (h : Lexeme.Alike k ls ls') :
    ParsedAlike k (parseAnd (fuel + 1) ls) (parseAnd (fuel + 1) ls') := by
  simp only [parseAnd]
  exact rel_bind (ih.not h) fun p p' hp => ih.andTail hp.1 hp.2

theorem andTail_succ (ih : Simulates k fuel) (ha : Matches (LeafAlike k) a a')
    (h : Lexeme.Alike k ls ls') :
    ParsedAlike k (parseAndTail (fuel + 1) a ls) (parseAndTail (fuel + 1) a' ls') := by
  cases ls with
  | nil =>
    cases h
    simp only [parseAndTail]
    exact .some ha .nil
  | cons l ls =>
    obtain ⟨l', ls', rfl, hl, hls⟩ := exists_of_alike_cons h
    simp only [parseAndTail, hl "AND" (by decide)]
    split
    · exact rel_bind (ih.not hls) fun p p' hp => ih.andTail (.and ha hp.1) hp.2
    · exact .some ha h

theorem not_succ (ih : Simulates k fuel) (h : Lexeme.Alike k ls ls') :
    ParsedAlike k (parseNot (fuel + 1) ls) (parseNot (fuel + 1) ls') := by
  cases ls with
  | nil =>
    cases h
    simp only [parseNot]
    exact .none
  | cons l ls =>
    obtain ⟨l', ls', rfl, hl, hls⟩ := exists_of_alike_cons h
    simp only [parseNot, hl "NOT" (by decide)]
    split
    · exact rel_bind (ih.not hls) fun p p' hp => ParsedAlike.some (.not hp.1) hp.2
    · exact rel_bind (ih.order h) fun p p' hp => ih.equalityTail hp.1 hp.2

/-- Null, on the right of an equality. -/
theorem matches_null : Matches (LeafAlike k) (.literal .null) (.literal .null) :=
  .literal (.literal _ _)

theorem equalityTail_succ (ih : Simulates k fuel) (ha : Matches (LeafAlike k) a a')
    (h : Lexeme.Alike k ls ls') :
    ParsedAlike k (parseEqualityTail (fuel + 1) a ls) (parseEqualityTail (fuel + 1) a' ls') := by
  have heq := h
  cases h with
  | nil => simp only [parseEqualityTail]; exact .some ha .nil
  | settled t h => simp only [parseEqualityTail]; exact .some ha heq
  | literal c c' h => simp only [parseEqualityTail]; exact .some ha heq
  | symbol s h =>
    simp only [parseEqualityTail]
    cases equalitySymbols.lookup s with
    | none => exact .some ha heq
    | some op =>
      exact rel_bind (ih.order h) fun p p' hp => ih.equalityTail (.compare op ha hp.1) hp.2
  | @name q n n' ls ls' hn h =>
    have hword := sameWords_name q hn
    simp only [parseEqualityTail, hword _ (show "ISNULL" ∈ vocabulary by decide),
      hword _ (show "NOTNULL" ∈ vocabulary by decide), hword _ (show "IS" ∈ vocabulary by decide),
      hword _ (show "NOT" ∈ vocabulary by decide), hword _ (show "LIKE" ∈ vocabulary by decide),
      hword _ (show "IN" ∈ vocabulary by decide), hword _ (show "BETWEEN" ∈ vocabulary by decide)]
    split
    · exact ih.equalityTail (.same false ha matches_null) h
    split
    · exact ih.equalityTail (.same true ha matches_null) h
    split
    · cases ls with
      | nil => cases h; exact .none
      | cons m more =>
        obtain ⟨m', more', rfl, hm, hmore⟩ := exists_of_alike_cons h
        simp only [hm _ (show "NOT" ∈ vocabulary by decide)]
        split
        · exact ih.is true ha hmore
        · exact ih.is false ha h
    split
    · cases ls with
      | nil => cases h; exact .none
      | cons m more =>
        obtain ⟨m', more', rfl, hm, hmore⟩ := exists_of_alike_cons h
        simp only [hm _ (show "NULL" ∈ vocabulary by decide)]
        split
        · exact ih.equalityTail (.same true ha matches_null) hmore
        · exact ih.relative true ha hm hmore
    split
    · exact ih.relative false ha hword h
    · exact .some ha heq

theorem is_succ (ih : Simulates k fuel) (negated : Bool) (ha : Matches (LeafAlike k) a a')
    (h : Lexeme.Alike k ls ls') :
    ParsedAlike k (parseIs (fuel + 1) a negated ls) (parseIs (fuel + 1) a' negated ls') := by
  have heq := h
  have hgen : ParsedAlike k
      (parseOrder fuel ls >>= fun p => parseEqualityTail fuel (.same a p.1 negated) p.2)
      (parseOrder fuel ls' >>= fun p => parseEqualityTail fuel (.same a' p.1 negated) p.2) :=
    rel_bind (ih.order h) fun p p' hp => ih.equalityTail (.same negated ha hp.1) hp.2
  cases h with
  | nil => simp only [parseIs]; exact hgen
  | settled t h => simp only [parseIs]; exact hgen
  | literal c c' h => simp only [parseIs]; exact hgen
  | symbol s h => simp only [parseIs]; exact hgen
  | name q hn h =>
    cases q with
    | true => simp only [parseIs]; exact hgen
    | false =>
      simp only [parseIs, truthWord?_of_becomes hn]
      split
      · exact ih.equalityTail (.isTruth _ negated ha) h
      · exact hgen

theorem amongAfter_alike (ih : Simulates k fuel) (negated : Bool) (ha : Matches (LeafAlike k) a a')
    (h : Lexeme.Alike k ls ls') :
    ParsedAlike k (amongAfter fuel a negated ls) (amongAfter fuel a' negated ls') :=
  rel_bind (dropSymbol_alike "(" h) fun _ _ hrest =>
    rel_elim (dropSymbol_alike ")" hrest)
      (rel_bind (ih.items hrest) fun _ _ hp => ih.equalityTail (.among negated ha hp.1) hp.2)
      fun _ _ hmore => ih.equalityTail (.among negated ha .nil) hmore

theorem relative_succ (ih : Simulates k fuel) {word word' : Lexeme} (negated : Bool)
    (ha : Matches (LeafAlike k) a a') (hword : SameWords word word') (h : Lexeme.Alike k ls ls') :
    ParsedAlike k (parseRelative (fuel + 1) a negated word ls)
      (parseRelative (fuel + 1) a' negated word' ls') := by
  simp only [parseRelative, hword _ (show "LIKE" ∈ vocabulary by decide),
    hword _ (show "BETWEEN" ∈ vocabulary by decide), hword _ (show "IN" ∈ vocabulary by decide)]
  split
  · refine rel_bind (ih.order h) ?_
    rintro ⟨p, ls⟩ ⟨p', ls'⟩ ⟨hp, hls⟩
    dsimp only at hp hls ⊢
    cases ls with
    | nil => cases hls; exact ParsedAlike.some (.like negated ha hp) .nil
    | cons l more =>
      obtain ⟨l', more', rfl, hl, hmore⟩ := exists_of_alike_cons hls
      simp only [hl _ (show "ESCAPE" ∈ vocabulary by decide)]
      split
      · exact rel_bind (ih.order hmore) fun q q' hq =>
          ih.equalityTail (.likeEscape negated ha hp hq.1) hq.2
      · exact ih.equalityTail (.like negated ha hp) hls
  split
  · refine rel_bind (ih.order h) ?_
    rintro ⟨p, ls⟩ ⟨p', ls'⟩ ⟨hp, hls⟩
    dsimp only at hp hls ⊢
    cases ls with
    | nil => cases hls; exact .none
    | cons l more =>
      obtain ⟨l', more', rfl, hl, hmore⟩ := exists_of_alike_cons hls
      simp only [hl _ (show "AND" ∈ vocabulary by decide)]
      split
      · exact rel_bind (ih.order hmore) fun q q' hq =>
          ih.equalityTail (.between negated ha hp hq.1) hq.2
      · exact .none
  split
  · have hamong := amongAfter_alike ih negated ha h
    rw [← match_in, ← match_in] at hamong
    exact hamong
  · exact .none

theorem items_succ (ih : Simulates k fuel) (h : Lexeme.Alike k ls ls') :
    ItemsAlike k (parseItems (fuel + 1) ls) (parseItems (fuel + 1) ls') := by
  rw [parseItems_succ, parseItems_succ]
  exact rel_bind (ih.or h) fun _ _ hp =>
    rel_elim (dropSymbol_alike "," hp.2)
      (rel_bind (dropSymbol_alike ")" hp.2) fun _ _ hrest => .some ⟨.cons hp.1 .nil, hrest⟩)
      fun _ _ hrest => rel_bind (ih.items hrest) fun _ _ hq => .some ⟨.cons hp.1 hq.1, hq.2⟩

theorem order_succ (ih : Simulates k fuel) (h : Lexeme.Alike k ls ls') :
    ParsedAlike k (parseOrder (fuel + 1) ls) (parseOrder (fuel + 1) ls') := by
  simp only [parseOrder]
  exact rel_bind (ih.operand h) fun p p' hp => ih.orderTail hp.1 hp.2

theorem orderTail_succ (ih : Simulates k fuel) (ha : Matches (LeafAlike k) a a')
    (h : Lexeme.Alike k ls ls') :
    ParsedAlike k (parseOrderTail (fuel + 1) a ls) (parseOrderTail (fuel + 1) a' ls') := by
  have heq := h
  cases h with
  | nil => simp only [parseOrderTail]; exact .some ha heq
  | settled t h => simp only [parseOrderTail]; exact .some ha heq
  | literal c c' h => simp only [parseOrderTail]; exact .some ha heq
  | name q hn h => simp only [parseOrderTail]; exact .some ha heq
  | symbol s h =>
    simp only [parseOrderTail]
    cases orderSymbols.lookup s with
    | none => exact .some ha heq
    | some op =>
      exact rel_bind (ih.operand h) fun p p' hp => ih.orderTail (.compare op ha hp.1) hp.2

theorem ofName_alike (ih : Simulates k fuel) {next : Option String} {n n' : String}
    (hn : Lexeme.Becomes k next n n') (h : Lexeme.Alike k ls ls')
    (heq : Lexeme.Alike k (.name false n :: ls) (.name false n' :: ls')) :
    ParsedAlike k (ofName fuel n ls) (ofName fuel n' ls') := by
  simp only [ofName, beq_of_becomes hn (show "NULL" ∈ vocabulary by decide),
    beq_of_becomes hn (show "NOT" ∈ vocabulary by decide), isReserved_of_becomes hn,
    truthWord?_of_becomes hn]
  split
  · exact .some matches_null h
  split
  · exact ih.not heq
  split
  · exact .none
  split
  · exact .some (.literal (.literal _ _)) h
  · exact .some (.column (.bare _ _ _)) h

theorem ofFunction_alike {next : Option String} {n n' : String}
    (hn : Lexeme.Becomes k next n n') (ha : Matches (LeafAlike k) a a')
    (h : Lexeme.Alike k ls ls') : ParsedAlike k (ofFunction n a ls) (ofFunction n' a' ls') := by
  simp only [ofFunction, beq_of_becomes hn (show "LOWER" ∈ vocabulary by decide),
    beq_of_becomes hn (show "UPPER" ∈ vocabulary by decide)]
  split
  · exact .some (.lower ha) h
  split
  · exact .some (.upper ha) h
  · exact .none

theorem operand_succ (ih : Simulates k fuel) (h : Lexeme.Alike k ls ls') :
    ParsedAlike k (parseOperand (fuel + 1) ls) (parseOperand (fuel + 1) ls') := by
  have heq := h
  cases h with
  | nil => simp only [parseOperand]; exact .none
  | settled t h => simp only [parseOperand]; exact .some (.settled t) h
  | literal c c' h => simp only [parseOperand]; exact .some (.literal (.literal c c')) h
  | symbol s h =>
    rw [parseOperand_symbol, parseOperand_symbol]
    split
    · exact rel_bind (ih.or h) fun _ _ hp =>
        rel_bind (dropSymbol_alike ")" hp.2) fun _ _ hrest => ParsedAlike.some hp.1 hrest
    split
    · exact rel_bind (ih.operand h) fun _ _ hp => ParsedAlike.some (.minus hp.1) hp.2
    split
    · exact ih.operand h
    · exact .none
  | @name q n n' ls ls' hn h =>
    have hcolumn := columnBehind_alike h
    have hbecomes := hn
    rw [nameBehind_eq] at hbecomes
    -- What the name becomes depends on the name of the column behind it.
    cases q with
    | true =>
      rw [parseOperand_quoted, parseOperand_quoted]
      generalize columnBehind ls = x at hcolumn
      generalize columnBehind ls' = x' at hcolumn hbecomes
      cases hcolumn with
      | none => exact ParsedAlike.some (.column (.bare n n' true)) h
      | some hp =>
        obtain ⟨⟨_, hnext⟩, hrest⟩ := hp
        exact ParsedAlike.some (.column (.qualified false hbecomes hnext)) hrest
    | false =>
      rw [parseOperand_bare, parseOperand_bare, isReserved_of_becomes hn]
      generalize columnBehind ls = x at hcolumn
      generalize columnBehind ls' = x' at hcolumn hbecomes
      cases hcolumn with
      | none =>
        exact rel_elim (dropSymbol_alike "(" h) (ih.ofName_alike hn h heq) fun _ _ hrest =>
          rel_bind (ih.or hrest) fun _ _ hp =>
            rel_bind (dropSymbol_alike ")" hp.2) fun _ _ hmore => ofFunction_alike hn hp.1 hmore
      | some hp =>
        obtain ⟨⟨_, hnext⟩, hrest⟩ := hp
        dsimp only [Option.elim_some]
        split
        · exact .none
        · exact ParsedAlike.some (.column (.qualified false hbecomes hnext)) hrest

end Simulates

end Readers

end Expression

end Chronicle
