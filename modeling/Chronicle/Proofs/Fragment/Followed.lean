import Chronicle.Proofs.Fragment.Steps

/-!
# Expressions with something behind them

Where the lexemes of an expression are followed by `AND` or by `OR`, the reader finds the same
expression and stops before that word; only a list of the same conjunction goes on.

* `Expression.Continues`: a reader goes on the same way where something follows;
* `Expression.Extends`: all readers do, with some steps left;
* `Expression.extends_of_le`: each step of the reader, by induction on the steps that are left.
-/

namespace Chronicle

namespace Expression

variable {α β : Type}

/-! ## What follows -/

/-- If anything is there, it begins with one of some words. -/
def OpensWith (words : List String) (rest : List Lexeme) : Prop :=
  ∀ l more, rest = l :: more → ∃ w ∈ words, l.isWord w = true

/-- Lexemes that end in a point, behind which a name is expected. -/
def Dangles (ls : List Lexeme) : Prop := ls.getLast? = some (.symbol ".")

theorem isWord_iff {l : Lexeme} {w : String} :
    l.isWord w = true ↔ ∃ s, l = .name false s ∧ s.toUpper = w := by
  unfold Lexeme.isWord
  split
  · next s =>
    rw [beq_iff_eq]
    exact ⟨fun h => ⟨s, rfl, h⟩, fun ⟨_, h, hw⟩ => by cases h; exact hw⟩
  · next h => exact ⟨nofun, fun ⟨s, hs, _⟩ => (h s hs).elim⟩

theorem ne_symbol_of_isWord {l : Lexeme} {w : String} (h : l.isWord w = true) (s : String) :
    l ≠ .symbol s := by
  obtain ⟨n, rfl, -⟩ := isWord_iff.mp h
  exact nofun

namespace OpensWith

variable {words : List String} {rest : List Lexeme} (h : OpensWith words rest)

theorem nil (words : List String) : OpensWith words [] := fun _ _ h => nomatch h

include h

theorem imp {more : List String} (hsub : ∀ w ∈ words, w ∈ more) : OpensWith more rest := by
  intro l ls hls
  obtain ⟨w, hw, hl⟩ := h l ls hls
  exact ⟨w, hsub w hw, hl⟩

theorem isWord_eq_false {l : Lexeme} {ls : List Lexeme} (hls : rest = l :: ls) {w : String}
    (hw : w ∉ words) : l.isWord w = false := by
  obtain ⟨v, hv, hl⟩ := h l ls hls
  obtain ⟨s, rfl, hs⟩ := isWord_iff.mp hl
  refine Bool.eq_false_iff.mpr fun hword => ?_
  obtain ⟨t, ht, hupper⟩ := isWord_iff.mp hword
  cases ht
  exact hw ((hs.symm.trans hupper) ▸ hv)

theorem ne_symbol (s : String) (ls : List Lexeme) : rest ≠ .symbol s :: ls := by
  intro e
  obtain ⟨w, -, hl⟩ := h _ _ e
  exact ne_symbol_of_isWord hl s rfl

theorem exists_name {l : Lexeme} {ls : List Lexeme} (hls : rest = l :: ls) :
    ∃ s, l = .name false s := by
  obtain ⟨w, -, hl⟩ := h l ls hls
  obtain ⟨s, rfl, -⟩ := isWord_iff.mp hl
  exact ⟨s, rfl⟩

end OpensWith

theorem Dangles.of_cons {l : Lexeme} {ls : List Lexeme} (hl : l ≠ .symbol ".")
    (h : Dangles (l :: ls)) : Dangles ls := by
  cases ls with
  | nil => exact absurd (Option.some.inj h) hl
  | cons m ls => rwa [Dangles, List.getLast?_cons_cons] at h

theorem Dangles.cons (l : Lexeme) {ls : List Lexeme} (h : Dangles ls) : Dangles (l :: ls) := by
  cases ls with
  | nil => cases h
  | cons m ls => rwa [Dangles, List.getLast?_cons_cons]

theorem not_dangles_nil : ¬Dangles [] := fun h => nomatch h

/-! ### Symbols and columns -/

theorem dropSymbol_eq_some {s : String} {ls rest : List Lexeme} :
    dropSymbol s ls = some rest ↔ ls = .symbol s :: rest := by
  constructor
  · intro h
    unfold dropSymbol at h
    split at h
    · split at h
      · next ht =>
        rw [ht, Option.some.inj h]
      · cases h
    · cases h
  · rintro rfl
    exact if_pos rfl

theorem columnBehind_eq_some {ls rest : List Lexeme} {n : String}
    (h : columnBehind ls = some (n, rest)) : ∃ q, ls = .symbol "." :: .name q n :: rest := by
  unfold columnBehind at h
  split at h
  · next q s more hdrop =>
    cases h
    exact ⟨q, dropSymbol_eq_some.mp hdrop⟩
  · cases h

section Append

variable {rest : List Lexeme} (hrest : OpensWith ["AND", "OR"] rest) {ls : List Lexeme}

include hrest

theorem dropSymbol_append_eq_none {s : String} (h : dropSymbol s ls = none) :
    dropSymbol s (ls ++ rest) = none := by
  refine dropSymbol_eq_none fun more e => ?_
  cases ls with
  | nil => exact hrest.ne_symbol s more e
  | cons l ls =>
    rw [List.cons_append, List.cons.injEq] at e
    rw [e.1, dropSymbol, if_pos rfl] at h
    cases h

/-- Behind a relation a point at the end would take the next word for the name of a column. -/
theorem columnBehind_append_eq_none (hls : ¬Dangles ls) (h : columnBehind ls = none) :
    columnBehind (ls ++ rest) = none := by
  refine columnBehind_eq_none fun q s more e => ?_
  match ls, e with
  | [], e => exact hrest.ne_symbol _ _ e
  | [l], e =>
    rw [List.singleton_append, List.cons.injEq] at e
    exact hls (congrArg some e.1)
  | l :: m :: ls, e =>
    rw [List.cons_append, List.cons_append, List.cons.injEq, List.cons.injEq] at e
    obtain ⟨rfl, rfl, -⟩ := e
    cases h

end Append

/-! ## Going on -/

/-- A reader that has read something goes on the same way where more follows, as long as it stops
where it may. -/
def Continues (rest : List Lexeme) (Stops : List Lexeme → Prop) (ls : List Lexeme)
    (x x' : Option (α × List Lexeme)) : Prop :=
  ∀ a r, x = some (a, r) →
    (Dangles ls → Dangles r) ∧ (¬Dangles r → Stops r → x' = some (a, r ++ rest))

namespace Continues

variable {rest ls : List Lexeme} {P Q : List Lexeme → Prop} {x x' : Option (α × List Lexeme)}

theorem none : Continues rest P ls (.none : Option (α × List Lexeme)) x' := fun _ _ h => nomatch h

theorem some (a : α) : Continues rest P ls (.some (a, ls)) (.some (a, ls ++ rest)) := by
  rintro _ _ ⟨⟩
  exact ⟨id, fun _ _ => rfl⟩

theorem of_dangles {ls' : List Lexeme} (hls : Dangles ls' → Dangles ls)
    (h : Continues rest P ls x x') : Continues rest P ls' x x' :=
  fun a r hx => ⟨fun hd => (h a r hx).1 (hls hd), (h a r hx).2⟩

theorem cons {l : Lexeme} (hl : l ≠ .symbol ".") (h : Continues rest P ls x x') :
    Continues rest P (l :: ls) x x' := h.of_dangles fun hd => hd.of_cons hl

theorem bind {f f' : α × List Lexeme → Option (β × List Lexeme)} (h : Continues rest P ls x x')
    (hf : ∀ a mid, x = .some (a, mid) → Continues rest Q mid (f (a, mid)) (f' (a, mid ++ rest)))
    (hstop : ∀ a mid b r, f (a, mid) = .some (b, r) → Q r → P mid) :
    Continues rest Q ls (x >>= f) (x' >>= f') := by
  intro b r hbind
  obtain ⟨⟨a, mid⟩, hx, hfx⟩ := Option.bind_eq_some_iff.mp hbind
  obtain ⟨hmid, hgoes⟩ := h a mid hx
  obtain ⟨hr, hgoes'⟩ := hf a mid hx b r hfx
  refine ⟨fun hd => hr (hmid hd), fun hd hq => ?_⟩
  rw [hgoes (fun hd' => hd (hr hd')) (hstop a mid b r hfx hq)]
  exact hgoes' hd hq

end Continues

/-! ## Readers -/

/-- A list of alternatives ends where nothing follows. -/
def StopsOr (rest r : List Lexeme) : Prop := r ≠ [] ∨ rest = []

/-- A list of conditions that all hold ends where no further one follows. -/
def StopsAnd (rest r : List Lexeme) : Prop := r ≠ [] ∨ OpensWith ["OR"] rest

/-- What is read of an operand, an order or an equality ends before a conjunction. -/
def StopsHere (_ : List Lexeme) : Prop := True

/-- A reader that may end anywhere is followed by any other one. -/
theorem Continues.followed {rest ls : List Lexeme} {P : List Lexeme → Prop}
    {x x' : Option (α × List Lexeme)} {f f' : α × List Lexeme → Option (β × List Lexeme)}
    (h : Continues rest StopsHere ls x x')
    (hf : ∀ a mid, x = .some (a, mid) → Continues rest P mid (f (a, mid)) (f' (a, mid ++ rest))) :
    Continues rest P ls (x >>= f) (x' >>= f') :=
  h.bind hf fun _ _ _ _ _ _ => trivial

/-- Every reader goes on the same way where more follows. -/
structure Extends (rest : List Lexeme) (fuel fuel' : Nat) : Prop where
  or : ∀ ls, Continues rest (StopsOr rest) ls (parseOr fuel ls) (parseOr fuel' (ls ++ rest))
  orTail : ∀ a ls, Continues rest (StopsOr rest) ls (parseOrTail fuel a ls)
    (parseOrTail fuel' a (ls ++ rest))
  and : ∀ ls, Continues rest (StopsAnd rest) ls (parseAnd fuel ls) (parseAnd fuel' (ls ++ rest))
  andTail : ∀ a ls, Continues rest (StopsAnd rest) ls (parseAndTail fuel a ls)
    (parseAndTail fuel' a (ls ++ rest))
  not : ∀ ls, Continues rest StopsHere ls (parseNot fuel ls) (parseNot fuel' (ls ++ rest))
  equalityTail : ∀ a ls, Continues rest StopsHere ls (parseEqualityTail fuel a ls)
    (parseEqualityTail fuel' a (ls ++ rest))
  is : ∀ a negated ls, Continues rest StopsHere ls (parseIs fuel a negated ls)
    (parseIs fuel' a negated (ls ++ rest))
  relative : ∀ a negated word ls, Continues rest StopsHere ls (parseRelative fuel a negated word ls)
    (parseRelative fuel' a negated word (ls ++ rest))
  items : ∀ ls, Continues rest StopsHere ls (parseItems fuel ls) (parseItems fuel' (ls ++ rest))
  order : ∀ ls, Continues rest StopsHere ls (parseOrder fuel ls) (parseOrder fuel' (ls ++ rest))
  orderTail : ∀ a ls, Continues rest StopsHere ls (parseOrderTail fuel a ls)
    (parseOrderTail fuel' a (ls ++ rest))
  operand : ∀ ls, Continues rest StopsHere ls (parseOperand fuel ls)
    (parseOperand fuel' (ls ++ rest))

theorem extends_zero (rest : List Lexeme) (fuel' : Nat) : Extends rest 0 fuel' := by
  constructor <;> intros <;>
    simp only [parseOr, parseOrTail, parseAnd, parseAndTail, parseNot, parseEqualityTail, parseIs,
      parseRelative, parseItems, parseOrder, parseOrderTail, parseOperand] <;>
    exact Continues.none

/-! ### Where readers end -/

theorem eq_nil_of_orTail {fuel : Nat} {a e : Expression} {r : List Lexeme}
    (h : parseOrTail fuel a [] = some (e, r)) : r = [] := by
  cases fuel with
  | zero => cases h
  | succ fuel =>
    rw [parseOrTail] at h
    cases h
    rfl

theorem parseOrder_nil (fuel : Nat) : parseOrder fuel [] = none := by
  match fuel with
  | 0 => rfl
  | 1 => rfl
  | _ + 2 => rfl

section Readers

variable {rest : List Lexeme} {fuel fuel' : Nat}

theorem stopsAnd_of_orTail {a e : Expression} {mid r : List Lexeme}
    (h : parseOrTail fuel a mid = some (e, r)) (hr : StopsOr rest r) : StopsAnd rest mid := by
  rcases hr with hr | rfl
  · refine .inl fun hmid => hr ?_
    subst hmid
    exact eq_nil_of_orTail h
  · exact .inr (.nil _)

namespace Extends

variable (hrest : OpensWith ["AND", "OR"] rest) (ih : Extends rest fuel fuel') (a : Expression)
  (ls : List Lexeme)

section Lists

include ih

theorem or_succ : Continues rest (StopsOr rest) ls (parseOr (fuel + 1) ls)
    (parseOr (fuel' + 1) (ls ++ rest)) := by
  simp only [parseOr]
  exact (ih.and ls).bind (fun a mid _ => ih.orTail a mid) fun _ _ _ _ h => stopsAnd_of_orTail h

theorem orTail_succ : Continues rest (StopsOr rest) ls (parseOrTail (fuel + 1) a ls)
    (parseOrTail (fuel' + 1) a (ls ++ rest)) := by
  cases ls with
  | nil =>
    rw [parseOrTail]
    rintro _ _ ⟨⟩
    refine ⟨id, fun _ hstops => ?_⟩
    rcases hstops with h | rfl
    · exact absurd rfl h
    · rfl
  | cons l ls =>
    simp only [parseOrTail, List.cons_append]
    split
    · next hl =>
      exact .cons (ne_symbol_of_isWord hl _) ((ih.and ls).bind (fun b mid _ => ih.orTail _ mid)
        fun _ _ _ _ h => stopsAnd_of_orTail h)
    · exact .some a

theorem and_succ : Continues rest (StopsAnd rest) ls (parseAnd (fuel + 1) ls)
    (parseAnd (fuel' + 1) (ls ++ rest)) := by
  simp only [parseAnd]
  exact (ih.not ls).followed fun a mid _ => ih.andTail a mid

theorem andTail_succ : Continues rest (StopsAnd rest) ls (parseAndTail (fuel + 1) a ls)
    (parseAndTail (fuel' + 1) a (ls ++ rest)) := by
  cases ls with
  | nil =>
    rw [parseAndTail]
    rintro _ _ ⟨⟩
    refine ⟨id, fun _ hstops => ?_⟩
    rcases hstops with h | hopens
    · exact absurd rfl h
    · cases hrest : rest with
      | nil => rfl
      | cons l more =>
        rw [List.nil_append, parseAndTail, hopens.isWord_eq_false hrest (by decide)]
        rfl
  | cons l ls =>
    simp only [parseAndTail, List.cons_append]
    split
    · next hl =>
      exact .cons (ne_symbol_of_isWord hl _) ((ih.not ls).followed fun b mid _ => ih.andTail _ mid)
    · exact .some a

theorem not_succ : Continues rest StopsHere ls (parseNot (fuel + 1) ls)
    (parseNot (fuel' + 1) (ls ++ rest)) := by
  cases ls with
  | nil =>
    rw [parseNot]
    exact .none
  | cons l ls =>
    simp only [parseNot, List.cons_append]
    split
    · next hl =>
      exact .cons (ne_symbol_of_isWord hl _) ((ih.not ls).followed fun b mid _ => .some _)
    · exact (ih.order (l :: ls)).followed fun b mid _ => ih.equalityTail b mid

end Lists

section Relative

include ih

/-- An operand is read, and then the operators behind what it is made into. -/
theorem compared (make : Expression → Expression) : Continues rest StopsHere ls
    (parseOrder fuel ls >>= fun p => parseEqualityTail fuel (make p.1) p.2)
    (parseOrder fuel' (ls ++ rest) >>= fun p => parseEqualityTail fuel' (make p.1) p.2) :=
  (ih.order ls).followed fun b mid _ => ih.equalityTail (make b) mid

/-- What follows a negation is no point. -/
theorem relative_word (negated : Bool) (word : Lexeme) : Continues rest StopsHere (word :: ls)
    (parseRelative fuel a negated word ls) (parseRelative fuel' a negated word (ls ++ rest)) := by
  by_cases hword : word = .symbol "."
  · have hnone : parseRelative fuel a negated word ls = none := by
      subst hword
      cases fuel <;> rfl
    rw [hnone]
    exact .none
  · exact .cons hword (ih.relative a negated word ls)

end Relative

section Equality

include hrest

/-- An equality ends before a conjunction. -/
theorem equalityTail_end : parseEqualityTail (fuel + 1) a rest = some (a, rest) := by
  cases h : rest with
  | nil => rw [parseEqualityTail]
  | cons l more =>
    obtain ⟨s, rfl⟩ := hrest.exists_name h
    have hnone : ∀ w, w ∉ ["AND", "OR"] → (Lexeme.name false s).isWord w = false := fun w hw =>
      hrest.isWord_eq_false h hw
    simp only [parseEqualityTail, hnone "ISNULL" (by decide), hnone "NOTNULL" (by decide),
      hnone "IS" (by decide), hnone "NOT" (by decide), hnone "LIKE" (by decide),
      hnone "IN" (by decide), hnone "BETWEEN" (by decide), Bool.false_eq_true, if_false,
      Bool.or_self]

include ih

theorem equalityTail_succ : Continues rest StopsHere ls (parseEqualityTail (fuel + 1) a ls)
    (parseEqualityTail (fuel' + 1) a (ls ++ rest)) := by
  cases ls with
  | nil =>
    rw [parseEqualityTail]
    rintro _ _ ⟨⟩
    exact ⟨id, fun _ _ => equalityTail_end hrest a⟩
  | cons l ls =>
    cases l with
    | settled t => simp only [parseEqualityTail, List.cons_append]; exact .some a
    | literal c => simp only [parseEqualityTail, List.cons_append]; exact .some a
    | symbol s =>
      simp only [parseEqualityTail, List.cons_append]
      cases hop : equalitySymbols.lookup s with
      | none => exact .some a
      | some op =>
        have hs : Lexeme.symbol s ≠ .symbol "." := by
          rintro ⟨⟩
          cases hop
        exact .cons hs (ih.compared ls _)
    | name q s =>
      have hs : Lexeme.name q s ≠ .symbol "." := nofun
      simp only [parseEqualityTail, List.cons_append]
      split
      · exact .cons hs (ih.equalityTail _ ls)
      split
      · exact .cons hs (ih.equalityTail _ ls)
      split
      · cases ls with
        | nil => exact .none
        | cons m more =>
          simp only [List.cons_append]
          split
          · next hm => exact .cons hs (.cons (ne_symbol_of_isWord hm _) (ih.is a true more))
          · exact .cons hs (ih.is a false (m :: more))
      split
      · cases ls with
        | nil => exact .none
        | cons m more =>
          simp only [List.cons_append]
          split
          · next hm => exact .cons hs (.cons (ne_symbol_of_isWord hm _) (ih.equalityTail _ more))
          · exact .cons hs (ih.relative_word a more true m)
      split
      · exact .cons hs (ih.relative a false _ ls)
      · exact .some a

end Equality

section Tails

include ih

theorem is_succ (negated : Bool) : Continues rest StopsHere ls (parseIs (fuel + 1) a negated ls)
    (parseIs (fuel' + 1) a negated (ls ++ rest)) := by
  cases ls with
  | nil =>
    simp only [parseIs, parseOrder_nil]
    exact .none
  | cons l ls =>
    have hgen := ih.compared (l :: ls) fun b => .same a b negated
    cases l with
    | settled t => simp only [parseIs, List.cons_append]; exact hgen
    | literal c => simp only [parseIs, List.cons_append]; exact hgen
    | symbol s => simp only [parseIs, List.cons_append]; exact hgen
    | name q s =>
      cases q with
      | true => simp only [parseIs, List.cons_append]; exact hgen
      | false =>
        simp only [parseIs, List.cons_append]
        split
        · exact .cons nofun (ih.equalityTail _ ls)
        · exact hgen

theorem order_succ : Continues rest StopsHere ls (parseOrder (fuel + 1) ls)
    (parseOrder (fuel' + 1) (ls ++ rest)) := by
  simp only [parseOrder]
  exact (ih.operand ls).followed fun a mid _ => ih.orderTail a mid

include hrest

theorem among_append (negated : Bool) : Continues rest StopsHere ls (amongAfter fuel a negated ls)
    (amongAfter fuel' a negated (ls ++ rest)) := by
  unfold amongAfter
  cases hopen : dropSymbol "(" ls with
  | none => exact .none
  | some items =>
    obtain rfl := dropSymbol_eq_some.mp hopen
    rw [List.cons_append, dropSymbol_eq_some.mpr rfl]
    refine .cons (by decide) ?_
    change Continues rest StopsHere items ((dropSymbol ")" items).elim _ _)
      ((dropSymbol ")" (items ++ rest)).elim _ _)
    cases hclose : dropSymbol ")" items with
    | none =>
      rw [dropSymbol_append_eq_none hrest hclose]
      exact (ih.items items).followed fun es mid _ => ih.equalityTail _ mid
    | some more =>
      obtain rfl := dropSymbol_eq_some.mp hclose
      rw [List.cons_append, dropSymbol_eq_some.mpr rfl]
      exact .cons (by decide) (ih.equalityTail _ more)

theorem relative_succ (negated : Bool) (word : Lexeme) : Continues rest StopsHere ls
    (parseRelative (fuel + 1) a negated word ls)
    (parseRelative (fuel' + 1) a negated word (ls ++ rest)) := by
  simp only [parseRelative]
  split
  · refine (ih.order ls).followed fun pattern mid hpattern => ?_
    cases mid with
    | cons l more =>
      simp only [List.cons_append]
      split
      · next hl =>
        exact .cons (ne_symbol_of_isWord hl _)
          (ih.compared more fun escape => .like a pattern (some escape) negated)
      · exact ih.equalityTail _ (l :: more)
    | nil =>
      have htail : parseEqualityTail fuel (.like a pattern none negated) [] =
          some (.like a pattern none negated, []) := by
        cases fuel with
        | zero => cases hpattern
        | succ fuel => rw [parseEqualityTail]
      rintro _ _ ⟨⟩
      refine ⟨id, fun hd _ => ?_⟩
      have hend := (ih.equalityTail _ [] _ _ htail).2 hd trivial
      rw [List.nil_append] at hend ⊢
      cases h : rest with
      | nil => rfl
      | cons l more =>
        rw [h] at hend
        simp only [hrest.isWord_eq_false h (show "ESCAPE" ∉ _ by decide), Bool.false_eq_true,
          if_false]
        exact hend
  split
  · refine (ih.order ls).followed fun low mid _ => ?_
    cases mid with
    | nil => exact .none
    | cons l more =>
      simp only [List.cons_append]
      split
      · next hl =>
        exact .cons (ne_symbol_of_isWord hl _)
          (ih.compared more fun high => .between a low high negated)
      · exact .none
  split
  · have hamong : Continues rest StopsHere ls (amongAfter fuel a negated ls)
        (amongAfter fuel' a negated (ls ++ rest)) := among_append hrest ih a ls negated
    rw [← match_in, ← match_in] at hamong
    exact hamong
  · exact .none

theorem items_succ : Continues rest StopsHere ls (parseItems (fuel + 1) ls)
    (parseItems (fuel' + 1) (ls ++ rest)) := by
  rw [parseItems_succ, parseItems_succ]
  refine (ih.or ls).bind (fun e mid _ => ?_) fun e mid es r h _ => .inl ?_
  · unfold itemsAfter
    cases hcomma : dropSymbol "," mid with
    | some more =>
      obtain rfl := dropSymbol_eq_some.mp hcomma
      rw [List.cons_append, dropSymbol_eq_some.mpr rfl]
      exact .cons (by decide) ((ih.items more).followed fun es mid _ => .some _)
    | none =>
      rw [dropSymbol_append_eq_none hrest hcomma]
      cases hclose : dropSymbol ")" mid with
      | none => exact .none
      | some more =>
        obtain rfl := dropSymbol_eq_some.mp hclose
        rw [List.cons_append, dropSymbol_eq_some.mpr rfl]
        exact .cons (by decide) (.some _)
  · rintro rfl
    cases h

theorem orderTail_succ : Continues rest StopsHere ls (parseOrderTail (fuel + 1) a ls)
    (parseOrderTail (fuel' + 1) a (ls ++ rest)) := by
  cases ls with
  | nil =>
    have hend : parseOrderTail (fuel' + 1) a rest = some (a, rest) := by
      cases h : rest with
      | nil => rw [parseOrderTail]; exact nofun
      | cons l more =>
        obtain ⟨s, rfl⟩ := hrest.exists_name h
        rw [parseOrderTail]
        exact nofun
    rw [parseOrderTail]
    · rintro _ _ ⟨⟩
      exact ⟨id, fun _ _ => hend⟩
    · exact nofun
  | cons l ls =>
    cases l with
    | settled t => simp only [parseOrderTail, List.cons_append]; exact .some a
    | literal c => simp only [parseOrderTail, List.cons_append]; exact .some a
    | name q s => simp only [parseOrderTail, List.cons_append]; exact .some a
    | symbol s =>
      simp only [parseOrderTail, List.cons_append]
      cases hop : orderSymbols.lookup s with
      | none => exact .some a
      | some op =>
        have hs : Lexeme.symbol s ≠ .symbol "." := by
          rintro ⟨⟩
          cases hop
        exact .cons hs ((ih.operand ls).followed fun b mid _ => ih.orderTail _ mid)

end Tails

section Operands

include ih

/-- An expression up to the closing parenthesis. -/
theorem close (f : Expression → List Lexeme → Parsed)
    (hf : ∀ e mid, Continues rest StopsHere mid (f e mid) (f e (mid ++ rest))) :
    Continues rest StopsHere ls
      (parseOr fuel ls >>= fun p => dropSymbol ")" p.2 >>= fun more => f p.1 more)
      (parseOr fuel' (ls ++ rest) >>= fun p => dropSymbol ")" p.2 >>= fun more => f p.1 more) := by
  refine (ih.or ls).bind (fun e mid _ => ?_) fun e mid es r h _ => .inl ?_
  · cases hclose : dropSymbol ")" mid with
    | none => exact .none
    | some more =>
      obtain rfl := dropSymbol_eq_some.mp hclose
      rw [List.cons_append, dropSymbol_eq_some.mpr rfl]
      exact .cons (by decide) (hf e more)
  · rintro rfl
    cases h

theorem ofName_append (n : String) : Continues rest StopsHere (.name false n :: ls)
    (ofName fuel n ls) (ofName fuel' n (ls ++ rest)) := by
  unfold ofName
  split
  · exact .cons nofun (.some _)
  split
  · exact ih.not (.name false n :: ls)
  split
  · exact .none
  split
  · exact .cons nofun (.some _)
  · exact .cons nofun (.some _)

include hrest

omit ih in
/-- A name is read with the column behind it, if there is one. -/
theorem column_append {q : Bool} {n : String} {x x' : Parsed}
    (hx : Continues rest StopsHere (.name q n :: ls) x x') (f : String × List Lexeme → Parsed)
    (hf : ∀ c mid, Continues rest StopsHere mid (f (c, mid)) (f (c, mid ++ rest))) :
    Continues rest StopsHere (.name q n :: ls) ((columnBehind ls).elim x f)
      ((columnBehind (ls ++ rest)).elim x' f) := by
  cases h : columnBehind ls with
  | none =>
    intro e r he
    obtain ⟨hdangles, hgoes⟩ := hx e r he
    refine ⟨hdangles, fun hd hs => ?_⟩
    rw [columnBehind_append_eq_none hrest (fun hd' => hd (hdangles (hd'.cons _))) h]
    exact hgoes hd hs
  | some p =>
    obtain ⟨c, mid⟩ := p
    obtain ⟨q', rfl⟩ := columnBehind_eq_some h
    refine .of_dangles (fun hd => ?_) (hf c mid)
    have hlast := hd.of_cons (show Lexeme.name q n ≠ .symbol "." from nofun)
    rw [Dangles, List.getLast?_cons_cons] at hlast
    exact Dangles.of_cons (l := .name q' c) nofun hlast

theorem operand_succ : Continues rest StopsHere ls (parseOperand (fuel + 1) ls)
    (parseOperand (fuel' + 1) (ls ++ rest)) := by
  cases ls with
  | nil =>
    simp only [parseOperand]
    exact .none
  | cons l ls =>
    cases l with
    | settled t =>
      simp only [parseOperand, List.cons_append]
      exact .cons Lexeme.noConfusion (.some _)
    | literal c =>
      simp only [parseOperand, List.cons_append]
      exact .cons Lexeme.noConfusion (.some _)
    | symbol s =>
      rw [List.cons_append, parseOperand_symbol, parseOperand_symbol]
      split
      · next hs =>
        subst hs
        exact .cons (by decide) (close ih ls _ fun e mid => .some e)
      split
      · next hs =>
        subst hs
        exact .cons (by decide) ((ih.operand ls).followed fun e mid _ => .some _)
      split
      · next hs =>
        subst hs
        exact .cons (by decide) (ih.operand ls)
      · exact .none
    | name q n =>
      rw [List.cons_append]
      cases q with
      | true =>
        rw [parseOperand_quoted, parseOperand_quoted]
        exact column_append hrest ls (.cons Lexeme.noConfusion (.some _)) _ fun _ _ => .some _
      | false =>
        rw [parseOperand_bare, parseOperand_bare]
        refine column_append hrest ls ?_ _ fun c mid => ?_
        · cases hopen : dropSymbol "(" ls with
          | none =>
            rw [dropSymbol_append_eq_none hrest hopen]
            exact ofName_append ih ls n
          | some more =>
            obtain rfl := dropSymbol_eq_some.mp hopen
            rw [List.cons_append, dropSymbol_eq_some.mpr rfl]
            refine .cons Lexeme.noConfusion (.cons (by decide)
              (close ih more (ofFunction n) fun e mid => ?_))
            unfold ofFunction
            split
            · exact .some _
            split
            · exact .some _
            · exact .none
        · dsimp only
          split
          · exact .none
          · exact .some _

end Operands

end Extends

/-- With as many steps left or more, readers go on the same way before a conjunction. -/
theorem extends_of_le (hrest : OpensWith ["AND", "OR"] rest) (hle : fuel ≤ fuel') :
    Extends rest fuel fuel' := by
  induction fuel generalizing fuel' with
  | zero => exact extends_zero rest fuel'
  | succ fuel ih =>
    obtain ⟨fuel', rfl⟩ : ∃ k, fuel' = k + 1 := ⟨fuel' - 1, by omega⟩
    have ih := ih (Nat.le_of_succ_le_succ hle)
    exact {
      or := ih.or_succ
      orTail := ih.orTail_succ
      and := ih.and_succ
      andTail := ih.andTail_succ
      not := ih.not_succ
      equalityTail := ih.equalityTail_succ hrest
      is := fun a negated ls => ih.is_succ a ls negated
      relative := fun a negated word ls => ih.relative_succ hrest a ls negated word
      items := ih.items_succ hrest
      order := ih.order_succ
      orderTail := ih.orderTail_succ hrest
      operand := ih.operand_succ hrest }

end Readers

end Expression

end Chronicle
