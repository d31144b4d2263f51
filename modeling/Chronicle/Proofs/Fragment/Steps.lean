import Chronicle.Store.Expression.Reader

/-!
# Steps of the reader

What the reader of expressions does at operands and lists, said through what stands at the beginning
of the lexemes.

* `Expression.dropSymbol`, `Expression.columnBehind`: what follows a symbol, and a column behind its
  relation;
* `Expression.parseOperand_symbol`, `Expression.parseOperand_quoted`, `Expression.parseOperand_bare`:
  operands by their first lexeme;
* `Expression.itemsAfter`, `Expression.amongAfter`: what follows an item and the word `IN`.
-/

namespace Chronicle

namespace Expression

/-! ## Symbols and columns -/

/-- What follows a symbol. -/
def dropSymbol (s : String) : List Lexeme → Option (List Lexeme)
  | .symbol t :: rest => if t = s then some rest else none
  | _ => none

/-- The name behind a point, and what follows it. -/
def columnBehind (ls : List Lexeme) : Option (String × List Lexeme) :=
  match dropSymbol "." ls with
  | some (.name _ s :: rest) => some (s, rest)
  | _ => none

theorem dropSymbol_eq_none {s : String} {ls : List Lexeme} (h : ∀ rest, ls ≠ .symbol s :: rest) :
    dropSymbol s ls = none := by
  unfold dropSymbol
  split
  · next t rest => exact if_neg fun e => h rest (by rw [e])
  · rfl

theorem columnBehind_eq_none {ls : List Lexeme}
    (h : ∀ q s rest, ls ≠ .symbol "." :: .name q s :: rest) : columnBehind ls = none := by
  unfold columnBehind
  split
  · next q s rest heq =>
    unfold dropSymbol at heq
    split at heq
    · split at heq
      · next ht =>
        cases heq
        exact absurd (by rw [ht]) (h q s rest)
      · cases heq
    · cases heq
  · rfl

/-- Either a column stands behind a name, or nothing that is read as one. -/
theorem columnBehind_cases (ls : List Lexeme) :
    (∃ q s rest, ls = .symbol "." :: .name q s :: rest) ∨
      columnBehind ls = none ∧ ∀ q s rest, ls ≠ .symbol "." :: .name q s :: rest := by
  by_cases h : ∃ q s rest, ls = .symbol "." :: .name q s :: rest
  · exact .inl h
  · have hne : ∀ q s rest, ls ≠ .symbol "." :: .name q s :: rest := fun q s rest e =>
      h ⟨q, s, rest, e⟩
    exact .inr ⟨columnBehind_eq_none hne, hne⟩

/-! ## Operands -/

section Operands

variable (fuel : Nat) (n : String) (ls : List Lexeme)

theorem match_close {β : Type} (f : List Lexeme → Option β) (ls : List Lexeme) :
    (match ls with
    | .symbol ")" :: rest => f rest
    | _ => none) = dropSymbol ")" ls >>= f := by
  unfold dropSymbol
  split
  · rfl
  · next hne =>
    split
    · next t rest =>
      have ht : t ≠ ")" := fun e => hne rest (by rw [e])
      rw [if_neg ht]
      rfl
    · rfl

theorem parseOperand_symbol (s : String) : parseOperand (fuel + 1) (.symbol s :: ls) =
    if s = "(" then
      parseOr fuel ls >>= fun p => dropSymbol ")" p.2 >>= fun rest => some (p.1, rest)
    else if s = "-" then parseOperand fuel ls >>= fun p => some (.minus p.1, p.2)
    else if s = "+" then parseOperand fuel ls
    else none := by
  by_cases hopen : s = "("
  · subst hopen
    rw [if_pos rfl, parseOperand]
    cases parseOr fuel ls with
    | none => rfl
    | some p => exact match_close (fun rest => some (p.1, rest)) p.2
  · rw [if_neg hopen]
    by_cases hminus : s = "-"
    · subst hminus
      rw [if_pos rfl, parseOperand]
      cases parseOperand fuel ls <;> rfl
    · rw [if_neg hminus]
      by_cases hplus : s = "+"
      · subst hplus
        rw [if_pos rfl, parseOperand]
      · rw [if_neg hplus]
        unfold parseOperand
        split
        · next heq => cases heq
        · next heq => cases heq
        · next heq => cases heq; exact absurd rfl hopen
        · next heq => cases heq; exact absurd rfl hminus
        · next heq => cases heq; exact absurd rfl hplus
        · next heq => cases heq
        · next heq => cases heq
        · next heq => cases heq
        · next heq => cases heq
        · next heq => cases heq
        · rfl

theorem parseOperand_quoted : parseOperand (fuel + 1) (.name true n :: ls) =
    (columnBehind ls).elim (some (.column none n true, ls))
      fun p => some (.column (some n) p.1 false, p.2) := by
  obtain ⟨q, s, rest, rfl⟩ | ⟨hnone, hne⟩ := columnBehind_cases ls
  · rw [parseOperand]
    rfl
  · rw [hnone, parseOperand]
    · rfl
    · exact fun q s rest => hne q s rest

/-- A name without quotes that stands on its own. -/
def ofName (fuel : Nat) (n : String) (ls : List Lexeme) : Parsed :=
  if n.toUpper == "NULL" then some (.literal .null, ls)
  else if n.toUpper == "NOT" then parseNot fuel (.name false n :: ls)
  else if isReserved n then none
  else
    match truthWord? n with
    | some b => some (.literal (.int (Scalar.ofBool b)), ls)
    | none => some (.column none n false, ls)

/-- What a function of the language makes of its argument. -/
def ofFunction (n : String) (e : Expression) (ls : List Lexeme) : Parsed :=
  if n.toUpper == "LOWER" then some (.lower e, ls)
  else if n.toUpper == "UPPER" then some (.upper e, ls)
  else none

theorem parseOperand_bare : parseOperand (fuel + 1) (.name false n :: ls) =
    (columnBehind ls).elim
      ((dropSymbol "(" ls).elim (ofName fuel n ls) fun rest =>
        parseOr fuel rest >>= fun p => dropSymbol ")" p.2 >>= fun rest => ofFunction n p.1 rest)
      fun p => if isReserved n then none else some (.column (some n) p.1 false, p.2) := by
  obtain ⟨q, s, rest, rfl⟩ | ⟨hnone, hne⟩ := columnBehind_cases ls
  · rw [parseOperand]
    rfl
  · rw [hnone, Option.elim_none]
    by_cases hopen : ∃ rest, ls = .symbol "(" :: rest
    · obtain ⟨rest, rfl⟩ := hopen
      change _ = parseOr fuel rest >>= fun p =>
        dropSymbol ")" p.2 >>= fun rest => ofFunction n p.1 rest
      rw [parseOperand]
      cases parseOr fuel rest with
      | none => rfl
      | some p => exact match_close (fun rest => ofFunction n p.1 rest) p.2
    · have hnone : ∀ rest, ls ≠ .symbol "(" :: rest := fun rest e => hopen ⟨rest, e⟩
      rw [dropSymbol_eq_none hnone, Option.elim_none, parseOperand]
      · rfl
      · exact fun q s rest => hne q s rest
      · exact fun rest => hnone rest

end Operands

/-! ## Lists -/

section Items

variable (fuel : Nat) (ls : List Lexeme)

/-- What follows an item: the closing parenthesis, or a comma and further items. -/
def itemsAfter (e : Expression) (ls : List Lexeme) : Option (List Expression × List Lexeme) :=
  (dropSymbol "," ls).elim (dropSymbol ")" ls >>= fun rest => some ([e], rest)) fun rest =>
    parseItems fuel rest >>= fun p => some (e :: p.1, p.2)

theorem parseItems_succ : parseItems (fuel + 1) ls =
    parseOr fuel ls >>= fun p => itemsAfter fuel p.1 p.2 := by
  rw [parseItems]
  cases parseOr fuel ls with
  | none => rfl
  | some p =>
    obtain ⟨e, ls⟩ := p
    change _ = itemsAfter fuel e ls
    by_cases hcomma : ∃ rest, ls = .symbol "," :: rest
    · obtain ⟨rest, rfl⟩ := hcomma
      rfl
    · have hne : ∀ rest, ls ≠ .symbol "," :: rest := fun rest e => hcomma ⟨rest, e⟩
      rw [itemsAfter, dropSymbol_eq_none hne, Option.elim_none]
      refine Eq.trans ?_ (match_close (fun rest => some ([e], rest)) ls)
      simp only [Option.bind_eq_bind, Option.bind_some]
      split
      · next rest => exact absurd rfl (hne rest)
      · rfl
      · next hclose =>
        split
        · exact (hclose _ rfl).elim
        · rfl

/-- What follows `IN`. -/
def amongAfter (a : Expression) (negated : Bool) (ls : List Lexeme) : Parsed :=
  dropSymbol "(" ls >>= fun rest =>
    (dropSymbol ")" rest).elim
      (parseItems fuel rest >>= fun p => parseEqualityTail fuel (.among a p.1 negated) p.2)
      fun rest => parseEqualityTail fuel (.among a [] negated) rest

theorem match_in (a : Expression) (negated : Bool) :
    (match ls with
    | .symbol "(" :: .symbol ")" :: rest => parseEqualityTail fuel (.among a [] negated) rest
    | .symbol "(" :: rest => do
      let (items, rest) ← parseItems fuel rest
      parseEqualityTail fuel (.among a items negated) rest
    | _ => none) = amongAfter fuel a negated ls := by
  unfold amongAfter
  split
  · rfl
  · next rest hne =>
    change _ = (dropSymbol ")" rest).elim _ _
    rw [dropSymbol_eq_none fun more e => hne more e]
    rfl
  · next hne => rw [dropSymbol_eq_none fun rest => hne rest]; rfl

end Items

end Expression

end Chronicle
