import Chronicle.Proofs.Fragment.Followed
import Chronicle.Store.Answer

/-!
# Texts joined by a conjunction

Texts that are joined by `AND` are read as one condition.  It holds where all of them hold, if each is
a list of conditions joined by `AND` itself: an `OR` outside of parentheses would bind less strongly
than the word that joins the texts.  Texts joined by `OR` may be any conditions.

* `Expression.IsListOf`: lexemes that are a list of conditions joined by a conjunction;
* `Expression.exists_list`: such lists, joined once more, are one list;
* `Expression.exists_ofLexemes?`: what is read of them.
-/

namespace Chronicle

/-! ## Truth -/

namespace Truth

/-- The truth of two conditions joined by a conjunction. -/
def join : Conjunction → Truth → Truth → Truth
  | .and => and
  | .or => or

/-- The truth of any number of conditions joined by a conjunction. -/
def joinAll : Conjunction → List Truth → Truth
  | .and => all
  | .or => any

variable (op : Conjunction)

theorem joinAll_cons (t : Truth) (ts : List Truth) :
    joinAll op (t :: ts) = join op t (joinAll op ts) := by
  cases op <;> rfl

theorem join_assoc (s t u : Truth) : join op (join op s t) u = join op s (join op t u) := by
  cases op <;> rcases s with _ | _ | _ <;> rcases t with _ | _ | _ <;> rcases u with _ | _ | _ <;> rfl

theorem join_joinAll_nil (t : Truth) : join op t (joinAll op []) = t := by
  cases op <;> rcases t with _ | _ | _ <;> rfl

end Truth

theorem Cell.toTruth_ofTruth (t : Truth) : (Cell.ofTruth t).toTruth = t := by
  rcases t with _ | _ | _ <;> rfl

namespace Expression

/-- The truth of an expression as a condition. -/
def truth (env : Env) (e : Expression) : Truth := (e.eval env).toTruth

/-! ## Lists of conditions -/

/-- Two conditions joined by a conjunction. -/
def joined : Conjunction → Expression → Expression → Expression
  | .and => .and
  | .or => .or

/-- The parts of a list with a conjunction. -/
def parseItem : Conjunction → Nat → List Lexeme → Parsed
  | .and => parseNot
  | .or => parseAnd

/-- The rest of a list with a conjunction. -/
def parseTail : Conjunction → Nat → Expression → List Lexeme → Parsed
  | .and => parseAndTail
  | .or => parseOrTail

/-- Lists with a conjunction. -/
def parseList : Conjunction → Nat → List Lexeme → Parsed
  | .and => parseAnd
  | .or => parseOr

/-- The steps that the reader has for a list of some length. -/
def steps : Conjunction → Nat → Nat
  | .and, n => 8 * n + 7
  | .or, n => 8 * n + 8

/-- Lexemes that are a list of conditions joined by a conjunction. -/
def IsListOf (op : Conjunction) (ls : List Lexeme) (e : Expression) : Prop :=
  parseList op (steps op ls.length) ls = some (e, [])

section Lists

variable (op : Conjunction) {env : Env} {fuel fuel' : Nat} {a b e : Expression}
  {ls rest : List Lexeme}

theorem truth_joined (env : Env) (a b : Expression) :
    (joined op a b).truth env = Truth.join op (a.truth env) (b.truth env) := by
  cases op <;> exact Cell.toTruth_ofTruth _

theorem isResolved_joined (env : Env) (a b : Expression) :
    (joined op a b).isResolved env = (a.isResolved env && b.isResolved env) := by
  cases op <;> rw [joined, isResolved]

theorem parseList_succ (fuel : Nat) (ls : List Lexeme) :
    parseList op (fuel + 1) ls =
      parseItem op fuel ls >>= fun p => parseTail op fuel p.1 p.2 := by
  cases op <;> simp only [parseList, parseItem, parseTail, parseAnd, parseOr]

theorem parseTail_nil (fuel : Nat) (a : Expression) :
    parseTail op (fuel + 1) a [] = some (a, []) := by
  cases op <;> simp only [parseTail, parseAndTail, parseOrTail]

theorem parseTail_cons (fuel : Nat) (a : Expression) (l : Lexeme) (ls : List Lexeme) :
    parseTail op (fuel + 1) a (l :: ls) =
      if l.isWord (Clause.word op) then
        parseItem op fuel ls >>= fun p => parseTail op fuel (joined op a p.1) p.2
      else some (a, l :: ls) := by
  cases op <;> (simp only [parseTail, parseItem, parseAndTail, parseOrTail, joined, Clause.word]; rfl)

/-! ### What follows a list -/

/-- A further part of a list, or nothing. -/
def MoreOf (rest : List Lexeme) : Prop := OpensWith [Clause.word op] rest

variable {op} (hrest : MoreOf op rest)

include hrest

theorem MoreOf.opens : OpensWith ["AND", "OR"] rest :=
  hrest.imp fun w hw => by cases op <;> rw [List.mem_singleton.mp hw] <;> decide

theorem parseItem_append (hle : fuel ≤ fuel') {mid : List Lexeme}
    (h : parseItem op fuel ls = some (e, mid)) (hd : ¬Dangles mid) :
    parseItem op fuel' (ls ++ rest) = some (e, mid ++ rest) := by
  have hextends := extends_of_le hrest.opens hle
  cases op with
  | and => exact (hextends.not ls e mid h).2 hd trivial
  | or => exact (hextends.and ls e mid h).2 hd (.inr hrest)

omit hrest in
/-- Where a list has come to its end, no point is left behind its last part. -/
theorem not_dangles_of_tail (h : parseTail op fuel a ls = some (e, [])) : ¬Dangles ls := by
  have hextends := extends_of_le (.nil _) (Nat.le_refl fuel)
  cases op with
  | and => exact fun hd => not_dangles_nil ((hextends.andTail a ls e [] h).1 hd)
  | or => exact fun hd => not_dangles_nil ((hextends.orTail a ls e [] h).1 hd)

omit hrest in
theorem parseTail_mono (hle : fuel ≤ fuel') (h : parseTail op fuel a ls = some (e, [])) :
    parseTail op fuel' a ls = some (e, []) := by
  have hextends := extends_of_le (.nil _) hle
  have hgoes : parseTail op fuel' a (ls ++ []) = some (e, [] ++ []) := by
    cases op with
    | and => exact (hextends.andTail a ls e [] h).2 not_dangles_nil (.inr (.nil _))
    | or => exact (hextends.orTail a ls e [] h).2 not_dangles_nil (.inr rfl)
  rwa [List.append_nil] at hgoes

/-- A list is gone through as far as its end, and then what follows is. -/
theorem parseTail_append {more : Nat} (h : parseTail op fuel a ls = some (b, []))
    (hmore : parseTail op more b rest = some (e, [])) (hle : fuel + more ≤ fuel' + 1) :
    parseTail op fuel' a (ls ++ rest) = some (e, []) := by
  induction fuel generalizing a ls fuel' with
  | zero => cases op <;> cases h
  | succ fuel ih =>
    cases ls with
    | nil =>
      rw [parseTail_nil] at h
      cases h
      exact parseTail_mono (by omega) hmore
    | cons l ls =>
      rw [parseTail_cons] at h
      split at h
      · next hl =>
        obtain ⟨⟨x, mid⟩, hitem, htail⟩ := Option.bind_eq_some_iff.mp h
        have hpos : more ≠ 0 := by
          rintro rfl
          cases op <;> cases hmore
        obtain ⟨fuel', rfl⟩ : ∃ k, fuel' = k + 1 := ⟨fuel' - 1, by omega⟩
        rw [List.cons_append, parseTail_cons, if_pos hl,
          parseItem_append hrest (by omega) hitem (not_dangles_of_tail htail)]
        exact ih htail (by omega)
      · cases h

end Lists

/-! ### Joining once more -/

section Adding

variable {op : Conjunction} {x : Expression}

/-- A condition holds where one holds and, or or, another does. -/
def Adds (op : Conjunction) (x a a' : Expression) : Prop :=
  ∀ env, a'.truth env = Truth.join op (x.truth env) (a.truth env) ∧
    a'.isResolved env = (x.isResolved env && a.isResolved env)

theorem adds_joined (x a : Expression) : Adds op x a (joined op x a) := fun env =>
  ⟨truth_joined op env x a, isResolved_joined op env x a⟩

theorem Adds.joined {a a' : Expression} (h : Adds op x a a') (b : Expression) :
    Adds op x (joined op a b) (joined op a' b) := by
  intro env
  obtain ⟨htruth, hresolved⟩ := h env
  rw [truth_joined, truth_joined, isResolved_joined, isResolved_joined, htruth, hresolved,
    Truth.join_assoc, Bool.and_assoc]
  exact ⟨rfl, rfl⟩

/-- A list that begins with one more condition. -/
theorem exists_parseTail {fuel : Nat} {a a' e : Expression} {ls r : List Lexeme}
    (h : parseTail op fuel a ls = some (e, r)) (ha : Adds op x a a') :
    ∃ e', parseTail op fuel a' ls = some (e', r) ∧ Adds op x e e' := by
  induction fuel generalizing a a' ls with
  | zero => cases op <;> cases h
  | succ fuel ih =>
    cases ls with
    | nil =>
      rw [parseTail_nil] at h ⊢
      cases h
      exact ⟨a', rfl, ha⟩
    | cons l ls =>
      rw [parseTail_cons] at h ⊢
      split at h
      · next hl =>
        obtain ⟨⟨b, mid⟩, hitem, htail⟩ := Option.bind_eq_some_iff.mp h
        rw [if_pos hl, hitem]
        exact ih htail (ha.joined b)
      · next hl =>
        cases h
        rw [if_neg hl]
        exact ⟨a', rfl, ha⟩

end Adding

section Groups

variable (op : Conjunction)

/-- The word between the texts. -/
def joinWord : Lexeme := .name false (Clause.word op)

theorem isWord_joinWord : (joinWord op).isWord (Clause.word op) = true := by
  cases op <;> decide +kernel

/-- Further texts, each behind the word. -/
def further (groups : List (List Lexeme × Expression)) : List Lexeme :=
  groups.flatMap fun g => joinWord op :: g.1

theorem moreOf_further (groups : List (List Lexeme × Expression)) :
    MoreOf op (further op groups) := by
  intro l more h
  cases groups with
  | nil => cases h
  | cons g groups =>
    cases h
    exact ⟨_, List.mem_singleton_self _, isWord_joinWord op⟩

variable {op} {groups : List (List Lexeme × Expression)}

/-- Further lists are added to a condition one after the other. -/
theorem exists_further (h : ∀ g ∈ groups, IsListOf op g.1 g.2) (a : Expression) {fuel : Nat}
    (hle : 8 * (further op groups).length + 1 ≤ fuel) :
    ∃ e, parseTail op fuel a (further op groups) = some (e, []) ∧ ∀ env,
      e.truth env = Truth.join op (a.truth env)
        (Truth.joinAll op (groups.map fun g => g.2.truth env)) ∧
      e.isResolved env = (a.isResolved env && groups.all fun g => g.2.isResolved env) := by
  induction groups generalizing a fuel with
  | nil =>
    obtain ⟨fuel, rfl⟩ : ∃ k, fuel = k + 1 := ⟨fuel - 1, by omega⟩
    refine ⟨a, parseTail_nil op fuel a, fun env => ⟨?_, ?_⟩⟩
    · rw [List.map_nil, Truth.join_joinAll_nil]
    · rw [List.all_nil, Bool.and_true]
  | cons g groups ih =>
    obtain ⟨ls, x⟩ := g
    obtain ⟨hg, hgroups⟩ := List.forall_mem_cons.mp h
    have hlength : (further op ((ls, x) :: groups)).length =
        ls.length + (further op groups).length + 1 := by
      rw [further, List.flatMap_cons, List.length_append, List.length_cons, further]
      exact Nat.add_right_comm _ _ _
    obtain ⟨k, hk, hsteps⟩ : ∃ k, steps op ls.length = k + 1 ∧ k ≤ 8 * ls.length + 7 := by
      cases op
      · exact ⟨8 * ls.length + 6, rfl, by omega⟩
      · exact ⟨8 * ls.length + 7, rfl, by omega⟩
    have hlist : parseList op (k + 1) ls = some (x, []) := hk ▸ hg
    rw [parseList_succ] at hlist
    obtain ⟨⟨b, mid⟩, hitem, htail⟩ := Option.bind_eq_some_iff.mp hlist
    obtain ⟨c, hc, hadds⟩ := exists_parseTail htail (adds_joined a b)
    obtain ⟨e, he, hsum⟩ := ih hgroups c (Nat.le_refl _)
    obtain ⟨fuel, rfl⟩ : ∃ k, fuel = k + 1 := ⟨fuel - 1, by omega⟩
    refine ⟨e, ?_, fun env => ?_⟩
    · have hrest := moreOf_further op groups
      change parseTail op (fuel + 1) a (joinWord op :: (ls ++ further op groups)) = _
      rw [parseTail_cons, if_pos (isWord_joinWord op),
        parseItem_append hrest (by omega) hitem (not_dangles_of_tail htail)]
      exact parseTail_append hrest hc he (by omega)
    · obtain ⟨htruth, hresolved⟩ := hsum env
      obtain ⟨htruth', hresolved'⟩ := hadds env
      rw [htruth, hresolved, htruth', hresolved', List.map_cons, Truth.joinAll_cons,
        Truth.join_assoc, List.all_cons, Bool.and_assoc]
      exact ⟨rfl, rfl⟩

/-- Lists that are joined once more are one list. -/
theorem exists_list {g : List Lexeme × Expression}
    (h : ∀ g' ∈ g :: groups, IsListOf op g'.1 g'.2) :
    ∃ e, IsListOf op (g.1 ++ further op groups) e ∧ ∀ env,
      e.truth env = Truth.joinAll op ((g :: groups).map fun g => g.2.truth env) ∧
      e.isResolved env = (g :: groups).all fun g => g.2.isResolved env := by
  obtain ⟨ls, x⟩ := g
  obtain ⟨hg, hgroups⟩ := List.forall_mem_cons.mp h
  obtain ⟨e, he, hsum⟩ := exists_further hgroups x (Nat.le_refl _)
  obtain ⟨k, hk, hk'⟩ : ∃ k, steps op ls.length = k + 1 ∧
      steps op (ls ++ further op groups).length = k + 8 * (further op groups).length + 1 := by
    rw [List.length_append]
    cases op
    · exact ⟨8 * ls.length + 6, rfl, by simp only [steps]; omega⟩
    · exact ⟨8 * ls.length + 7, rfl, by simp only [steps]; omega⟩
  refine ⟨e, ?_, fun env => ?_⟩
  · have hlist : parseList op (k + 1) ls = some (x, []) := hk ▸ hg
    rw [parseList_succ] at hlist
    obtain ⟨⟨b, mid⟩, hitem, htail⟩ := Option.bind_eq_some_iff.mp hlist
    have hrest := moreOf_further op groups
    unfold IsListOf
    rw [hk', parseList_succ,
      parseItem_append hrest (by omega) hitem (not_dangles_of_tail htail)]
    exact parseTail_append hrest htail he (by omega)
  · obtain ⟨htruth, hresolved⟩ := hsum env
    rw [htruth, hresolved, List.map_cons, Truth.joinAll_cons, List.all_cons]
    exact ⟨rfl, rfl⟩

theorem flatten_intersperse (g : List Lexeme × Expression)
    (groups : List (List Lexeme × Expression)) :
    (((g :: groups).map Prod.fst).intersperse [joinWord op]).flatten = g.1 ++ further op groups := by
  induction groups generalizing g with
  | nil =>
    rw [List.map_singleton, List.intersperse_singleton, List.flatten_singleton]
    exact (List.append_nil _).symm
  | cons g' groups ih =>
    have hcons : (((g :: g' :: groups).map Prod.fst).intersperse [joinWord op]).flatten =
        g.1 ++ (joinWord op :: (((g' :: groups).map Prod.fst).intersperse [joinWord op]).flatten) :=
      rfl
    rw [hcons, ih g', further, further, List.flatMap_cons, List.cons_append]

/-! ### What is read -/

/-- A list is read as a condition. -/
theorem IsListOf.ofLexemes? {ls : List Lexeme} {e : Expression} (h : IsListOf op ls e) :
    ofLexemes? ls = some e := by
  have hor : parseOr (8 * ls.length + 8) ls = some (e, []) := by
    cases op with
    | or => exact h
    | and =>
      have hand : parseAnd (8 * ls.length + 7) ls = some (e, []) := h
      rw [parseOr, hand]
      exact parseTail_nil .or (8 * ls.length + 6) e
  rw [Expression.ofLexemes?, hor]

variable (op) in
theorem isListOf_settled (t : Truth) : IsListOf op [.settled t] (.settled t) := by
  cases op <;> rfl

/-- What is read of lists that are joined once more. -/
theorem exists_ofLexemes? (hne : groups ≠ []) (h : ∀ g ∈ groups, IsListOf op g.1 g.2) :
    ∃ e, ofLexemes? ((groups.map Prod.fst).intersperse [joinWord op]).flatten = some e ∧ ∀ env,
      e.truth env = Truth.joinAll op (groups.map fun g => g.2.truth env) ∧
      e.isResolved env = groups.all fun g => g.2.isResolved env := by
  cases groups with
  | nil => exact absurd rfl hne
  | cons g groups =>
    obtain ⟨e, hlist, hsum⟩ := exists_list h
    rw [flatten_intersperse]
    exact ⟨e, hlist.ofLexemes?, hsum⟩

end Groups

end Expression

end Chronicle
