import Chronicle.Proofs.Filter.Clauses
import Chronicle.Proofs.Filter.Literal
import Chronicle.Proofs.Statement.Composed

/-!
# Conditions that look for a text

A condition by pattern is true of the cells whose text contains what it looks for, letter by letter,
whatever wildcards are in it, or of those whose text does not.  It can be written and read wherever
its column is found.

* `Condition.Finds`: what such a condition says of the value of its attribute;
* `Condition.patternTruth`, `Condition.patternTruth_iff`: what its text says of a cell;
* `Condition.slots_pattern`, `Condition.isResolved_pattern`: what the store asks of it;
* `Clause.starts_pattern`: it can be written in front of a list of values.
-/

namespace Chronicle

open Chronicle.Calendar Fragment Pattern

/-! ## What is found -/

namespace Scalar

/-- A text that contains another one, letters of ASCII being alike in either case. -/
def Contains : Scalar → String → Prop
  | .text s, v => foldCase v.toList <:+: foldCase s.toList
  | _, _ => False

/-- A text that does not contain another one, or no value at all. -/
def Lacks : Scalar → String → Prop
  | .null, _ => True
  | .text s, v => ¬foldCase v.toList <:+: foldCase s.toList
  | _, _ => False

end Scalar

namespace Condition

/-- What a condition by pattern says of the value of its attribute. -/
def Finds (c : Condition) (v : String) (x : Scalar) : Prop :=
  match c.operator with
  | .contains => x.Contains v
  | .lacks => x.Lacks v
  | _ => False

/-! ## Cells that a pattern finds -/

/-- How a cell is compared with a pattern. -/
def likeness (x pattern : Cell) : Truth :=
  Expression.likeCells (Expression.mapText Char.toLower x)
    (Expression.mapText Char.toLower pattern) (some (.text "\\"))

/-- In small letters both, a text is compared with what it is to contain. -/
theorem likeness_text (s v : String) : likeness (.text s) (.text (containing (.text v))) =
    some (decide (foldCase v.toList <:+: foldCase s.toList)) := by
  have hpattern : (containing (.text v)).toList.map Char.toLower =
      '%' :: literalPattern (foldCase v.toList) ++ ['%'] := by
    have hpercent : '%'.toLower = '%' := by decide
    have hliteral := foldCase_literalPattern v.toList
    rw [foldCase] at hliteral
    rw [containing, String.toList_ofList, List.map_append, List.map_cons, List.map_singleton,
      hpercent, ← hliteral]
    rfl
  have hlike : likeness (.text s) (.text (containing (.text v))) =
      some (describes (some '\\') ((containing (.text v)).toList.map Char.toLower)
        (foldCase s.toList)) := by
    simp [likeness, Expression.likeCells, Expression.mapText, Cell.isNull, Cell.asText, foldCase]
  rw [hlike, Option.some.injEq, hpattern, Bool.eq_iff_iff, describes_between_iff,
    foldCase_foldCase, foldCase_foldCase, decide_eq_true_eq]

/-- What the text of a condition says of the cell of its column. -/
theorem toTruth_patternExpression {env : Env} {ref : ColumnRef} {x : Cell}
    (hcell : Expression.columnCell env (some ref.table) ref.name = x) (lacks : Bool) (c : Cell) :
    ((patternExpression lacks ref c).eval env).toTruth =
      if lacks then Truth.or (some x.isNull) (likeness x c).not else likeness x c := by
  have hlike : ((Expression.like (.lower (.column (some ref.table) ref.name false))
      (.lower (.literal c)) (some (.literal (.text "\\"))) false).eval env).toTruth =
        likeness x c := by
    simp only [Expression.eval, hcell]
    exact Cell.toTruth_ofTruth _
  cases lacks with
  | false => exact hlike
  | true =>
    have hmissing : ((Expression.same (.column (some ref.table) ref.name false) (.literal .null)
        false).eval env).toTruth = some x.isNull := by
      simp [Expression.eval, hcell, Cell.toTruth_ofTruth, Expression.negateIf, Expression.sameCells,
        Cell.isNull]
    rw [patternExpression, if_pos rfl, if_pos rfl, Expression.eval, Cell.toTruth_ofTruth, hmissing,
      Expression.eval, Cell.toTruth_ofTruth, hlike]

/-- How true a condition by pattern is of the cell of its column. -/
def patternTruth (lacks : Bool) (v : String) (x : Cell) : Truth :=
  let like := likeness x (.text (containing (.text v)))
  if lacks then Truth.or (some x.isNull) like.not else like

theorem patternTruth_iff {x : Cell} (hx : ColumnType.text.Takes x) (lacks : Bool) (v : String) :
    patternTruth lacks v x = some true ↔
      if lacks then (x.toScalar .text).Lacks v else (x.toScalar .text).Contains v := by
  unfold patternTruth
  cases x with
  | null =>
    have hunknown : likeness .null (.text (containing (.text v))) = none := rfl
    rw [hunknown]
    cases lacks with
    | false => exact ⟨nofun, False.elim⟩
    | true => exact ⟨fun _ => trivial, fun _ => rfl⟩
  | text s =>
    rw [likeness_text]
    cases lacks with
    | false => simp [Scalar.Contains, Cell.toScalar]
    | true =>
      by_cases hin : foldCase v.toList <:+: foldCase s.toList <;>
        simp [Scalar.Lacks, Cell.toScalar, Cell.isNull, Truth.or, Truth.not, hin]
  | int i | real y | instant i => exact hx.elim

/-- Whatever a cell is, it contains a text or does not. -/
theorem patternTruth_lacks_iff (v : String) (x : Cell) :
    patternTruth true v x = some true ↔ patternTruth false v x ≠ some true := by
  have hnull : x.isNull = false →
      ∃ b, likeness x (.text (containing (.text v))) = some b := by
    intro hx
    refine ⟨_, if_neg ?_⟩
    cases x with
    | null => cases hx
    | _ => exact Bool.false_ne_true
  unfold patternTruth
  cases hx : x.isNull with
  | true =>
    cases x with
    | null => exact iff_of_true rfl nofun
    | _ => cases hx
  | false =>
    obtain ⟨b, hb⟩ := hnull hx
    rw [hb]
    cases b <;> simp [Truth.or, Truth.not]

/-! ## The parameter of a pattern -/

section Param

variable {ref : ColumnRef} {p : String} (hp : IsParam p) (lacks : Bool)

include hp

/-- A pattern may give a value to its parameter. -/
theorem mem_declared_pattern : p ∈ declared (patternText lacks ref p) := by
  have hend : (patternEnd lacks).toList.head? = some ')' := by cases lacks <;> rfl
  have hname : declaredName (p.toList ++ (patternEnd lacks).toList) = some p.toList := by
    have htake : (p.toList ++ (patternEnd lacks).toList).takeWhile Text.isWord = p.toList ∧
        (p.toList ++ (patternEnd lacks).toList).dropWhile Text.isWord =
          (patternEnd lacks).toList := by
      rw [List.takeWhile_append_of_pos hp.2, List.dropWhile_append_of_pos hp.2]
      cases lacks <;> simp [patternEnd, show Text.isWord ')' = false by decide]
    unfold declaredName
    rw [htake.1, htake.2, hend, if_neg (by decide), if_neg (by simpa using hp.1)]
  have hbefore : (((patternHead lacks ref).toList ++ ") LIKE LOWER(".toList).getLast?.or none).any
      blocksColon = false := by
    rw [Option.or_none, List.getLast?_append]
    rfl
  rw [declared, List.mem_eraseDups, List.mem_map, toList_patternText]
  refine ⟨p.toList, mem_of_declares (declares_append _ (.here hbefore hname)) ?_,
    String.ofList_toList⟩
  intro _ hd
  cases hd

theorem checkFragment_pattern (hfree : p ∉ Fragment.reserved) (v : Value) :
    checkFragment (pattern lacks ref p v) = .ok (pattern lacks ref p v) := by
  obtain ⟨r, hr⟩ : ∃ r, checkFragment (pattern lacks ref p v) = .ok r :=
    exists_checkFragment_iff.mpr
      (List.forall_mem_singleton.mpr ⟨hfree, mem_declared_pattern hp lacks⟩)
  exact hr.trans (congrArg _ (checkFragment_eq_ok hr).symm)

/-- The parameter is the only one, and there is room for its value. -/
theorem slots_pattern (href : IsLetteredColumn ref) (v : Value) :
    (pattern lacks ref p v).slots = [some (.cell (.text (containing v)))] := by
  have hbound : (pattern lacks ref p v).bound? p = some (.cell (.text (containing v))) := by
    rw [RawFragment.bound?, pattern, List.lookup_cons, beq_self_eq_true]
    rfl
  have hnames : paramNames (patternText lacks ref p) = [p] := by
    simp [paramNames, pieces_pattern href hp, texts, List.filterMap_map]
  change (paramNames (patternText lacks ref p)).map _ = _
  rw [hnames, List.map_singleton, hbound]

/-- Its names mean something where its column is found. -/
theorem isResolved_pattern (href : IsLetteredColumn ref) (v : Value) {env : Env} {c : Column}
    {x : Cell} (hfound : env.find (some ref.table) ref.name = .found c x) :
    (pattern lacks ref p v).isResolved env = true := by
  have hknown : Expression.isKnown env (some ref.table) ref.name false = true := by
    rw [Expression.isKnown, hfound]
  rw [RawFragment.isResolved_eq (expression?_pattern href hp lacks v)]
  cases lacks <;> simp [patternExpression, Expression.isResolved, hknown]

end Param

/-- The parameter of a pattern is called like none that is generated. -/
theorem patternParam_ne_generated (field : String) (index : Nat) (stem : String) (k : Nat) :
    patternParam field index ≠ stem ++ "_" ++ toString k := by
  intro h
  have hlist := congrArg String.toList h
  have hdigits : (toString k).toList = Nat.toDigits 10 k := by
    rw [Nat.toString_eq_ofList_toDigits, String.toList_ofList]
  have hparam : (patternParam field index).toList =
      (field.toList ++ '_' :: Nat.toDigits 10 index) ++ '_' :: "pattern".toList := by
    rw [toList_patternParam, List.append_assoc]
    rfl
  have hgenerated : (stem ++ "_" ++ toString k).toList =
      stem.toList ++ '_' :: Nat.toDigits 10 k := by
    rw [← hdigits]
    simp
  rw [hparam, hgenerated] at hlist
  have hsame := behind_inj (by decide) Nat.underscore_not_in_toDigits hlist
  have hdigit : 'p' ∈ Nat.toDigits 10 k := hsame ▸ (by decide : 'p' ∈ "pattern".toList)
  exact absurd (Nat.isDigit_of_mem_toDigits (by decide) (by decide) hdigit) (by decide)

end Condition

/-! ## Writing a pattern -/

namespace Written

variable {α β : Type} {w : Written α} {f : α → Written β}

/-- Something can be written where all names so far have been generated. -/
def Starts (w : Written α) : Prop := ∀ n : Naming, n.Fresh → ∃ x, w n = .ok x

theorem Succeeds.bind_starts (hw : w.Succeeds) (hf : ∀ a, (f a).Starts) : (w >>= f).Starts := by
  intro n hn
  obtain ⟨a, n', hwn, hn'⟩ := hw n hn
  obtain ⟨x, hx⟩ := hf a n' hn'
  exact ⟨x, bind_eq_ok_iff.mpr ⟨(a, n'), hwn, hx⟩⟩

theorem Starts.bind (hw : w.Starts) (hf : ∀ a n, ∃ x, f a n = .ok x) : (w >>= f).Starts := by
  intro n hn
  obtain ⟨⟨a, n'⟩, hwn⟩ := hw n hn
  obtain ⟨x, hx⟩ := hf a n'
  exact ⟨x, bind_eq_ok_iff.mpr ⟨(a, n'), hwn, hx⟩⟩

end Written

/-- Characters are written as they are. -/
theorem RawFragment.exists_writePieces_texts {params : List (String × Value)} {n n' : Naming}
    {ps : List Piece} (cs : List Char) (h : ∃ t, writePieces params ps n = .ok (t, n')) :
    ∃ t, writePieces params (texts cs ++ ps) n = .ok (t, n') := by
  induction cs with
  | nil => exact h
  | cons c cs ih =>
    obtain ⟨t, ht⟩ := ih
    exact ⟨_, bind_eq_ok_iff.mpr ⟨(t, n'), ht, rfl⟩⟩

/-- A list of values can be written where the name of its parameter is not in use. -/
theorem Clause.exists_write_listed {n : Naming} (c : SourceColumn) (vs : List Scalar)
    (h : ∀ q ∈ n.params, q.name ≠ (n.counters.fresh (Statement.stem c.column.name)).1) :
    ∃ x, (Clause.amongValues c vs false).write n = .ok x := by
  have hfree : (n.params.any fun q => q.name ==
      (n.counters.fresh (Statement.stem c.column.name)).1 && (true || q.generated)) = false := by
    rw [List.any_eq_false]
    intro q hq
    rw [beq_false_of_ne (h q hq)]
    exact Bool.false_ne_true
  have hparam : ∃ n', addParam
      ⟨(n.counters.fresh (Statement.stem c.column.name)).1, .many vs, true⟩
        (n.bumped (Statement.stem c.column.name)) = .ok ((), n') :=
    ⟨_, if_neg (Bool.eq_false_iff.mp hfree)⟩
  obtain ⟨n', hn'⟩ := hparam
  rw [Clause.write]
  exact ⟨_, bind_eq_ok_iff.mpr ⟨((), n'), hn', rfl⟩⟩

section Pattern

open Condition Written

variable {ref : ColumnRef} (href : IsLetteredColumn ref) {field : String}
  (hfield : IsLettered field) (lacks : Bool) (v : Value) (index : Nat)

include href hfield

/-- A pattern adds its parameter to those that have been generated. -/
theorem exists_write_pattern {n : Naming} (hn : n.Fresh) : ∃ text param,
    param.name = patternParam field index ∧
    (Clause.raw (pattern lacks ref (patternParam field index) v)).write n =
      .ok (text, { n with params := n.params ++ [param] }) := by
  have hfree : (n.params.any fun q => q.name == patternParam field index &&
      (false || q.generated)) = false := by
    rw [List.any_eq_false]
    intro q hq
    obtain ⟨stem, k, hname, -⟩ := hn q hq
    rw [hname, beq_false_of_ne (patternParam_ne_generated field index stem k).symm]
    exact Bool.false_ne_true
  let r := pattern lacks ref (patternParam field index) v
  let param : Param := ⟨patternParam field index,
    .one ((r.params.lookup (patternParam field index)).getD .null), false⟩
  have hparam : ∃ t, RawFragment.writePieces r.params
      (.param param.name :: (texts (patternEnd lacks).toList ++ [])) n =
        .ok (t, { n with params := n.params ++ [param] }) := by
    obtain ⟨t, ht⟩ := RawFragment.exists_writePieces_texts (patternEnd lacks).toList
      (⟨"", rfl⟩ : ∃ t, RawFragment.writePieces r.params [] _ = .ok (t, _))
    exact ⟨_, bind_eq_ok_iff.mpr ⟨((), _), if_neg (Bool.eq_false_iff.mp hfree),
      bind_eq_ok_iff.mpr ⟨_, ht, rfl⟩⟩⟩
  obtain ⟨t, ht⟩ := RawFragment.exists_writePieces_texts
    ((patternHead lacks ref).toList ++ ") LIKE LOWER(".toList) hparam
  rw [List.append_nil, ← pieces_pattern href (isParam_patternParam hfield index)] at ht
  exact ⟨t, param, rfl, ht⟩

/-- It can be written before a list of values for a column. -/
theorem starts_pattern (c : SourceColumn) (vs : List Scalar) : Starts (Clause.writeAll
    [.raw (pattern lacks ref (patternParam field index) v), .amongValues c vs false]) := by
  intro n hn
  obtain ⟨text, param, hname, hpattern⟩ := exists_write_pattern href hfield lacks v index hn
  have hfree : ∀ q ∈ n.params ++ [param],
      q.name ≠ (n.counters.fresh (Statement.stem c.column.name)).1 := by
    refine List.forall_mem_append.mpr ⟨fun q => hn.ne_fresh _, List.forall_mem_singleton.mpr ?_⟩
    rw [hname]
    exact patternParam_ne_generated field index _ _
  obtain ⟨x, hx⟩ := Clause.exists_write_listed (n := { n with params := n.params ++ [param] }) c vs
    hfree
  have hlist : Clause.writeAll [.amongValues c vs false] { n with params := n.params ++ [param] } =
      .ok ([x.1], x.2) := bind_eq_ok_iff.mpr ⟨x, hx, rfl⟩
  exact ⟨_, bind_eq_ok_iff.mpr ⟨_, hpattern, bind_eq_ok_iff.mpr ⟨_, hlist, rfl⟩⟩⟩

end Pattern

namespace Select

open Written

theorem under_conditions (s : Select) : s.under s.conditions = s := by
  cases s
  rfl

/-- A statement can be written whose conditions can be written behind its columns and joins. -/
theorem render_of_starts {s : Select} (hj : ∀ j ∈ s.joins, Succeeds j.on.write)
    (hc : Starts (Clause.writeAll s.conditions)) (ho : s.orders = []) (hl : s.limit = none) :
    ∃ x, s.render = .ok x := by
  obtain ⟨columns, base, joins, conditions, orders, limit⟩ := s
  obtain rfl : orders = [] := ho
  obtain rfl : limit = none := hl
  have hstarts : Starts (Select.write ⟨columns, base, joins, conditions, [], none⟩) := by
    rw [Select.write]
    refine (writeColumns_succeeds 0 .empty columns).bind_starts fun _ => ?_
    refine (JoinedSource.writeAll_succeeds hj).bind_starts fun _ => ?_
    exact hc.bind fun _ _ => ⟨_, rfl⟩
  obtain ⟨⟨text, n⟩, hw⟩ := hstarts Naming.empty .empty
  exact ⟨_, map_eq_ok_iff.mpr ⟨(text, n), hw, rfl⟩⟩

end Select

end Chronicle
