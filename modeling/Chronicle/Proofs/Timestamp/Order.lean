import Chronicle.Proofs.Timestamp.Key

/-!
# The order of timestamps

Timestamps are ordered by their instants and told apart by their keys.  The operators of the order
are made of both, and so they contradict each other on timestamps with different keys that resolve
to one instant, and on no others.

* `Timestamp.before_eq`, `Timestamp.after_eq`, ...: what the operators say of timestamps that
  resolve;
* `Timestamp.consistent_iff`: the operators agree with each other exactly where timestamps of one
  instant have one key;
* `Timestamp.not_consistent_absolute`: they do not agree on a relative timestamp and its instant.
-/

namespace Chronicle

open Chronicle.Calendar

/-- Of two instants the first one is earlier, the same or later. -/
theorem Calendar.Instant.before_or_same (x y : Instant) :
    (decide (x < y) || decide (x = y)) = !decide (y < x) := by
  obtain ⟨m⟩ := x
  obtain ⟨n⟩ := y
  simp only [Instant.lt_iff, Instant.mk.injEq]
  rcases Nat.lt_trichotomy m n with hlt | rfl | hgt
  · simp [hlt, hlt.not_gt]
  · simp
  · simp [hgt, hgt.not_gt, hgt.ne']

theorem Calendar.Instant.not_before_or_same (x y : Instant) :
    (!decide (x < y) && !decide (x = y)) = decide (y < x) := by
  rw [← Bool.not_or, before_or_same, Bool.not_not]

namespace Timestamp

/-- The operators of the order agree with each other on two timestamps. -/
structure Consistent (present : Instant) (a b : Timestamp) : Prop where
  after_eq : after present a b = before present b a
  notAfter_eq : notAfter present a b = (before present b a).map (!·)
  notBefore_eq : notBefore present a b = notAfter present b a
  not_after_both : ¬ (after present a b = .ok true ∧ after present b a = .ok true)
  not_before_of_same : a.same b = true →
    before present a b = .ok false ∧ before present b a = .ok false

theorem same_comm (a b : Timestamp) : a.same b = b.same a := Bool.beq_comm

section Resolved

variable {present : Instant} {a b : Timestamp} {x y : Instant} (hx : a.resolve present = .ok x)
  (hy : b.resolve present = .ok y)

include hx hy

theorem before_eq : before present a b = .ok (decide (x < y)) := by
  unfold before
  rw [hx, hy]
  rfl

theorem after_eq : after present a b = .ok (!decide (x < y) && !a.same b) := by
  unfold after
  rw [before_eq hx hy]
  rfl

theorem notAfter_eq : notAfter present a b = .ok (decide (x < y) || a.same b) := by
  unfold notAfter
  rw [before_eq hx hy]
  rfl

theorem notBefore_eq : notBefore present a b = .ok (!decide (x < y)) := by
  unfold notBefore
  rw [before_eq hx hy]
  rfl

/-- Timestamps that are the same resolve to one instant. -/
theorem eq_of_same (ha : a.IsProper) (hb : b.IsProper) (h : a.same b = true) : x = y := by
  have hresolve := resolveAt_of_key ha hb (beq_iff_eq.mp h) none present
  rw [resolveAt_none, resolveAt_none, hx, hy] at hresolve
  exact Except.ok.inj hresolve

/-- Where equality of the keys is that of the instants, what is after comes later. -/
theorem after_eq_of_same (hsame : a.same b = decide (x = y)) :
    after present a b = before present b a := by
  rw [after_eq hx hy, before_eq hy hx, hsame, Instant.not_before_or_same]

theorem notAfter_eq_of_same (hsame : a.same b = decide (x = y)) :
    notAfter present a b = .ok (!decide (y < x)) := by
  rw [notAfter_eq hx hy, hsame, Instant.before_or_same]

theorem consistent_of_same (ha : a.IsProper) (hb : b.IsProper) (h : x = y → a.same b = true) :
    Consistent present a b := by
  have hsame : a.same b = decide (x = y) :=
    Bool.eq_iff_iff.mpr ⟨fun hs => decide_eq_true (eq_of_same hx hy ha hb hs),
      fun hd => h (of_decide_eq_true hd)⟩
  have hsame' : b.same a = decide (y = x) := by
    rw [same_comm, hsame, decide_eq_decide]
    exact eq_comm
  constructor
  · exact after_eq_of_same hx hy hsame
  · rw [notAfter_eq_of_same hx hy hsame, before_eq hy hx]
    rfl
  · rw [notBefore_eq hx hy, notAfter_eq_of_same hy hx hsame']
  · rw [after_eq_of_same hx hy hsame, after_eq_of_same hy hx hsame', before_eq hx hy,
      before_eq hy hx, Except.ok.injEq, Except.ok.injEq, decide_eq_true_eq, decide_eq_true_eq,
      Instant.lt_iff, Instant.lt_iff]
    omega
  · intro hs
    obtain rfl := eq_of_same hx hy ha hb hs
    have hirrefl : ¬ x < x := Nat.lt_irrefl x.micros
    rw [before_eq hx hy, before_eq hy hx, decide_eq_false hirrefl]
    exact ⟨rfl, rfl⟩

omit hy in
/-- Of timestamps with different keys and one instant each is after the other, and neither is before
the other nor at the same time. -/
theorem of_tie (hy : b.resolve present = .ok x) (h : a.same b = false) :
    after present a b = .ok true ∧ before present a b = .ok false ∧
      notAfter present a b = .ok false ∧ notBefore present a b = .ok true := by
  have hirrefl : decide (x < x) = false := decide_eq_false (Nat.lt_irrefl x.micros)
  rw [after_eq hx hy, before_eq hx hy, notAfter_eq hx hy, notBefore_eq hx hy, hirrefl, h]
  exact ⟨rfl, rfl, rfl, rfl⟩

omit hy in
theorem not_consistent_of_tie (hy : b.resolve present = .ok x) (h : a.same b = false) :
    ¬ Consistent present a b := by
  intro hc
  exact hc.not_after_both ⟨(of_tie hx hy h).1, (of_tie hy hx ((same_comm b a).trans h)).1⟩

/-- The operators follow the instants, and agree with each other exactly where timestamps of one
instant have one key.  Where they do not, each timestamp is after the other one, and neither is at
most the other. -/
theorem consistent_iff (ha : a.IsProper) (hb : b.IsProper) :
    before present a b = .ok (decide (x < y)) ∧ before present b a = .ok (decide (y < x)) ∧
      (Consistent present a b ↔ (x = y → a.same b = true)) ∧
      (¬ Consistent present a b → after present a b = .ok true ∧ after present b a = .ok true ∧
        notAfter present a b = .ok false ∧ notAfter present b a = .ok false) := by
  have htie : ¬ (x = y → a.same b = true) → x = y ∧ a.same b = false := fun h =>
    (Classical.not_imp.mp h).imp_right (Bool.not_eq_true _).mp
  have hiff : Consistent present a b ↔ (x = y → a.same b = true) := by
    refine ⟨fun hc => ?_, consistent_of_same hx hy ha hb⟩
    by_contra h
    obtain ⟨rfl, hs⟩ := htie h
    exact not_consistent_of_tie hx hy hs hc
  refine ⟨before_eq hx hy, before_eq hy hx, hiff, fun hc => ?_⟩
  obtain ⟨rfl, hs⟩ := htie (hiff.not.mp hc)
  obtain ⟨hab, -, hnab, -⟩ := of_tie hx hy hs
  obtain ⟨hba, -, hnba, -⟩ := of_tie hy hx ((same_comm b a).trans hs)
  exact ⟨hab, hba, hnab, hnba⟩

end Resolved

/-- A day and its hours before the present, which are one instant and two keys. -/
theorem not_consistent_day : ∃ present, ∃ a b : Timestamp, a.IsProper ∧ b.IsProper ∧
    a.key = "P-1D" ∧ b.key = "PT-24H" ∧ a.resolve present = b.resolve present ∧
    ¬ Consistent present a b ∧ after present a b = .ok true ∧ after present b a = .ok true := by
  let present : Instant := ⟨738000 * microsPerDay⟩
  let before : Instant := ⟨737999 * microsPerDay⟩
  let a : Timestamp := .relative ⟨0, 0, 0, -1, 0, 0, .whole 0⟩
  let b : Timestamp := .relative ⟨0, 0, 0, 0, -24, 0, .whole 0⟩
  have hok : ∀ t : Timestamp, (t.resolve present).toOption = some before →
      t.resolve present = .ok before := by
    intro t h
    cases ht : t.resolve present <;> rw [ht] at h <;> cases h
    rfl
  have ha : a.resolve present = .ok before := hok a (by decide +kernel)
  have hb : b.resolve present = .ok before := hok b (by decide +kernel)
  have hkey : a.same b = false := by decide +kernel
  have hproper : a.IsProper := Seconds.isProper_whole 0
  have hproper' : b.IsProper := Seconds.isProper_whole 0
  obtain ⟨-, -, hiff, htie⟩ := consistent_iff ha hb hproper hproper'
  have hnot : ¬ Consistent present a b := fun hc =>
    Bool.false_ne_true (hkey.symm.trans (hiff.mp hc rfl))
  obtain ⟨hab, hba, -⟩ := htie hnot
  exact ⟨present, a, b, hproper, hproper', by decide +kernel, by decide +kernel,
    ha.trans hb.symm, hnot, hab, hba⟩

/-- A relative timestamp and the instant that it resolves to are never ordered. -/
theorem not_consistent_absolute {present x : Instant} {d : Duration} (hd : d.seconds.IsProper)
    (hx : (relative d).resolve present = .ok x) :
    ¬ Consistent present (relative d) (absolute x) := by
  have hkey : ¬ (relative d).key = (absolute x).key := (key_ne_key x hd).symm
  exact not_consistent_of_tie hx rfl (beq_eq_false_iff_ne.mpr hkey)

end Timestamp

end Chronicle
