import ComputeKernel.Number.Binary32
import Mathlib.Algebra.Order.Field.Rat
import Mathlib.Order.Monotone.Basic
import Mathlib.Tactic.Linarith
import Mathlib.Tactic.Positivity
import Mathlib.Tactic.Ring

namespace ComputeKernel.Binary32

def unitsAt (m : Nat) : Nat :=
  if m / 0x800000 = 0 then m else (m % 0x800000 + 0x800000) * 2 ^ (m / 0x800000 - 1)

theorem units_eq (x : Binary32) : x.units = unitsAt x.magnitude := by
  unfold units unitsAt significand scale exponentField fraction
  split
  · rename_i hsmall
    have hmod : x.magnitude % 0x800000 = x.magnitude := by omega
    simp [hsmall, hmod]
  · rfl

theorem unitsAt_succ (m : Nat) : unitsAt (m + 1) = unitsAt m + 2 ^ (m / 0x800000 - 1) := by
  unfold unitsAt
  by_cases hwrap : m % 0x800000 = 0x7fffff
  · have hdiv : (m + 1) / 0x800000 = m / 0x800000 + 1 := by omega
    have hmod : (m + 1) % 0x800000 = 0 := by omega
    rw [hdiv, hmod, if_neg (by omega)]
    split
    · rename_i hsmall
      have hm : m = 0x7fffff := by omega
      simp [hm]
    · rename_i hlarge
      obtain ⟨e, he⟩ : ∃ e, m / 0x800000 = e + 1 := ⟨m / 0x800000 - 1, by omega⟩
      rw [he, hwrap]
      simp only [Nat.add_sub_cancel, Nat.pow_succ]
      ring
  · have hdiv : (m + 1) / 0x800000 = m / 0x800000 := by omega
    have hmod : (m + 1) % 0x800000 = m % 0x800000 + 1 := by omega
    rw [hdiv, hmod]
    split
    · rename_i hsmall
      simp [hsmall]
    · ring

theorem unitsAt_strictMono : StrictMono unitsAt :=
  strictMono_nat_of_lt_succ fun m => by
    rw [unitsAt_succ]
    exact Nat.lt_add_of_pos_right (Nat.two_pow_pos _)

theorem unitsAt_pred {m : Nat} (h : m ≠ 0) :
    unitsAt m = unitsAt (m - 1) + 2 ^ ((m - 1) / 0x800000 - 1) := by
  have hstep := unitsAt_succ (m - 1)
  rwa [Nat.sub_add_cancel (by omega)] at hstep

def value (x : Binary32) : ℚ := (if x.negative then -(x.units : ℚ) else x.units) / 2 ^ 149

theorem significand_mod_two (x : Binary32) : x.significand % 2 = x.magnitude % 2 := by
  unfold significand fraction
  split <;> omega

theorem eq_of_magnitude_eq {x y : Binary32} (hsign : x.negative = y.negative)
    (h : x.magnitude = y.magnitude) : x = y := by
  have hx := x.bits.toNat_lt
  have hy := y.bits.toNat_lt
  have hbits : x.bits.toNat = y.bits.toNat := by
    simp only [negative, magnitude, decide_eq_decide] at hsign h
    omega
  cases x
  cases y
  exact congrArg Binary32.mk (UInt32.toNat_inj.mp hbits)

structure RoundsTo (q : ℚ) (x : Binary32) : Prop where
  inRange : |q| < (2 ^ 25 - 1) * 2 ^ 103
  finite : x.isFinite = true
  nearest : ∀ y : Binary32, y.isFinite = true → |q - x.value| ≤ |q - y.value|
  even : ∀ y : Binary32, y.isFinite = true → y.value ≠ x.value →
    |q - x.value| = |q - y.value| → x.significand % 2 = 0

structure Between (m : Nat) (t : ℚ) : Prop where
  low : (unitsAt (m - 1) : ℚ) + unitsAt m ≤ 2 * t
  high : 2 * t ≤ unitsAt m + unitsAt (m + 1)
  odd : m % 2 = 1 → (unitsAt (m - 1) : ℚ) + unitsAt m ≠ 2 * t ∧ 2 * t ≠ unitsAt m + unitsAt (m + 1)

section Between

variable {m m' : Nat} {t : ℚ}

theorem Between.pos (h : Between m t) (hm : m ≠ 0) : 0 < t := by
  have hstep : (unitsAt 0 : ℚ) < unitsAt m := by
    exact_mod_cast unitsAt_strictMono (Nat.pos_of_ne_zero hm)
  have hlow := h.low
  have : (0 : ℚ) ≤ unitsAt (m - 1) := Nat.cast_nonneg _
  have : (0 : ℚ) ≤ unitsAt 0 := Nat.cast_nonneg _
  linarith

theorem Between.nearest (h : Between m t) (hm : m ≠ 0) (hne : m' ≠ m) :
    |t - unitsAt m| ≤ |t - unitsAt m'| ∧
      (|t - unitsAt m| = |t - unitsAt m'| → m % 2 = 0 ∧ m' % 2 = 1) := by
  have hlow := h.low
  have hhigh := h.high
  have hbelow : (unitsAt (m - 1) : ℚ) < unitsAt m := by
    exact_mod_cast unitsAt_strictMono (show m - 1 < m by omega)
  have habove : (unitsAt m : ℚ) < unitsAt (m + 1) := by
    exact_mod_cast unitsAt_strictMono (show m < m + 1 by omega)
  rcases Nat.lt_or_gt_of_ne hne with hlt | hgt
  · have hle : (unitsAt m' : ℚ) ≤ unitsAt (m - 1) := by
      exact_mod_cast unitsAt_strictMono.monotone (show m' ≤ m - 1 by omega)
    have hdist : |t - unitsAt m'| = t - unitsAt m' := abs_of_pos (by linarith)
    rw [hdist]
    refine ⟨abs_le.mpr ⟨by linarith, by linarith⟩, fun heq => ?_⟩
    rcases abs_cases (t - unitsAt m) with ⟨habs, -⟩ | ⟨habs, -⟩
    · linarith
    · have hsame : (unitsAt m' : ℚ) = unitsAt (m - 1) := by linarith
      have hpattern : m' = m - 1 := unitsAt_strictMono.injective (by exact_mod_cast hsame)
      have hodd : ¬m % 2 = 1 := fun hodd => (h.odd hodd).1 (by linarith)
      omega
  · have hle : (unitsAt (m + 1) : ℚ) ≤ unitsAt m' := by
      exact_mod_cast unitsAt_strictMono.monotone (show m + 1 ≤ m' by omega)
    have hdist : |t - unitsAt m'| = unitsAt m' - t := by
      rw [abs_sub_comm]
      exact abs_of_pos (by linarith)
    rw [hdist]
    refine ⟨abs_le.mpr ⟨by linarith, by linarith⟩, fun heq => ?_⟩
    rcases abs_cases (t - unitsAt m) with ⟨habs, -⟩ | ⟨habs, -⟩
    · have hsame : (unitsAt m' : ℚ) = unitsAt (m + 1) := by linarith
      have hpattern : m' = m + 1 := unitsAt_strictMono.injective (by exact_mod_cast hsame)
      have hodd : ¬m % 2 = 1 := fun hodd => (h.odd hodd).2 (by linarith)
      omega
    · linarith

theorem Between.lt_opposite (h : Between m t) (hm : m ≠ 0) (m' : Nat) :
    |t - unitsAt m| < t + unitsAt m' := by
  have hlow := h.low
  have hpos := h.pos hm
  have hother : (0 : ℚ) ≤ unitsAt m' := Nat.cast_nonneg _
  have hbelow : (0 : ℚ) ≤ unitsAt (m - 1) := Nat.cast_nonneg _
  have hunits : (0 : ℚ) < unitsAt m := by
    exact_mod_cast Nat.zero_lt_of_lt (unitsAt_strictMono (Nat.pos_of_ne_zero hm))
  refine abs_lt.mpr ⟨?_, by linarith⟩
  by_cases hone : m = 1
  · -- The midpoint to zero is not reached, since the pattern is odd.
    have hne := (h.odd (by omega)).1
    have hlt := lt_of_le_of_ne hlow hne
    linarith
  · have hstep : (unitsAt 0 : ℚ) < unitsAt (m - 1) := by
      exact_mod_cast unitsAt_strictMono (show 0 < m - 1 by omega)
    have : (0 : ℚ) ≤ unitsAt 0 := Nat.cast_nonneg _
    linarith

end Between

section Rounding

variable {x : Binary32} {t : ℚ}

def withSign (x : Binary32) (t : ℚ) : ℚ := (if x.negative then -t else t) / 2 ^ 149

theorem value_eq (x : Binary32) : x.value = x.withSign (unitsAt x.magnitude) := by
  rw [value, units_eq]
  rfl

theorem abs_withSign (ht : 0 ≤ t) : |x.withSign t| = t / 2 ^ 149 := by
  unfold withSign
  split <;> simp [abs_div, abs_of_nonneg ht]

theorem abs_value (x : Binary32) : |x.value| = unitsAt x.magnitude / 2 ^ 149 := by
  rw [value_eq, abs_withSign (Nat.cast_nonneg _)]

theorem abs_value_lt_iff (x y : Binary32) : |x.value| < |y.value| ↔ x.magnitude < y.magnitude := by
  rw [abs_value, abs_value, div_lt_div_iff_of_pos_right (by positivity), Nat.cast_lt,
    unitsAt_strictMono.lt_iff_lt]

theorem value_ne_zero_iff (x : Binary32) : x.value ≠ 0 ↔ x.magnitude ≠ 0 := by
  have hzero : unitsAt x.magnitude = 0 ↔ x.magnitude = 0 :=
    unitsAt_strictMono.injective.eq_iff' rfl
  rw [← abs_ne_zero, abs_value, Ne, div_eq_zero_iff, or_iff_left (by positivity), Nat.cast_eq_zero,
    hzero]

theorem withSign_mul (x : Binary32) (t u : ℚ) :
    x.withSign t * x.withSign u = t * u / (2 ^ 149 * 2 ^ 149) := by
  unfold withSign
  split <;> ring

theorem abs_withSign_sub (x : Binary32) (t u : ℚ) :
    |x.withSign t - x.withSign u| = |t - u| / 2 ^ 149 := by
  unfold withSign
  rw [← sub_div, abs_div, abs_of_pos (show (0 : ℚ) < 2 ^ 149 by positivity)]
  split
  · rw [neg_sub_neg, abs_sub_comm]
  · rfl

theorem abs_sub_opposite {y : Binary32} (hsign : y.negative ≠ x.negative) {u : ℚ} (ht : 0 ≤ t)
    (hu : 0 ≤ u) : |x.withSign t - y.withSign u| = (t + u) / 2 ^ 149 := by
  have hsum : |t + u| = t + u := abs_of_nonneg (by linarith)
  unfold withSign
  rw [← sub_div, abs_div, abs_of_pos (show (0 : ℚ) < 2 ^ 149 by positivity)]
  cases hx : x.negative <;> cases hy : y.negative
  · exact absurd (hy.trans hx.symm) hsign
  · simp [hsum]
  · rw [if_pos rfl, if_neg (by decide), ← neg_add', abs_neg, hsum]
  · exact absurd (hy.trans hx.symm) hsign

theorem Between.nearer (h : Between x.magnitude t) (hm : x.magnitude ≠ 0) {y : Binary32}
    (hne : y ≠ x) : |x.withSign t - x.value| ≤ |x.withSign t - y.value| ∧
      (|x.withSign t - x.value| = |x.withSign t - y.value| →
        x.magnitude % 2 = 0 ∧ y.magnitude % 2 = 1 ∧ y.value ≠ x.value) := by
  have hscale : (0 : ℚ) < 2 ^ 149 := by positivity
  rw [x.value_eq, y.value_eq, abs_withSign_sub]
  by_cases hsign : y.negative = x.negative
  · have hmagnitude : y.magnitude ≠ x.magnitude := fun hsame => hne (eq_of_magnitude_eq hsign hsame)
    have hy (u : ℚ) : y.withSign u = x.withSign u := by simp only [withSign, hsign]
    obtain ⟨hle, htie⟩ := h.nearest hm hmagnitude
    rw [hy, abs_withSign_sub]
    refine ⟨div_le_div_of_nonneg_right hle hscale.le, fun heq => ?_⟩
    obtain ⟨heven, hodd⟩ := htie ((div_left_inj' hscale.ne').mp heq)
    refine ⟨heven, hodd, fun hsame => ?_⟩
    have hdiff := abs_withSign_sub x (unitsAt y.magnitude) (unitsAt x.magnitude)
    rw [hsame, sub_self, abs_zero, eq_comm, div_eq_zero_iff, or_iff_left hscale.ne', abs_eq_zero,
      sub_eq_zero] at hdiff
    exact hmagnitude (unitsAt_strictMono.injective (by exact_mod_cast hdiff))
  · have hlt := h.lt_opposite hm y.magnitude
    rw [abs_sub_opposite hsign (h.pos hm).le (Nat.cast_nonneg _)]
    have hfar := div_lt_div_of_pos_right hlt hscale
    exact ⟨hfar.le, fun heq => absurd heq hfar.ne⟩

theorem Between.roundsTo_iff (h : Between x.magnitude t) (hm : x.magnitude ≠ 0)
    (hfinite : x.isFinite = true) (hrange : |x.withSign t| < (2 ^ 25 - 1) * 2 ^ 103) (y : Binary32) :
    RoundsTo (x.withSign t) y ↔ y = x := by
  constructor
  · intro hy
    by_contra hne
    obtain ⟨hle, htie⟩ := h.nearer hm hne
    have heq := le_antisymm hle (hy.nearest x hfinite)
    obtain ⟨-, hodd, hvalue⟩ := htie heq
    have heven := hy.even x hfinite hvalue.symm heq.symm
    rw [significand_mod_two] at heven
    omega
  · rintro rfl
    refine ⟨hrange, hfinite, fun z _ => ?_, fun z _ hvalue heq => ?_⟩
    · by_cases hne : z = y
      · rw [hne]
      · exact (h.nearer hm hne).1
    · have hne : z ≠ y := fun hsame => hvalue (congrArg value hsame)
      rw [significand_mod_two]
      exact ((h.nearer hm hne).2 heq).1

end Rounding

end ComputeKernel.Binary32
