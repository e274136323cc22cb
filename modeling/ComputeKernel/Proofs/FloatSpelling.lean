import ComputeKernel.Literal
import ComputeKernel.Proofs.FloatSpacing
import ComputeKernel.Proofs.SpelledDecimals
import Mathlib.Tactic.FieldSimp

namespace ComputeKernel

section Halves

variable {den : Nat}

theorem roundHalfEven_bounds (num : Nat) (h : 0 < den) :
    2 * (roundHalfEven num den * den) ≤ 2 * num + den ∧
      2 * num ≤ 2 * (roundHalfEven num den * den) + den := by
  have hsplit := Nat.div_add_mod num den
  have hrest := Nat.mod_lt num h
  have hsucc : (num / den + 1) * den = den * (num / den) + den := by ring
  have hsame : num / den * den = den * (num / den) := Nat.mul_comm ..
  simp only [roundHalfEven]
  split
  · omega
  · split
    · omega
    · split <;> omega

theorem roundHalfEven_eq_zero_iff (num : Nat) (h : 0 < den) :
    roundHalfEven num den = 0 ↔ 2 * num ≤ den := by
  have hbounds := roundHalfEven_bounds num h
  constructor
  · intro hzero
    rw [hzero] at hbounds
    omega
  · intro hle
    have hdiv : num / den = 0 := Nat.div_eq_of_lt (by omega)
    have hmod : num % den = num := Nat.mod_eq_of_lt (by omega)
    simp only [roundHalfEven, hdiv, hmod]
    split
    · rfl
    · split
      · omega
      · rfl

end Halves

namespace Binary32

variable {x : Binary32} {digits places : Nat}

theorem unitsAt_below (hm : x.magnitude ≠ 0) : unitsAt x.magnitude = unitsAt (x.magnitude - 1) +
    (if x.fraction = 0 ∧ 1 < x.exponentField then 2 ^ (x.scale - 1) else 2 ^ x.scale) := by
  rw [unitsAt_pred hm]
  unfold scale fraction exponentField
  split
  · rename_i hpower
    have hdiv : (x.magnitude - 1) / 0x800000 = x.magnitude / 0x800000 - 1 := by omega
    rw [hdiv]
  · rename_i hother
    have hdiv : (x.magnitude - 1) / 0x800000 - 1 = x.magnitude / 0x800000 - 1 := by omega
    rw [hdiv]

theorem readsBack_iff (hm : x.magnitude ≠ 0) : x.readsBack digits places = true ↔
    (unitsAt (x.magnitude - 1) + unitsAt x.magnitude) * 10 ^ places ≤ 2 * digits * 2 ^ 149 ∧
    2 * digits * 2 ^ 149 ≤ (unitsAt x.magnitude + unitsAt (x.magnitude + 1)) * 10 ^ places ∧
    (x.magnitude % 2 = 1 →
      (unitsAt (x.magnitude - 1) + unitsAt x.magnitude) * 10 ^ places ≠ 2 * digits * 2 ^ 149 ∧
      2 * digits * 2 ^ 149 ≠ (unitsAt x.magnitude + unitsAt (x.magnitude + 1)) * 10 ^ places) := by
  have hbelow := unitsAt_below hm
  have habove : unitsAt (x.magnitude + 1) = unitsAt x.magnitude + 2 ^ x.scale :=
    unitsAt_succ x.magnitude
  have hlow : 2 * x.units -
      (if x.fraction = 0 ∧ 1 < x.exponentField then 2 ^ (x.scale - 1) else 2 ^ x.scale) =
      unitsAt (x.magnitude - 1) + unitsAt x.magnitude := by
    rw [x.units_eq]
    omega
  have hhigh : 2 * x.units + 2 ^ x.scale =
      unitsAt x.magnitude + unitsAt (x.magnitude + 1) := by
    rw [x.units_eq]
    omega
  unfold readsBack
  simp only [hlow, hhigh, significand_mod_two, one, Nat.pow_eq]
  split
  · simp only [decide_eq_true_eq]
    omega
  · simp only [decide_eq_true_eq]
    omega

theorem between_of_readsBack (hm : x.magnitude ≠ 0) (h : x.readsBack digits places = true) :
    Between x.magnitude (digits * 2 ^ 149 / 10 ^ places) := by
  obtain ⟨hlow, hhigh, hodd⟩ := (readsBack_iff hm).mp h
  have hpos : (0 : ℚ) < 10 ^ places := by positivity
  have hdouble : 2 * ((digits : ℚ) * 2 ^ 149 / 10 ^ places) = 2 * digits * 2 ^ 149 / 10 ^ places := by
    ring
  refine ⟨?_, ?_, fun hpattern => ?_⟩
  · rw [hdouble, le_div_iff₀ hpos]
    exact_mod_cast hlow
  · rw [hdouble, div_le_iff₀ hpos]
    exact_mod_cast hhigh
  · obtain ⟨hbelow, habove⟩ := hodd hpattern
    rw [hdouble, Ne, eq_div_iff hpos.ne', Ne, div_eq_iff hpos.ne']
    exact ⟨by exact_mod_cast hbelow, by exact_mod_cast habove⟩

theorem readsBack_exact (hm : x.magnitude ≠ 0) : x.readsBack (x.units * 5 ^ 149) 149 = true := by
  have hbelow : unitsAt (x.magnitude - 1) < unitsAt x.magnitude :=
    unitsAt_strictMono (show x.magnitude - 1 < x.magnitude by omega)
  have habove : unitsAt x.magnitude < unitsAt (x.magnitude + 1) :=
    unitsAt_strictMono (Nat.lt_succ_self _)
  have hten : 0 < 10 ^ 149 := by decide
  have hexact : 2 * (x.units * 5 ^ 149) * 2 ^ 149 =
      (unitsAt x.magnitude + unitsAt x.magnitude) * 10 ^ 149 := by
    rw [x.units_eq]
    ring
  have hlow := Nat.mul_lt_mul_of_pos_right (Nat.add_lt_add_right hbelow (unitsAt x.magnitude)) hten
  have hhigh := Nat.mul_lt_mul_of_pos_right (Nat.add_lt_add_left habove (unitsAt x.magnitude)) hten
  rw [readsBack_iff hm, hexact]
  exact ⟨hlow.le, hhigh.le, fun _ => ⟨hlow.ne, hhigh.ne⟩⟩

theorem readsBack_of_decimalAt? (h : x.decimalAt? places = some digits) :
    x.readsBack digits places = true := by
  unfold decimalAt? at h
  extract_lets scaled low near far at h
  split at h
  · rename_i hnear
    exact Option.some.inj h ▸ hnear
  · split at h
    · rename_i hfar
      exact Option.some.inj h ▸ hfar
    · cases h

theorem readsBack_searchPlaces (hm : x.magnitude ≠ 0) (fuel places : Nat) :
    x.readsBack (x.searchPlaces fuel places).1 (x.searchPlaces fuel places).2 = true := by
  induction fuel generalizing places with
  | zero => exact readsBack_exact hm
  | succ fuel ih =>
    rw [searchPlaces]
    cases hfound : x.decimalAt? places with
    | some digits => exact readsBack_of_decimalAt? hfound
    | none => exact ih (places + 1)

theorem decimal_value {d : Decimal} (h : d.negative = x.negative) :
    d.value = x.withSign (d.digits * 2 ^ 149 / 10 ^ d.places) := by
  unfold Decimal.value withSign
  rw [h]
  split <;> field_simp

theorem shortest_between (hm : x.magnitude ≠ 0) :
    ∃ t, Between x.magnitude t ∧ x.shortest.value = x.withSign t :=
  ⟨_, between_of_readsBack hm (readsBack_searchPlaces hm 149 0), decimal_value rfl⟩

theorem millionths_value (x : Binary32) :
    x.millionths.value = x.withSign (x.millionths.digits * 2 ^ 149 / 10 ^ 6) :=
  decimal_value rfl

theorem millionths_close (x : Binary32) : |x.millionths.value - x.value| ≤ 5 / 10 ^ 7 := by
  obtain ⟨hlow, hhigh⟩ := roundHalfEven_bounds (x.units * 1000000) (show 0 < 2 ^ 149 by decide)
  have hdigits : x.millionths.digits = roundHalfEven (x.units * 1000000) (2 ^ 149) := rfl
  rw [← hdigits, x.units_eq] at hlow hhigh
  have hlow : (2 : ℚ) * (x.millionths.digits * 2 ^ 149) ≤
      2 * (unitsAt x.magnitude * 1000000) + 2 ^ 149 := by exact_mod_cast hlow
  have hhigh : (2 : ℚ) * (unitsAt x.magnitude * 1000000) ≤
      2 * (x.millionths.digits * 2 ^ 149) + 2 ^ 149 := by exact_mod_cast hhigh
  have hscale : (0 : ℚ) < 2 ^ 149 := by positivity
  rw [millionths_value, value_eq, abs_withSign_sub, div_le_iff₀ hscale, abs_le]
  generalize (2 : ℚ) ^ 149 = one at hlow hhigh hscale ⊢
  constructor <;> linarith

theorem smallest_magnitude : smallest.magnitude = 0x350637bd := by decide +kernel

theorem unitsAt_le_half_iff (m : Nat) :
    2 * (unitsAt m * 1000000) ≤ 2 ^ 149 ↔ m ≤ smallest.magnitude := by
  have hmono {m m' : Nat} (h : m ≤ m') : 2 * (unitsAt m * 1000000) ≤ 2 * (unitsAt m' * 1000000) :=
    Nat.mul_le_mul_left 2 (Nat.mul_le_mul_right _ (unitsAt_strictMono.monotone h))
  rw [smallest_magnitude]
  constructor
  · intro hsmall
    by_contra hlarge
    have habove : 2 ^ 149 < 2 * (unitsAt (0x350637bd + 1) * 1000000) := by decide +kernel
    exact absurd (hmono (Nat.lt_of_not_le hlarge)) (Nat.not_le_of_lt (hsmall.trans_lt habove))
  · intro hle
    have hat : 2 * (unitsAt 0x350637bd * 1000000) ≤ 2 ^ 149 := by decide +kernel
    exact (hmono hle).trans hat

theorem millionths_eq_zero_iff (x : Binary32) :
    x.millionths.digits = 0 ↔ x.magnitude ≤ smallest.magnitude := by
  have hdigits : x.millionths.digits = roundHalfEven (x.units * 1000000) (2 ^ 149) := rfl
  rw [hdigits, roundHalfEven_eq_zero_iff _ (by decide), x.units_eq, unitsAt_le_half_iff]

theorem Between.le_half {m : Nat} {t : ℚ} (h : Between m t) (hsmall : m < smallest.magnitude) :
    t ≤ 5 / 10 ^ 7 * 2 ^ 149 ∧ (unitsAt m : ℚ) ≤ 5 / 10 ^ 7 * 2 ^ 149 := by
  have hhalf : (2 : ℚ) * (unitsAt (m + 1) * 1000000) ≤ 2 ^ 149 := by
    exact_mod_cast (unitsAt_le_half_iff (m + 1)).mpr hsmall
  have hnext : (unitsAt m : ℚ) ≤ unitsAt (m + 1) := by
    exact_mod_cast (unitsAt_strictMono (Nat.lt_succ_self m)).le
  have hhigh := h.high
  generalize (2 : ℚ) ^ 149 = one at hhalf ⊢
  constructor <;> linarith

theorem shortest_close (hm : x.magnitude ≠ 0) (hsmall : x.magnitude < smallest.magnitude) :
    |x.shortest.value - x.value| ≤ 5 / 10 ^ 7 := by
  obtain ⟨t, hbetween, ht⟩ := shortest_between hm
  obtain ⟨hdecimal, hnumber⟩ := hbetween.le_half hsmall
  have hunits : (0 : ℚ) ≤ unitsAt x.magnitude := Nat.cast_nonneg _
  have hpos := hbetween.pos hm
  rw [ht, value_eq, abs_withSign_sub, div_le_iff₀ (by positivity), abs_le]
  constructor <;> linarith

theorem shortest_roundsTo_iff (hm : x.magnitude ≠ 0) (hsmall : x.magnitude < smallest.magnitude)
    (hfinite : x.isFinite = true) (y : Binary32) : RoundsTo x.shortest.value y ↔ y = x := by
  obtain ⟨t, hbetween, ht⟩ := shortest_between hm
  have hrange : |x.withSign t| < (2 ^ 25 - 1) * 2 ^ 103 := by
    rw [abs_withSign (hbetween.pos hm).le, div_lt_iff₀ (by positivity)]
    exact (hbetween.le_half hsmall).1.trans_lt (by norm_num)
  rw [ht]
  exact hbetween.roundsTo_iff hm hfinite hrange y

theorem spelledNumber?_spelling (x : Binary32) : spelledNumber? x.spelling = some x.written.value := by
  unfold spelling written
  split
  · exact Decimal.spelledNumber?_scientific _
  · exact Decimal.spelledNumber?_fixed _ (Nat.succ_pos 5)

theorem spelling_exponent_iff (x : Binary32) :
    'e' ∈ x.spelling.toList ↔ x.magnitude ≠ 0 ∧ x.magnitude < smallest.magnitude := by
  unfold spelling
  split
  · rename_i hsmall
    exact iff_of_true (Decimal.scientific_exponent _) hsmall
  · rename_i hlarge
    exact iff_of_false (Decimal.fixed_no_exponent _) hlarge

theorem smallest_value : smallest.value = |smallest.value| := by
  have hsign : smallest.negative = false := by decide +kernel
  rw [abs_value, value_eq, withSign, hsign]
  rfl

/-- The text of a finite number is at most half a millionth away. Where it has an exponent it is
rounded to the number it was written for and to no other. -/
theorem floatText_accurate (x : Binary32) :
    (x.isFinite = false ↔ ∃ fault, Literal.floatText x = .error fault) ∧
    (x.isFinite = true → ∃ text q, Literal.floatText x = .ok text ∧ spelledNumber? text = some q ∧
      |q - x.value| ≤ 5 / 10 ^ 7 ∧
      ('e' ∈ text.toList ↔ x.value ≠ 0 ∧ |x.value| < smallest.value) ∧
      ('e' ∈ text.toList → ∀ y, RoundsTo q y ↔ y = x)) := by
  unfold Literal.floatText
  constructor
  · cases x.isFinite <;> simp
  · intro hfinite
    refine ⟨x.spelling, x.written.value, if_pos hfinite, spelledNumber?_spelling x, ?_, ?_, ?_⟩
    · unfold written
      split
      · rename_i hsmall
        exact shortest_close hsmall.1 hsmall.2
      · exact millionths_close x
    · rw [spelling_exponent_iff, value_ne_zero_iff, smallest_value, abs_value_lt_iff]
    · intro hexponent
      have hsmall := (spelling_exponent_iff x).mp hexponent
      rw [written, if_pos hsmall]
      exact shortest_roundsTo_iff hsmall.1 hsmall.2 hfinite

theorem floatText_accurate_subnormal : (⟨0x80000001⟩ : Binary32).isFinite = true ∧
    ∃ text q, Literal.floatText ⟨0x80000001⟩ = .ok text ∧ spelledNumber? text = some q ∧
      |q - (⟨0x80000001⟩ : Binary32).value| ≤ 5 / 10 ^ 7 ∧
      ∀ y, RoundsTo q y ↔ y = ⟨0x80000001⟩ := by
  have hfinite : (⟨0x80000001⟩ : Binary32).isFinite = true := by decide
  obtain ⟨text, q, htext, hq, hclose, -, hrounds⟩ := (floatText_accurate ⟨0x80000001⟩).2 hfinite
  have hspelled : Literal.floatText ⟨0x80000001⟩ = .ok "-1e-45" := by decide +kernel
  have hexponent : 'e' ∈ text.toList := by
    cases htext.symm.trans hspelled
    decide
  exact ⟨hfinite, text, q, htext, hq, hclose, hrounds hexponent⟩

theorem magnitude_eq_smallest_iff (x : Binary32) :
    x.magnitude = smallest.magnitude ↔ x = smallest ∨ x = -smallest := by
  have hminus : (-smallest).magnitude = smallest.magnitude := by decide +kernel
  have hsigns : smallest.negative = false ∧ (-smallest).negative = true := by decide +kernel
  constructor
  · intro h
    cases hsign : x.negative with
    | false => exact .inl (eq_of_magnitude_eq (hsign.trans hsigns.1.symm) h)
    | true => exact .inr (eq_of_magnitude_eq (hsign.trans hsigns.2.symm) (h.trans hminus.symm))
  · rintro (rfl | rfl)
    · rfl
    · exact hminus

theorem written_sign (hm : x.magnitude ≠ 0) : if x.magnitude = smallest.magnitude
    then x.written.value = 0 else 0 < x.written.value * x.value := by
  have hunits : (0 : ℚ) < unitsAt x.magnitude := by
    exact_mod_cast (Nat.zero_le _).trans_lt (unitsAt_strictMono (Nat.pos_of_ne_zero hm))
  have hpositive {t : ℚ} (ht : 0 < t) : 0 < x.withSign t * x.value := by
    rw [value_eq, withSign_mul]
    positivity
  have hzero := millionths_eq_zero_iff x
  rcases Nat.lt_trichotomy x.magnitude smallest.magnitude with hsmall | hlimit | hlarge
  · obtain ⟨t, hbetween, ht⟩ := shortest_between hm
    rw [if_neg hsmall.ne, written, if_pos ⟨hm, hsmall⟩, ht]
    exact hpositive (hbetween.pos hm)
  · have hdigits := hzero.mpr hlimit.le
    rw [if_pos hlimit, written, if_neg fun h => h.2.ne hlimit,
      millionths_value, hdigits]
    simp [withSign]
  · have hdigits : 0 < x.millionths.digits :=
      Nat.pos_of_ne_zero fun h => Nat.not_le_of_lt hlarge (hzero.mp h)
    rw [if_neg hlarge.ne', written, if_neg fun h => h.2.asymm hlarge,
      millionths_value]
    exact hpositive (by positivity)

/-- The text has the sign of the number, but for two numbers: the limit itself and its negation are
written as zeros. -/
theorem floatText_sign (x : Binary32) (hfinite : x.isFinite = true) (hne : x.value ≠ 0) :
    ∃ text q, Literal.floatText x = .ok text ∧ spelledNumber? text = some q ∧
      if x = smallest ∨ x = -smallest then q = 0 else 0 < q * x.value :=
  ⟨x.spelling, x.written.value, if_pos hfinite, spelledNumber?_spelling x, by
    simpa only [magnitude_eq_smallest_iff] using written_sign ((value_ne_zero_iff x).mp hne)⟩

theorem floatText_sign_above : (⟨0x350637be⟩ : Binary32).isFinite = true ∧
    (⟨0x350637be⟩ : Binary32).value ≠ 0 ∧
    ∃ text q, Literal.floatText ⟨0x350637be⟩ = .ok text ∧ spelledNumber? text = some q ∧
      0 < q * (⟨0x350637be⟩ : Binary32).value := by
  have hfinite : (⟨0x350637be⟩ : Binary32).isFinite = true := by decide
  have hne : (⟨0x350637be⟩ : Binary32).value ≠ 0 := (value_ne_zero_iff _).mpr (by decide)
  obtain ⟨text, q, htext, hq, hsign⟩ := floatText_sign ⟨0x350637be⟩ hfinite hne
  rw [if_neg (by decide +kernel)] at hsign
  exact ⟨hfinite, hne, text, q, htext, hq, hsign⟩

theorem limit_written_as_zero : 0 < smallest.value ∧ smallest.value < 5 / 10 ^ 7 ∧
    Literal.floatText smallest = .ok "0.000000" ∧ spelledNumber? "0.000000" = some 0 := by
  have hunits : 2 * (unitsAt smallest.magnitude * 1000000) < 2 ^ 149 := by decide +kernel
  have hunits : (2 : ℚ) * (unitsAt smallest.magnitude * 1000000) < 2 ^ 149 := by exact_mod_cast hunits
  refine ⟨?_, ?_, by decide +kernel, by decide +kernel⟩
  · rw [smallest_value, abs_pos, value_ne_zero_iff]
    decide +kernel
  · rw [smallest_value, abs_value, div_lt_iff₀ (by positivity)]
    linarith

end Binary32

end ComputeKernel
