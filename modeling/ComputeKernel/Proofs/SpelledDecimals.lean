import ComputeKernel.Number.Decimal
import ComputeKernel.Proofs.JsonReading
import Mathlib.Algebra.Order.Field.Rat
import Mathlib.Tactic.Ring

namespace ComputeKernel

def spelledNumber? (text : String) : Option ℚ :=
  match Json.readNumber text.toList with
  | some (.number mantissa places, []) => some (mantissa / 10 ^ places)
  | _ => none

theorem ofDigitChars_lastDigits (count n init : Nat) :
    Nat.ofDigitChars 10 (lastDigits count n) init = 10 ^ count * init + n % 10 ^ count := by
  induction count generalizing n with
  | zero => simp [lastDigits, Nat.mod_one]
  | succ count ih =>
    have hlast : n % 10 < 10 := Nat.mod_lt n (by decide)
    have hmod : n % 10 ^ (count + 1) = n % 10 + 10 * (n / 10 % 10 ^ count) := by
      rw [Nat.pow_succ', Nat.mod_mul]
    rw [lastDigits, Nat.ofDigitChars_append, ih, Nat.ofDigitChars_cons_digitChar_of_lt_ten hlast,
      Nat.ofDigitChars_nil, hmod, Nat.pow_succ']
    ring

theorem readDigits_all {digits : List Char} (hdigits : ∀ c ∈ digits, c.isDigit = true)
    (hne : digits ≠ []) : Json.readDigits digits = some (digits, []) := by
  have hread : Json.readDigits (digits ++ []) = some (digits, []) :=
    Json.readDigits_append hdigits hne fun c hc => by cases hc
  rwa [List.append_nil] at hread

theorem readSigned_toString (n : Int) : Json.readSigned (toString n).toList = some (n, []) := by
  have hread (m : Nat) : Json.readDigits (Nat.toDigits 10 m) = some (Nat.toDigits 10 m, []) :=
    readDigits_all (Json.isDigit_decimal m) Nat.toDigits_ne_nil
  cases n with
  | ofNat m =>
    have hdigits : (toString (Int.ofNat m)).toList = Nat.toDigits 10 m := by simp [Int.repr_eq_if]
    rw [hdigits]
    unfold Json.readSigned
    split
    case h_1 hminus => exact absurd (Json.isDigit_decimal m '-' (by simp [hminus])) (by decide)
    case h_2 hplus => exact absurd (Json.isDigit_decimal m '+' (by simp [hplus])) (by decide)
    case h_3 => simp [hread]
  | negSucc m =>
    have hdigits : (toString (Int.negSucc m)).toList = '-' :: Nat.toDigits 10 (m + 1) := by
      simp [Int.repr_eq_if]
    rw [hdigits, Json.readSigned, hread]
    simp [Int.negSucc_eq]

namespace Decimal

def value (d : Decimal) : ℚ :=
  (if d.negative then -(d.digits : ℚ) else d.digits) / 10 ^ d.places

theorem spelledNumber?_of_magnitude (d : Decimal) {characters : List Char}
    (hread : Json.readMagnitude characters = some ((d.digits, d.places), []))
    (hhead : ∃ c, characters.head? = some c ∧ c.isDigit = true) :
    spelledNumber? (d.sign ++ String.ofList characters) = some d.value := by
  obtain ⟨c, hc, hdigit⟩ := hhead
  obtain ⟨rest, rfl⟩ := List.head?_eq_some_iff.mp hc
  have hminus : c ≠ '-' := Json.ne_of_isDigit hdigit (by decide)
  unfold spelledNumber? sign value
  cases d.negative with
  | true => simp [Json.readNumber, hread]
  | false => simp [Json.readNumber, hread, hminus]

theorem head_digits (n : Nat) (rest : List Char) :
    ∃ c, (Nat.toDigits 10 n ++ rest).head? = some c ∧ c.isDigit = true := by
  cases hdigits : Nat.toDigits 10 n with
  | nil => exact absurd hdigits Nat.toDigits_ne_nil
  | cons c digits => exact ⟨c, rfl, Json.isDigit_decimal n c (by simp [hdigits])⟩

theorem toList_fixed (d : Decimal) : d.fixed = d.sign ++ String.ofList
    (Nat.toDigits 10 (d.digits / 10 ^ d.places) ++ '.' :: lastDigits d.places d.digits) := by
  apply String.toList_injective
  simp [fixed]

theorem sign_no_exponent (d : Decimal) : 'e' ∉ d.sign.toList := by
  unfold sign
  split <;> decide

theorem fixed_no_exponent (d : Decimal) : 'e' ∉ d.fixed.toList := by
  have hdigit {digits : List Char} (h : ∀ c ∈ digits, c.isDigit = true) : 'e' ∉ digits :=
    fun hmem => absurd (h _ hmem) (by decide)
  rw [toList_fixed, String.toList_append, String.toList_ofList, List.mem_append, List.mem_append,
    List.mem_cons]
  rintro (hsign | hwhole | hpoint | hlast)
  · exact d.sign_no_exponent hsign
  · exact hdigit (Json.isDigit_decimal _) hwhole
  · exact absurd hpoint (by decide)
  · exact hdigit (isDigit_lastDigits _ _) hlast

theorem spelledNumber?_fixed (d : Decimal) (h : 0 < d.places) :
    spelledNumber? d.fixed = some d.value := by
  have hne : lastDigits d.places d.digits ≠ [] := List.ne_nil_of_length_pos (by
    rwa [length_lastDigits])
  have hwhole := Json.readDigits_append (Json.isDigit_decimal (d.digits / 10 ^ d.places))
    Nat.toDigits_ne_nil fun c (hc : ('.' :: lastDigits d.places d.digits).head? = some c) => by
      cases hc; rfl
  have hfraction : Json.readFraction ('.' :: lastDigits d.places d.digits) =
      some (lastDigits d.places d.digits, []) :=
    readDigits_all (isDigit_lastDigits d.places d.digits) hne
  have hplaces : (0 : Int) - (lastDigits d.places d.digits).length = -(d.places : Int) := by
    rw [length_lastDigits, Int.zero_sub]
  have hread := Json.readMagnitude_of_parts hwhole (Json.not_padded_decimal _) hfraction rfl hplaces
  rw [Nat.ofDigitChars_append, Nat.ofDigitChars_ten_toDigits, ofDigitChars_lastDigits,
    Nat.div_add_mod] at hread
  rw [toList_fixed]
  exact d.spelledNumber?_of_magnitude hread (head_digits _ _)

def pointed (rest : List Char) : List Char := if rest = [] then [] else '.' :: rest

variable {first : Char} {rest : List Char}

theorem readMagnitude_leading {power : Int} {places : Nat}
    (hdigits : ∀ c ∈ first :: rest, c.isDigit = true)
    (hplaces : power - rest.length = -(places : Int)) : Json.readMagnitude
    (first :: (pointed rest ++ 'e' :: (toString power).toList)) = some
    ((Nat.ofDigitChars 10 (first :: rest) 0, places), []) := by
  have hexponent : Json.readExponent ('e' :: (toString power).toList) = some (power, []) :=
    readSigned_toString power
  generalize (toString power).toList = exponent at hexponent ⊢
  have hrest : ∀ c ∈ rest, c.isDigit = true := fun c hc => hdigits c (List.mem_cons_of_mem _ hc)
  have hpadded : ¬([first].head? = some '0' ∧ [first] ≠ ['0']) := by
    rintro ⟨hzero, hne⟩
    cases hzero
    exact hne rfl
  have hwhole : Json.readDigits ([first] ++ (pointed rest ++ 'e' :: exponent)) =
      some ([first], pointed rest ++ 'e' :: exponent) := by
    refine Json.readDigits_append (fun c hc => ?_) (List.cons_ne_nil _ _) fun c hc => ?_
    · exact hdigits c (List.mem_singleton.mp hc ▸ List.mem_cons_self ..)
    · cases rest <;> cases hc <;> rfl
  have hfraction : Json.readFraction (pointed rest ++ 'e' :: exponent) =
      some (rest, 'e' :: exponent) := by
    cases rest with
    | nil => rfl
    | cons c cs =>
      exact Json.readDigits_append hrest (List.cons_ne_nil _ _) fun c hc => by cases hc; rfl
  exact Json.readMagnitude_of_parts hwhole hpadded hfraction hexponent hplaces

theorem toList_scientific (d : Decimal) (h : Nat.toDigits 10 d.digits = first :: rest) :
    d.scientific = d.sign ++ String.ofList
    (first :: (pointed rest ++ 'e' :: (toString ((rest.length : Int) - d.places)).toList)) := by
  apply String.toList_injective
  cases rest <;> simp [scientific, pointed, h]

theorem scientific_exponent (d : Decimal) : 'e' ∈ d.scientific.toList := by
  simp [scientific]

theorem spelledNumber?_scientific (d : Decimal) : spelledNumber? d.scientific = some d.value := by
  cases hdigits : Nat.toDigits 10 d.digits with
  | nil => exact absurd hdigits Nat.toDigits_ne_nil
  | cons first rest =>
    have hall : ∀ c ∈ first :: rest, c.isDigit = true := hdigits ▸ Json.isDigit_decimal d.digits
    have hplaces : (rest.length : Int) - d.places - rest.length = -(d.places : Int) := by omega
    have hread := readMagnitude_leading hall hplaces
    rw [← hdigits, Nat.ofDigitChars_ten_toDigits] at hread
    rw [d.toList_scientific hdigits]
    exact d.spelledNumber?_of_magnitude hread ⟨first, rfl, hall first (List.mem_cons_self ..)⟩

end Decimal

end ComputeKernel
