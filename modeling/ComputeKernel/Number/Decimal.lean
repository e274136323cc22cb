namespace ComputeKernel

def roundHalfEven (num den : Nat) : Nat :=
  let q := num / den
  let r := num % den
  if 2 * r < den then q
  else if den < 2 * r then q + 1
  else if q % 2 = 0 then q
  else q + 1

def lastDigits : Nat → Nat → List Char
  | 0, _ => []
  | count + 1, n => lastDigits count (n / 10) ++ [Nat.digitChar (n % 10)]

theorem length_lastDigits (count n : Nat) : (lastDigits count n).length = count := by
  induction count generalizing n with
  | zero => rfl
  | succ count ih => simp [lastDigits, ih]

theorem isDigit_lastDigits (count n : Nat) : ∀ c ∈ lastDigits count n, c.isDigit = true := by
  induction count generalizing n with
  | zero => simp [lastDigits]
  | succ count ih =>
    intro c hc
    rcases List.mem_append.mp hc with hc | hc
    · exact ih (n / 10) c hc
    · rw [List.mem_singleton.mp hc, Nat.isDigit_digitChar]
      exact decide_eq_true (Nat.mod_lt n (by decide))

structure Decimal where
  negative : Bool
  digits : Nat
  places : Nat
deriving DecidableEq, Repr

namespace Decimal

def sign (d : Decimal) : String :=
  if d.negative then "-" else ""

def fixed (d : Decimal) : String :=
  d.sign ++ toString (d.digits / Nat.pow 10 d.places) ++ "." ++
    String.ofList (lastDigits d.places d.digits)

def scientific (d : Decimal) : String :=
  let body := match Nat.toDigits 10 d.digits with
    | [] => ""
    | first :: [] => first.toString
    | first :: rest => first.toString ++ "." ++ String.ofList rest
  let power : Int := ((Nat.toDigits 10 d.digits).length : Int) - 1 - (d.places : Int)
  d.sign ++ body ++ "e" ++ toString power

end Decimal

end ComputeKernel
