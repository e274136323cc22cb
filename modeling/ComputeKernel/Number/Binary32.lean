import ComputeKernel.Number.Decimal

/-! Single-precision numbers as 32-bit patterns, and the decimals that spell them in kernel text. Every
finite magnitude is a whole number of units of `2 ^ -149`. -/

namespace ComputeKernel

structure Binary32 where
  bits : UInt32
deriving DecidableEq, Repr

namespace Binary32

def negative (x : Binary32) : Bool :=
  decide (0x80000000 ≤ x.bits.toNat)

def magnitude (x : Binary32) : Nat :=
  x.bits.toNat % 0x80000000

def exponentField (x : Binary32) : Nat :=
  x.magnitude / 0x800000

def fraction (x : Binary32) : Nat :=
  x.magnitude % 0x800000

def isFinite (x : Binary32) : Bool :=
  decide (x.exponentField < 255)

def significand (x : Binary32) : Nat :=
  if x.exponentField = 0 then x.fraction else x.fraction + 0x800000

def scale (x : Binary32) : Nat :=
  x.exponentField - 1

def units (x : Binary32) : Nat :=
  x.significand * Nat.pow 2 x.scale

def one : Nat := Nat.pow 2 149

def readsBack (x : Binary32) (digits places : Nat) : Bool :=
  let above := Nat.pow 2 x.scale
  let below := if x.fraction = 0 ∧ 1 < x.exponentField then Nat.pow 2 (x.scale - 1) else above
  let low := (2 * x.units - below) * Nat.pow 10 places
  let high := (2 * x.units + above) * Nat.pow 10 places
  let point := 2 * digits * one
  if x.significand % 2 = 0 then decide (low ≤ point ∧ point ≤ high)
  else decide (low < point ∧ point < high)

def decimalAt? (x : Binary32) (places : Nat) : Option Nat :=
  let scaled := x.units * Nat.pow 10 places
  let low := scaled / one
  let near := roundHalfEven scaled one
  let far := if near = low then low + 1 else low
  if x.readsBack near places then some near
  else if x.readsBack far places then some far
  else none

def searchPlaces (x : Binary32) : Nat → Nat → Nat × Nat
  | 0, _ => (x.units * Nat.pow 5 149, 149)
  | fuel + 1, places =>
    match x.decimalAt? places with
    | some digits => (digits, places)
    | none => x.searchPlaces fuel (places + 1)

def shortest (x : Binary32) : Decimal :=
  let (digits, places) := x.searchPlaces 149 0
  ⟨x.negative, digits, places⟩

def millionths (x : Binary32) : Decimal :=
  ⟨x.negative, roundHalfEven (x.units * 1000000) one, 6⟩

def nearestBits (num den : Nat) : Nat :=
  let scale := Nat.log2 (num * one / den) - 23
  min (scale * 0x800000 + roundHalfEven (num * one) (den * Nat.pow 2 scale)) 0x7f800000

def nearest (num den : Nat) : Binary32 :=
  ⟨(nearestBits num den).toUInt32⟩

def neg (x : Binary32) : Binary32 :=
  ⟨x.bits ^^^ 0x80000000⟩

def zero : Binary32 := ⟨0⟩

instance (n : Nat) : OfNat Binary32 n := ⟨nearest n 1⟩

instance : Neg Binary32 := ⟨neg⟩

instance : OfScientific Binary32 where
  ofScientific m negativeExponent e :=
    if negativeExponent then nearest m (Nat.pow 10 e) else nearest (m * Nat.pow 10 e) 1

def smallest : Binary32 := 5.0e-7

def written (x : Binary32) : Decimal :=
  if x.magnitude ≠ 0 ∧ x.magnitude < smallest.magnitude then x.shortest else x.millionths

def spelling (x : Binary32) : String :=
  if x.magnitude ≠ 0 ∧ x.magnitude < smallest.magnitude then x.shortest.scientific
  else x.millionths.fixed

def nonFiniteName (x : Binary32) : String :=
  if x.fraction ≠ 0 then "NaN" else if x.negative then "-inf" else "inf"

end Binary32

end ComputeKernel
