import Mathlib.Algebra.Order.Field.Rat
import ComputeKernel.Callable.Typing

namespace ComputeKernel

namespace Ty

theorem totalRows_eq_sum (args : List Ty) : totalRows args = (args.map rows).sum := by
  induction args with
  | nil => rfl
  | cons a args ih => rw [totalRows, ih, List.map_cons, List.sum_cons]

theorem vector_of_kind_iff (a : Ty) (kind : Kind) :
    (a.isVector = true ∧ a.kind? = some kind) ↔ ∃ n, a = .value kind n 1 := by
  constructor
  · rintro ⟨hvector, hkind⟩
    cases a with
    | value k rows cols =>
      cases hkind
      obtain rfl : cols = 1 := by simpa [isVector] using hvector
      exact ⟨rows, rfl⟩
    | _ => cases hvector
  · rintro ⟨n, rfl⟩
    exact ⟨rfl, rfl⟩

theorem kind?_eq_some_iff (ty : Ty) (kind : Kind) :
    ty.kind? = some kind ↔ ∃ rows cols, ty = .value kind rows cols := by
  cases ty <;> simp [kind?]

end Ty

namespace Builtin

theorem construct_eq_ok_iff (ty ret : Ty) (args : List Ty) :
    (construct ty).returnType args = .ok ret ↔ ret = ty ∧ args ≠ [] ∧
      (∀ a ∈ args, a.isVector = true ∧ a.kind? = ty.kind?) ∧ Ty.totalRows args = ty.rows := by
  simp only [returnType]
  split
  · rename_i h
    simp only [Bool.and_eq_true, List.all_eq_true, beq_iff_eq, Bool.not_eq_true',
      List.isEmpty_eq_false_iff] at h
    constructor
    · rintro ⟨⟩
      exact ⟨rfl, h.1.1, h.1.2, h.2⟩
    · rintro ⟨rfl, -⟩
      rfl
  · rename_i h
    constructor
    · rintro ⟨⟩
    · rintro ⟨-, hne, hall, hrows⟩
      refine (h ?_).elim
      simpa [List.all_eq_true, hrows, hne] using hall

theorem construct_fills_rows (ty ret : Ty) (args : List Ty) :
    (construct ty).returnType args = .ok ret ↔ ret = ty ∧ args ≠ [] ∧
      ∃ kind rows cols, ty = .value kind rows cols ∧ (∀ a ∈ args, ∃ n, a = .value kind n 1) ∧
        (args.map Ty.rows).sum = rows ∧
        ((args.map Ty.rows).sum = rows * cols ↔ rows = 0 ∨ cols = 1) := by
  rw [construct_eq_ok_iff, Ty.totalRows_eq_sum]
  refine and_congr_right fun _ => and_congr_right fun hne => ?_
  constructor
  · rintro ⟨hall, hsum⟩
    obtain ⟨first, hfirst⟩ := List.exists_mem_of_ne_nil args hne
    obtain ⟨hvector, hkind⟩ := hall first hfirst
    obtain ⟨kind, hk⟩ : ∃ kind, ty.kind? = some kind := by
      cases first with
      | value kind => exact ⟨kind, hkind.symm⟩
      | _ => cases hvector
    obtain ⟨rows, cols, rfl⟩ := (ty.kind?_eq_some_iff kind).mp hk
    refine ⟨kind, rows, cols, rfl, fun a ha => ?_, hsum, ?_⟩
    · exact (a.vector_of_kind_iff kind).mp ⟨(hall a ha).1, (hall a ha).2.trans hk⟩
    · rw [hsum, Ty.rows, eq_comm]
      rcases Nat.eq_zero_or_pos rows with rfl | hpos
      · simp
      · simp [hpos.ne']
  · rintro ⟨kind, rows, cols, rfl, hall, hsum, -⟩
    refine ⟨fun a ha => ?_, hsum⟩
    obtain ⟨n, rfl⟩ := hall a ha
    exact ⟨rfl, rfl⟩

theorem construct_matrix_of_row :
    (construct .f32x3x3).returnType [.f32x3] = .ok .f32x3x3 ∧
      ([Ty.f32x3].map Ty.rows).sum ≠ Ty.f32x3x3.rows * Ty.f32x3x3.cols :=
  ⟨by rw [construct_eq_ok_iff]; decide, by decide⟩

end Builtin

end ComputeKernel
