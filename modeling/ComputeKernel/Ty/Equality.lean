import ComputeKernel.Ty.Basic

namespace ComputeKernel

namespace Ty

mutual

def decEq : (a b : Ty) → Decidable (a = b)
  | .void, .void => isTrue rfl
  | .numeric m, .numeric n => decidable_of_iff (m = n) (by simp)
  | .wildcard i, .wildcard j => decidable_of_iff (i = j) (by simp)
  | .value k r c, .value k' r' c' => decidable_of_iff (k = k' ∧ r = r' ∧ c = c') (by simp)
  | .struct n fs b, .struct n' fs' b' =>
    have := decEqFields fs fs'
    decidable_of_iff (n = n' ∧ fs = fs' ∧ b = b') (by simp)
  | .array e x, .array e' x' =>
    have := decEq e e'
    decidable_of_iff (e = e' ∧ x = x') (by simp)
  | .resource k none d a, .resource k' none d' a' =>
    decidable_of_iff (k = k' ∧ d = d' ∧ a = a') (by simp)
  | .resource k (some e) d a, .resource k' (some e') d' a' =>
    have := decEq e e'
    decidable_of_iff (k = k' ∧ e = e' ∧ d = d' ∧ a = a') (by simp)
  | .resource _ none _ _, .resource _ (some _) _ _
  | .resource _ (some _) _ _, .resource _ none _ _ => isFalse (by simp)
  | .void, .numeric _ | .void, .wildcard _ | .void, .value .. | .void, .struct ..
  | .void, .array .. | .void, .resource .. => isFalse (by simp)
  | .numeric _, .void | .numeric _, .wildcard _ | .numeric _, .value .. | .numeric _, .struct ..
  | .numeric _, .array .. | .numeric _, .resource .. => isFalse (by simp)
  | .wildcard _, .void | .wildcard _, .numeric _ | .wildcard _, .value .. | .wildcard _, .struct ..
  | .wildcard _, .array .. | .wildcard _, .resource .. => isFalse (by simp)
  | .value .., .void | .value .., .numeric _ | .value .., .wildcard _ | .value .., .struct ..
  | .value .., .array .. | .value .., .resource .. => isFalse (by simp)
  | .struct .., .void | .struct .., .numeric _ | .struct .., .wildcard _ | .struct .., .value ..
  | .struct .., .array .. | .struct .., .resource .. => isFalse (by simp)
  | .array .., .void | .array .., .numeric _ | .array .., .wildcard _ | .array .., .value ..
  | .array .., .struct .. | .array .., .resource .. => isFalse (by simp)
  | .resource .., .void | .resource .., .numeric _ | .resource .., .wildcard _
  | .resource .., .value .. | .resource .., .struct .. | .resource .., .array .. =>
    isFalse (by simp)
termination_by structural a => a

def decEqFields : (a b : List (String × Ty)) → Decidable (a = b)
  | [], [] => isTrue rfl
  | [], _ :: _ => isFalse (by simp)
  | _ :: _, [] => isFalse (by simp)
  | (n, t) :: fs, (n', t') :: fs' =>
    have := decEq t t'
    have := decEqFields fs fs'
    decidable_of_iff (n = n' ∧ t = t' ∧ fs = fs') (by simp [and_assoc])
termination_by structural a => a

end

instance : DecidableEq Ty := decEq

end Ty

end ComputeKernel
