import ComputeKernel.Proofs.Ensures

namespace ComputeKernel

theorem Ty.eq_void_of_isVoid {ty : Ty} (h : ty.isVoid = true) : ty = .void := by
  cases ty <;> first | rfl | cases h

def IdTable.Extends (t t' : IdTable Ty) : Prop :=
  ∀ id ty, t.find? id = some ty → t'.find? id = some ty

namespace IdTable.Extends

theorem refl (t : IdTable Ty) : Extends t t := fun _ _ h => h

theorem trans {t t' t'' : IdTable Ty} (h : Extends t t') (h' : Extends t' t'') : Extends t t'' :=
  fun id ty hf => h' id ty (h id ty hf)

end IdTable.Extends

namespace Typing

open IdTable

variable {α : Type} {id : Nat} {compute : Typing Ty} {t : IdTable Ty}

theorem moves_orFault (r : Except Fault α) : Moves Extends (orFault r : Typing α) := fun s =>
  ensures_orFault (fun _ _ => .refl s) fun _ _ => .refl s

theorem moves_pure (a : α) : Moves Extends (pure a : Typing α) := fun s => .refl s

theorem remember_spec (h : Moves Extends compute) (t : IdTable Ty) : Ensures (remember id compute) t
    (fun ty t' => Extends t t' ∧ t'.find? id = some ty) (Extends t) := by
  refine .bind (ensures_get ?_)
  cases hf : t.find? id with
  | some ty => exact ⟨.refl t, hf⟩
  | none =>
    refine .bind ((h t).imp fun ty t' he => ?_)
    refine ⟨fun key kind hk => ?_, by simp⟩
    have hne : key ≠ id := by
      rintro rfl
      rw [hf] at hk
      cases hk
    simpa [hne] using he key kind hk

theorem remember_known {ty : Ty} (h : t.find? id = some ty) : remember id compute t = .ok ty t := by
  simp only [remember, bind_get, h]
  rfl

theorem remember_unknown
    (h : t.find? id = none) :
    remember id compute t = (do
      let ty ← compute
      modify (·.insert id ty)
      return ty : Typing Ty) t := by
  simp only [remember, bind_get, h]

theorem Moves.then {β : Type} {x : Typing α} {g : α → Typing β} (hx : Moves Extends x)
    (hg : ∀ a, Moves Extends (g a)) : Moves Extends (x >>= g) :=
  hx.bind .trans hg

end Typing

namespace Expr

open IdTable Typing

variable {e : Expr}

theorem inferType_known {t : IdTable Ty} {ty : Ty} (h : t.find? e.id = some ty) :
    e.inferType t = .ok ty t := by
  cases e <;> rw [inferType] <;> exact remember_known h

theorem moves_of_found
    (h : ∀ t, Ensures e.inferType t (fun ty t' => Extends t t' ∧ t'.find? e.id = some ty)
      (Extends t)) : Moves Extends e.inferType := fun t =>
  (h t).imp (fun _ _ h => h.1)

mutual

theorem inferType_spec (e : Expr) (t : IdTable Ty) :
    Ensures e.inferType t (fun ty t' => Extends t t' ∧ t'.find? e.id = some ty) (Extends t) := by
  unfold inferType
  cases e with
  | literal id value =>
    exact remember_spec (moves_orFault _) t
  | unary id op operand =>
    exact remember_spec (Moves.then (moves_of_found (inferType_spec operand)) fun _ => moves_orFault _) t
  | binary id op lhs rhs =>
    exact remember_spec (Moves.then (moves_of_found (inferType_spec rhs)) fun _ =>
      Moves.then (moves_of_found (inferType_spec lhs)) fun _ => moves_orFault _) t
  | call id callee args =>
    exact remember_spec (Moves.then (inferTypes_moves args) fun _ => moves_orFault _) t
  | resource id res | input id i | array id elem length init | storage id name ty =>
    exact remember_spec (moves_pure _) t
  | swizzle _ base _ | field _ base _ | element _ base _ =>
    exact remember_spec (Moves.then (moves_of_found (inferType_spec base)) fun _ => moves_orFault _) t
  | elementAt id base index =>
    exact remember_spec (Moves.then (moves_of_found (inferType_spec index)) fun _ =>
      Moves.then (moves_orFault _) fun _ =>
        Moves.then (moves_of_found (inferType_spec base)) fun _ => moves_orFault _) t
  | zeroed id ty =>
    exact remember_spec (moves_orFault _) t
  | select id cond yes no =>
    exact remember_spec (Moves.then (moves_of_found (inferType_spec cond)) fun _ =>
      Moves.then (moves_orFault _) fun _ => Moves.then (moves_of_found (inferType_spec yes)) fun _ =>
        Moves.then (moves_of_found (inferType_spec no)) fun _ => moves_orFault _) t

theorem inferTypes_moves (es : List Expr) : Moves Extends (inferTypes es) := by
  cases es with
  | nil =>
    rw [inferTypes]
    exact moves_pure _
  | cons e rest =>
    rw [inferTypes]
    exact Moves.then (moves_of_found (inferType_spec e)) fun _ =>
      Moves.then (inferTypes_moves rest) fun _ => moves_pure _

end

end Expr

end ComputeKernel
