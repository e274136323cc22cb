import ComputeKernel.Expr.Rules
import ComputeKernel.Table

/-!
Type inference. A type that has been found is remembered under the number of its node; a fault is
not.
-/

namespace ComputeKernel

abbrev Typing := EStateM Fault (IdTable Ty)

def orFault {σ α : Type} : Except Fault α → EStateM Fault σ α
  | .ok a => pure a
  | .error fault => throw fault

namespace Typing

def remember (id : Nat) (compute : Typing Ty) : Typing Ty := do
  match (← get).find? id with
  | some ty => return ty
  | none =>
    let ty ← compute
    modify (·.insert id ty)
    return ty

end Typing

namespace Expr

mutual

def inferType : Expr → Typing Ty
  | .literal id value => .remember id (orFault value.ty)
  | .unary id op operand => .remember id do
    let r ← operand.inferType
    orFault (unaryType op r)
  | .binary id op lhs rhs => .remember id do
    let r ← rhs.inferType
    let l ← lhs.inferType
    orFault (binaryType op l r)
  | .call id callee args => .remember id do
    let tys ← inferTypes args
    orFault (callee.returnType tys)
  | .resource id res => .remember id (pure (resourceType res))
  | .input id i => .remember id (pure i.ty)
  | .array id elem length _ => .remember id (pure (.array elem (.fixed length)))
  | .swizzle id base lanes => .remember id do
    let b ← base.inferType
    orFault (swizzleType b lanes)
  | .field id base name => .remember id do
    let b ← base.inferType
    orFault (fieldType b name)
  | .element id base _ => .remember id do
    let b ← base.inferType
    orFault (elementType b)
  | .elementAt id base index => .remember id do
    let i ← index.inferType
    orFault (checkIndex i)
    let b ← base.inferType
    orFault (elementType b)
  | .storage id _ ty => .remember id (pure ty)
  | .zeroed id ty => .remember id (orFault (zeroedType ty))
  | .select id cond yes no => .remember id do
    let c ← cond.inferType
    orFault (checkCondition c)
    let a ← yes.inferType
    let b ← no.inferType
    orFault (branchType a b)
termination_by structural e => e

def inferTypes : List Expr → Typing (List Ty)
  | [] => pure []
  | e :: rest => do
    let ty ← e.inferType
    let tys ← inferTypes rest
    return ty :: tys
termination_by structural es => es

end

end Expr

end ComputeKernel
