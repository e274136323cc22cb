import ComputeKernel.Expr.Basic
import ComputeKernel.Table

/-! Which values may differ from lane to lane. An answer is remembered under the number of its node. -/

namespace ComputeKernel

inductive Divergence where
  | uniform
  | divergent
deriving DecidableEq, Repr

def Divergence.word : Divergence → String
  | .uniform => "uniform"
  | .divergent => "divergent"

abbrev Diverging := StateM (IdTable Divergence)

namespace Diverging

def remember (id : Nat) (compute : Diverging Divergence) : Diverging Divergence := do
  match (← get).find? id with
  | some mode => return mode
  | none =>
    let mode ← compute
    modify (·.insert id mode)
    return mode

def either (first second : Diverging Divergence) : Diverging Divergence := do
  match ← first with
  | .divergent => return .divergent
  | .uniform => second

def force (id : Nat) : Diverging Unit :=
  modify (·.insert id .divergent)

end Diverging

namespace Expr

mutual

def divergence : Expr → Diverging Divergence
  | .literal id _ | .resource id _ | .zeroed id _ | .storage id _ _ | .array id _ _ _ =>
    .remember id (pure .uniform)
  | .input id _ => .remember id (pure .divergent)
  | .unary id _ operand => .remember id operand.divergence
  | .binary id _ lhs rhs => .remember id (.either lhs.divergence rhs.divergence)
  | .call id callee args =>
    .remember id (if callee.divergent then pure .divergent else anyDivergent args)
  | .swizzle id base _ | .field id base _ | .element id base _ => .remember id base.divergence
  | .elementAt id base index => .remember id (.either base.divergence index.divergence)
  | .select id cond yes no =>
    .remember id (.either cond.divergence (.either yes.divergence no.divergence))
termination_by structural e => e

def anyDivergent : List Expr → Diverging Divergence
  | [] => pure .uniform
  | e :: rest => .either e.divergence (anyDivergent rest)
termination_by structural es => es

end

end Expr

end ComputeKernel
