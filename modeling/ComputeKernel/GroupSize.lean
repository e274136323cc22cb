import ComputeKernel.Fault

namespace ComputeKernel

structure GroupSize where
  x : UInt32
  y : UInt32
  z : UInt32
deriving DecidableEq, Repr

namespace GroupSize

def default : GroupSize := ⟨8, 8, 1⟩

def threads? (g : GroupSize) : Option Nat :=
  let plane := g.x.toNat * g.y.toNat
  if plane < UInt64.size then
    let volume := plane * g.z.toNat
    if volume < UInt64.size then some volume else none
  else none

def check (g : GroupSize) : Except Failure Unit :=
  if g.x = 0 ∨ g.y = 0 ∨ g.z = 0 then .error (.fault (.emptyAxis g.x g.y g.z))
  else
    match g.threads? with
    | none => .error (.overflow .multiply)
    | some threads =>
      if threads % 32 = 0 then .ok () else .error (.fault (.partialWave g.x g.y g.z threads))

def text (g : GroupSize) : String :=
  toString g.x.toNat ++ ", " ++ toString g.y.toNat ++ ", " ++ toString g.z.toNat

end GroupSize

end ComputeKernel
