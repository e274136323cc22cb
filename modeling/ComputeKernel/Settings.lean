import ComputeKernel.GroupSize

namespace ComputeKernel

structure Settings where
  name : String := "kernel"
  groupSize : GroupSize := .default
  wave32 : Bool := false
  bindlessBase : UInt32 := 99
  emitResources : Bool := true
deriving DecidableEq, Repr

namespace Settings

def default : Settings := {}

def named (name : String) : Settings := { name }

end Settings

end ComputeKernel
