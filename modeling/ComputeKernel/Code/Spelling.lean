import ComputeKernel.Literal

namespace ComputeKernel

inductive Spelling where
  | word (name : String)
  | temp (id : Nat)
  | constant (value : Literal) (text : String)
  | member (base : Spelling) (name : String)
  | element (base : Spelling) (index : UInt32)
  | elementAt (base index : Spelling)
deriving DecidableEq, Repr

def Spelling.text : Spelling → String
  | .word name => name
  | .temp id => "tmp_" ++ toString id
  | .constant _ text => text
  | .member base name => base.text ++ "." ++ name
  | .element base index => base.text ++ "[" ++ toString index.toNat ++ "]"
  | .elementAt base index => base.text ++ "[" ++ index.text ++ "]"

end ComputeKernel
