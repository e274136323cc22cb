import ComputeKernel.Ty.Registry

namespace ComputeKernel

inductive Literal where
  | f16 (components : List Binary32)
  | f32 (components : List Binary32)
  | i32 (components : List Int32)
  | u32 (components : List UInt32)
  | bool (components : List Bool)
deriving DecidableEq, Repr

namespace Literal

def kind : Literal → Kind
  | .f16 _ => .f16
  | .f32 _ => .f32
  | .i32 _ => .i32
  | .u32 _ => .u32
  | .bool _ => .bool

def width : Literal → Nat
  | .f16 v | .f32 v => v.length
  | .i32 v => v.length
  | .u32 v => v.length
  | .bool v => v.length

def zero (ty : Ty) : Except Fault Literal :=
  if ty.isVector then
    match ty.kind? with
    | some .f16 => .ok (.f16 (List.replicate ty.rows .zero))
    | some .f32 => .ok (.f32 (List.replicate ty.rows .zero))
    | some .i32 => .ok (.i32 (List.replicate ty.rows 0))
    | some .u32 => .ok (.u32 (List.replicate ty.rows 0))
    | some .bool => .ok (.bool (List.replicate ty.rows false))
    | _ => .error (.noZero ty)
  else .error (.noZero ty)

def ty (l : Literal) : Except Fault Ty :=
  Ty.vector l.kind l.width

def floatText (x : Binary32) : Except Fault String :=
  if x.isFinite then .ok x.spelling else .error (.unspellable x)

def boolText (b : Bool) : String := if b then "true" else "false"

def componentTexts : Literal → Except Fault (List String)
  | .f16 v | .f32 v => v.mapM floatText
  | .i32 v => .ok (v.map fun n => toString n.toInt)
  | .u32 v => .ok (v.map fun n => toString n.toNat)
  | .bool v => .ok (v.map boolText)

def text (l : Literal) : Except Fault String := do
  let parts ← l.componentTexts
  let ty ← l.ty
  return ty.name ++ "(" ++ ", ".intercalate parts ++ ")"

end Literal

end ComputeKernel
