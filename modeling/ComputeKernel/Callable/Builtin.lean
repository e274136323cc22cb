import ComputeKernel.Ty.Registry

namespace ComputeKernel

inductive MathFn where
  | exp
  | log
  | tan
  | frac
  | saturate
  | floor
  | sin
  | cos
  | sqrt
  | rsqrt
  | abs
  | sign
  | normalize
deriving DecidableEq, Repr

namespace MathFn

def all : List MathFn :=
  [.exp, .log, .tan, .frac, .saturate, .floor, .sin, .cos, .sqrt, .rsqrt, .abs, .sign, .normalize]

def name : MathFn → String
  | .exp => "exp"
  | .log => "log"
  | .tan => "tan"
  | .frac => "frac"
  | .saturate => "saturate"
  | .floor => "floor"
  | .sin => "sin"
  | .cos => "cos"
  | .sqrt => "sqrt"
  | .rsqrt => "rsqrt"
  | .abs => "abs"
  | .sign => "sign"
  | .normalize => "normalize"

end MathFn

inductive Builtin where
  | sample
  | getDimensions
  | read
  | write
  | nonUniform
  | math (f : MathFn)
  | pow
  | dot
  | cross
  | reflect
  | length
  | min
  | max
  | lerp
  | clamp
  | transpose
  | mul
  | countBits
  | isNan
  | isInf
  | all
  | any
  | convert (kind : Kind)
  | bitcast (kind : Kind)
  | u32ToF16
  | f16ToU32
  | splat (width : Nat)
  | construct (ty : Ty)
  | laneIndex
  | laneBit
  | ballot
  | rayTest
  | rayQuery
  | getTbn
  | interpolate
deriving DecidableEq

namespace Builtin

def name : Builtin → String
  | .sample => "Sample"
  | .getDimensions => "__get_dimensions"
  | .read => "read"
  | .write => "write"
  | .nonUniform => "NonUniformResourceIndex"
  | .math f => f.name
  | .pow => "pow"
  | .dot => "dot"
  | .cross => "cross"
  | .reflect => "reflect"
  | .length => "length"
  | .min => "min"
  | .max => "max"
  | .lerp => "lerp"
  | .clamp => "clamp"
  | .transpose => "transpose"
  | .mul => "mul"
  | .countBits => "countbits"
  | .isNan => "isnan"
  | .isInf => "isinf"
  | .all => "all"
  | .any => "any"
  | .convert kind => "to_" ++ kind.name
  | .bitcast kind => "as" ++ kind.name
  | .u32ToF16 => "u32_to_f16"
  | .f16ToU32 => "f16_to_u32"
  | .splat width => "splat" ++ toString width
  | .construct ty => ty.name
  | .laneIndex => "WaveGetLaneIndex"
  | .laneBit => "__get_lane_bit"
  | .ballot => "WaveActiveBallot"
  | .rayTest => "__anyhit"
  | .rayQuery => "__ray_query"
  | .getTbn => "__get_tbn"
  | .interpolate => "__interpolate"

def arity : Builtin → Nat
  | .laneIndex | .laneBit => 0
  | .pow | .dot | .cross | .reflect | .min | .max | .mul | .read | .rayTest | .rayQuery => 2
  | .sample | .lerp | .clamp | .write => 3
  | .interpolate => 4
  | .construct ty => ty.rows
  | _ => 1

def isDivergent : Builtin → Bool
  | .laneIndex | .laneBit => true
  | _ => false

def catalog : List Builtin :=
  [.sample, .getDimensions, .read, .write, .nonUniform, .pow, .dot, .cross, .reflect, .length, .min,
    .max, .lerp, .clamp, .transpose, .mul, .countBits, .isNan, .isInf, .all, .any, .u32ToF16,
    .f16ToU32, .laneIndex, .laneBit, .ballot, .rayTest, .rayQuery, .getTbn, .interpolate]
  ++ MathFn.all.map .math
  ++ [Kind.f32, .f16, .u32, .i32].map .convert
  ++ [Kind.f32, .u32, .i32].map .bitcast
  ++ [2, 3, 4].map .splat
  ++ [Kind.f32, .f16, .u32, .i32].flatMap fun kind =>
      [2, 3, 4].map fun rows => .construct (.value kind rows 1)

end Builtin

end ComputeKernel
