import ComputeKernel.Callable.Builtin

namespace ComputeKernel

namespace Ty

def isFloatVector (ty : Ty) : Bool := ty.isVector && ty.hasKind Kind.isFloat

def isIntegerVector (ty : Ty) : Bool := ty.isVector && ty.hasKind Kind.isInteger

def isVectorOf (ty : Ty) (kind : Kind) : Bool := ty.isVector && ty.isKind kind

def isScalarLike (ty of : Ty) : Bool := ty.isScalar && ty.kind? == of.kind?

def isStore (ty : Ty) : Bool := ty.isResourceOf .buffer || ty.isResourceOf .texture

end Ty

namespace Builtin

def mathAccepts (f : MathFn) (ty : Ty) : Bool :=
  match f with
  | .abs | .sign => ty.isValue && !ty.isKind .bool
  | .normalize => ty.isFloatVector && decide (2 ≤ ty.rows)
  | _ => ty.hasKind Kind.isFloat

def productType? (kind : Kind) (a b : Ty) : Option (Except Fault Ty) :=
  if a.isMatrix && b.isVector && a.cols == b.rows then some (Ty.vector kind a.rows)
  else if a.isVector && b.isMatrix && a.rows == b.rows then some (Ty.vector kind b.cols)
  else if a.isMatrix && b.isMatrix && a.cols == b.rows then some (Ty.matrix kind a.rows b.cols)
  else none

def returnType (b : Builtin) (args : List Ty) : Except Fault Ty :=
  let mismatch (expected : String) : Except Fault Ty :=
    .error (.builtinArguments b.name expected args)
  match b, args with
  | .sample, [tex, smp, uv] =>
    if tex.isResourceOf .texture && smp.isResourceOf .sampler
        && (uv.isVectorOf .f32 && decide (2 ≤ uv.rows ∧ uv.rows ≤ 3)) then
      tex.elem?.elim (mismatch "a texture with an element type") .ok
    else mismatch "(texture, sampler, f32x2|f32x3)"
  | .getDimensions, [tex] =>
    match tex.dim? with
    | some dim =>
      if tex.isResourceOf .texture then Ty.family .u32 (.numeric dim.coordinates) (.numeric 1)
      else mismatch "(texture)"
    | none => mismatch "(texture)"
  | .read, [res, index] =>
    if res.isStore && index.isIntegerVector then
      res.elem?.elim (mismatch "a resource with an element type") .ok
    else mismatch "(buffer|texture, integer index)"
  | .write, [res, index, value] =>
    if res.access? == some .readWrite && res.isStore && index.isIntegerVector
        && res.elem? == some value then .ok .void
    else mismatch "(rw buffer|rw texture, integer index, element)"
  | .nonUniform, [a] => if a = .u32 then .ok .u32 else mismatch "(u32)"
  | .math f, [a] => if mathAccepts f a then .ok a else mismatch "a float value"
  | .pow, [a, e] =>
    if a.isFloatVector && (e == a || e.isScalarLike a) then .ok a
    else mismatch "(float, same type or scalar)"
  | .dot, [a, c] =>
    if a == c && a.isVector && !a.isKind .bool then a.withRows 1
    else mismatch "two vectors of equal type"
  | .cross, [a, c] =>
    if a = .f32x3 ∧ c = .f32x3 then .ok .f32x3 else mismatch "(f32x3, f32x3)"
  | .reflect, [a, c] =>
    if a == c && a.isFloatVector then .ok a else mismatch "two float vectors of equal type"
  | .length, [a] => if a.isFloatVector then a.withRows 1 else mismatch "a float vector"
  | .min, [a, c] | .max, [a, c] =>
    if a == c && a.isValue then .ok a else mismatch "two values of equal type"
  | .lerp, [a, c, t] =>
    if a == c && a.isFloatVector && (t == a || t.isScalarLike a) then .ok a
    else mismatch "(float, same type, same type or scalar)"
  | .clamp, [a, lo, hi] =>
    if a.isValue && ((lo == a && hi == a) || (lo.isScalarLike a && hi.isScalarLike a)) then .ok a
    else mismatch "(value, bound, bound)"
  | .transpose, [a] =>
    match a.kind? with
    | some kind => if a.isMatrix then Ty.matrix kind a.cols a.rows else mismatch "(matrix)"
    | none => mismatch "(matrix)"
  | .mul, [a, c] =>
    match a.kind?, c.kind? with
    | some ka, some kc =>
      if ka = kc ∧ ka.isFloat then
        (productType? ka a c).getD (mismatch "matrix×vector, vector×matrix or matrix×matrix")
      else mismatch "float matrix/vector operands"
    | _, _ => mismatch "float matrix/vector operands"
  | .countBits, [a] => if a.isVectorOf .u32 then .ok a else mismatch "(u32)"
  | .isNan, [a] | .isInf, [a] =>
    if a.isFloatVector then Ty.vector .bool a.rows else mismatch "a float vector"
  | .all, [a] | .any, [a] => if a.isVectorOf .bool then .ok .bool else mismatch "a bool vector"
  | .convert kind, [a] =>
    if a.isVector then Ty.vector kind a.rows else mismatch "a scalar or vector"
  | .bitcast kind, [a] =>
    if a.isVector && (a.isKind .f32 || a.isKind .u32 || a.isKind .i32) then Ty.vector kind a.rows
    else mismatch "a 32-bit scalar or vector"
  | .u32ToF16, [a] => if a.isVectorOf .u32 then Ty.vector .f16 a.rows else mismatch "(u32)"
  | .f16ToU32, [a] => if a.isVectorOf .f16 then Ty.vector .u32 a.rows else mismatch "(f16)"
  | .splat width, [a] =>
    match a.kind? with
    | some kind =>
      if a.isScalar then Ty.family kind (.numeric width) (.numeric 1) else mismatch "a scalar"
    | none => mismatch "a scalar"
  | .construct ty, args =>
    if !args.isEmpty && args.all (fun a => a.isVector && a.kind? == ty.kind?)
        && Ty.totalRows args == ty.rows then .ok ty
    else mismatch (toString ty.rows ++ " " ++ (ty.kind?.elim "?" Kind.name) ++ " components")
  | .laneIndex, [] | .laneBit, [] => .ok .u32
  | .ballot, [a] => if a = .bool then .ok .u32 else mismatch "(bool)"
  | .rayTest, [scene, ray] =>
    if scene.isResourceOf .tlas && ray == .rayDesc then .ok .bool
    else mismatch "(acceleration structure, RayDesc)"
  | .rayQuery, [scene, ray] =>
    if scene.isResourceOf .tlas && ray == .rayDesc then .ok .rayQueryResult
    else mismatch "(acceleration structure, RayDesc)"
  | .getTbn, [a] => if a = .f32x3 then .ok .f32x3x3 else mismatch "(f32x3)"
  | .interpolate, [a, c, d, bary] =>
    if a == c && c == d && a.isVectorOf .f32 && decide (2 ≤ a.rows) && bary == .f32x2 then .ok a
    else mismatch "three equal f32 vectors and f32x2 barycentrics"
  | b, args => .error (.builtinArity b.name b.arity args.length)

end Builtin

end ComputeKernel
