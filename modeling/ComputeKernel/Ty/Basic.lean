/-! Types of kernel values. Two descriptions of the same structure are the same type. -/

namespace ComputeKernel

inductive Kind where
  | f16
  | f32
  | bool
  | u8
  | i32
  | u32
deriving DecidableEq, Repr

namespace Kind

def all : List Kind := [.f16, .f32, .bool, .u8, .i32, .u32]

def name : Kind → String
  | .f16 => "f16"
  | .f32 => "f32"
  | .bool => "bool"
  | .u8 => "u8"
  | .i32 => "i32"
  | .u32 => "u32"

def isFloat : Kind → Bool
  | .f16 | .f32 => true
  | _ => false

def isInteger : Kind → Bool
  | .u8 | .i32 | .u32 => true
  | _ => false

def maxRows : Kind → Nat
  | .u8 => 1
  | _ => 4

end Kind

inductive ResourceKind where
  | texture
  | buffer
  | constant
  | sampler
  | tlas
deriving DecidableEq, Repr

inductive Dim where
  | d1
  | d2
  | d3
  | d1Array
  | d2Array
deriving DecidableEq, Repr

namespace Dim

def coordinates : Dim → Nat
  | .d1 => 1
  | .d2 => 2
  | .d3 => 3
  | .d1Array => 2
  | .d2Array => 3

def suffix : Dim → String
  | .d1 => "1D"
  | .d2 => "2D"
  | .d3 => "3D"
  | .d1Array => "1DArray"
  | .d2Array => "2DArray"

end Dim

inductive Access where
  | read
  | readWrite
deriving DecidableEq, Repr

inductive Extent where
  | fixed (count : UInt32)
  | unbounded
deriving DecidableEq, Repr

def Extent.text : Extent → String
  | .fixed n => toString n.toNat
  | .unbounded => ""

inductive Ty where
  | void
  | numeric (n : Nat)
  | wildcard (index : Nat)
  | value (kind : Kind) (rows cols : Nat)
  | struct (name : String) (fields : List (String × Ty)) (builtin : Bool)
  | array (elem : Ty) (extent : Extent)
  | resource (kind : ResourceKind) (elem : Option Ty) (dim : Dim) (access : Access)

namespace Ty

instance : Inhabited Ty := ⟨.void⟩

def valueName (kind : Kind) (rows cols : Nat) : String :=
  let stem := if kind = .bool then "bool" else kind.name ++ "x"
  if cols = 1 then
    if rows = 1 then kind.name else stem ++ toString rows
  else stem ++ toString rows ++ "x" ++ toString cols

def name : Ty → String
  | .void => "void"
  | .numeric n => toString n
  | .wildcard i => "Wildcard_" ++ toString i
  | .value kind rows cols => valueName kind rows cols
  | .struct name _ _ => name
  | .array elem extent => elem.name ++ "[" ++ extent.text ++ "]"
  | .resource .texture _ dim access =>
    (if access = .readWrite then "RW" else "") ++ "Texture" ++ dim.suffix
  | .resource .buffer _ _ access =>
    (if access = .readWrite then "RW" else "") ++ "StructuredBuffer"
  | .resource .sampler _ _ _ => "SamplerState"
  | .resource .tlas _ _ _ => "RaytracingAccelerationStructure"
  | .resource .constant (some elem) _ _ => elem.name
  | .resource .constant none _ _ => "void"

def scalar (kind : Kind) : Ty := .value kind 1 1

abbrev f16 : Ty := .value .f16 1 1
abbrev f16x2 : Ty := .value .f16 2 1
abbrev f32 : Ty := .value .f32 1 1
abbrev f32x2 : Ty := .value .f32 2 1
abbrev f32x3 : Ty := .value .f32 3 1
abbrev f32x4 : Ty := .value .f32 4 1
abbrev f32x3x3 : Ty := .value .f32 3 3
abbrev bool : Ty := .value .bool 1 1
abbrev i32x2 : Ty := .value .i32 2 1
abbrev u32 : Ty := .value .u32 1 1
abbrev u32x2 : Ty := .value .u32 2 1
abbrev u32x3 : Ty := .value .u32 3 1

def rayQueryResult : Ty :=
  .struct "RayQueryWrapper"
    [("hit", bool), ("ray_t", f32), ("bary", f32x2), ("primitive_idx", u32), ("instance_id", u32)]
    true

def rayDesc : Ty :=
  .struct "RayDesc" [("Origin", f32x3), ("TMin", f32), ("Direction", f32x3), ("TMax", f32)] true

def texture (elem : Ty) (dim : Dim) : Ty := .resource .texture (some elem) dim .read
def rwTexture (elem : Ty) (dim : Dim) : Ty := .resource .texture (some elem) dim .readWrite
def buffer (elem : Ty) : Ty := .resource .buffer (some elem) .d1 .read
def rwBuffer (elem : Ty) : Ty := .resource .buffer (some elem) .d1 .readWrite
def constant (elem : Ty) : Ty := .resource .constant (some elem) .d1 .read
def sampler : Ty := .resource .sampler none .d1 .read
def tlas : Ty := .resource .tlas none .d1 .read

def isVoid : Ty → Bool
  | .void => true
  | _ => false

def isWildcard : Ty → Bool
  | .wildcard _ => true
  | _ => false

def isValue : Ty → Bool
  | .value .. => true
  | _ => false

def isScalar : Ty → Bool
  | .value _ rows cols => rows == 1 && cols == 1
  | _ => false

def isVector : Ty → Bool
  | .value _ _ cols => cols == 1
  | _ => false

def isMatrix : Ty → Bool
  | .value _ _ cols => decide (1 < cols)
  | _ => false

def isStruct : Ty → Bool
  | .struct .. => true
  | _ => false

def isBuiltinStruct : Ty → Bool
  | .struct _ _ builtin => builtin
  | _ => false

def isArray : Ty → Bool
  | .array .. => true
  | _ => false

def isResource : Ty → Bool
  | .resource .. => true
  | _ => false

def kind? : Ty → Option Kind
  | .value kind _ _ => some kind
  | _ => none

def isKind (ty : Ty) (kind : Kind) : Bool :=
  ty.kind? == some kind

def hasKind (ty : Ty) (p : Kind → Bool) : Bool :=
  ty.kind?.any p

def rows : Ty → Nat
  | .value _ rows _ => rows
  | _ => 0

def totalRows : List Ty → Nat
  | [] => 0
  | ty :: rest => ty.rows + totalRows rest

def cols : Ty → Nat
  | .value _ _ cols => cols
  | _ => 0

def dimension? : Ty → Option Nat
  | .numeric n => some n
  | _ => none

def elem? : Ty → Option Ty
  | .array elem _ => some elem
  | .resource _ elem _ _ => elem
  | _ => none

def extent? : Ty → Option Extent
  | .array _ extent => some extent
  | _ => none

def fields : Ty → List (String × Ty)
  | .struct _ fields _ => fields
  | _ => []

def field? (ty : Ty) (name : String) : Option Ty :=
  ty.fields.lookup name

def resourceKind? : Ty → Option ResourceKind
  | .resource kind _ _ _ => some kind
  | _ => none

def isResourceOf (ty : Ty) (kind : ResourceKind) : Bool :=
  ty.resourceKind? == some kind

def dim? : Ty → Option Dim
  | .resource _ _ dim _ => some dim
  | _ => none

def access? : Ty → Option Access
  | .resource _ _ _ access => some access
  | _ => none

def declare (ty : Ty) (ident : String) : String :=
  match ty with
  | .array elem extent => elem.name ++ " " ++ ident ++ "[" ++ extent.text ++ "]"
  | _ => ty.name ++ " " ++ ident

end Ty

end ComputeKernel
