import ComputeKernel.Ty.Equality

namespace ComputeKernel

structure Binding where
  register : Option UInt32
  space : Option UInt32
deriving DecidableEq, Repr

structure ResourceArray where
  elemName : String
  elemTy : Ty
  extent : Extent
deriving DecidableEq

structure Resource where
  name : String
  ty : Ty
  array : Option ResourceArray := none
  binding : Option Binding := none
deriving DecidableEq

namespace Resource

def texture2D (name : String) (elem : Ty) : Resource := { name, ty := .texture elem .d2 }
def rwTexture2D (name : String) (elem : Ty) : Resource := { name, ty := .rwTexture elem .d2 }
def texture3D (name : String) (elem : Ty) : Resource := { name, ty := .texture elem .d3 }
def rwTexture3D (name : String) (elem : Ty) : Resource := { name, ty := .rwTexture elem .d3 }
def buffer (name : String) (elem : Ty) : Resource := { name, ty := .buffer elem }
def rwBuffer (name : String) (elem : Ty) : Resource := { name, ty := .rwBuffer elem }
def constant (name : String) (ty : Ty) : Resource := { name, ty := .constant ty }
def sampler (name : String) : Resource := { name, ty := .sampler }
def tlas (name : String) : Resource := { name, ty := .tlas }

def arrayOf (name : String) (elem : Resource) (extent : Extent) : Resource where
  name := name
  ty := .array elem.ty extent
  array := some ⟨elem.name, elem.ty, extent⟩

def withBinding (r : Resource) (register space : Option UInt32) : Resource :=
  { r with binding := some ⟨register, space⟩ }

def isArray (r : Resource) : Bool := r.array.isSome

def shape (r : Resource) : Ty :=
  r.array.elim r.ty ResourceArray.elemTy

def kind? (r : Resource) : Option ResourceKind :=
  r.shape.resourceKind?

def letter (r : Resource) : Char :=
  match r.kind?, r.shape.access? with
  | some .sampler, _ => 's'
  | some .constant, _ => 'b'
  | _, some .readWrite => 'u'
  | _, _ => 't'

end Resource

end ComputeKernel
