import ComputeKernel.Draft.Basic
import ComputeKernel.Manifest

/-! Declarations of the resources of a kernel, in the order of their names, and the manifest made from
them. An array without bound needs a register space of its own. -/

namespace ComputeKernel

structure Declaration where
  resource : Resource
  typeText : String
  register : Option UInt32
  space : Option UInt32
deriving DecidableEq

namespace Declaration

def letter (d : Declaration) : Char := d.resource.letter

def bindingText (letter : Char) (register space : Option UInt32) : String :=
  match register, space with
  | some r, some s =>
    " : register(" ++ letter.toString ++ toString r.toNat ++ ", space" ++ toString s.toNat ++ ")"
  | some r, none => " : register(" ++ letter.toString ++ toString r.toNat ++ ")"
  | none, some s => " : register(space" ++ toString s.toNat ++ ")"
  | none, none => ""

def ending (d : Declaration) : String :=
  match d.resource.array, d.resource.kind? with
  | some array, _ =>
    "[" ++ array.extent.text ++ "]" ++ bindingText d.letter d.register d.space ++ ";\n"
  | none, some .constant => ";\n"
  | none, _ => bindingText d.letter d.register d.space ++ ";\n"

def text (d : Declaration) : String :=
  d.typeText ++ " " ++ d.resource.name ++ d.ending

def typeText? (res : Resource) : Except Fault String :=
  match res.kind? with
  | none => .error (.notResource res.name res.shape)
  | some kind =>
    match kind, res.shape.elem? with
    | .texture, some elem | .buffer, some elem => .ok (res.shape.name ++ "<" ++ elem.name ++ ">")
    | .sampler, _ | .tlas, _ => .ok res.shape.name
    | .constant, some elem =>
      if elem.isVector then .ok elem.name else .error (.unsupportedShape res.name res.shape)
    | _, none => .error (.unsupportedShape res.name res.shape)

def ofResource (next : UInt32) (res : Resource) : Except Failure (Declaration × UInt32) := do
  let typeText ← (typeText? res).mapError Failure.fault
  let register := res.binding.bind Binding.register
  let space := res.binding.bind Binding.space
  match res.array, res.kind? with
  | some _, some .constant => .error (.fault (.constantArray res.name))
  | some array, _ =>
    if array.extent = .unbounded ∧ space = none then
      if next.toNat + 1 < UInt32.size then
        return (⟨res, typeText, register, some next⟩, next + 1)
      else .error (.overflow .add)
    else return (⟨res, typeText, register, space⟩, next)
  | none, some .constant => return (⟨res, typeText, none, none⟩, next)
  | none, _ => return (⟨res, typeText, register, space⟩, next)

def ofResources (next : UInt32) : List Resource → Except Failure (List Declaration)
  | [] => .ok []
  | res :: rest => do
    let (declaration, next) ← ofResource next res
    let declarations ← ofResources next rest
    return declaration :: declarations

def entry? (d : Declaration) : Option ManifestEntry :=
  match d.resource.shape with
  | .resource kind elem dim access =>
    some {
      name := d.resource.name
      typeName := d.typeText
      kind, dim, access
      elem := elem.map Ty.name
      array := d.resource.array.map ResourceArray.extent
      register := d.register
      space := d.space
      letter := d.letter }
  | _ => none

end Declaration

namespace Draft

def declarations (d : Draft) : Except Failure (List Declaration) :=
  Declaration.ofResources d.settings.bindlessBase d.resources.values

def manifest (d : Draft) : Except Failure Manifest := do
  let declarations ← d.declarations
  return ⟨d.groupSize, declarations.filterMap Declaration.entry?⟩

end Draft

end ComputeKernel
