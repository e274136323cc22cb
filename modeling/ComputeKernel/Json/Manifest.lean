import ComputeKernel.Json.Settings
import ComputeKernel.Manifest

namespace ComputeKernel

def ResourceKind.tag : ResourceKind → String
  | .texture => "Texture"
  | .buffer => "Buffer"
  | .constant => "Constant"
  | .sampler => "Sampler"
  | .tlas => "Tlas"

def Dim.tag : Dim → String
  | .d1 => "D1"
  | .d2 => "D2"
  | .d3 => "D3"
  | .d1Array => "D1Array"
  | .d2Array => "D2Array"

def Access.tag : Access → String
  | .read => "Read"
  | .readWrite => "ReadWrite"

def Json.tagged? {α : Type} (choices : List α) (tag : α → String) (j : Json) : Option α :=
  j.tag?.bind fun t => choices.find? (tag · == t)

def ResourceKind.ofJson? : Json → Option ResourceKind :=
  Json.tagged? [.texture, .buffer, .constant, .sampler, .tlas] ResourceKind.tag

def Dim.ofJson? : Json → Option Dim :=
  Json.tagged? [.d1, .d2, .d3, .d1Array, .d2Array] Dim.tag

def Access.ofJson? : Json → Option Access :=
  Json.tagged? [.read, .readWrite] Access.tag

namespace Extent

def toJson : Extent → Json
  | .fixed n => .object [("Fixed", .ofWord n)]
  | .unbounded => .string "Unbounded"

def ofJson? (j : Json) : Option Extent :=
  match j.choice? with
  | some ("Fixed", some n) => n.word?.map .fixed
  | _ => if j.tag? = some "Unbounded" then some .unbounded else none

end Extent

namespace ManifestEntry

def toJson (e : ManifestEntry) : Json :=
  .object
    [("name", .string e.name),
      ("type_name", .string e.typeName),
      ("kind", .string e.kind.tag),
      ("dim", .string e.dim.tag),
      ("access", .string e.access.tag),
      ("elem", .ofOption .string e.elem),
      ("array", .ofOption Extent.toJson e.array),
      ("register", .ofOption .ofWord e.register),
      ("space", .ofOption .ofWord e.space),
      ("letter", .string e.letter.toString)]

def ofJson? (j : Json) : Option ManifestEntry := do
  let [name, typeName, kind, dim, access, elem, array, register, space, letter] ←
    j.record? ["name", "type_name", "kind", "dim", "access", "elem", "array", "register", "space",
      "letter"] | none
  return {
    name := ← Json.required? Json.string? name
    typeName := ← Json.required? Json.string? typeName
    kind := ← Json.required? ResourceKind.ofJson? kind
    dim := ← Json.required? Dim.ofJson? dim
    access := ← Json.required? Access.ofJson? access
    elem := ← Json.optional? Json.string? elem
    array := ← Json.optional? Extent.ofJson? array
    register := ← Json.optional? Json.word? register
    space := ← Json.optional? Json.word? space
    letter := ← Json.required? Json.char? letter }

end ManifestEntry

namespace Manifest

def toJson (m : Manifest) : Json :=
  .object
    [("group_size", m.groupSize.toJson),
      ("entries", .array (m.entries.map ManifestEntry.toJson))]

def ofJson? (j : Json) : Option Manifest := do
  let [groupSize, entries] ← j.record? ["group_size", "entries"] | none
  return {
    groupSize := ← Json.required? GroupSize.ofJson? groupSize
    entries := ← Json.required? (Json.list? ManifestEntry.ofJson?) entries }

end Manifest

end ComputeKernel
