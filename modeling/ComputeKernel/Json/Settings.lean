import ComputeKernel.Json.Value
import ComputeKernel.Settings

namespace ComputeKernel

namespace GroupSize

def toJson (g : GroupSize) : Json :=
  .array [.ofWord g.x, .ofWord g.y, .ofWord g.z]

def ofJson? : Json → Option GroupSize
  | .array [x, y, z] => do return ⟨← x.word?, ← y.word?, ← z.word?⟩
  | _ => none

end GroupSize

namespace Settings

def toJson (s : Settings) : Json :=
  .object
    [("name", .string s.name),
      ("group_size", s.groupSize.toJson),
      ("wave32", .bool s.wave32),
      ("bindless_space_base", .ofWord s.bindlessBase),
      ("emit_resources", .bool s.emitResources)]

def ofJson? (j : Json) : Option Settings := do
  let [name, groupSize, wave32, bindlessBase, emitResources] ←
    j.record? ["name", "group_size", "wave32", "bindless_space_base", "emit_resources"] | none
  return {
    name := ← Json.required? Json.string? name
    groupSize := ← Json.required? GroupSize.ofJson? groupSize
    wave32 := ← Json.required? Json.bool? wave32
    bindlessBase := ← Json.required? Json.word? bindlessBase
    emitResources := ← Json.required? Json.bool? emitResources }

end Settings

end ComputeKernel
