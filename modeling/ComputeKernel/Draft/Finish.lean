import ComputeKernel.Draft.Declarations
import ComputeKernel.Prologue

namespace ComputeKernel

namespace Draft

def structText (ty : Ty) : String :=
  "struct " ++ ty.name ++ " \x7b\n"
    ++ String.join (ty.fields.map fun (name, field) => "    " ++ field.declare name ++ ";\n")
    ++ "\x7d;\n"

def structSection (d : Draft) : String :=
  String.join ((d.structs.filter fun ty => !ty.isBuiltinStruct).map structText)

def sharedSection (d : Draft) : String :=
  String.join (d.shared.entries.map fun (name, ty) => "groupshared " ++ ty.declare name ++ ";\n")

def resourceSection (d : Draft) : Except Failure String :=
  if d.settings.emitResources then do
    let declarations ← d.declarations
    return String.join (declarations.map Declaration.text)
  else return "RESOURCE_STAB\n"

def entryHeader (size : GroupSize) : String :=
  "[numthreads(" ++ size.text ++ ")] void main(u32x3 __tid : SV_DispatchThreadID, "
    ++ "u32x3 __gid : SV_GroupThreadID, u32x3 __group_id : SV_GroupID)\n\x7b\n"

def finish (d : Draft) : Except Failure String := do
  if d.inFunction then throw (.fault .functionOpen)
  if d.scopes.depth ≠ 0 then throw (.fault (.scopesOpen d.scopes.depth))
  let resources ← d.resourceSection
  return Prologue.text ++ d.structSection ++ d.sharedSection ++ resources ++ d.header
    ++ Line.textOf d.functions ++ entryHeader d.groupSize ++ Line.textOf d.body ++ "\x7d\n"

end Draft

end ComputeKernel
