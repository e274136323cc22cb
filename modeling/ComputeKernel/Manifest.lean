import ComputeKernel.GroupSize
import ComputeKernel.Text

namespace ComputeKernel

structure ManifestEntry where
  name : String
  typeName : String
  kind : ResourceKind
  dim : Dim
  access : Access
  elem : Option String
  array : Option Extent
  register : Option UInt32
  space : Option UInt32
  letter : Char
deriving DecidableEq, Repr

structure Manifest where
  groupSize : GroupSize
  entries : List ManifestEntry
deriving DecidableEq, Repr

def ResourceKind.word : ResourceKind → String
  | .texture => "texture"
  | .buffer => "buffer"
  | .constant => "constant"
  | .sampler => "sampler"
  | .tlas => "tlas"

def Dim.word : Dim → String
  | .d1 => "1d"
  | .d2 => "2d"
  | .d3 => "3d"
  | .d1Array => "1d_array"
  | .d2Array => "2d_array"

def Access.word : Access → String
  | .read => "read"
  | .readWrite => "read_write"

namespace Manifest

def find? (m : Manifest) (name : String) : Option ManifestEntry :=
  m.entries.find? (·.name == name)

def optional {α : Type} (write : α → String) : Option α → String
  | none => "null"
  | some a => write a

def extentJson : Extent → String
  | .unbounded => Text.quote "unbounded"
  | .fixed n => toString n.toNat

def members (e : ManifestEntry) : List (String × String) :=
  [("name", Text.quote e.name),
    ("type", Text.quote e.typeName),
    ("kind", Text.quote e.kind.word),
    ("dim", Text.quote e.dim.word),
    ("access", Text.quote e.access.word),
    ("elem", optional Text.quote e.elem),
    ("array", optional extentJson e.array),
    ("register", optional (fun n => toString n.toNat) e.register),
    ("space", optional (fun n => toString n.toNat) e.space),
    ("letter", "\"" ++ e.letter.toString ++ "\"")]

def entryJson (e : ManifestEntry) : String :=
  "    \x7b\n"
    ++ ",\n".intercalate ((members e).map fun (key, value) => "      \"" ++ key ++ "\": " ++ value)
    ++ "\n    \x7d"

def json (m : Manifest) : String :=
  "\x7b\n  \"group_size\": [" ++ m.groupSize.text ++ "],\n  \"resources\": [\n"
    ++ ",\n".intercalate (m.entries.map entryJson)
    ++ (if m.entries.isEmpty then "" else "\n")
    ++ "  ]\n\x7d\n"

end Manifest

end ComputeKernel
