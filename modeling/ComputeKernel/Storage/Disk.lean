import ComputeKernel.Storage.Path

namespace ComputeKernel

class Disk (m : Type → Type) where
  readBytes : String → m (Except FileFault ByteArray)
  writeBytes : String → ByteArray → m (Except FileFault Unit)
  makeFolder : String → m (Except FileFault Unit)
  pathExists : String → m Bool
  isFile : String → m Bool
  isFolder : String → m Bool
  programPath : m (Option String)

namespace Disk

variable {m : Type → Type} [Monad m] [Disk m]

def readText (path : String) : m (Except FileFault String) := do
  match ← readBytes path with
  | .error fault => return .error fault
  | .ok bytes =>
    match String.fromUTF8? bytes with
    | some text => return .ok text
    | none => return .error .notText

def writeText (path text : String) : m (Except FileFault Unit) :=
  writeBytes path text.toUTF8

def ensureFolder (path : String) : m (Except FileFault Unit) := do
  match ← makeFolder path with
  | .ok () => return .ok ()
  | .error fault => if ← isFolder path then return .ok () else return .error fault

def ensureFolders : List String → m (Except FileFault Unit)
  | [] => return .ok ()
  | path :: outer => do
    match ← ensureFolder path with
    | .error .notFound =>
      match ← ensureFolders outer with
      | .ok () => ensureFolder path
      | .error fault => return .error fault
    | result => return result

def makeFolders (path : String) : m (Except FileFault Unit) :=
  if path.isEmpty then return .ok () else ensureFolders (path :: Path.enclosing path)

end Disk

end ComputeKernel
