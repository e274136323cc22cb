import ComputeKernel.Build.Basic
import ComputeKernel.Storage.Disk

namespace ComputeKernel

structure Cache where
  root : String

structure Cached where
  text : String
  manifest : Option String
deriving DecidableEq, Repr

inductive CacheFault where
  | folder (fault : FileFault)
  | text (fault : FileFault)
deriving DecidableEq, Repr

def CacheFault.message : CacheFault → String
  | .folder fault => "cannot create cache directory: " ++ fault.message
  | .text fault => "cannot write cache file: " ++ fault.message

namespace Cache

def textPath (c : Cache) (key : String) : String := Path.join c.root (key ++ ".hlsl")

def manifestPath (c : Cache) (key : String) : String := Path.join c.root (key ++ ".json")

variable {m : Type → Type} [Monad m] [Disk m]

def contains (c : Cache) (key : String) : m Bool := Disk.pathExists (c.textPath key)

def lookup (c : Cache) (key : String) : m (Option Cached) := do
  match ← Disk.readText (c.textPath key) with
  | .error _ => return none
  | .ok text =>
    let manifest ← Disk.readText (c.manifestPath key)
    return some ⟨text, manifest.toOption⟩

def storeText (c : Cache) (key text manifest : String) : m (Except CacheFault String) := do
  match ← Disk.makeFolders c.root with
  | .error fault => return .error (.folder fault)
  | .ok () =>
    let path := c.textPath key
    if ← Disk.pathExists path then return .ok path
    match ← Disk.writeText path text with
    | .error fault => return .error (.text fault)
    | .ok () =>
      let _ ← Disk.writeText (c.manifestPath key) manifest
      return .ok path

def store (c : Cache) (k : Kernel) : m (Except CacheFault String) :=
  c.storeText k.key k.text k.manifest.json

end Cache

end ComputeKernel
