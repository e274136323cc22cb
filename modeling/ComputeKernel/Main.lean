import ComputeKernel.Command.Run

namespace ComputeKernel

def FileFault.ofError (e : IO.Error) : FileFault :=
  match e with
  | .noFileOrDirectory .. => .notFound
  | .alreadyExists .. => .alreadyExists
  | .inappropriateType _ code _ => if code = 21 then .isDirectory else .notDirectory
  | .invalidArgument _ code _ => if code = 36 then .nameTooLong else .other (toString e)
  | e => .other (toString e)

def guarded {α : Type} (x : IO α) : BaseIO (Except FileFault α) := do
  match ← x.toBaseIO with
  | .ok a => return .ok a
  | .error e => return .error (.ofError e)

instance : Disk BaseIO where
  readBytes path := guarded (IO.FS.readBinFile path)
  writeBytes path bytes := guarded (IO.FS.writeBinFile path bytes)
  makeFolder path := guarded (IO.FS.createDir path)
  pathExists path := do
    return (← guarded (IO.FS.Handle.mk path .read)).isOk
  isFile path := do
    return (← guarded (IO.FS.readBinFile path)).isOk
  isFolder path := do
    match ← guarded (IO.FS.readBinFile path) with
    | .error .isDirectory => return true
    | _ => return false
  programPath := do
    return (← guarded IO.appPath).toOption.map (·.toString)

end ComputeKernel

open ComputeKernel in
def main (args : List String) : IO UInt32 := do
  let env : Environment := ⟨← IO.getEnv "SJIT_CACHE_DIR", ← IO.getEnv "HOME"⟩
  let output ← (Command.runArguments env args : BaseIO Output)
  IO.print output.out
  IO.eprint output.err
  return output.code.toUInt32
