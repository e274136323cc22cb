import ComputeKernel.Cache
import ComputeKernel.Catalog
import ComputeKernel.Command.Arguments
import ComputeKernel.Settings.Files

namespace ComputeKernel

structure Output where
  code : UInt8 := 0
  out : String := ""
  err : String := ""
deriving DecidableEq, Repr

structure Environment where
  cacheFolder : Option String := none
  home : Option String := none

namespace Output

def failed (err : String) : Output := { code := 1, err }

def printed (out : String) : Output := { out }

end Output

def lineOf (text : String) : String := text ++ "\n"

def Halt.report : Halt → Report
  | .fatal fault | .refused fault => fault.report
  | .overflow o => { message := o.message }
  | .unbound name => { message := "unknown value '" ++ name ++ "'" }

def Halt.code : Halt → UInt8
  | .refused _ => 1
  | _ => 101

namespace Command

def column (width : Nat) (text : String) : String :=
  text ++ String.ofList (List.replicate (width - text.length) ' ')

def listing : String :=
  String.join (Catalog.all.map fun r => lineOf (column 16 r.name ++ " " ++ r.description))

def unknownKernel (name : String) : Output :=
  .failed (lineOf ("error: unknown kernel '" ++ name ++ "'")
    ++ lineOf "  help: run `sjit list` to see the built-in kernels")

def warningText (k : Kernel) : String :=
  String.join (k.warnings.map fun w => lineOf w.report.text)

def withKernel {m : Type → Type} [Monad m] (recipe : Recipe) (settings : Settings)
    (next : Kernel → m Output) : m Output := do
  match (recipe.build settings 1).1 with
  | .error halt => return { code := halt.code, err := lineOf halt.report.text }
  | .ok kernel =>
    let output ← next kernel
    return { output with err := warningText kernel ++ output.err }

variable {m : Type → Type} [Monad m] [Disk m]

def withRecipe (name : String) (source : Option String)
    (next : Recipe → Settings → m Output) : m Output := do
  match Catalog.find? name with
  | none => return unknownKernel name
  | some recipe =>
    match source with
    | none => next recipe (.named recipe.name)
    | some source =>
      match ← Settings.find source with
      | .error fault => return .failed (lineOf fault.report.text)
      | .ok settings => next recipe settings

def writeKernel (path : String) (k : Kernel) : m Output := do
  match ← Disk.writeText path k.text with
  | .error fault =>
    return .failed (lineOf ("error: cannot write '" ++ path ++ "': " ++ fault.message))
  | .ok () =>
    let mark := String.ofList (k.key.toList.take 16)
    return { err := lineOf ("Emitted " ++ k.name ++ " -> " ++ path ++ " (" ++ mark ++ ")") }

def cache? (env : Environment) (folder : Option String) : Option Cache :=
  match folder, env.cacheFolder, env.home with
  | some root, _, _ => some ⟨root⟩
  | none, some root, _ => some ⟨root⟩
  | none, none, some home => some ⟨Path.join (Path.join home ".sjit") "cache"⟩
  | none, none, none => none

structure Stored where
  name : String
  warnings : String
  path : Except String String

def storeAll (cache : Cache) (first : Nat) : List Recipe → m (List Stored)
  | [] => return []
  | recipe :: rest => do
    match recipe.buildDefault first with
    | (.error halt, next) =>
      return ⟨recipe.name, "", .error halt.report.text⟩ :: (← storeAll cache next rest)
    | (.ok kernel, next) =>
      let warnings := String.join
        (kernel.warnings.map fun w => lineOf (recipe.name ++ ": " ++ w.report.text))
      let path ← cache.store kernel
      return ⟨recipe.name, warnings, path.mapError CacheFault.message⟩
        :: (← storeAll cache next rest)

def Stored.line (s : Stored) : String :=
  lineOf ("  " ++ column 16 s.name ++ " " ++
    match s.path with
    | .ok path => path
    | .error message => "FAILED: " ++ message)

def summary (cache : Cache) (results : List Stored) : Output :=
  let built := results.filter fun s => s.path.isOk
  { code := if built.length = results.length then 0 else 1
    err := String.join (results.map Stored.warnings) ++ String.join (results.map Stored.line)
      ++ lineOf ("Built " ++ toString built.length ++ " of " ++ toString results.length
        ++ " kernels into " ++ cache.root) }

def functionListing : Output :=
  let table := CallTable.standard
  { out := String.join (table.values.map fun p => lineOf p.signature)
    err := lineOf (toString table.size ++ " intrinsics") }

def run (env : Environment) : Command → m Output
  | .list => return .printed listing
  | .emit name output source wave32 =>
    withRecipe name source fun recipe settings =>
      withKernel recipe { settings with wave32 := settings.wave32 || wave32 } fun kernel =>
        match output with
        | none => return .printed kernel.text
        | some path => writeKernel path kernel
  | .manifest name source =>
    withRecipe name source fun recipe settings =>
      withKernel recipe settings fun kernel => return .printed kernel.manifest.json
  | .graph name =>
    withRecipe name none fun recipe settings =>
      withKernel recipe settings fun kernel => return .printed kernel.graph.dot
  | .buildAll folder => do
    match cache? env folder with
    | none =>
      return .failed (lineOf "error: no cache directory; pass --out or set SJIT_CACHE_DIR")
    | some cache => return summary cache (← storeAll cache 1 Catalog.all)
  | .functions => return functionListing

def usage : String :=
  lineOf "usage: list | emit NAME [-o FILE] [--config CONFIG] [--wave32]"
    ++ lineOf "       manifest NAME [--config CONFIG] | dot NAME | build-all [--out DIR] | intrinsics"

def runArguments (env : Environment) (args : List String) : m Output :=
  match ofArguments? args with
  | some command => run env command
  | none => return { code := 2, err := usage }

end Command

end ComputeKernel
