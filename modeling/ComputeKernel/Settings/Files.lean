import ComputeKernel.Settings.Text
import ComputeKernel.Storage.Disk

namespace ComputeKernel

namespace Settings

inductive LoadFault where
  | unreadable (path : String) (fault : FileFault)
  | invalid (path : String) (fault : TextFault)
  | badName (name : String)
  | unknown (name : String)
deriving DecidableEq, Repr

def pathOf (name : String) : String := "kernels/" ++ name ++ ".toml"

def LoadFault.report : LoadFault → Report
  | .unreadable path fault =>
    { message := "cannot read kernel config '" ++ path ++ "': " ++ fault.message }
  | .invalid path fault => { message := path ++ ": " ++ fault.message }
  | .badName name => { message := "invalid config name '" ++ name ++ "'" }
  | .unknown name =>
    { message := "unknown kernel config '" ++ name ++ "' (looked for '" ++ pathOf name ++ "')"
      help := some "use 'default' or pass --config <path>" }

def hasPair (c : Char) : List Char → Bool
  | a :: b :: rest => (a == c && b == c) || hasPair c (b :: rest)
  | _ => false

def isName (name : String) : Bool :=
  let cs := name.toList
  !(cs.contains '/' || cs.contains '\\' || hasPair '.' cs || cs.head? = some '.')

def parent? (path : String) : Option String :=
  match path.toList.reverse.dropWhile (· ≠ '/') with
  | [] => none
  | [_] => if path = "/" then none else some "/"
  | _ :: above => some (String.ofList above.reverse)

def foldersAbove : Nat → String → List String
  | 0, _ => []
  | n + 1, path => (parent? path).elim [] fun folder => folder :: foldersAbove n folder

def within (folder path : String) : String :=
  if folder = "/" then folder ++ path else folder ++ "/" ++ path

variable {m : Type → Type} [Monad m] [Disk m]

def load (path : String) : m (Except LoadFault Settings) := do
  match ← Disk.readText path with
  | .error fault => return .error (.unreadable path fault)
  | .ok text => return (ofText text).mapError (.invalid path)

def candidates (program : Option String) (name : String) : List String :=
  (program.elim [] (foldersAbove 3)).map (within · (pathOf name)) ++ [pathOf name]

def resolve (name : String) : m (Except LoadFault Settings) := do
  if !isName name then return .error (.badName name)
  if name = "default" then return .ok .default
  match ← (candidates (← Disk.programPath) name).findM? Disk.pathExists with
  | some path => load path
  | none => return .error (.unknown name)

def find (pathOrName : String) : m (Except LoadFault Settings) := do
  if ← Disk.isFile pathOrName then load pathOrName else resolve pathOrName

end Settings

end ComputeKernel
