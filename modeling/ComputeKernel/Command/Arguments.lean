namespace ComputeKernel

inductive Command where
  | list
  | emit (name : String) (output settings : Option String) (wave32 : Bool)
  | manifest (name : String) (settings : Option String)
  | graph (name : String)
  | buildAll (folder : Option String)
  | functions
deriving DecidableEq, Repr

namespace Command

structure Options where
  valued : List (String × Option Char) := []
  switches : List String := []

structure Found where
  values : List (String × String) := []
  switches : List String := []
  operands : List String := []

namespace Options

def match? (options : Options) (arg : List Char) : Option (String × Option String) :=
  options.valued.findSome? fun (name, letter) =>
    let long := "--".toList ++ name.toList
    if arg = long then some (name, none)
    else if (long ++ ['=']).isPrefixOf arg then
      some (name, some (String.ofList (arg.drop (long.length + 1))))
    else
      letter.bind fun c =>
        match arg with
        | '-' :: d :: rest =>
          if c = d then
            match rest with
            | [] => some (name, none)
            | '=' :: value => some (name, some (String.ofList value))
            | value => some (name, some (String.ofList value))
          else none
        | _ => none

def isSwitch (options : Options) (arg : List Char) : Option String :=
  options.switches.find? fun name => arg == "--".toList ++ name.toList

def isOption (arg : List Char) : Bool := arg.head? = some '-' && arg.length > 1

def addValue? (found : Found) (name value : String) : Option Found :=
  if (found.values.lookup name).isSome then none
  else some { found with values := (name, value) :: found.values }

def addSwitch? (found : Found) (name : String) : Option Found :=
  if found.switches.contains name then none
  else some { found with switches := name :: found.switches }

def scan (options : Options) (found : Found) : List String → Option Found
  | [] => some found
  | arg :: rest =>
    let cs := arg.toList
    if cs = "--".toList then some { found with operands := found.operands ++ rest }
    else if isOption cs then
      match options.isSwitch cs with
      | some name => do scan options (← addSwitch? found name) rest
      | none =>
        match options.match? cs with
        | some (name, some value) => do scan options (← addValue? found name value) rest
        | some (name, none) =>
          match rest with
          | value :: rest =>
            if isOption value.toList then none
            else do scan options (← addValue? found name value) rest
          | [] => none
        | none => none
    else scan options { found with operands := found.operands ++ [arg] } rest

end Options

def Found.path? (found : Found) (name : String) : Option (Option String) :=
  match found.values.lookup name with
  | some path => if path.isEmpty then none else some (some path)
  | none => some none

def settingsOption : String × Option Char := ("config", none)

def ofArguments? : List String → Option Command
  | [] => none
  | word :: args => do
    match word with
    | "list" =>
      let found ← ({} : Options).scan {} args
      if found.operands.isEmpty then some .list else none
    | "emit" =>
      let options : Options := ⟨[("output", some 'o'), settingsOption], ["wave32"]⟩
      let found ← options.scan {} args
      let output ← found.path? "output"
      match found.operands with
      | [name] =>
        some (.emit name output (found.values.lookup "config")
          (found.switches.contains "wave32"))
      | _ => none
    | "manifest" =>
      let found ← ({ valued := [settingsOption] } : Options).scan {} args
      match found.operands with
      | [name] => some (.manifest name (found.values.lookup "config"))
      | _ => none
    | "dot" =>
      let found ← ({} : Options).scan {} args
      match found.operands with
      | [name] => some (.graph name)
      | _ => none
    | "build-all" =>
      let found ← ({ valued := [("out", none)] } : Options).scan {} args
      let folder ← found.path? "out"
      if found.operands.isEmpty then some (.buildAll folder) else none
    | "intrinsics" =>
      let found ← ({} : Options).scan {} args
      if found.operands.isEmpty then some .functions else none
    | _ => none

end Command

end ComputeKernel
