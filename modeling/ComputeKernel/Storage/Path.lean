import ComputeKernel.Text

namespace ComputeKernel

inductive FileFault where
  | notFound
  | alreadyExists
  | notDirectory
  | isDirectory
  | nameTooLong
  | nulByte
  | notText
  | other (message : String)
deriving DecidableEq, Repr

def FileFault.message : FileFault → String
  | .notFound => "No such file or directory (os error 2)"
  | .alreadyExists => "File exists (os error 17)"
  | .notDirectory => "Not a directory (os error 20)"
  | .isDirectory => "Is a directory (os error 21)"
  | .nameTooLong => "File name too long (os error 36)"
  | .nulByte => "file name contained an unexpected NUL byte"
  | .notText => "stream did not contain valid UTF-8"
  | .other message => message

inductive Anchor where
  | root
  | above (levels : Nat)
deriving DecidableEq, Repr

structure Location where
  anchor : Anchor := .above 0
  names : List String := []
deriving DecidableEq, Repr

namespace Location

def root : Location := ⟨.root, []⟩

def working : Location := ⟨.above 0, []⟩

def child (l : Location) (name : String) : Location := { l with names := name :: l.names }

def parent (l : Location) : Location :=
  match l.names, l.anchor with
  | _ :: names, _ => { l with names := names }
  | [], .root => l
  | [], .above levels => ⟨.above (levels + 1), []⟩

def step (l : Location) (part : String) : Location :=
  if part = "." then l else if part = ".." then l.parent else l.child part

def enclosing (l : Location) : List Location :=
  (List.range l.names.length).map fun n => { l with names := l.names.drop (n + 1) }

def isInside (l folder : Location) : Bool :=
  l.anchor = folder.anchor && folder.names.length < l.names.length
    && folder.names.isSuffixOf l.names

def isFixed (l : Location) : Bool :=
  l.names.isEmpty || l = root.child "dev" || l = root.child "tmp"

def nullDevice : Location := (root.child "dev").child "null"

end Location

structure Path where
  start : Location
  way : List String
  name? : Option String
  slash : Bool
deriving DecidableEq, Repr

namespace Path

def nameLimit : Nat := 255

def textLimit : Nat := 4095

def partsOf (text : String) : List String :=
  (((Text.splitAt '/' text.toList).filter (!·.isEmpty)).map String.ofList).reverse

def isAbsolute (text : String) : Bool := text.toList.head? = some '/'

def startOf (text : String) : Location := if isAbsolute text then .root else .working

def ofText (text : String) : Except FileFault Path :=
  if text.toList.contains '\x00' then .error .nulByte
  else if text.isEmpty then .error .notFound
  else if textLimit < text.utf8ByteSize then .error .nameTooLong
  else
    let start := startOf text
    let slash := text.toList.getLast? = some '/'
    match partsOf text with
    | [] => .ok ⟨start, [], none, slash⟩
    | part :: way =>
      if part = "." ∨ part = ".." then .ok ⟨start, part :: way, none, slash⟩
      else .ok ⟨start, way, some part, slash⟩

def textsOf (top : String) : List String → List String
  | [] => []
  | part :: way => (top ++ "/".intercalate (part :: way).reverse) :: textsOf top way

def enclosing (text : String) : List String :=
  textsOf (if isAbsolute text then "/" else "") ((partsOf text).filter (· ≠ ".")).tail

def join (folder name : String) : String :=
  if folder.isEmpty || isAbsolute name then name
  else if folder.toList.getLast? = some '/' then folder ++ name
  else folder ++ "/" ++ name

end Path

def Location.ofText (text : String) : Location :=
  (Path.partsOf text).foldr (fun part l => l.step part) (Path.startOf text)

end ComputeKernel
