import ComputeKernel.Storage.Disk

namespace ComputeKernel

structure FileTree where
  files : List (Location × ByteArray) := []
  folders : List Location := []

namespace FileTree

inductive Entry where
  | folder
  | file (bytes : ByteArray)
  | device

def contents? (t : FileTree) (l : Location) : Option ByteArray := t.files.lookup l

def hasFolder (t : FileTree) (l : Location) : Bool :=
  l.isFixed || t.folders.contains l || t.files.any fun file => file.1.isInside l

def entry? (t : FileTree) (l : Location) : Option Entry :=
  if l = .nullDevice then some .device
  else
    match t.contents? l with
    | some bytes => some (.file bytes)
    | none => if t.hasFolder l then some .folder else none

def look (t : FileTree) (l : Location) (part : String) : Except FileFault Entry :=
  if Path.nameLimit < part.utf8ByteSize then .error .nameTooLong
  else
    match t.entry? (l.step part) with
    | some entry => .ok entry
    | none => .error .notFound

def walk (t : FileTree) (start : Location) : List String → Except FileFault Location
  | [] => .ok start
  | part :: way => do
    let l ← t.walk start way
    match ← t.look l part with
    | .folder => return l.step part
    | .file _ | .device => throw .notDirectory

def find (t : FileTree) (path : String) : Except FileFault Entry := do
  let p ← Path.ofText path
  let l ← t.walk p.start p.way
  match p.name? with
  | none => return .folder
  | some name =>
    match ← t.look l name with
    | .folder => return .folder
    | entry => if p.slash then throw .notDirectory else return entry

def read (t : FileTree) (path : String) : Except FileFault ByteArray := do
  match ← t.find path with
  | .file bytes => return bytes
  | .device => return .empty
  | .folder => throw .isDirectory

def isFile (t : FileTree) (path : String) : Bool :=
  match t.find path with
  | .ok (.file _) => true
  | _ => false

def isFolder (t : FileTree) (path : String) : Bool :=
  match t.find path with
  | .ok .folder => true
  | _ => false

def insert (t : FileTree) (l : Location) (bytes : ByteArray) : FileTree :=
  { t with files := (l, bytes) :: t.files.filter fun file => file.1 != l }

def erase (t : FileTree) (l : Location) : FileTree :=
  { t with
    files := t.files.filter fun file => file.1 != l
    folders := l.enclosing ++ t.folders }

def write (t : FileTree) (path : String) (bytes : ByteArray) : Except FileFault FileTree := do
  let p ← Path.ofText path
  let l ← t.walk p.start p.way
  match p.name? with
  | none => throw .isDirectory
  | some name =>
    if p.slash then throw .isDirectory
    else
      match t.look l name with
      | .ok (.file _) | .error .notFound => return t.insert (l.child name) bytes
      | .ok .device => return t
      | .ok .folder => throw .isDirectory
      | .error fault => throw fault

def makeFolder (t : FileTree) (path : String) : Except FileFault FileTree := do
  let p ← Path.ofText path
  let l ← t.walk p.start p.way
  match p.name? with
  | none => throw .alreadyExists
  | some name =>
    match t.look l name with
    | .ok _ => throw .alreadyExists
    | .error .notFound => return { t with folders := l.child name :: t.folders }
    | .error fault => throw fault

def update (change : FileTree → Except FileFault FileTree) :
    StateM FileTree (Except FileFault Unit) := do
  match change (← get) with
  | .ok t =>
    set t
    return .ok ()
  | .error fault => return .error fault

instance : Disk (StateM FileTree) where
  readBytes path := return (← get).read path
  writeBytes path bytes := update (·.write path bytes)
  makeFolder path := update (·.makeFolder path)
  pathExists path := return ((← get).find path).isOk
  isFile path := return (← get).isFile path
  isFolder path := return (← get).isFolder path
  programPath := return none

end FileTree

end ComputeKernel
