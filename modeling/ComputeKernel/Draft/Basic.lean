import ComputeKernel.Code.Line
import ComputeKernel.Expr.Basic
import ComputeKernel.Settings
import ComputeKernel.Table

/-! A kernel while it is being written: the tables of what it declares, the bodies, and the stacks
that follow the nesting of the text. What is first written inside of a scope is forgotten when the
scope ends. -/

namespace ComputeKernel

/-- Two stacks of their own: what was visible in the scopes around, and the conditions of the open scopes. -/
structure ScopeStack where
  visible : List (List Nat) := []
  conditions : List (Option Expr) := []

def ScopeStack.push (s : ScopeStack) (visible : List Nat) (condition : Option Expr) : ScopeStack :=
  ⟨visible :: s.visible, condition :: s.conditions⟩

structure Scopes where
  visible : List Nat := []
  stack : ScopeStack := {}

namespace Scopes

def depth (s : Scopes) : Nat := s.stack.visible.length

def isVisible (s : Scopes) (id : Nat) : Bool := s.visible.contains id

def mark (s : Scopes) (id : Nat) : Scopes :=
  if s.isVisible id then s else { s with visible := id :: s.visible }

def enter (s : Scopes) (condition : Option Expr) : Scopes :=
  { s with stack := s.stack.push s.visible condition }

def leave? (s : Scopes) : Option Scopes :=
  match s.stack.visible, s.stack.conditions with
  | visible :: outer, _ :: conditions => some ⟨visible, outer, conditions⟩
  | _, _ => none

def conditions (s : Scopes) : List Expr :=
  s.stack.conditions.reverse.filterMap id

end Scopes

inductive BreakTarget where
  | loop
  | switch
deriving DecidableEq, Repr

structure Frame where
  lines : List Line
  scopes : Scopes
  targets : List BreakTarget

structure Draft where
  settings : Settings
  resources : NameTable Resource := {}
  types : NameTable Ty := {}
  structs : List Ty := []
  shared : NameTable Ty := {}
  header : String := ""
  functions : List Line := []
  body : List Line := []
  frames : List Frame := []
  scopes : Scopes := {}
  targets : List BreakTarget := []
  groupSize : GroupSize := .default
  wave32 : Bool := false
  masks : List Expr := []
  synced : Bool := false

abbrev Drafting := EStateM Fault Draft

namespace Draft

def start (settings : Settings) : Draft := { settings }

def lines (d : Draft) : List Line :=
  match d.frames with
  | [] => d.body
  | frame :: _ => frame.lines

def text (d : Draft) : String := Line.textOf d.lines

def inFunction (d : Draft) : Bool := !d.frames.isEmpty

def write (d : Draft) (line : Line) : Draft :=
  match d.frames with
  | [] => { d with body := d.body ++ [line] }
  | frame :: frames => { d with frames := { frame with lines := frame.lines ++ [line] } :: frames }

def writeHeader (d : Draft) (text : String) : Draft :=
  { d with header := d.header ++ text }

def enterFunction (d : Draft) : Draft :=
  { d with
    frames := ⟨[], d.scopes, d.targets⟩ :: d.frames
    scopes := {}
    targets := [] }

def enterScope (d : Draft) (condition : Option Expr) : Draft :=
  { d with scopes := d.scopes.enter condition }

def mark (d : Draft) (id : Nat) : Draft :=
  { d with scopes := d.scopes.mark id }

def pushTarget (d : Draft) (target : BreakTarget) : Draft :=
  { d with targets := target :: d.targets }

def enableWave32 (d : Draft) (seed : Expr) : Draft :=
  { d with wave32 := true, masks := [seed] }

def pushMask (d : Draft) (mask : Expr) : Draft :=
  { d with masks := mask :: d.masks }

def noteSync (d : Draft) : Draft := { d with synced := true }

def setGroupSize (d : Draft) (size : GroupSize) : Except Failure Draft := do
  size.check
  return { d with groupSize := size }

end Draft

namespace Drafting

def exitFunction : Drafting Unit := do
  let d ← get
  match d.frames with
  | [] => throw .noOpenFunction
  | frame :: frames =>
    set { d with frames }
    if d.scopes.depth ≠ 0 then throw .functionLeftScope
    set { d with
      frames
      scopes := frame.scopes
      targets := frame.targets
      functions := d.functions ++ frame.lines }

def exitScope : Drafting Unit := do
  let d ← get
  match d.scopes.leave? with
  | some scopes => set { d with scopes }
  | none => throw .scopeUnderflow

def popTarget : Drafting BreakTarget := do
  let d ← get
  match d.targets with
  | [] => throw .breakUnderflow
  | target :: targets =>
    set { d with targets }
    return target

def checkBreak (what : String) : Drafting Unit := do
  match (← get).targets with
  | .loop :: _ => pure ()
  | .switch :: _ => throw (.breakInSwitch what)
  | [] => throw (.breakOutsideLoop what)

def checkContinue : Drafting Unit := do
  if !(← get).targets.contains .loop then throw .continueOutsideLoop

def popMask : Drafting Expr := do
  let d ← get
  match d.masks with
  | mask :: next :: masks =>
    set { d with masks := next :: masks }
    return mask
  | _ => throw .maskUnderflow

def currentMask : Drafting Expr := do
  match (← get).masks with
  | mask :: _ => return mask
  | [] => throw .noMask

mutual

def registerType : Ty → Drafting Unit
  | .struct name fields builtin => do
    match (← get).types.find? name with
    | some existing =>
      if existing ≠ .struct name fields builtin then throw (.structConflict name)
    | none =>
      registerFields fields
      modify fun d =>
        { d with
          types := d.types.insert name (.struct name fields builtin)
          structs := d.structs ++ [.struct name fields builtin] }
  | .array elem _ => registerType elem
  | .resource _ (some elem) _ _ => registerType elem
  | .resource _ none _ _ | .void | .numeric _ | .wildcard _ | .value .. => pure ()
termination_by structural ty => ty

def registerFields : List (String × Ty) → Drafting Unit
  | [] => pure ()
  | (_, ty) :: rest => do
    registerType ty
    registerFields rest
termination_by structural fields => fields

end

def registerResource (res : Resource) : Drafting Unit := do
  match (← get).resources.find? res.name with
  | some existing =>
    if existing.ty ≠ res.ty ∨ existing.binding ≠ res.binding then
      throw (.resourceConflict res.name existing.ty res.ty)
  | none =>
    registerType res.ty
    modify fun d => { d with resources := d.resources.insert res.name res }

def addShared (name : String) (ty : Ty) : Drafting Unit := do
  match (← get).shared.find? name with
  | some existing => if existing ≠ ty then throw (.sharedConflict name existing ty)
  | none =>
    registerType ty
    modify fun d => { d with shared := d.shared.insert name ty }

end Drafting

inductive Warning where
  | noWritable
  | unsyncedShared
deriving DecidableEq, Repr

def Warning.report : Warning → Report
  | .noWritable =>
    { severity := .warning
      message := "kernel declares no writable resource; it has no visible effect" }
  | .unsyncedShared =>
    { severity := .warning
      message := "shared memory is used without a group barrier"
      help := some "call group_sync() between writes and reads of shared memory" }

def Draft.warnings (d : Draft) : List Warning :=
  (if d.resources.values.any (·.shape.access? == some .readWrite) then [] else [.noWritable])
    ++ (if !d.shared.isEmpty && !d.synced then [.unsyncedShared] else [])

end ComputeKernel
