import ComputeKernel.Callable.Table
import ComputeKernel.Draft.Finish
import ComputeKernel.Emission
import ComputeKernel.Expr.Graph
import ComputeKernel.Hash.Digest

/-!
Building a kernel: every operation emits at once, and a fault stops the construction.
-/

namespace ComputeKernel

structure Workspace (ν : Type) where
  name : String
  sheet : Sheet
  callables : CallTable := .standard
  roots : List Expr := []
  labels : Nat := 0
  notes : ν

inductive Halt where
  | fatal (fault : Fault)
  | refused (fault : Fault)
  | overflow (overflow : Overflow)
  | unbound (name : String)
deriving DecidableEq

def Halt.ofFailure : Failure → Halt
  | .fault f => .refused f
  | .overflow o => .overflow o

abbrev Build (ν : Type) := EStateM Halt (Workspace ν)

structure Kernel where
  name : String
  text : String
  manifest : Manifest
  warnings : List Warning
  graph : Graph

def Kernel.key (k : Kernel) : String := Hash.digest k.text

namespace Workspace

variable {ν : Type}

def start (settings : Settings) (first : Nat) (notes : ν) : Workspace ν where
  name := settings.name
  sheet := ⟨.start first, .start settings⟩
  notes := notes

def text (w : Workspace ν) : String := w.sheet.draft.text

def finish (w : Workspace ν) : Except Failure Kernel := do
  let draft := w.sheet.draft
  let text ← draft.finish
  let manifest ← draft.manifest
  return {
    name := w.name
    text, manifest
    warnings := draft.warnings
    graph := Graph.ofRoots w.sheet.nodes w.roots }

end Workspace

inductive Operand where
  | value (e : Expr)
  | constant (l : Literal)

instance : Coe Expr Operand := ⟨.value⟩

instance : Coe Literal Operand := ⟨.constant⟩

namespace Build

variable {ν : Type}

def attempt {α : Type} (x : Emit α) : Build ν (Except Fault α) := fun w =>
  match x w.sheet with
  | .ok a sheet => .ok (.ok a) { w with sheet }
  | .error fault sheet => .ok (.error fault) { w with sheet }

def must {α : Type} : Except Fault α → Build ν α
  | .ok a => pure a
  | .error fault => throw (.fatal fault)

def fatal {α : Type} (fault : Fault) : Build ν α := throw (.fatal fault)

def emitting {α : Type} (x : Emit α) : Build ν α := do
  must (← attempt x)

def making {α : Type} (x : Making α) : Build ν α := emitting (.making x)

def drafting {α : Type} (x : Drafting α) : Build ν α := emitting (.drafting x)

def redraft (f : Draft → Draft) : Build ν Unit := emitting (.redraft f)

def writeLine (line : Line) : Build ν Unit := redraft (·.write line)

def draft : Build ν Draft := do
  return (← get).sheet.draft

def isWave32 : Build ν Bool := do
  return (← draft).wave32

def nameOf (e : Expr) : Build ν Spelling := do
  return (← get).sheet.nodes.name e

def typeOf (e : Expr) : Build ν Ty := emitting (.typing e.inferType)

def divergenceOf (e : Expr) : Build ν Divergence := emitting (.diverging e.divergence)

def inDivergentRegion : Build ν Bool := emitting .inDivergentRegion

def freshName (stem : String) : Build ν String := do
  let w ← get
  set { w with labels := w.labels + 1 }
  return stem ++ "_" ++ toString w.labels

def node (mk : Nat → Expr) : Build ν Expr := making (.node mk)

def emitValue (e : Expr) : Emit Unit := do
  e.emit
  if ← Emit.inDivergentRegion then Emit.diverging (.force e.id)

def tryEmit (e : Expr) : Build ν (Except Fault Expr) := do
  match ← attempt (emitValue e) with
  | .error fault => return .error fault
  | .ok () =>
    modify fun w => { w with roots := w.roots ++ [e] }
    return .ok e

def emit (e : Expr) : Build ν Expr := do
  must (← tryEmit e)

def operand : Operand → Build ν Expr
  | .value e => pure e
  | .constant l => making (.literal l)

def emitOperand (o : Operand) : Build ν Expr := do
  emit (← operand o)

def builtin (b : Builtin) : Build ν Prototype := do
  let w ← get
  let (p, callables) := w.callables.builtin b
  set { w with callables }
  return p

def function? (name : String) : Build ν (Option Prototype) := do
  return (← get).callables.find? name

def register (p : Prototype) : Build ν Prototype := do
  modify fun w => { w with callables := w.callables.register p }
  return p

def tryCall (p : Prototype) (args : List Expr) : Build ν (Except Fault Expr) := do
  tryEmit (← node fun id => .call id p args)

def call (p : Prototype) (args : List Expr) : Build ν Expr := do
  must (← tryCall p args)

def callNamed (name : String) (args : List Expr) : Build ν Expr := do
  match ← function? name with
  | some p => call p args
  | none => fatal (.unknownFunction name)

def apply (b : Builtin) (args : List Expr) : Build ν Expr := do
  let p ← builtin b
  emit (← node fun id => .call id p args)

def setGroupSize (size : GroupSize) : Build ν (Except Fault Unit) := do
  match (← draft).setGroupSize size with
  | .ok d =>
    redraft fun _ => d
    return .ok ()
  | .error (.fault fault) => return .error fault
  | .error (.overflow overflow) => throw (.overflow overflow)

def writeHeader (text : String) : Build ν Unit := redraft (·.writeHeader text)

end Build

end ComputeKernel
