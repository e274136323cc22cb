import ComputeKernel.Build.Basic

namespace ComputeKernel.Script

inductive Outcome where
  | done
  | value (e : Expr) (name : Spelling) (ty : Ty)
  | faulty (fault : Fault)
  | missing
  | prototype (callee : Option Prototype)
  | divergence (mode : Divergence)
  | description (name : Spelling) (ty : Ty) (text : String)
  | region (divergent wave32 : Bool) (kernel : String)
  | warnings (warnings : List Warning)
  | text (text : String)

structure Entry where
  label : String
  outcome : Outcome
  written : List Line

structure Notebook where
  bound : List (String × Expr) := []
  entries : List Entry := []
  seen : List Nat := [0]

namespace Notebook

def bind (n : Notebook) (name : Option String) (e : Expr) : Notebook :=
  match name with
  | none => n
  | some name => { n with bound := (name, e) :: n.bound }

def enterBody (n : Notebook) : Notebook := { n with seen := 0 :: n.seen }

def leaveBody (n : Notebook) : Notebook := { n with seen := n.seen.tail }

def record (n : Notebook) (label : String) (outcome : Outcome) (lines : List Line) : Notebook :=
  { n with
    entries := ⟨label, outcome, lines.drop (n.seen.headD 0)⟩ :: n.entries
    seen := lines.length :: n.seen.tail }

def journal (n : Notebook) : List Entry := n.entries.reverse

end Notebook

abbrev Scripted := Build Notebook

namespace Scripted

def renote (f : Notebook → Notebook) : Scripted Unit :=
  modify fun w => { w with notes := f w.notes }

def lookup (name : String) : Scripted Expr := do
  match (← get).notes.bound.lookup name with
  | some e => return e
  | none => throw (.unbound name)

def given {α : Type} : Described α → Scripted α
  | .ok a => pure a
  | .error fault => throw (.refused fault)

def record (label : String) (outcome : Outcome) : Scripted Unit := do
  let lines := (← Build.draft).lines
  renote (·.record label outcome lines)

end Scripted

end ComputeKernel.Script
