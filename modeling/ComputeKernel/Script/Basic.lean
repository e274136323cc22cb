import ComputeKernel.Script.Perform

/-! Scripts: kernels described by nested steps. Names are bound for the whole script, and outlive the
scopes and functions in which they were bound. -/

namespace ComputeKernel.Script

structure Heading where
  label : String
  bind : Option String := none

inductive Step where
  | act (heading : Heading) (action : Action)
  | ifThen (label : String) (byLane : Bool) (cond : String) (body : List Step)
  | ifElse (label : String) (byLane : Bool) (cond : String) (body otherwise : List Step)
  | ifLaneActive (label : String) (body : List Step)
  | forRange (label : String) (first last : Ref) (counter : Option String) (body : List Step)
  | loop (label : String) (byLane : Bool) (body : List Step)
  | switchOn (label : String) (value : String) (cases : List (UInt32 × List Step))
  | define (label bodyLabel : String) (callee : Described Prototype) (params : List String)
      (body : List Step) (result : Option String)
  | transparentQuery (heading : Heading) (scene ray : String) (candidate : Option String)
      (body : List Step) (accept : String)

open Scripted

def Heading.record (h : Heading) (outcome : Outcome) : Scripted Unit := do
  match outcome with
  | .value e _ _ => renote (·.bind h.bind e)
  | _ => pure ()
  Scripted.record h.label outcome

def bindAll (names : List String) (values : List Expr) : Scripted Unit :=
  (names.zip values).forM fun (name, e) => renote (·.bind (some name) e)

mutual

def Step.run : Step → Scripted Unit
  | .act heading action => do
    heading.record (← action.perform)
  | .ifThen label byLane cond body => do
    let c ← lookup cond
    if byLane then Build.laneIf c (runAll body) else Build.ifThen c (runAll body)
    record label .done
  | .ifElse label byLane cond body otherwise => do
    let c ← lookup cond
    if byLane then Build.laneIfElse c (runAll body) (runAll otherwise)
    else Build.ifElse c (runAll body) (runAll otherwise)
    record label .done
  | .ifLaneActive label body => do
    Build.ifLaneActive (runAll body)
    record label .done
  | .forRange label first last counter body => do
    let a ← first.operand
    let b ← last.operand
    Build.forRange a b fun i => do
      renote (·.bind counter i)
      runAll body
    record label .done
  | .loop label byLane body => do
    if byLane then Build.laneWhile (runAll body) else Build.whileLoop (runAll body)
    record label .done
  | .switchOn label name cases => do
    Build.switchOn (← lookup name) (runCases cases)
    record label .done
  | .define label bodyLabel callee params body result => do
    let p ← given callee
    let p ← Build.defineFunction p fun values => do
      renote (·.enterBody)
      bindAll params values
      runAll body
      record bodyLabel .done
      renote (·.leaveBody)
      result.mapM lookup
    record label (.prototype (some p))
  | .transparentQuery heading scene ray candidate body accept => do
    let tlas ← lookup scene
    let r ← lookup ray
    let hit ← Build.transparentQuery tlas r fun c => do
      renote (·.bind candidate c)
      runAll body
      lookup accept
    heading.record (← describeValue hit)
termination_by structural s => s

def runAll : List Step → Scripted Unit
  | [] => pure ()
  | step :: steps => do
    step.run
    runAll steps
termination_by structural ss => ss

def runCases : List (UInt32 × List Step) → List (UInt32 × Scripted Unit)
  | [] => []
  | case :: cases => runCase case :: runCases cases
termination_by structural cs => cs

def runCase : UInt32 × List Step → UInt32 × Scripted Unit
  | (label, body) => (label, runAll body)
termination_by structural c => c

end

end ComputeKernel.Script
