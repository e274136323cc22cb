import ComputeKernel.Draft.Finish
import ComputeKernel.Emission
import ComputeKernel.Expr.Graph

/-! Sessions: sequences of operations on the nodes of a kernel and its draft, which go on after a
fault. -/

namespace ComputeKernel

inductive Operation where
  | literal (value : Literal)
  | unary (op : Op) (operand : String)
  | binary (op : Op) (lhs rhs : String)
  | call (callee : Described Prototype) (args : List String)
  | resource (res : Described Resource)
  | input (input : Described Input)
  | array (elem : Described Ty) (length : UInt32) (init : List Literal)
  | swizzle (base lanes : String)
  | field (base name : String)
  | element (base : String) (index : UInt32)
  | elementAt (base index : String)
  | storage (name : String) (ty : Described Ty)
  | zeroed (ty : Described Ty)
  | select (cond yes no : String)
  | typeOf (node : String)
  | divergence (node : String)
  | isUniform (node : String)
  | force (node : String)
  | describe (node : String)
  | rename (node name : String)
  | emit (node : String)
  | graph (roots : List String) (sought : Option String)
  | write (text : String)
  | writeHeader (text : String)
  | enterFunction
  | exitFunction
  | enterScope (condition : Option String)
  | exitScope
  | isVisible (node : String)
  | mark (node : String)
  | state
  | pushTarget (target : BreakTarget)
  | popTarget
  | checkBreak (what : String)
  | checkContinue
  | setGroupSize (size : GroupSize)
  | enableWave32 (seed : String)
  | pushMask (mask : String)
  | popMask
  | currentMask
  | registerType (ty : Described Ty)
  | registerResource (res : Described Resource)
  | addShared (name : String) (ty : Described Ty)
  | declarations
  | manifest (sought : Option String)
  | finish

inductive Answer where
  | done
  | node (node : Expr) (name : String)
  | type (ty : Ty)
  | divergence (mode : Divergence)
  | uniform (isUniform : Bool)
  | description (name label text : String) (operands : List (Role × Nat)) (root : Nat)
  | emitted (name : String)
  | graph (graph : Graph) (contains : Option Bool)
  | visible (isVisible : Bool)
  | state (draft : Draft) (divergent : Bool)
  | target (target : BreakTarget)
  | mask (id : Nat)
  | declarations (declarations : List Declaration)
  | manifest (manifest : Manifest) (found : Option String)
  | text (text : String)

structure Session where
  sheet : Sheet
  bound : List (String × Expr) := []

namespace Session

def start (settings : Settings) (first : Nat) : Session where
  sheet := ⟨.start first, .start settings⟩

inductive Stop where
  | fault (fault : Fault)
  | overflow (overflow : Overflow)
  | unbound (name : String)

def Stop.ofFailure : Failure → Stop
  | .fault f => .fault f
  | .overflow o => .overflow o

abbrev Run := EStateM Stop Session

namespace Run

def emitting {α : Type} (x : Emit α) : Run α := fun s =>
  match x s.sheet with
  | .ok a sheet => .ok a { s with sheet }
  | .error fault sheet => .error (.fault fault) { s with sheet }

def making {α : Type} (x : Making α) : Run α := emitting (.making x)

def drafting {α : Type} (x : Drafting α) : Run α := emitting (.drafting x)

def diverging {α : Type} (x : Diverging α) : Run α := emitting (.diverging x)

def redraft (f : Draft → Draft) : Run Unit := emitting (.redraft f)

def given {α : Type} : Described α → Run α
  | .ok a => pure a
  | .error fault => throw (.fault fault)

def settled {α : Type} : Except Failure α → Run α
  | .ok a => pure a
  | .error failure => throw (.ofFailure failure)

def value (name : String) : Run Expr := do
  match (← get).bound.lookup name with
  | some e => return e
  | none => throw (.unbound name)

def node (x : Making Expr) : Run Answer := do
  let e ← making x
  return .node e ((← get).sheet.nodes.name e).text

end Run

open Run

def perform : Operation → Run Answer
  | .literal v => node (.literal v)
  | .unary op operand => do
    let b ← value operand
    node (.node fun id => .unary id op b)
  | .binary op lhs rhs => do
    let a ← value lhs
    let b ← value rhs
    node (.node fun id => .binary id op a b)
  | .call callee args => do
    let p ← given callee
    let es ← args.mapM value
    node (.node fun id => .call id p es)
  | .resource res => do
    let r ← given res
    node (.node fun id => .resource id r)
  | .input i => do
    let i ← given i
    node (.node fun id => .input id i)
  | .array elem length init => do
    let ty ← given elem
    node (.array ty length init)
  | .swizzle base lanes => do
    let b ← value base
    node (.swizzle b lanes)
  | .field base name => do
    let b ← value base
    node (.node fun id => .field id b name)
  | .element base index => do
    let b ← value base
    node (.node fun id => .element id b index)
  | .elementAt base index => do
    let b ← value base
    let i ← value index
    node (.node fun id => .elementAt id b i)
  | .storage name ty => do
    let ty ← given ty
    node (.node fun id => .storage id name ty)
  | .zeroed ty => do
    let ty ← given ty
    node (.node fun id => .zeroed id ty)
  | .select cond yes no => do
    let c ← value cond
    let a ← value yes
    let b ← value no
    node (.node fun id => .select id c a b)
  | .typeOf name => do
    let e ← value name
    return .type (← emitting (.typing e.inferType))
  | .divergence name => do
    let e ← value name
    return .divergence (← diverging e.divergence)
  | .isUniform name => do
    let e ← value name
    return .uniform ((← diverging e.divergence) == .uniform)
  | .force name => do
    let e ← value name
    diverging (.force e.id)
    return .done
  | .describe name => do
    let e ← value name
    let nodes := (← get).sheet.nodes
    return .description (nodes.name e).text (nodes.label e) (nodes.describe e)
      (e.children.map fun (role, operand) => (role, operand.id)) e.lvalueRoot.id
  | .rename node name => do
    let e ← value node
    emitting (.rename e.id (.word name))
    return .done
  | .emit name => do
    let e ← value name
    emitting e.emit
    return .emitted ((← get).sheet.nodes.name e).text
  | .graph roots sought => do
    let es ← roots.mapM value
    let graph := Graph.ofRoots (← get).sheet.nodes es
    match sought with
    | none => return .graph graph none
    | some name => return .graph graph (some (graph.contains (← value name).id))
  | .write text => do
    redraft (·.write (.verbatim text))
    return .done
  | .writeHeader text => do
    redraft (·.writeHeader text)
    return .done
  | .enterFunction => do
    redraft Draft.enterFunction
    return .done
  | .exitFunction => do
    drafting .exitFunction
    return .done
  | .enterScope condition => do
    let cond ← condition.mapM value
    redraft (·.enterScope cond)
    return .done
  | .exitScope => do
    drafting .exitScope
    return .done
  | .isVisible name => do
    let e ← value name
    return .visible ((← get).sheet.draft.scopes.isVisible e.id)
  | .mark name => do
    let e ← value name
    redraft (·.mark e.id)
    return .done
  | .state => do
    let divergent ← emitting .inDivergentRegion
    return .state (← get).sheet.draft divergent
  | .pushTarget target => do
    redraft (·.pushTarget target)
    return .done
  | .popTarget => return .target (← drafting .popTarget)
  | .checkBreak what => do
    drafting (.checkBreak what)
    return .done
  | .checkContinue => do
    drafting .checkContinue
    return .done
  | .setGroupSize size => do
    let draft ← settled ((← get).sheet.draft.setGroupSize size)
    redraft fun _ => draft
    return .done
  | .enableWave32 seed => do
    let e ← value seed
    redraft (·.enableWave32 e)
    return .done
  | .pushMask mask => do
    let e ← value mask
    redraft (·.pushMask e)
    return .done
  | .popMask => return .mask (← drafting .popMask).id
  | .currentMask => return .mask (← drafting .currentMask).id
  | .registerType ty => do
    let ty ← given ty
    drafting (.registerType ty)
    return .done
  | .registerResource res => do
    let res ← given res
    drafting (.registerResource res)
    return .done
  | .addShared name ty => do
    let ty ← given ty
    drafting (.addShared name ty)
    return .done
  | .declarations => return .declarations (← settled (← get).sheet.draft.declarations)
  | .manifest sought => do
    let manifest ← settled (← get).sheet.draft.manifest
    return .manifest manifest
      ((sought.bind manifest.find?).map ManifestEntry.typeName)
  | .finish => return .text (← settled (← get).sheet.draft.finish)

structure Step where
  operation : Operation
  bind : Option String := none

structure Entry where
  outcome : Except Fault Answer
  written : String

def added (earlier text : String) : String :=
  if earlier.toList.isPrefixOf text.toList then String.ofList (text.toList.drop earlier.length)
  else text

def bindNode (s : Session) (bind : Option String) : Answer → Session
  | .node e _ => { s with bound := (bind.map fun name => (name, e)).toList ++ s.bound }
  | _ => s

def run (s : Session) (earlier : String) : List Step → List Entry × Option Stop
  | [] => ([], none)
  | step :: steps =>
    match perform step.operation s with
    | .ok answer s =>
      let s := s.bindNode step.bind answer
      let text := s.sheet.draft.text
      let (entries, stop) := run s text steps
      (⟨.ok answer, added earlier text⟩ :: entries, stop)
    | .error (.fault fault) s =>
      let text := s.sheet.draft.text
      let (entries, stop) := run s text steps
      (⟨.error fault, added earlier text⟩ :: entries, stop)
    | .error stop _ => ([], some stop)

end Session

end ComputeKernel
