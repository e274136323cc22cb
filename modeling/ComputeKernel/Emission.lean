import ComputeKernel.Draft.Basic
import ComputeKernel.Expr.Nodes

/-! Writing the statements that compute a node. A node that is visible in the current scope is not
written again. After a fault the lines already written stay. -/

namespace ComputeKernel

structure Sheet where
  nodes : Nodes
  draft : Draft

abbrev Emit := EStateM Fault Sheet

namespace Emit

def making {α : Type} (x : Making α) : Emit α := fun s =>
  match x s.nodes with
  | .ok a nodes => .ok a { s with nodes }
  | .error fault nodes => .error fault { s with nodes }

def typing {α : Type} (x : Typing α) : Emit α := making (.typing x)

def drafting {α : Type} (x : Drafting α) : Emit α := fun s =>
  match x s.draft with
  | .ok a draft => .ok a { s with draft }
  | .error fault draft => .error fault { s with draft }

def diverging {α : Type} (x : Diverging α) : Emit α := fun s =>
  let (a, modes) := x s.nodes.modes
  .ok a { s with nodes := { s.nodes with modes } }

def redraft (f : Draft → Draft) : Emit Unit :=
  modify fun s => { s with draft := f s.draft }

def write (line : Line) : Emit Unit := redraft (·.write line)

def nameOf (e : Expr) : Emit Spelling := do
  return (← get).nodes.name e

def rename (id : Nat) (name : Spelling) : Emit Unit :=
  modify fun s => { s with nodes := s.nodes.rename id name }

def inDivergentRegion : Emit Bool := do
  let mode ← diverging (Expr.anyDivergent (← get).draft.scopes.conditions)
  return mode == .divergent

def once (e : Expr) (body : Ty → Emit Unit) : Emit Unit := do
  if (← get).draft.scopes.isVisible e.id then return
  let ty ← typing e.inferType
  body ty
  redraft (·.mark e.id)

def branch (cond : Expr) (target value : Expr) (body : Emit Unit) : Emit Unit := do
  redraft (·.enterScope (some cond))
  body
  write (.assign (← nameOf target) .assign (← nameOf value))
  drafting .exitScope

def noteWrite (target : Expr) : Emit Unit := do
  if ← inDivergentRegion then
    diverging (.force target.id)
    diverging (.force target.lvalueRoot.id)

end Emit

namespace Expr

open Emit

mutual

def emit (e : Expr) : Emit Unit :=
  match e with
  | .literal id value => once e fun _ => do
    let text ← orFault value.text
    rename id (.constant value text)
  | .unary _ op operand => once e fun ty => do
    operand.emit
    let r ← nameOf operand
    let target ← nameOf e
    write (.declare ty target (if op = .assign then .copy r else .unary op r))
  | .binary id op lhs rhs => once e fun ty => do
    lhs.emit
    rhs.emit
    let r ← nameOf rhs
    let l ← nameOf lhs
    if op.isAssign then
      write (.assign l op r)
      rename id l
      noteWrite lhs
    else write (.declare ty (← nameOf e) (.binary op l r))
  | .call _ callee args => once e fun ty => do
    let given ← emitArgs args
    let texts := given.map fun (name, ty) => (⟨name.text, ty⟩ : CallArg)
    let text ← orFault (callee.callText texts)
    let names := given.map Prod.fst
    if ty.isVoid then write (.perform callee names text)
    else write (.declare ty (← nameOf e) (.call callee names text))
  | .resource id res => once e fun _ => do
    drafting (.registerResource res)
    rename id (.word res.name)
  | .input id i => once e fun _ => rename id (.word i.name)
  | .array _ elem length init => once e fun _ => do
    drafting (.registerType elem)
    let texts ← orFault (init.mapM Literal.text)
    write (.array elem (← nameOf e) length texts)
  | .swizzle id base lanes => once e fun _ => do
    base.emit
    rename id (.member (← nameOf base) lanes)
  | .field id base name => once e fun _ => do
    base.emit
    rename id (.member (← nameOf base) name)
  | .element id base index => once e fun _ => do
    base.emit
    rename id (.element (← nameOf base) index)
  | .elementAt id base index => once e fun _ => do
    base.emit
    index.emit
    rename id (.elementAt (← nameOf base) (← nameOf index))
  | .storage _ _ ty => once e fun _ => drafting (.registerType ty)
  | .zeroed _ ty => once e fun _ => do
    drafting (.registerType ty)
    write (.declare ty (← nameOf e) .zero)
  | .select _ cond yes no => once e fun ty => do
    cond.emit
    write (.reserve ty (← nameOf e))
    write (.openIf (← nameOf cond))
    branch cond e yes yes.emit
    write .openElse
    branch cond e no no.emit
    write .close
termination_by structural e

def emitArgs : List Expr → Emit (List (Spelling × Ty))
  | [] => pure []
  | e :: rest => do
    e.emit
    let name ← nameOf e
    let ty ← typing e.inferType
    let given ← emitArgs rest
    return (name, ty) :: given
termination_by structural es => es

end

end Expr

end ComputeKernel
