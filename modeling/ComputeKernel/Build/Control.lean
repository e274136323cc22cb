import ComputeKernel.Build.LaneMask

namespace ComputeKernel.Build

variable {ν : Type}

def checkCondition (cond : Expr) : Build ν Unit := do
  let ty ← typeOf cond
  if ty ≠ .bool then fatal (.branchCondition ty)

def laneIf (cond : Expr) (body : Build ν Unit) : Build ν Unit := do
  checkCondition cond
  writeLine (.openIf (← nameOf cond))
  inScope (some cond) body
  writeLine .close

def laneIfElse (cond : Expr) (body otherwise : Build ν Unit) : Build ν Unit := do
  checkCondition cond
  writeLine (.openIf (← nameOf cond))
  inScope (some cond) body
  writeLine .openElse
  inScope (some cond) otherwise
  writeLine .close

def ifThen (cond : Expr) (body : Build ν Unit) : Build ν Unit := do
  checkCondition cond
  if ← isWave32 then maskedIf cond body none else laneIf cond body

def ifElse (cond : Expr) (body otherwise : Build ν Unit) : Build ν Unit := do
  checkCondition cond
  if ← isWave32 then maskedIf cond body (some otherwise) else laneIfElse cond body otherwise

def isLoopBound (ty : Ty) : Bool := ty.isScalar && ty.hasKind Kind.isInteger

def forRange (first last : Operand) (body : Expr → Build ν Unit) : Build ν Unit := do
  let a ← emitOperand first
  let b ← emitOperand last
  let ty ← typeOf a
  let ty' ← typeOf b
  if ty ≠ ty' ∨ !isLoopBound ty then fatal (.loopBounds ty ty')
  let z ← zero ty
  let counter ← copy z
  let either ← emitting (.diverging (.either a.divergence b.divergence))
  if either = .divergent then emitting (.diverging (.force counter.id))
  writeLine (.openFor (← nameOf counter) (← nameOf a) (← nameOf b))
  let running ← node fun id => .binary id .le counter b
  loopBody (some running) (body counter)
  writeLine .close

def laneWhile (body : Build ν Unit) : Build ν Unit := do
  writeLine .openWhile
  loopBody none body
  writeLine .close

def whileLoop (body : Build ν Unit) : Build ν Unit := do
  if ← isWave32 then maskedWhile body else laneWhile body

def switchCase (value : Expr) (label : UInt32) (body : Build ν Unit) : Build ν Unit := do
  writeLine (.openCase label)
  inScope (some value) body
  writeLine .closeCase

def switchOn (value : Expr) (cases : List (UInt32 × Build ν Unit)) : Build ν Unit := do
  let ty ← typeOf value
  if !isLoopBound ty then fatal (.switchValue ty)
  writeLine (.openSwitch (← nameOf value))
  redraft (·.pushTarget .switch)
  cases.forM fun (label, body) => switchCase value label body
  let _ ← drafting .popTarget
  writeLine .close

def breakLoop : Build ν Unit := do
  drafting (.checkBreak "break")
  writeLine .breakLoop

def continueLoop : Build ν Unit := do
  drafting .checkContinue
  writeLine .continueLoop

def returnVoid : Build ν Unit := writeLine .returnVoid

def returnValue (e : Expr) : Build ν Unit := do
  writeLine (.returnValue (← nameOf e))

def groupSync : Build ν Unit := do
  writeLine .barrier
  redraft Draft.noteSync

def returnResult (p : Prototype) (ret : Ty) : Option Expr → Build ν Unit
  | some value => do
    let ty ← typeOf value
    if ty = ret then returnValue value else fatal (.wrongReturn p.name ret ty)
  | none => if ret.isVoid then pure () else fatal (.missingReturn p.name ret)

def defineFunction (p : Prototype) (body : List Expr → Build ν (Option Expr)) :
    Build ν Prototype := do
  let header ← must p.header
  redraft Draft.enterFunction
  writeLine (.openFunction p header)
  let params ← p.params.mapM fun q => do
    emit (← node fun id => .storage id q.name q.ty)
  let result ← body params
  returnResult p (p.fixedReturn?.getD .void) result
  writeLine .close
  drafting .exitFunction
  register p

end ComputeKernel.Build
