import ComputeKernel.Build.Values

/-! Branches on lane masks. Each branch runs under the mask of those lanes of the current mask that
take it, and is entered when there is such a lane:

    m_if   = ballot(c) & current
    m_else = ~ballot(c) & current
-/

namespace ComputeKernel.Build

variable {ν : Type}

def inScope (condition : Option Expr) (body : Build ν Unit) : Build ν Unit := do
  redraft (·.enterScope condition)
  body
  drafting .exitScope

def loopBody (condition : Option Expr) (body : Build ν Unit) : Build ν Unit := do
  redraft (·.pushTarget .loop)
  inScope condition body
  let _ ← drafting .popTarget

def enableWave32 : Build ν Unit := do
  let seed ← constant (.u32 [0xffffffff])
  redraft (·.enableWave32 seed)

def configure (settings : Settings) : Build ν Unit := do
  match ← setGroupSize settings.groupSize with
  | .error fault => throw (.refused fault)
  | .ok () => if settings.wave32 then enableWave32

def currentMask : Build ν Expr := drafting .currentMask

def maskVariable (stem : String) : Build ν Expr := do
  let z ← zero .u32
  named z (← freshName stem)

def maskedBranch (mask : Expr) (body : Build ν Unit) : Build ν Unit := do
  redraft (·.pushMask mask)
  inScope (some mask) body
  let _ ← drafting .popMask

def maskedIf (cond : Expr) (body : Build ν Unit) (otherwise : Option (Build ν Unit)) :
    Build ν Unit := do
  let current ← currentMask
  let taken ← maskVariable "m_if"
  let missed ← maskVariable "m_else"
  writeLine (.ballot (← nameOf taken) true (← nameOf cond) (← nameOf current))
  writeLine (.ballot (← nameOf missed) false (← nameOf cond) (← nameOf current))
  writeLine (.openMask (← nameOf taken))
  maskedBranch taken body
  match otherwise with
  | some other =>
    writeLine (.openElseMask (← nameOf missed))
    maskedBranch missed other
  | none => pure ()
  writeLine .close

def ifLaneActive (body : Build ν Unit) : Build ν Unit := do
  let current ← currentMask
  let bit ← apply .laneBit []
  let own ← binary .bitAnd current bit
  let active ← binary .ne own (Literal.u32 [0])
  writeLine (.openIf (← nameOf active))
  inScope (some active) body
  writeLine .close

def maskedWhile (body : Build ν Unit) : Build ν Unit := do
  let current ← currentMask
  let mask ← named current (← freshName "m_loop")
  writeLine .openWhile
  redraft (·.pushMask mask)
  loopBody none body
  let _ ← drafting .popMask
  writeLine .close

end ComputeKernel.Build
