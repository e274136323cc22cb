import ComputeKernel.Build.Control

namespace ComputeKernel.Build

variable {ν : Type}

def binarySearch (buffer count key : Expr) : Build ν Expr := do
  let low ← copy (← zero .u32)
  let high ← copy count
  laneWhile do
    let top ← apply (.convert .i32) [high]
    let bottom ← apply (.convert .i32) [low]
    let span ← binary .sub top bottom
    let done ← binary .le span (Literal.i32 [1])
    laneIf done breakLoop
    let sum ← binary .add low high
    let middle ← binary .div sum (Literal.u32 [2])
    let found ← read buffer middle
    let above ← binary .gt found key
    laneIfElse above
      (do let _ ← assign high middle)
      (do let _ ← assign low middle)
  return low

def packHalves (v : Expr) : Build ν Expr := do
  let x ← apply .f16ToU32 [← swizzle v "x"]
  let y ← apply .f16ToU32 [← swizzle v "y"]
  let high ← binary .shl y (Literal.u32 [16])
  binary .bitOr x high

def unpackHalves (v : Expr) : Build ν Expr := do
  let low ← binary .bitAnd v (Literal.u32 [0xffff])
  let x ← apply .u32ToF16 [low]
  let shifted ← binary .shr v (Literal.u32 [16])
  let high ← binary .bitAnd shifted (Literal.u32 [0xffff])
  let y ← apply .u32ToF16 [high]
  let out ← zeroed .f16x2
  let _ ← assign (← swizzle out "x") x
  let _ ← assign (← swizzle out "y") y
  return out

def luminance (rgb : Expr) : Build ν Expr := do
  let weights ← constant (.f32 [0.299, 0.587, 0.114])
  let brightness ← apply .dot [rgb, weights]
  applyTo .max [brightness] [Literal.f32 [1.0e-3]]

def signNotZero (v : Expr) : Build ν Expr := do
  let one (c : Expr) : Build ν Expr := do
    let positive ← binary .ge c (Literal.f32 [0.0])
    select positive (Literal.f32 [1.0]) (Literal.f32 [-1.0])
  let x ← one (← swizzle v "x")
  let y ← one (← swizzle v "y")
  apply (.construct .f32x2) [x, y]

def encodeOctahedral (n : Expr) : Build ν Expr := do
  let x ← apply (.math .abs) [← swizzle n "x"]
  let y ← apply (.math .abs) [← swizzle n "y"]
  let xy ← binary .add x y
  let z ← apply (.math .abs) [← swizzle n "z"]
  let norm ← binary .add xy z
  let p ← binary .div (← swizzle n "xy") norm
  let ones ← constant (.f32 [1.0, 1.0])
  let turned ← apply (.math .abs) [← swizzle p "yx"]
  let rest ← binary .sub ones turned
  let signs ← signNotZero p
  let folded ← binary .mul rest signs
  let upper ← binary .ge (← swizzle n "z") (Literal.f32 [0.0])
  let point ← select upper p folded
  let scaled ← binary .mul point (Literal.f32 [0.5])
  binary .add scaled (Literal.f32 [0.5, 0.5])

def decodeOctahedral (e : Expr) : Build ν Expr := do
  let doubled ← binary .mul e (Literal.f32 [2.0])
  let f ← binary .sub doubled (Literal.f32 [1.0, 1.0])
  let x ← apply (.math .abs) [← swizzle f "x"]
  let left ← binary .sub (Literal.f32 [1.0]) x
  let y ← apply (.math .abs) [← swizzle f "y"]
  let z ← binary .sub left y
  let t ← apply (.math .saturate) [← negate z]
  let signs ← signNotZero f
  let inward ← negate t
  let offset ← binary .mul signs inward
  let xy ← binary .add f offset
  let v ← apply (.construct .f32x3) [xy, z]
  apply (.math .normalize) [v]

def encodeOctahedralBytes (n : Expr) : Build ν Expr := do
  let e ← encodeOctahedral n
  let byte (lane : String) : Build ν Expr := do
    let c ← apply (.math .saturate) [← swizzle e lane]
    let scaled ← binary .mul c (Literal.f32 [255.0])
    apply (.convert .u32) [scaled]
  let x ← byte "x"
  let y ← byte "y"
  let high ← binary .shl y (Literal.u32 [8])
  binary .bitOr x high

def decodeOctahedralBytes (packed : Expr) : Build ν Expr := do
  let low ← binary .bitAnd packed (Literal.u32 [0xff])
  let shifted ← binary .shr packed (Literal.u32 [8])
  let high ← binary .bitAnd shifted (Literal.u32 [0xff])
  let x ← binary .div (← apply (.convert .f32) [low]) (Literal.f32 [255.0])
  let y ← binary .div (← apply (.convert .f32) [high]) (Literal.f32 [255.0])
  let e ← apply (.construct .f32x2) [x, y]
  decodeOctahedral e

def transparentQuery (scene ray : Expr) (accept : Expr → Build ν Expr) : Build ν Expr := do
  let result ← zeroed .rayQueryResult
  let query ← freshName "rq"
  writeLine (.declareQuery query)
  writeLine (.trace query (← nameOf scene) (← nameOf ray))
  writeLine (.openQueryLoop query)
  inScope none do
    writeLine (.openCandidate query)
    inScope none do
      let candidate ← zeroed .rayQueryResult
      writeLine (.readHit (← nameOf candidate) query .candidate)
      let blocks ← accept candidate
      writeLine (.commit (← nameOf blocks) query)
    writeLine .close
  writeLine .close
  writeLine (.openCommitted query)
  writeLine (.readHit (← nameOf result) query .committed)
  writeLine .close
  return result

end ComputeKernel.Build
