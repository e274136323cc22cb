import ComputeKernel.Script.Action
import ComputeKernel.Script.Journal

namespace ComputeKernel.Script

open Scripted

def Ref.operand : Ref → Scripted Operand
  | .value name => return .value (← lookup name)
  | .constant l => return .constant l

def Snippet.build : Snippet → Expr → Scripted Expr
  | .packHalves => Build.packHalves
  | .unpackHalves => Build.unpackHalves
  | .luminance => Build.luminance
  | .encodeOctahedral => Build.encodeOctahedral
  | .decodeOctahedral => Build.decodeOctahedral
  | .encodeOctahedralBytes => Build.encodeOctahedralBytes
  | .decodeOctahedralBytes => Build.decodeOctahedralBytes

def ValueAction.perform : ValueAction → Scripted Expr
  | .constant l => Build.constant l
  | .variableOf o => do Build.variableOf (← o.operand)
  | .zero ty => do Build.zero (← given ty)
  | .zeroed ty => do Build.zeroed (← given ty)
  | .input i => do Build.input (← given i)
  | .resource res => do Build.resource (← given res)
  | .apply b values operands => do
    let b ← given b
    let es ← values.mapM lookup
    let os ← operands.mapM Ref.operand
    Build.applyTo b es os
  | .select cond yes no => do
    Build.select (← lookup cond) (← yes.operand) (← no.operand)
  | .sharedStorage name ty count => do Build.sharedStorage name (← given ty) count
  | .arrayOf values => Build.arrayOf values
  | .localArray elem length => do Build.localArray (← given elem) length
  | .callNamed name args => do Build.callNamed name (← args.mapM lookup)
  | .call callee args => do
    let p ← given callee
    Build.call p (← args.mapM lookup)
  | .currentMask => Build.currentMask
  | .binarySearch buffer count key => do
    Build.binarySearch (← lookup buffer) (← lookup count) (← lookup key)
  | .snippet s name => do s.build (← lookup name)
  | .negate name => do Build.negate (← lookup name)
  | .complement name => do Build.complement (← lookup name)
  | .binary op lhs rhs => do Build.binary op (← lhs.operand) (← rhs.operand)
  | .named source name => do Build.named (← lookup source) name
  | .swizzle source lanes => do Build.swizzle (← lookup source) lanes
  | .element source index => do Build.element (← lookup source) index
  | .elementAt source index => do Build.elementAt (← lookup source) (← index.operand)
  | .field source name => do Build.field (← lookup source) name
  | .part source name => do Build.part (← lookup source) name
  | .setPart source name o => do Build.setPart (← lookup source) name (← o.operand)
  | .load source index => do Build.load (← lookup source) (← index.operand)

def describeValue (e : Expr) : Scripted Outcome := do
  let name ← Build.nameOf e
  return .value e name (← Build.typeOf e)

def survive (result : Except Fault Expr) : Scripted Outcome :=
  match result with
  | .ok e => describeValue e
  | .error fault => return .faulty fault

def TryAction.perform : TryAction → Scripted Outcome
  | .swizzle source lanes => do survive (← Build.trySwizzle (← lookup source) lanes)
  | .field source name => do survive (← Build.tryField (← lookup source) name)
  | .callNamed name args => do
    match ← Build.function? name with
    | none => return .missing
    | some p => survive (← Build.tryCall p (← args.mapM lookup))

def Command.perform : Command → Scripted Unit
  | .update op target o => do
    let _ ← Build.binary op (← lookup target) (← o.operand)
  | .store target index o => do
    Build.store (← lookup target) (← index.operand) (← o.operand)
  | .write target index source => do
    Build.write (← lookup target) (← lookup index) (← lookup source)
  | .breakLoop => Build.breakLoop
  | .continueLoop => Build.continueLoop
  | .returnVoid => Build.returnVoid
  | .returnValue name => do Build.returnValue (← lookup name)
  | .groupSync => Build.groupSync
  | .writeHeader text => Build.writeHeader text
  | .enableWave32 => Build.enableWave32

def Query.perform : Query → Scripted Outcome
  | .setGroupSize size => do
    match ← Build.setGroupSize size with
    | .ok () => return .done
    | .error fault => return .faulty fault
  | .register callee => do
    let p ← given callee
    return .prototype (some (← Build.register p))
  | .builtin b => do
    let b ← given b
    return .prototype (some (← Build.builtin b))
  | .function name => return .prototype (← Build.function? name)
  | .divergence name => do
    return .divergence (← Build.divergenceOf (← lookup name))
  | .describe name => do
    let e ← lookup name
    let ty ← Build.typeOf e
    return .description (← Build.nameOf e) ty ((← get).sheet.nodes.describe e)
  | .region => do
    let divergent ← Build.inDivergentRegion
    return .region divergent (← Build.isWave32) (← get).name
  | .warnings => return .warnings (← Build.draft).warnings
  | .text => return .text (← get).text

def Action.perform : Action → Scripted Outcome
  | .value a => do describeValue (← a.perform)
  | .attempt a => a.perform
  | .command c => do
    c.perform
    return .done
  | .query q => q.perform

end ComputeKernel.Script
