import ComputeKernel.Callable.Typing

namespace ComputeKernel

structure CallArg where
  text : String
  ty : Ty

def plainCall (name : String) (args : List CallArg) : String :=
  name ++ "(" ++ ", ".intercalate (args.map CallArg.text) ++ ")"

structure CallRule where
  returnType : List Ty → Except Fault Ty
  callText : String → List CallArg → Except Fault String

inductive Rule where
  | fixed (ret : Ty)
  | builtin (b : Builtin)
  | custom (rule : CallRule)

inductive ParamMode where
  | input
  | inout
deriving DecidableEq, Repr

structure Param where
  name : String
  ty : Ty
  mode : ParamMode := .input
deriving DecidableEq

structure Prototype where
  name : String
  params : List Param
  rule : Rule
  divergent : Bool := false

namespace Builtin

def argument (callee : String) (args : List CallArg) (i : Nat) : Except Fault CallArg :=
  match args[i]? with
  | some arg => .ok arg
  | none => .error (.missingArgument callee i)

def callText (b : Builtin) (callee : String) (args : List CallArg) : Except Fault String :=
  let arg := argument callee args
  match b with
  | .sample => do
    let tex ← arg 0
    let smp ← arg 1
    let uv ← arg 2
    return tex.text ++ ".SampleLevel(" ++ smp.text ++ ", " ++ uv.text ++ ", f32(0.0))"
  | .read => do
    let res ← arg 0
    let index ← arg 1
    return res.text ++ "[" ++ index.text ++ "]"
  | .write => do
    let res ← arg 0
    let index ← arg 1
    let value ← arg 2
    return res.text ++ "[" ++ index.text ++ "] = " ++ value.text
  | .convert kind => do
    let a ← arg 0
    let ty ← Ty.vector kind a.ty.rows
    return ty.name ++ "(" ++ a.text ++ ")"
  | .u32ToF16 => do
    let a ← arg 0
    let ty ← Ty.vector .f16 a.ty.rows
    return ty.name ++ "(f16tof32(" ++ a.text ++ "))"
  | .f16ToU32 => do
    let a ← arg 0
    let ty ← Ty.vector .u32 a.ty.rows
    return ty.name ++ "(f32tof16(" ++ a.text ++ "))"
  | .splat width => do
    let a ← arg 0
    match a.ty.kind? with
    | none => .error (.notSplattable callee a.ty)
    | some kind =>
      let ty ← Ty.vector kind width
      return "((" ++ ty.name ++ ")" ++ a.text ++ ")"
  | .ballot => do
    let a ← arg 0
    return "WaveActiveBallot(" ++ a.text ++ ").x"
  | _ => .ok (plainCall callee args)

end Builtin

namespace Prototype

def fixed (name : String) (ret : Ty) (params : List Param) : Prototype where
  name := name
  params := params
  rule := .fixed ret

def ofBuiltin (b : Builtin) : Prototype where
  name := b.name
  params := (List.range b.arity).map fun i =>
    { name := "a" ++ toString i, ty := .wildcard i }
  rule := .builtin b
  divergent := b.isDivergent

def fixedReturn? (p : Prototype) : Option Ty :=
  match p.rule with
  | .fixed ret => some ret
  | _ => none

def isBuiltin (p : Prototype) (b : Builtin) : Bool :=
  match p.rule with
  | .builtin existing => existing == b
  | _ => false

def checkParams (callee : String) : List Param → List Ty → Except Fault Unit
  | param :: params, arg :: args =>
    if param.ty.isWildcard || param.ty == arg then checkParams callee params args
    else .error (.parameter callee param.name param.ty arg)
  | _, _ => .ok ()

def returnType (p : Prototype) (args : List Ty) : Except Fault Ty :=
  match p.rule with
  | .fixed ret =>
    if args.length ≠ p.params.length then .error (.arity p.name p.params.length args.length)
    else do
      checkParams p.name p.params args
      return ret
  | .builtin b => b.returnType args
  | .custom rule => rule.returnType args

def callText (p : Prototype) (args : List CallArg) : Except Fault String :=
  match p.rule with
  | .fixed _ => .ok (plainCall p.name args)
  | .builtin b => b.callText p.name args
  | .custom rule => rule.callText p.name args

def paramText (p : Param) : String :=
  (match p.mode with
    | .input => "in "
    | .inout => "inout ") ++ p.ty.name ++ " " ++ p.name

def header (p : Prototype) : Except Fault String :=
  match p.fixedReturn? with
  | some ret =>
    .ok (ret.name ++ " " ++ p.name ++ "(" ++ ", ".intercalate (p.params.map paramText) ++ ")")
  | none => .error (.noFixedReturn p.name)

def signature (p : Prototype) : String :=
  p.name ++ "(" ++ ", ".intercalate (p.params.map fun q => q.name ++ ": " ++ q.ty.name) ++ ")"
    ++ (p.fixedReturn?.elim "" fun ret => " -> " ++ ret.name)
    ++ (if p.divergent then " [divergent]" else "")

end Prototype

end ComputeKernel
