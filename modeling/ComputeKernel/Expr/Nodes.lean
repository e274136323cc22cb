import ComputeKernel.Expr.Divergence
import ComputeKernel.Expr.Typing

namespace ComputeKernel

structure Nodes where
  next : Nat
  names : IdTable Spelling := {}
  types : IdTable Ty := {}
  modes : IdTable Divergence := {}

namespace Nodes

def start (first : Nat) : Nodes := { next := first }

def name (n : Nodes) (e : Expr) : Spelling :=
  (n.names.find? e.id).getD e.defaultName

def rename (n : Nodes) (id : Nat) (name : Spelling) : Nodes :=
  { n with names := n.names.insert id name }

def make (n : Nodes) (node : Nat → Expr) : Expr × Nodes :=
  (node n.next, { n with next := n.next + 1 })

def label (n : Nodes) (e : Expr) : String :=
  let name := (n.name e).text
  match e with
  | .literal _ value => value.text.toOption.getD "literal"
  | .unary _ op _ | .binary _ op _ _ => name ++ " " ++ op.symbol
  | .call _ callee _ => name ++ " " ++ callee.name ++ "()"
  | .resource _ res => res.name
  | .input _ i => i.name
  | .array _ elem length _ => name ++ " " ++ elem.name ++ "[" ++ toString length.toNat ++ "]"
  | .swizzle _ _ lanes => "." ++ lanes
  | .field _ _ field => "." ++ field
  | .element _ _ index => "[" ++ toString index.toNat ++ "]"
  | .elementAt .. => "[]"
  | .storage _ _ ty => name ++ ": " ++ ty.name
  | .zeroed _ ty => name ++ " " ++ ty.name
  | .select .. => name ++ " ?:"

def describe (n : Nodes) (e : Expr) : String :=
  "Expr#" ++ toString e.id ++ "(" ++ n.label e ++ ")"

end Nodes

abbrev Making := EStateM Fault Nodes

namespace Making

def node (mk : Nat → Expr) : Making Expr :=
  modifyGet (·.make mk)

def typing {α : Type} (x : Typing α) : Making α := fun n =>
  match x n.types with
  | .ok a types => .ok a { n with types }
  | .error fault types => .error fault { n with types }

def literal (value : Literal) : Making Expr := do
  let _ ← orFault value.text
  node (.literal · value)

def checkElements (elem : Ty) : List Literal → Except Fault Unit
  | [] => .ok ()
  | value :: rest => do
    let ty ← value.ty
    if ty = elem then checkElements elem rest else .error (.arrayElement elem ty)

def array (elem : Ty) (length : UInt32) (init : List Literal) : Making Expr := do
  if length = 0 then throw .emptyArray
  if !init.isEmpty && init.length != length.toNat then
    throw (.arrayCount length.toNat init.length)
  orFault (checkElements elem init)
  node (.array · elem length init)

def lane? : Char → Option Nat
  | 'x' => some 0
  | 'y' => some 1
  | 'z' => some 2
  | 'w' => some 3
  | _ => none

def checkLanes (base : Ty) (lanes : String) : List Char → Except Fault Unit
  | [] => .ok ()
  | c :: rest =>
    match lane? c with
    | none => .error (.swizzleLetter c lanes)
    | some lane =>
      if lane < base.rows then checkLanes base lanes rest else .error (.swizzleWidth lanes base)

def swizzle (base : Expr) (lanes : String) : Making Expr := do
  let ty ← typing base.inferType
  if !ty.isVector || lanes.utf8ByteSize = 0 || 4 < lanes.utf8ByteSize then
    throw (.swizzleShape lanes ty)
  orFault (checkLanes ty lanes lanes.toList)
  node (.swizzle · base lanes)

end Making

end ComputeKernel
