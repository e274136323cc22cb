import ComputeKernel.Callable.Prototype
import ComputeKernel.Code.Spelling
import ComputeKernel.Resource

/-! Expressions of a kernel. Nodes are numbered, and the number is a node's identity, so expressions
form a directed acyclic graph. What changes during construction is kept in tables under the number. -/

namespace ComputeKernel

inductive Input where
  | threadId
  | groupId
  | groupThreadId
  | custom (name : String) (ty : Ty)
deriving DecidableEq

namespace Input

def name : Input → String
  | .threadId => "__tid"
  | .groupId => "__group_id"
  | .groupThreadId => "__gid"
  | .custom name _ => name

def ty : Input → Ty
  | .custom _ ty => ty
  | _ => .u32x3

end Input

inductive Expr where
  | literal (id : Nat) (value : Literal)
  | unary (id : Nat) (op : Op) (operand : Expr)
  | binary (id : Nat) (op : Op) (lhs rhs : Expr)
  | call (id : Nat) (callee : Prototype) (args : List Expr)
  | resource (id : Nat) (res : Resource)
  | input (id : Nat) (input : Input)
  | array (id : Nat) (elem : Ty) (length : UInt32) (init : List Literal)
  | swizzle (id : Nat) (base : Expr) (lanes : String)
  | field (id : Nat) (base : Expr) (name : String)
  | element (id : Nat) (base : Expr) (index : UInt32)
  | elementAt (id : Nat) (base index : Expr)
  | storage (id : Nat) (name : String) (ty : Ty)
  | zeroed (id : Nat) (ty : Ty)
  | select (id : Nat) (cond yes no : Expr)

inductive Role where
  | lhs
  | rhs
  | arg
  | base
  | index
  | cond
  | yes
  | no
deriving DecidableEq, Repr

def Role.word : Role → String
  | .lhs => "lhs"
  | .rhs => "rhs"
  | .arg => "arg"
  | .base => "base"
  | .index => "index"
  | .cond => "cond"
  | .yes => "then"
  | .no => "else"

namespace Expr

def id : Expr → Nat
  | .literal id _ | .unary id _ _ | .binary id _ _ _ | .call id _ _ | .resource id _ | .input id _
  | .array id _ _ _ | .swizzle id _ _ | .field id _ _ | .element id _ _ | .elementAt id _ _
  | .storage id _ _ | .zeroed id _ | .select id _ _ _ => id

def children : Expr → List (Role × Expr)
  | .unary _ _ operand => [(.rhs, operand)]
  | .binary _ _ lhs rhs => [(.lhs, lhs), (.rhs, rhs)]
  | .call _ _ args => args.map fun a => (.arg, a)
  | .swizzle _ base _ | .field _ base _ | .element _ base _ => [(.base, base)]
  | .elementAt _ base index => [(.base, base), (.index, index)]
  | .select _ cond yes no => [(.cond, cond), (.yes, yes), (.no, no)]
  | .literal .. | .resource .. | .input .. | .array .. | .storage .. | .zeroed .. => []

def defaultName : Expr → Spelling
  | .resource _ res => .word res.name
  | .input _ i => .word i.name
  | .storage _ name _ => .word name
  | e => .temp e.id

def lvalueRoot : Expr → Expr
  | .swizzle _ base _ | .field _ base _ | .element _ base _ | .elementAt _ base _ => base.lvalueRoot
  | e => e

end Expr

end ComputeKernel
