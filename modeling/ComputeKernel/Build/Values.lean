import ComputeKernel.Build.Basic

namespace ComputeKernel.Build

variable {ν : Type}

def constant (l : Literal) : Build ν Expr := do
  emit (← making (.literal l))

def variableOf (o : Operand) : Build ν Expr := do
  let e ← operand o
  emit (← node fun id => .unary id .assign e)

def zero (ty : Ty) : Build ν Expr := do
  constant (← must (Literal.zero ty))

def zeroed (ty : Ty) : Build ν Expr := do
  emit (← node fun id => .zeroed id ty)

def input (i : Input) : Build ν Expr := do
  emit (← node fun id => .input id i)

def resource (r : Resource) : Build ν Expr := do
  emit (← node fun id => .resource id r)

def select (cond : Expr) (yes no : Operand) : Build ν Expr := do
  let a ← operand yes
  let b ← operand no
  emit (← node fun id => .select id cond a b)

def sharedStorage (name : String) (elem : Ty) (count : UInt32) : Build ν Expr := do
  let ty := if 1 < count then .array elem (.fixed count) else elem
  drafting (.addShared name ty)
  emit (← node fun id => .storage id name ty)

def arrayOf (values : List Literal) : Build ν Expr := do
  match values with
  | [] => fatal .emptyStaticArray
  | first :: _ =>
    let elem ← must first.ty
    emit (← making (.array elem values.length.toUInt32 values))

def localArray (elem : Ty) (length : UInt32) : Build ν Expr := do
  emit (← making (.array elem length []))

def binary (op : Op) (lhs rhs : Operand) : Build ν Expr := do
  let a ← operand lhs
  let b ← operand rhs
  emit (← node fun id => .binary id op a b)

def unary (op : Op) (e : Expr) : Build ν Expr := do
  emit (← node fun id => .unary id op e)

def negate (e : Expr) : Build ν Expr := unary .sub e

def complement (e : Expr) : Build ν Expr := do
  if (← typeOf e).isKind .bool then unary .not e else unary .bitNot e

def assign (target : Expr) (o : Operand) : Build ν Expr := binary .assign target o

def copy (e : Expr) : Build ν Expr := variableOf e

def named (e : Expr) (name : String) : Build ν Expr := do
  let copied ← node fun id => .unary id .assign e
  emitting (.rename copied.id (.word name))
  emit copied

def trySwizzle (e : Expr) (lanes : String) : Build ν (Except Fault Expr) := do
  match ← attempt (.making (.swizzle e lanes)) with
  | .error fault => return .error fault
  | .ok part => tryEmit part

def swizzle (e : Expr) (lanes : String) : Build ν Expr := do
  must (← trySwizzle e lanes)

def tryField (e : Expr) (name : String) : Build ν (Except Fault Expr) := do
  tryEmit (← node fun id => .field id e name)

def field (e : Expr) (name : String) : Build ν Expr := do
  must (← tryField e name)

def element (e : Expr) (index : UInt32) : Build ν Expr := do
  emit (← node fun id => .element id e index)

def elementAt (e : Expr) (index : Operand) : Build ν Expr := do
  let i ← operand index
  emit (← node fun id => .elementAt id e i)

def part (e : Expr) (name : String) : Build ν Expr := do
  if (← typeOf e).isStruct then field e name else swizzle e name

def setPart (e : Expr) (name : String) (o : Operand) : Build ν Expr := do
  assign (← part e name) o

def read (e index : Expr) : Build ν Expr := apply .read [e, index]

def write (e index value : Expr) : Build ν Unit := do
  let _ ← apply .write [e, index, value]

def load (e : Expr) (index : Operand) : Build ν Expr := do
  if (← typeOf e).isResource then
    let i ← emitOperand index
    read e i
  else elementAt e index

def store (e : Expr) (index value : Operand) : Build ν Unit := do
  if (← typeOf e).isResource then
    let i ← emitOperand index
    let v ← emitOperand value
    write e i v
  else
    let _ ← assign (← elementAt e index) value

def applyTo (b : Builtin) (values : List Expr) (operands : List Operand) : Build ν Expr := do
  let rest ← operands.mapM emitOperand
  apply b (values ++ rest)

end ComputeKernel.Build
