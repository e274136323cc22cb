namespace ComputeKernel

inductive Op where
  | add
  | sub
  | mul
  | div
  | rem
  | lt
  | le
  | gt
  | ge
  | eq
  | ne
  | and
  | or
  | not
  | bitAnd
  | bitOr
  | bitXor
  | bitNot
  | shl
  | shr
  | assign
  | addAssign
  | subAssign
  | mulAssign
  | divAssign
  | bitAndAssign
  | bitOrAssign
  | bitXorAssign
deriving DecidableEq, Repr

namespace Op

def all : List Op :=
  [.add, .sub, .mul, .div, .rem, .lt, .le, .gt, .ge, .eq, .ne, .and, .or, .not, .bitAnd, .bitOr,
    .bitXor, .bitNot, .shl, .shr, .assign, .addAssign, .subAssign, .mulAssign, .divAssign,
    .bitAndAssign, .bitOrAssign, .bitXorAssign]

def symbol : Op → String
  | .add => "+"
  | .sub => "-"
  | .mul => "*"
  | .div => "/"
  | .rem => "%"
  | .lt => "<"
  | .le => "<="
  | .gt => ">"
  | .ge => ">="
  | .eq => "=="
  | .ne => "!="
  | .and => "&&"
  | .or => "||"
  | .not => "!"
  | .bitAnd => "&"
  | .bitOr => "|"
  | .bitXor => "^"
  | .bitNot => "~"
  | .shl => "<<"
  | .shr => ">>"
  | .assign => "="
  | .addAssign => "+="
  | .subAssign => "-="
  | .mulAssign => "*="
  | .divAssign => "/="
  | .bitAndAssign => "&="
  | .bitOrAssign => "|="
  | .bitXorAssign => "^="

def ofSymbol? (s : String) : Option Op :=
  all.find? (·.symbol == s)

def isCompoundAssign : Op → Bool
  | .addAssign | .subAssign | .mulAssign | .divAssign
  | .bitAndAssign | .bitOrAssign | .bitXorAssign => true
  | _ => false

def isAssign (op : Op) : Bool :=
  op == .assign || op.isCompoundAssign

def isRelational : Op → Bool
  | .lt | .le | .gt | .ge | .eq | .ne => true
  | _ => false

def isBitwise : Op → Bool
  | .rem | .bitAnd | .bitOr | .bitXor | .shl | .shr
  | .bitAndAssign | .bitOrAssign | .bitXorAssign => true
  | _ => false

def isLogical : Op → Bool
  | .and | .or => true
  | _ => false

end Op

end ComputeKernel
