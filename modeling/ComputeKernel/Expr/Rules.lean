import ComputeKernel.Expr.Basic

namespace ComputeKernel.Expr

def unaryType (op : Op) (operand : Ty) : Except Fault Ty :=
  let accept (ok : Bool) : Except Fault Ty :=
    if ok then .ok operand else .error (.operator op (.undefined operand))
  match op with
  | .assign => .ok operand
  | .bitNot => accept (operand.hasKind Kind.isInteger)
  | .not => accept (operand.isKind .bool)
  | .add | .sub => accept (operand.isValue && !operand.isKind .bool)
  | _ => .error (.operator op .twoOperands)

def arithmeticType (op : Op) (l r : Ty) : Except Fault Ty :=
  if !l.isValue || !r.isValue || l.isKind .bool || l.kind? != r.kind? then
    .error (.operator op (.arithmetic l r))
  else if l = r then .ok l
  else if l.isScalar && op == .mul then .ok r
  else if r.isScalar && (op == .mul || op == .div || op == .mulAssign || op == .divAssign) then .ok l
  else .error (.operator op (.mismatch l r))

def binaryType (op : Op) (l r : Ty) : Except Fault Ty :=
  if op = .not ∨ op = .bitNot then .error (.operator op .singleOperand)
  else if op = .assign then
    if l = r then .ok l else .error (.operator op (.assignment r l))
  else if op.isBitwise then
    if l = r ∧ l.hasKind Kind.isInteger then .ok l else .error (.operator op (.integers l r))
  else if op.isLogical then
    if l = r ∧ l.isKind .bool then .ok l else .error (.operator op (.bools l r))
  else if op.isRelational then
    if l = r ∧ l.isVector then Ty.vector .bool l.rows else .error (.operator op (.comparison l r))
  else arithmeticType op l r

def resourceType (res : Resource) : Ty :=
  match res.kind?, res.shape.elem? with
  | some .constant, some elem => if res.isArray then res.ty else elem
  | _, _ => res.ty

def swizzleType (base : Ty) (lanes : String) : Except Fault Ty :=
  match base.kind? with
  | some kind => Ty.vector kind lanes.utf8ByteSize
  | none => .error (.notSwizzlable base)

def fieldType (base : Ty) (name : String) : Except Fault Ty :=
  if base.isStruct then
    match base.field? name with
    | some ty => .ok ty
    | none => .error (.noField base name)
  else .error (.notStruct name base)

def checkIndex (index : Ty) : Except Fault Unit :=
  if index.isVector && index.hasKind Kind.isInteger then .ok () else .error (.indexType index)

def elementType (base : Ty) : Except Fault Ty :=
  match base with
  | .array elem _ => .ok elem
  | .resource _ (some elem) _ _ => .ok elem
  | .value kind rows cols =>
    if 1 < cols then Ty.vector kind cols
    else if cols = 1 ∧ rows ≠ 1 then .ok (.scalar kind)
    else .error (.notIndexable base)
  | _ => .error (.notIndexable base)

def zeroedType (ty : Ty) : Except Fault Ty :=
  if ty.isStruct || ty.isValue then .ok ty else .error (.notZeroable ty)

def checkCondition (cond : Ty) : Except Fault Unit :=
  if cond = .bool then .ok () else .error (.selectCondition cond)

def branchType (yes no : Ty) : Except Fault Ty :=
  if yes = no then .ok yes else .error (.selectBranches yes no)

end ComputeKernel.Expr
