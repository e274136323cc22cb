import ComputeKernel.Fault

/-! The registered types. Vectors have one to four rows, bytes only one; matrices exist for float
kinds, with two to four rows and columns. -/

namespace ComputeKernel

namespace Ty

def registered (kind : Kind) (rows cols : Nat) : Bool :=
  decide (1 ≤ rows ∧ rows ≤ kind.maxRows) &&
    (cols == 1 || (kind.isFloat && decide (2 ≤ rows ∧ 2 ≤ cols ∧ cols ≤ 4)))

def ofShape (kind : Kind) (rows cols : Nat) : Except Fault Ty :=
  if registered kind rows cols then .ok (.value kind rows cols)
  else .error (.unregistered kind rows cols)

def vector (kind : Kind) (width : Nat) : Except Fault Ty :=
  ofShape kind width 1

def matrix (kind : Kind) (rows cols : Nat) : Except Fault Ty :=
  if cols < 2 then .error (.notMatrix kind rows cols) else ofShape kind rows cols

def family (kind : Kind) (rows cols : Ty) : Except Fault Ty :=
  match rows.dimension?, cols.dimension? with
  | some r, some c => ofShape kind r c
  | _, _ => .error (.notNumeric kind rows cols)

def withRows (ty : Ty) (width : Nat) : Except Fault Ty :=
  match ty.kind? with
  | some kind => vector kind width
  | none => .error (.noVectorFamily ty)

def valueTable : List Ty :=
  Kind.all.flatMap fun kind =>
    [1, 2, 3, 4].flatMap fun cols =>
      [1, 2, 3, 4].filterMap fun rows => (ofShape kind rows cols).toOption

end Ty

end ComputeKernel
