import ComputeKernel.Expr.Graph
import Mathlib.Data.List.Nodup

namespace ComputeKernel

namespace Expr

inductive Uses (e : Expr) : Expr → Prop where
  | self : Uses e e
  | operand {d c : Expr} : Uses e d → c ∈ d.operands → Uses e c

def prerequisites : Expr → List Expr
  | .select _ cond _ _ => [cond]
  | e => e.operands

def givenName? : Expr → Option String
  | .resource _ res => some res.name
  | .input _ i => some i.name
  | _ => none

section Operands

variable (id : Nat) (e d c : Expr)

@[simp]
theorem operands_unary (op : Op) : operands (.unary id op e) = [e] := rfl

@[simp]
theorem operands_binary (op : Op) : operands (.binary id op e d) = [e, d] := rfl

@[simp]
theorem operands_call (callee : Prototype) (args : List Expr) :
    operands (.call id callee args) = args := by
  simp [operands, children, Function.comp_def]

@[simp]
theorem operands_swizzle (lanes : String) : operands (.swizzle id e lanes) = [e] := rfl

@[simp]
theorem operands_field (name : String) : operands (.field id e name) = [e] := rfl

@[simp]
theorem operands_element (index : UInt32) : operands (.element id e index) = [e] := rfl

@[simp]
theorem operands_elementAt : operands (.elementAt id e d) = [e, d] := rfl

@[simp]
theorem operands_select : operands (.select id e d c) = [e, d, c] := rfl

@[simp]
theorem operands_literal (value : Literal) : operands (.literal id value) = [] := rfl

@[simp]
theorem operands_resource (res : Resource) : operands (.resource id res) = [] := rfl

@[simp]
theorem operands_input (i : Input) : operands (.input id i) = [] := rfl

@[simp]
theorem operands_array (elem : Ty) (length : UInt32) (init : List Literal) :
    operands (.array id elem length init) = [] := rfl

@[simp]
theorem operands_storage (name : String) (ty : Ty) : operands (.storage id name ty) = [] := rfl

@[simp]
theorem operands_zeroed (ty : Ty) : operands (.zeroed id ty) = [] := rfl

end Operands

theorem prerequisites_subset (e : Expr) : e.prerequisites ⊆ e.operands := by
  cases e <;> simp [prerequisites]

variable {d : Expr} {es : List Expr} {e c : Expr}

theorem weight_le_weights (h : d ∈ es) : d.weight ≤ weights es := by
  induction es with
  | nil => simp at h
  | cons e rest ih =>
    rw [weights]
    rcases List.mem_cons.mp h with rfl | hd
    · omega
    · have := ih hd
      omega

theorem weight_lt_of_mem_operands (h : d ∈ e.operands) : d.weight < e.weight :=
  Nat.lt_of_le_of_lt (weight_le_weights h) (weights_operands_lt e)

theorem Uses.weight_le (h : e.Uses d) : d.weight ≤ e.weight := by
  induction h with
  | self => exact Nat.le_refl _
  | operand _ hc ih => exact Nat.le_trans (Nat.le_of_lt (weight_lt_of_mem_operands hc)) ih

theorem Uses.trans (h : e.Uses c) (h' : c.Uses d) : e.Uses d := by
  induction h' with
  | self => exact h
  | operand _ hb ih => exact .operand ih hb

theorem Uses.of_operand (hc : c ∈ e.operands) (h : c.Uses d) : e.Uses d :=
  (Uses.operand .self hc).trans h

theorem Uses.cases (h : e.Uses d) : d = e ∨ ∃ c ∈ e.operands, c.Uses d := by
  induction h with
  | self => exact .inl rfl
  | operand hd hc ih =>
    rcases ih with rfl | ⟨b, hb, hbd⟩
    · exact .inr ⟨_, hc, .self⟩
    · exact .inr ⟨b, hb, .operand hbd hc⟩

theorem Uses.mem (hes : ∀ e ∈ es, e.operands ⊆ es) (he : e ∈ es) (h : e.Uses d) : d ∈ es := by
  induction h with
  | self => exact he
  | operand _ hc ih => exact hes _ ih hc

end Expr

structure Dag where
  contains : Expr → Prop
  operands : ∀ {e d}, contains e → d ∈ e.operands → contains d
  numbered : ∀ {d e}, contains d → contains e → d.id = e.id → d = e

namespace Dag

def ofList (es : List Expr) (operands : ∀ e ∈ es, e.operands ⊆ es)
    (numbered : (es.map Expr.id).Nodup) : Dag where
  contains e := e ∈ es
  operands he hd := operands _ he hd
  numbered hd he := List.inj_on_of_nodup_map numbered hd he

def insert (dag : Dag) (e : Expr) (operands : ∀ d ∈ e.operands, dag.contains d)
    (new : ∀ d, dag.contains d → d.id ≠ e.id) : Dag where
  contains d := dag.contains d ∨ d = e
  operands {c d} hc hd := hc.elim (fun h => .inl (dag.operands h hd)) fun h => .inl (operands d (h ▸ hd))
  numbered {c d} hc hd same := by
    rcases hc with hc | rfl
    · rcases hd with hd | rfl
      · exact dag.numbered hc hd same
      · exact (new c hc same).elim
    · rcases hd with hd | rfl
      · exact (new d hd same.symm).elim
      · rfl

variable (dag : Dag)

abbrev Node : Type := { e : Expr // dag.contains e }

variable {dag}

variable {e d : Expr}

theorem uses (he : dag.contains e) (h : e.Uses d) : dag.contains d := by
  induction h with
  | self => exact he
  | operand _ hc ih => exact dag.operands ih hc

theorem id_ne_of_lighter (hd : dag.contains d) (he : dag.contains e)
    (h : d.weight < e.weight) : d.id ≠ e.id := by
  intro same
  rw [dag.numbered hd he same] at h
  exact Nat.lt_irrefl _ h

theorem id_ne_of_operand_uses {c : Expr} (he : dag.contains e) (hc : c ∈ e.operands)
    (h : c.Uses d) : d.id ≠ e.id :=
  id_ne_of_lighter (uses (dag.operands he hc) h) he
    (Nat.lt_of_le_of_lt h.weight_le (Expr.weight_lt_of_mem_operands hc))

end Dag

end ComputeKernel
