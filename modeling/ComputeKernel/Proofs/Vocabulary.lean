import ComputeKernel.Build.Basic
import ComputeKernel.Proofs.Dag

namespace ComputeKernel

variable {ty : Ty} {P : Ty → Prop}

def BraceFree (s : String) : Prop :=
  ∀ c ∈ s.toList, c ≠ '\x7b' ∧ c ≠ '\x7d'

instance (s : String) : Decidable (BraceFree s) :=
  List.decidableBAll (fun c => c ≠ '\x7b' ∧ c ≠ '\x7d') s.toList

def Fault.isInternal : Fault → Bool
  | .scopeUnderflow | .breakUnderflow | .maskUnderflow | .functionLeftScope => true
  | _ => false

structure Vocabulary where
  text : String → Prop
  fault : Fault → Prop
  plain : ∀ s, BraceFree s → text s
  append : ∀ s t, text s → text t → text (s ++ t)

theorem braceFree_append {s t : String} (hs : BraceFree s) (ht : BraceFree t) :
    BraceFree (s ++ t) := by
  intro c hc
  rw [String.toList_append] at hc
  exact (List.mem_append.mp hc).elim (hs c) (ht c)

theorem braceFree_of_digits {cs : List Char} (h : ∀ c ∈ cs, c.isDigit = true) :
    BraceFree (String.ofList cs) := by
  intro c hc
  have hd := h c (by simpa using hc)
  constructor <;> rintro rfl <;> exact absurd hd (by decide)

theorem braceFree_nat (n : Nat) : BraceFree (toString n) := by
  rw [Nat.toString_eq_repr, Nat.repr]
  exact braceFree_of_digits fun c hc => Nat.isDigit_of_mem_toDigits (by decide) (by decide) hc

theorem braceFree_int (n : Int) : BraceFree (toString n) := by
  rw [Int.toString_eq_repr, Int.repr_eq_if]
  split
  · exact braceFree_nat _
  · exact braceFree_append (by decide) (braceFree_nat _)

namespace Vocabulary

def braceFree : Vocabulary where
  text := BraceFree
  fault _ := True
  plain _ h := h
  append _ _ := braceFree_append

def candid : Vocabulary where
  text _ := True
  fault f := f.isInternal = false
  plain _ _ := trivial
  append _ _ _ _ := trivial

def any : Vocabulary where
  text _ := True
  fault _ := True
  plain _ _ := trivial
  append _ _ _ _ := trivial

variable (v : Vocabulary) {α β : Type}

def Admits (f : Fault) : Prop := f.isInternal = true → v.fault f

variable {f : Fault} {parts : List String} {p : α → Prop} {r : Except Fault α}

theorem admits_of (h : f.isInternal = false) : v.Admits f := by
  intro hf
  rw [h] at hf
  cases hf

theorem nat (n : Nat) : v.text (toString n) := v.plain _ (braceFree_nat n)

theorem join (h : ∀ s ∈ parts, v.text s) : v.text (String.join parts) := by
  induction parts with
  | nil => exact v.plain _ (by decide)
  | cons s parts ih =>
    rw [String.join_cons]
    exact v.append _ _ (h s (by simp)) (ih fun t ht => h t (by simp [ht]))

theorem intercalate {sep : String} (hsep : v.text sep)
    (h : ∀ s ∈ parts, v.text s) : v.text (sep.intercalate parts) := by
  induction parts with
  | nil =>
    rw [String.intercalate_nil]
    exact v.plain _ (by decide)
  | cons s parts ih =>
    have hrest := ih fun t ht => h t (by simp [ht])
    cases parts with
    | nil =>
      rw [String.intercalate_singleton]
      exact h s (by simp)
    | cons t parts =>
      rw [String.intercalate_cons_cons]
      exact v.append _ _ (v.append _ _ (h s (by simp)) hsep) hrest

def Gives (p : α → Prop) : Except Fault α → Prop
  | .ok a => p a
  | .error f => v.Admits f

variable {v}

theorem Gives.bind {q : β → Prop} {f : α → Except Fault β}
    (hr : v.Gives p r) (hf : ∀ a, p a → v.Gives q (f a)) : v.Gives q (r >>= f) := by
  cases r with
  | ok a => exact hf a hr
  | error fault => exact hr

theorem Gives.mono {q : α → Prop} (hr : v.Gives p r) (h : ∀ a, p a → q a) : v.Gives q r := by
  cases r with
  | ok a => exact h a hr
  | error fault => exact hr

theorem gives_ite {c : Prop} [Decidable c] {r' : Except Fault α}
    (h : c → v.Gives p r) (h' : ¬c → v.Gives p r') : v.Gives p (if c then r else r') := by
  split
  · exact h ‹c›
  · exact h' ‹¬c›

theorem gives_error (h : f.isInternal = false) : v.Gives p (.error f) := v.admits_of h

theorem gives_mapM {γ : Type} {f : γ → Except Fault α} {xs : List γ}
    (h : ∀ x ∈ xs, v.Gives p (f x)) : v.Gives (fun ys => ∀ y ∈ ys, p y) (xs.mapM f) := by
  induction xs with
  | nil =>
    rw [List.mapM_nil]
    exact fun y hy => by cases hy
  | cons x xs ih =>
    rw [List.mapM_cons]
    refine (h x (by simp)).bind fun y hy => (ih fun z hz => h z (by simp [hz])).bind fun ys hys => ?_
    intro z hz
    rcases List.mem_cons.mp hz with rfl | hz
    · exact hy
    · exact hys z hz

end Vocabulary

class Ty.Hereditary (P : Ty → Prop) : Prop where
  void : P .void
  value (kind : Kind) (rows cols : Nat) : P (.value kind rows cols)
  elem {ty elem : Ty} : P ty → ty.elem? = some elem → P elem
  field {ty field : Ty} {name : String} : P ty → ty.field? name = some field → P field
  hit : P .rayQueryResult

section Types

variable (v : Vocabulary)

mutual

def Ty.Within : Ty → Prop
  | .struct name fields _ => v.text name ∧ Ty.FieldsWithin fields
  | .array elem _ => elem.Within
  | .resource _ (some elem) _ _ => elem.Within
  | .resource _ none _ _ | .void | .numeric _ | .wildcard _ | .value .. => True

def Ty.FieldsWithin : List (String × Ty) → Prop
  | [] => True
  | (name, ty) :: rest => v.text name ∧ ty.Within ∧ Ty.FieldsWithin rest

end

variable {v}

theorem Ty.fieldsWithin_iff {fields : List (String × Ty)} :
    FieldsWithin v fields ↔ ∀ field ∈ fields, v.text field.1 ∧ field.2.Within v := by
  induction fields with
  | nil => simp [FieldsWithin]
  | cons field fields ih =>
    obtain ⟨name, ty⟩ := field
    rw [FieldsWithin, ih]
    simp [and_assoc]

theorem Kind.name_plain (kind : Kind) : BraceFree kind.name := by
  cases kind <;> decide

theorem Ty.valueName_plain (kind : Kind) (rows cols : Nat) :
    BraceFree (valueName kind rows cols) := by
  have hstem : BraceFree (if kind = .bool then "bool" else kind.name ++ "x") := by
    split
    · decide
    · exact braceFree_append kind.name_plain (by decide)
  simp only [valueName]
  generalize (if kind = .bool then "bool" else kind.name ++ "x") = stem at hstem ⊢
  split
  · split
    · exact kind.name_plain
    · exact braceFree_append hstem (braceFree_nat _)
  · exact braceFree_append (braceFree_append (braceFree_append hstem (braceFree_nat _)) (by decide))
      (braceFree_nat _)

theorem Extent.text_plain (extent : Extent) : BraceFree extent.text := by
  cases extent with
  | fixed count => exact braceFree_nat _
  | unbounded => decide

theorem Ty.Within.name (h : ty.Within v) : v.text ty.name := by
  fun_induction Ty.name with
  | case1 => exact v.plain _ (by decide)
  | case2 n => exact v.nat n
  | case3 i => exact v.plain _ (braceFree_append (by decide) (braceFree_nat i))
  | case4 kind rows cols => exact v.plain _ (valueName_plain kind rows cols)
  | case5 name fields builtin => exact h.1
  | case6 elem extent ih =>
    exact v.append _ _ (v.append _ _ (v.append _ _ (ih h) (v.plain _ (by decide)))
      (v.plain _ extent.text_plain)) (v.plain _ (by decide))
  | case7 elem dim access => exact v.plain _ (by cases dim <;> cases access <;> decide)
  | case8 elem dim access => exact v.plain _ (by cases access <;> decide)
  | case9 => exact v.plain _ (by decide)
  | case10 => exact v.plain _ (by decide)
  | case11 elem dim access ih => exact ih h
  | case12 => exact v.plain _ (by decide)

theorem Ty.Within.declare (h : ty.Within v) {ident : String} (hi : v.text ident) :
    v.text (ty.declare ident) := by
  cases ty with
  | array elem extent =>
    exact v.append _ _ (v.append _ _ (v.append _ _ (v.append _ _ (v.append _ _
      (show elem.Within v from h).name (v.plain _ (by decide))) hi) (v.plain _ (by decide)))
      (v.plain _ extent.text_plain)) (v.plain _ (by decide))
  | _ => exact v.append _ _ (v.append _ _ h.name (v.plain _ (by decide))) hi

theorem Ty.Within.elem? {elem : Ty} (h : ty.Within v) (he : ty.elem? = some elem) :
    elem.Within v := by
  match ty with
  | .array e _ =>
    cases he
    exact h
  | .resource _ e _ _ =>
    cases he
    exact h

theorem Ty.Within.fields (h : ty.Within v) :
    ∀ field ∈ ty.fields, v.text field.1 ∧ field.2.Within v := by
  cases ty with
  | struct name fields builtin => exact Ty.fieldsWithin_iff.mp h.2
  | _ => exact nofun

theorem Ty.Within.field? {field : Ty} {name : String} (h : ty.Within v)
    (hf : ty.field? name = some field) : field.Within v := by
  match ty with
  | .struct _ fields _ =>
    obtain ⟨_, _, hb, -⟩ := List.lookup_eq_some_iff.mp hf
    have hmem : (name, field) ∈ fields := by rw [show fields = _ from hb]; simp
    exact (fieldsWithin_iff.mp h.2 _ hmem).2

theorem Ty.within_rayQueryResult : Ty.rayQueryResult.Within v :=
  ⟨v.plain _ (by decide), Ty.fieldsWithin_iff.mpr (by
    simp only [List.mem_cons, List.not_mem_nil, or_false, forall_eq_or_imp, forall_eq]
    exact ⟨⟨v.plain _ (by decide), trivial⟩, ⟨v.plain _ (by decide), trivial⟩,
      ⟨v.plain _ (by decide), trivial⟩, ⟨v.plain _ (by decide), trivial⟩,
      ⟨v.plain _ (by decide), trivial⟩⟩)⟩

instance : Ty.Hereditary (Ty.Within v) where
  void := trivial
  value _ _ _ := trivial
  elem h he := h.elem? he
  field h hf := h.field? hf
  hit := Ty.within_rayQueryResult

end Types

section Literals

open Vocabulary

variable {v : Vocabulary}

theorem braceFree_lastDigits (count n : Nat) : BraceFree (String.ofList (lastDigits count n)) :=
  braceFree_of_digits (isDigit_lastDigits count n)

theorem Decimal.sign_plain (d : Decimal) : BraceFree d.sign := by
  unfold sign
  split <;> decide

theorem Decimal.fixed_plain (d : Decimal) : BraceFree d.fixed :=
  braceFree_append (braceFree_append (braceFree_append d.sign_plain (braceFree_nat _)) (by decide))
    (braceFree_lastDigits _ _)

theorem Decimal.scientific_plain (d : Decimal) : BraceFree d.scientific := by
  have hdigits : ∀ c ∈ Nat.toDigits 10 d.digits, c.isDigit = true := fun c hc =>
    Nat.isDigit_of_mem_toDigits (by decide) (by decide) hc
  refine braceFree_append (braceFree_append (braceFree_append d.sign_plain ?_) (by decide))
    (braceFree_int _)
  generalize Nat.toDigits 10 d.digits = digits at hdigits ⊢
  match digits with
  | [] => decide
  | [first] => exact braceFree_of_digits hdigits
  | first :: second :: rest =>
    exact braceFree_append (braceFree_append
      (show BraceFree (String.ofList [first]) from
        braceFree_of_digits fun c hc => hdigits c (by simp_all)) (by decide))
      (braceFree_of_digits fun c hc => hdigits c (List.mem_cons_of_mem _ hc))

theorem Binary32.spelling_plain (x : Binary32) : BraceFree x.spelling := by
  unfold spelling
  split
  · exact x.shortest.scientific_plain
  · exact x.millionths.fixed_plain

theorem Ty.ofShape_gives [hP : Hereditary P] (kind : Kind) (rows cols : Nat) :
    v.Gives P (ofShape kind rows cols) :=
  gives_ite (fun _ => hP.value ..) fun _ => gives_error rfl

theorem Ty.vector_gives [Hereditary P] (kind : Kind) (width : Nat) :
    v.Gives P (vector kind width) := ofShape_gives kind width 1

theorem Literal.componentTexts_gives (l : Literal) :
    v.Gives (fun parts => ∀ s ∈ parts, v.text s) l.componentTexts := by
  have hfloat (x : Binary32) : v.Gives v.text (floatText x) :=
    gives_ite (fun _ => v.plain _ x.spelling_plain) fun _ => gives_error rfl
  cases l with
  | f16 xs | f32 xs => exact gives_mapM fun x _ => hfloat x
  | i32 xs =>
    intro s hs
    obtain ⟨x, -, rfl⟩ := List.mem_map.mp hs
    exact v.plain _ (braceFree_int _)
  | u32 xs =>
    intro s hs
    obtain ⟨x, -, rfl⟩ := List.mem_map.mp hs
    exact v.nat _
  | bool xs =>
    intro s hs
    obtain ⟨x, -, rfl⟩ := List.mem_map.mp hs
    exact v.plain _ (by cases x <;> decide)

theorem Literal.text_gives (l : Literal) : v.Gives v.text l.text := by
  refine l.componentTexts_gives.bind fun parts hparts =>
    (Ty.vector_gives (P := Ty.Within v) _ _).bind fun ty hty => ?_
  exact v.append _ _ (v.append _ _ (v.append _ _ (Ty.Within.name hty) (v.plain _ (by decide)))
    (v.intercalate (v.plain _ (by decide)) hparts)) (v.plain _ (by decide))

theorem Literal.zero_gives (ty : Ty) : v.Gives (fun _ => True) (Literal.zero ty) := by
  unfold Literal.zero
  refine gives_ite (fun _ => ?_) fun _ => gives_error rfl
  split <;> first | trivial | exact gives_error rfl

end Literals

section Callables

open Vocabulary

variable (v : Vocabulary)

def CallArg.Within (arg : CallArg) : Prop := v.text arg.text ∧ arg.ty.Within v

structure CallRule.Within (rule : CallRule) : Prop where
  returnType : ∀ args, (∀ ty ∈ args, ty.Within v) → v.Gives (Ty.Within v) (rule.returnType args)
  callText : ∀ name args, v.text name → (∀ arg ∈ args, arg.Within v) →
    v.Gives v.text (rule.callText name args)

def Builtin.Within : Builtin → Prop
  | .construct ty => ty.Within v
  | _ => True

def Rule.Within : Rule → Prop
  | .fixed ret => ret.Within v
  | .builtin b => b.Within v
  | .custom rule => rule.Within v

def Param.Within (p : Param) : Prop := v.text p.name ∧ p.ty.Within v

structure Prototype.Within (p : Prototype) : Prop where
  name : v.text p.name
  params : ∀ q ∈ p.params, q.Within v
  rule : p.rule.Within v

variable {v}

variable {b : Builtin} {r : Except Fault Ty} {kind : Kind} {args : List CallArg} {callee : String}
  {p : Prototype} {t : CallTable}

theorem Builtin.Within.name (h : b.Within v) : v.text b.name := by
  cases b with
  | math f => exact v.plain _ (by cases f <;> decide)
  | convert kind | bitcast kind => exact v.plain _ (braceFree_append (by decide) kind.name_plain)
  | splat width => exact v.plain _ (braceFree_append (by decide) (braceFree_nat width))
  | construct ty => exact (show ty.Within v from h).name
  | _ => exact v.plain _ (by decide)

theorem Builtin.Within.prototype (h : b.Within v) : (Prototype.ofBuiltin b).Within v where
  name := h.name
  params q hq := by
    obtain ⟨i, -, rfl⟩ := List.mem_map.mp hq
    exact ⟨v.plain _ (braceFree_append (by decide) (braceFree_nat i)), trivial⟩
  rule := h

theorem Builtin.within_catalog (h : b ∈ catalog) : b.Within v := by
  cases b with
  | construct ty =>
    have hall : ∀ b ∈ catalog, (match b with | .construct ty => ty.isValue | _ => true) = true := by
      decide
    have hvalue : ty.isValue = true := hall _ h
    cases ty <;> trivial
  | _ => trivial

theorem Ty.withRows_gives [Hereditary P] (ty : Ty) (width : Nat) :
    v.Gives P (ty.withRows width) := by
  unfold withRows
  split
  · exact vector_gives _ _
  · exact gives_error rfl

theorem Ty.matrix_gives [Hereditary P] (kind : Kind) (rows cols : Nat) :
    v.Gives P (matrix kind rows cols) :=
  gives_ite (fun _ => gives_error rfl) fun _ => ofShape_gives _ _ _

theorem Ty.elem?_gives [hP : Hereditary P] (h : P ty)
    (hr : v.Gives P r) : v.Gives P (ty.elem?.elim r .ok) := by
  cases he : ty.elem? with
  | none => exact hr
  | some elem => exact hP.elem h he

theorem Builtin.productType?_gives [Ty.Hereditary P] {a b : Ty}
    (hr : v.Gives P r) : v.Gives P ((productType? kind a b).getD r) := by
  unfold productType?
  split
  · exact Ty.vector_gives _ _
  · split
    · exact Ty.vector_gives _ _
    · split
      · exact Ty.matrix_gives _ _ _
      · exact hr

theorem Ty.Hereditary.of_kind [hP : Hereditary P] (h : ty.kind? = some kind) : P ty := by
  cases ty with
  | value kind rows cols => exact hP.value kind rows cols
  | _ => cases h

theorem Builtin.returnType_gives [hP : Ty.Hereditary P] (b : Builtin) {args : List Ty}
    (h : ∀ ty ∈ args, P ty) : v.Gives P (b.returnType args) := by
  have mismatch {f : Fault} (hf : f.isInternal = false) : v.Gives P (.error f) := gives_error hf
  unfold returnType
  split
  -- the element of a resource
  case h_1 | h_3 => exact gives_ite (fun _ => Ty.elem?_gives (h _ (by simp)) (mismatch rfl)) fun _ => mismatch rfl
  -- the type of an argument
  case h_6 | h_7 | h_10 | h_12 | h_13 | h_14 | h_15 | h_18 | h_35 =>
    exact gives_ite (fun _ => h _ (by simp)) fun _ => mismatch rfl
  -- a type of one width over the kind of an argument
  case h_8 | h_11 => exact gives_ite (fun _ => Ty.withRows_gives _ _) fun _ => mismatch rfl
  case h_19 | h_20 | h_23 | h_24 | h_25 | h_26 =>
    exact gives_ite (fun _ => Ty.vector_gives _ _) fun _ => mismatch rfl
  case h_2 | h_27 =>
    split
    · exact gives_ite (fun _ => Ty.ofShape_gives _ _ _) fun _ => mismatch rfl
    · exact mismatch rfl
  case h_16 =>
    split
    · exact gives_ite (fun _ => Ty.matrix_gives _ _ _) fun _ => mismatch rfl
    · exact mismatch rfl
  case h_17 =>
    split
    · exact gives_ite (fun _ => productType?_gives (mismatch rfl)) fun _ => mismatch rfl
    · exact mismatch rfl
  -- the type itself, which has the kind of the arguments
  case h_28 =>
    refine gives_ite (fun hargs => ?_) fun _ => mismatch rfl
    simp only [Bool.and_eq_true, Bool.not_eq_true', List.isEmpty_eq_false_iff] at hargs
    obtain ⟨⟨hne, hall⟩, -⟩ := hargs
    obtain ⟨a, ha⟩ := List.exists_mem_of_ne_nil _ hne
    have hkind := List.all_eq_true.mp hall a ha
    simp only [Bool.and_eq_true, beq_iff_eq] at hkind
    obtain ⟨hvector, hkind⟩ := hkind
    cases a with
    | value kind rows cols => exact hP.of_kind hkind.symm
    | _ => cases hvector
  -- always the same type
  case h_4 => exact gives_ite (fun _ => hP.void) fun _ => mismatch rfl
  case h_5 | h_9 | h_21 | h_22 | h_31 | h_32 | h_34 =>
    exact gives_ite (fun _ => hP.value ..) fun _ => mismatch rfl
  case h_33 => exact gives_ite (fun _ => hP.hit) fun _ => mismatch rfl
  case h_29 | h_30 => exact hP.value ..
  case h_36 => exact mismatch rfl

theorem plainCall_within {name : String} (hn : v.text name)
    (h : ∀ arg ∈ args, arg.Within v) : v.text (plainCall name args) := by
  refine v.append _ _ (v.append _ _ (v.append _ _ hn (v.plain _ (by decide)))
    (v.intercalate (v.plain _ (by decide)) fun s hs => ?_)) (v.plain _ (by decide))
  obtain ⟨arg, harg, rfl⟩ := List.mem_map.mp hs
  exact (h arg harg).1

theorem Builtin.argument_gives (h : ∀ arg ∈ args, arg.Within v) (i : Nat) :
    v.Gives (CallArg.Within v) (argument callee args i) := by
  unfold argument
  split
  · exact h _ (List.mem_of_getElem? (by assumption))
  · exact gives_error rfl

theorem Builtin.callText_gives (b : Builtin) (hn : v.text callee) (h : ∀ arg ∈ args, arg.Within v) :
    v.Gives v.text (b.callText callee args) := by
  have arg (i : Nat) : v.Gives (CallArg.Within v) (argument callee args i) := argument_gives h i
  have closed {s : String} (hs : BraceFree s) : v.text s := v.plain s hs
  cases b with
  | sample =>
    refine (arg 0).bind fun tex ht => (arg 1).bind fun smp hs => (arg 2).bind fun uv hu => ?_
    exact v.append _ _ (v.append _ _ (v.append _ _ (v.append _ _ (v.append _ _ ht.1
      (closed (by decide))) hs.1) (closed (by decide))) hu.1) (closed (by decide))
  | read =>
    refine (arg 0).bind fun res hr => (arg 1).bind fun index hi => ?_
    exact v.append _ _ (v.append _ _ (v.append _ _ hr.1 (closed (by decide))) hi.1)
      (closed (by decide))
  | write =>
    refine (arg 0).bind fun res hr => (arg 1).bind fun index hi => (arg 2).bind fun value hv => ?_
    exact v.append _ _ (v.append _ _ (v.append _ _ (v.append _ _ hr.1 (closed (by decide))) hi.1)
      (closed (by decide))) hv.1
  | convert kind =>
    refine (arg 0).bind fun a ha =>
      (Ty.vector_gives (P := Ty.Within v) _ _).bind fun ty hty => ?_
    exact v.append _ _ (v.append _ _ (v.append _ _ (Ty.Within.name hty) (closed (by decide))) ha.1)
      (closed (by decide))
  | u32ToF16 | f16ToU32 =>
    refine (arg 0).bind fun a ha =>
      (Ty.vector_gives (P := Ty.Within v) _ _).bind fun ty hty => ?_
    exact v.append _ _ (v.append _ _ (v.append _ _ (Ty.Within.name hty) (closed (by decide))) ha.1)
      (closed (by decide))
  | splat width =>
    refine (arg 0).bind fun a ha => ?_
    split
    · exact gives_error rfl
    · refine (Ty.vector_gives (P := Ty.Within v) _ _).bind fun ty hty => ?_
      exact v.append _ _ (v.append _ _ (v.append _ _ (v.append _ _ (closed (by decide))
        (Ty.Within.name hty)) (closed (by decide))) ha.1) (closed (by decide))
  | ballot =>
    refine (arg 0).bind fun a ha => ?_
    exact v.append _ _ (v.append _ _ (closed (by decide)) ha.1) (closed (by decide))
  | _ => exact plainCall_within hn h

theorem Prototype.checkParams_gives (callee : String) (params : List Param) (args : List Ty) :
    v.Gives (fun _ => True) (checkParams callee params args) := by
  induction params generalizing args with
  | nil => trivial
  | cons param params ih =>
    cases args with
    | nil => trivial
    | cons arg args => exact gives_ite (fun _ => ih args) fun _ => gives_error rfl

theorem Prototype.Within.returnType (hp : p.Within v) {args : List Ty}
    (h : ∀ ty ∈ args, ty.Within v) : v.Gives (Ty.Within v) (p.returnType args) := by
  have hrule := hp.rule
  unfold Prototype.returnType
  cases hr : p.rule with
  | fixed ret =>
    rw [hr] at hrule
    refine gives_ite (fun _ => gives_error rfl) fun _ =>
      (checkParams_gives p.name p.params args).bind fun _ _ => ?_
    exact hrule
  | builtin b =>
    exact Builtin.returnType_gives b h
  | custom rule =>
    rw [hr] at hrule
    exact CallRule.Within.returnType hrule args h

theorem Prototype.Within.callText (hp : p.Within v)
    (h : ∀ arg ∈ args, arg.Within v) : v.Gives v.text (p.callText args) := by
  have hrule := hp.rule
  unfold Prototype.callText
  cases hr : p.rule with
  | fixed ret => exact plainCall_within hp.name h
  | builtin b => exact b.callText_gives hp.name h
  | custom rule =>
    rw [hr] at hrule
    exact CallRule.Within.callText hrule p.name args hp.name h

theorem Prototype.Within.fixedReturn? (hp : p.Within v) : (p.fixedReturn?.getD .void).Within v := by
  have hrule := hp.rule
  unfold Prototype.fixedReturn?
  cases hr : p.rule with
  | fixed ret =>
    rw [hr] at hrule
    exact hrule
  | _ => trivial

theorem Prototype.Within.header (hp : p.Within v) : v.Gives v.text p.header := by
  have hret := hp.fixedReturn?
  unfold Prototype.header
  split
  · rename_i ret hr
    rw [hr] at hret
    refine v.append _ _ (v.append _ _ (v.append _ _ (v.append _ _ (v.append _ _
      (show ret.Within v from hret).name (v.plain _ (by decide))) hp.name) (v.plain _ (by decide)))
      (v.intercalate (v.plain _ (by decide)) fun s hs => ?_)) (v.plain _ (by decide))
    obtain ⟨q, hq, rfl⟩ := List.mem_map.mp hs
    obtain ⟨hname, hty⟩ := hp.params q hq
    refine v.append _ _ (v.append _ _ (v.append _ _ ?_ hty.name) (v.plain _ (by decide))) hname
    cases q.mode <;> exact v.plain _ (by decide)
  · exact gives_error rfl

def CallTable.Within (v : Vocabulary) (t : CallTable) : Prop :=
  ∀ name p, NameTable.find? t name = some p → p.Within v

theorem CallTable.Within.register (h : t.Within v) (hp : p.Within v) : (t.register p).Within v := by
  intro name q hq
  rw [CallTable.register, NameTable.find?_insert] at hq
  split at hq
  · cases hq
    exact hp
  · exact h name q hq

theorem CallTable.within_standard : CallTable.standard.Within v := by
  have hall (bs : List Builtin) (hbs : ∀ b ∈ bs, b.Within v) (t : CallTable) (ht : t.Within v) :
      CallTable.Within v (bs.foldl (fun t b => CallTable.register t (.ofBuiltin b)) t) := by
    induction bs generalizing t with
    | nil => exact ht
    | cons b bs ih =>
      refine ih (fun c hc => hbs c (by simp [hc])) _ (ht.register ?_)
      exact (hbs b (by simp)).prototype
  exact hall _ (fun b hb => Builtin.within_catalog hb) _ fun name p hp => by cases hp

theorem CallTable.Within.builtin (h : t.Within v) (hb : b.Within v) :
    (t.builtin b).1.Within v ∧ (t.builtin b).2.Within v := by
  unfold CallTable.builtin
  split
  · rename_i p hp
    split
    · exact ⟨h _ p hp, h⟩
    · exact ⟨hb.prototype, h.register hb.prototype⟩
  · exact ⟨hb.prototype, h.register hb.prototype⟩

end Callables

section Expressions

open Vocabulary

variable (v : Vocabulary)

structure Resource.Within (r : Resource) : Prop where
  name : v.text r.name
  ty : r.ty.Within v
  shape : r.shape.Within v

def Input.Within (i : Input) : Prop := v.text i.name ∧ i.ty.Within v

def Expr.Own : Expr → Prop
  | .call _ callee _ => callee.Within v
  | .resource _ res => res.Within v
  | .input _ i => i.Within v
  | .array _ elem _ _ => elem.Within v
  | .swizzle _ _ lanes => v.text lanes
  | .field _ _ name => v.text name
  | .storage _ name ty => v.text name ∧ ty.Within v
  | .zeroed _ ty => ty.Within v
  | .literal .. | .unary .. | .binary .. | .element .. | .elementAt .. | .select .. => True

def Expr.Within (e : Expr) : Prop := ∀ d, e.Uses d → d.Own v

def Prototype.Returns (P : Ty → Prop) (p : Prototype) : Prop :=
  ∀ args, (∀ ty ∈ args, P ty) → v.Gives P (p.returnType args)

def Expr.Brings (P : Ty → Prop) : Expr → Prop
  | .call _ callee _ => callee.Returns v P
  | .resource _ res => P res.ty
  | .input _ i => P i.ty
  | .array _ elem length _ => P (.array elem (.fixed length))
  | .storage _ _ ty | .zeroed _ ty => P ty
  | .literal .. | .unary .. | .binary .. | .swizzle .. | .field .. | .element .. | .elementAt ..
  | .select .. => True

def Expr.Sourced (P : Ty → Prop) (e : Expr) : Prop := ∀ d, e.Uses d → d.Brings v P

variable {v}

variable {e : Expr} {op : Op} {l r base : Ty}

theorem Expr.forall_uses_iff {p : Expr → Prop} :
    (∀ d, e.Uses d → p d) ↔ p e ∧ ∀ c ∈ e.operands, ∀ d, c.Uses d → p d := by
  constructor
  · intro h
    exact ⟨h e .self, fun c hc d hd => h d (.of_operand hc hd)⟩
  · rintro ⟨hown, hops⟩ d hd
    rcases hd.cases with rfl | ⟨c, hc, hcd⟩
    · exact hown
    · exact hops c hc d hcd

theorem Expr.within_iff : e.Within v ↔ e.Own v ∧ ∀ c ∈ e.operands, c.Within v := forall_uses_iff

theorem Expr.sourced_iff :
    e.Sourced v P ↔ e.Brings v P ∧ ∀ c ∈ e.operands, c.Sourced v P := forall_uses_iff

theorem Expr.Within.sourced (h : e.Within v) : e.Sourced v (Ty.Within v) := by
  intro d hd
  have hown := h d hd
  cases d with
  | call id callee args => exact fun _ => Prototype.Within.returnType hown
  | resource id res => exact Resource.Within.ty hown
  | input id i => exact hown.2
  | storage id name ty => exact hown.2
  | array | zeroed => exact hown
  | _ => trivial

theorem Expr.Within.defaultName (h : e.Within v) : v.text e.defaultName.text := by
  have hown := (within_iff.mp h).1
  have htemp (id : Nat) : v.text (Spelling.temp id).text :=
    v.plain _ (braceFree_append (by decide) (braceFree_nat id))
  cases e with
  | resource id res => exact Resource.Within.name hown
  | input id i => exact hown.1
  | storage id name ty => exact hown.1
  | _ => exact htemp _

theorem Expr.unaryType_gives {operand : Ty} (h : P operand) : v.Gives P (unaryType op operand) := by
  unfold unaryType
  split
  case h_1 => exact h
  case h_6 => exact gives_error rfl
  all_goals exact gives_ite (fun _ => h) fun _ => gives_error rfl

theorem Expr.arithmeticType_gives (hl : P l) (hr : P r) : v.Gives P (arithmeticType op l r) := by
  refine gives_ite (fun _ => gives_error rfl) fun _ => gives_ite (fun _ => hl) fun _ => ?_
  exact gives_ite (fun _ => hr) fun _ => gives_ite (fun _ => hl) fun _ => gives_error rfl

theorem Expr.binaryType_gives [Ty.Hereditary P] (hl : P l) (hr : P r) :
    v.Gives P (binaryType op l r) := by
  have same {c : Prop} [Decidable c] {f : Fault} (hf : f.isInternal = false) :
      v.Gives P (if c then .ok l else .error f) :=
    gives_ite (fun _ => hl) fun _ => gives_error hf
  refine gives_ite (fun _ => gives_error rfl) fun _ => gives_ite (fun _ => same rfl) fun _ => ?_
  refine gives_ite (fun _ => same rfl) fun _ => gives_ite (fun _ => same rfl) fun _ => ?_
  refine gives_ite (fun _ => ?_) fun _ => arithmeticType_gives hl hr
  exact gives_ite (fun _ => Ty.vector_gives _ _) fun _ => gives_error rfl

theorem Ty.Hereditary.resourceType [hP : Hereditary P] {res : Resource} (h : P res.ty) :
    P (Expr.resourceType res) := by
  unfold Expr.resourceType
  split
  · rename_i elem _ helem
    split
    · exact h
    · rename_i hsingle
      have hshape : res.shape = res.ty := by
        rw [Resource.shape, Option.not_isSome_iff_eq_none.mp hsingle]
        rfl
      exact hP.elem (hshape ▸ h) helem
  · exact h

theorem Expr.swizzleType_gives [Ty.Hereditary P] (base : Ty) (lanes : String) :
    v.Gives P (swizzleType base lanes) := by
  unfold swizzleType
  split
  · exact Ty.vector_gives _ _
  · exact gives_error rfl

theorem Expr.fieldType_gives [hP : Ty.Hereditary P] (h : P base) (name : String) :
    v.Gives P (fieldType base name) := by
  refine gives_ite (fun _ => ?_) fun _ => gives_error rfl
  split
  · exact hP.field h (by assumption)
  · exact gives_error rfl

theorem Expr.elementType_gives [hP : Ty.Hereditary P] (h : P base) :
    v.Gives P (elementType base) := by
  unfold elementType
  split
  · exact hP.elem h rfl
  · exact hP.elem h rfl
  · exact gives_ite (fun _ => Ty.vector_gives _ _) fun _ =>
      gives_ite (fun _ => hP.value ..) fun _ => gives_error rfl
  · exact gives_error rfl

end Expressions

mutual

theorem Ty.within_of_text {v : Vocabulary} (h : ∀ s, v.text s) (ty : Ty) : ty.Within v := by
  cases ty with
  | struct name fields builtin => exact ⟨h name, Ty.fieldsWithin_of_text h fields⟩
  | array elem length => exact Ty.within_of_text h elem
  | resource kind elem dim access =>
    cases elem with
    | none => trivial
    | some elem => exact Ty.within_of_text h elem
  | void | numeric _ | wildcard _ | value _ _ _ => trivial

theorem Ty.fieldsWithin_of_text {v : Vocabulary} (h : ∀ s, v.text s) (fields : List (String × Ty)) :
    Ty.FieldsWithin v fields := by
  cases fields with
  | nil => trivial
  | cons field fields =>
    obtain ⟨name, ty⟩ := field
    exact ⟨h name, Ty.within_of_text h ty, Ty.fieldsWithin_of_text h fields⟩

end

theorem Vocabulary.gives_any {α : Type} {p : α → Prop} (h : ∀ a, p a) (r : Except Fault α) :
    Vocabulary.any.Gives p r := by
  cases r with
  | ok a => exact h a
  | error fault => exact fun _ => trivial

theorem Builtin.within_any (b : Builtin) : b.Within .any := by
  cases b with
  | construct ty => exact Ty.within_of_text (fun _ => trivial) ty
  | _ => trivial

theorem Prototype.within_any (p : Prototype) : p.Within .any where
  name := trivial
  params q _ := ⟨trivial, Ty.within_of_text (fun _ => trivial) q.ty⟩
  rule := by
    cases p.rule with
    | fixed ret => exact Ty.within_of_text (fun _ => trivial) ret
    | builtin b => exact b.within_any
    | custom rule =>
      exact ⟨fun _ _ => Vocabulary.gives_any (Ty.within_of_text fun _ => trivial) _,
        fun _ _ _ _ => Vocabulary.gives_any (fun _ => trivial) _⟩

end ComputeKernel
