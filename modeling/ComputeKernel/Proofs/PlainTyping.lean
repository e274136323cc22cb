import ComputeKernel.Proofs.Dag
import ComputeKernel.Proofs.KnownTypes

namespace ComputeKernel

variable {dag : Dag} {ty : Ty}

namespace Expr

mutual

def plainType : Expr → Except Fault Ty
  | .literal _ value => value.ty
  | .unary _ op operand => do
    let r ← operand.plainType
    unaryType op r
  | .binary _ op lhs rhs => do
    let r ← rhs.plainType
    let l ← lhs.plainType
    binaryType op l r
  | .call _ callee args => do
    let tys ← plainTypes args
    callee.returnType tys
  | .resource _ res => .ok (resourceType res)
  | .input _ i => .ok i.ty
  | .array _ elem length _ => .ok (.array elem (.fixed length))
  | .swizzle _ base lanes => do
    let b ← base.plainType
    swizzleType b lanes
  | .field _ base name => do
    let b ← base.plainType
    fieldType b name
  | .element _ base _ => do
    let b ← base.plainType
    elementType b
  | .elementAt _ base index => do
    let i ← index.plainType
    checkIndex i
    let b ← base.plainType
    elementType b
  | .storage _ _ ty => .ok ty
  | .zeroed _ ty => zeroedType ty
  | .select _ cond yes no => do
    let c ← cond.plainType
    checkCondition c
    let a ← yes.plainType
    let b ← no.plainType
    branchType a b

def plainTypes : List Expr → Except Fault (List Ty)
  | [] => .ok []
  | e :: rest => do
    let ty ← e.plainType
    let tys ← plainTypes rest
    return ty :: tys

end

theorem plainTypes_eq_ok {es : List Expr} {tys : List Ty} (h : plainTypes es = .ok tys) :
    List.Forall₂ (fun e ty => e.plainType = .ok ty) es tys := by
  induction es generalizing tys with
  | nil =>
    cases h
    exact .nil
  | cons e rest ih =>
    rw [plainTypes] at h
    obtain ⟨ty, hty, h⟩ := exists_of_bind h
    obtain ⟨more, hmore, h⟩ := exists_of_bind h
    cases h
    exact .cons hty (ih hmore)

variable {e d : Expr}

theorem plainType_operand (h : e.plainType = .ok ty) (hd : d ∈ e.operands) :
    ∃ ty, d.plainType = .ok ty := by
  cases e with
  | literal | resource | input | array | storage | zeroed =>
    simp at hd
  | unary id op operand =>
    obtain ⟨r, hr, -⟩ := exists_of_bind h
    obtain rfl : d = operand := by simpa using hd
    exact ⟨r, hr⟩
  | binary id op lhs rhs =>
    obtain ⟨r, hr, h⟩ := exists_of_bind h
    obtain ⟨l, hl, -⟩ := exists_of_bind h
    obtain rfl | rfl : d = lhs ∨ d = rhs := by simpa using hd
    · exact ⟨l, hl⟩
    · exact ⟨r, hr⟩
  | call id callee args =>
    obtain ⟨tys, htys, -⟩ := exists_of_bind h
    rw [operands_call] at hd
    obtain ⟨i, hi, rfl⟩ := List.getElem_of_mem hd
    exact ⟨_, (plainTypes_eq_ok htys).get hi ((plainTypes_eq_ok htys).length_eq ▸ hi)⟩
  | swizzle id base | field id base | element id base =>
    obtain ⟨b, hb, -⟩ := exists_of_bind h
    obtain rfl : d = base := by simpa using hd
    exact ⟨b, hb⟩
  | elementAt id base index =>
    obtain ⟨i, hi, h⟩ := exists_of_bind h
    obtain ⟨-, -, h⟩ := exists_of_bind h
    obtain ⟨b, hb, -⟩ := exists_of_bind h
    obtain rfl | rfl : d = base ∨ d = index := by simpa using hd
    · exact ⟨b, hb⟩
    · exact ⟨i, hi⟩
  | select id cond yes no =>
    obtain ⟨c, hc, h⟩ := exists_of_bind h
    obtain ⟨-, -, h⟩ := exists_of_bind h
    obtain ⟨a, ha, h⟩ := exists_of_bind h
    obtain ⟨b, hb, -⟩ := exists_of_bind h
    obtain rfl | rfl | rfl : d = cond ∨ d = yes ∨ d = no := by
      simpa using hd
    · exact ⟨c, hc⟩
    · exact ⟨a, ha⟩
    · exact ⟨b, hb⟩

theorem plainType_uses (h : e.plainType = .ok ty) (hd : e.Uses d) : ∃ ty, d.plainType = .ok ty := by
  induction hd with
  | self => exact ⟨ty, h⟩
  | operand _ hc ih =>
    obtain ⟨ty', h'⟩ := ih
    exact plainType_operand h' hc

end Expr

namespace Dag

def Faithful (dag : Dag) (t : IdTable Ty) : Prop :=
  ∀ id ty, t.find? id = some ty → ∃ e, dag.contains e ∧ e.id = id ∧ e.plainType = .ok ty

variable {t : IdTable Ty} {e : Expr}

theorem Faithful.plainType (h : dag.Faithful t) (he : dag.contains e)
    (hf : t.find? e.id = some ty) : e.plainType = .ok ty := by
  obtain ⟨d, hd, hid, hty⟩ := h _ _ hf
  exact dag.numbered hd he hid ▸ hty

theorem Faithful.insert (h : dag.Faithful t) (he : dag.contains e) (hty : e.plainType = .ok ty) :
    dag.Faithful (t.insert e.id ty) := by
  intro id found hf
  by_cases same : id = e.id
  · subst same
    obtain rfl : ty = found := by simpa using hf
    exact ⟨e, he, rfl, hty⟩
  · exact h id found (by simpa [same] using hf)

theorem Faithful.mono {dag' : Dag} (h : dag.Faithful t)
    (hg : ∀ e, dag.contains e → dag'.contains e) : dag'.Faithful t := by
  intro id ty hf
  obtain ⟨e, he, hid, hty⟩ := h id ty hf
  exact ⟨e, hg e he, hid, hty⟩

def Answers {α : Type} (dag : Dag) (x : Typing α) (r : Except Fault α) : Prop :=
  ∀ t, dag.Faithful t →
    match x t with
    | .ok a t' => r = .ok a ∧ dag.Faithful t'
    | .error fault t' => r = .error fault ∧ dag.Faithful t'

variable {α β : Type}

theorem answers_orFault (r : Except Fault α) : dag.Answers (orFault r) r := by
  intro t ht
  cases r with
  | ok a => exact ⟨rfl, ht⟩
  | error fault => exact ⟨rfl, ht⟩

theorem answers_pure (a : α) : dag.Answers (pure a) (.ok a) := fun _ ht => ⟨rfl, ht⟩

theorem Answers.bind {x : Typing α} {r : Except Fault α} {f : α → Typing β}
    {g : α → Except Fault β} (hx : dag.Answers x r) (hf : ∀ a, dag.Answers (f a) (g a)) :
    dag.Answers (x >>= f) (r >>= g) := by
  intro t ht
  have h := hx t ht
  simp only [Bind.bind, EStateM.bind]
  cases hrun : x t with
  | ok a t' =>
    simp only [hrun] at h ⊢
    obtain ⟨rfl, ht'⟩ := h
    exact hf a t' ht'
  | error fault t' =>
    simp only [hrun] at h ⊢
    obtain ⟨rfl, ht'⟩ := h
    exact ⟨rfl, ht'⟩

theorem Answers.remember {x : Typing Ty} (he : dag.contains e)
    (hx : dag.Answers x e.plainType) : dag.Answers (Typing.remember e.id x) e.plainType := by
  intro t ht
  cases hf : t.find? e.id with
  | some ty =>
    rw [Typing.remember_known hf]
    exact ⟨ht.plainType he hf, ht⟩
  | none =>
    have h := hx t ht
    rw [Typing.remember_unknown hf]
    simp only [Bind.bind, EStateM.bind]
    cases hrun : x t with
    | ok ty t' =>
      simp only [hrun] at h ⊢
      exact ⟨h.1, h.2.insert he h.1⟩
    | error fault t' =>
      simp only [hrun] at h ⊢
      exact h

end Dag

namespace Expr

mutual

theorem inferType_answers (e : Expr) (he : dag.contains e) :
    dag.Answers e.inferType e.plainType := by
  have operand {d : Expr} (hd : d ∈ e.operands) : dag.contains d := dag.operands he hd
  unfold inferType
  cases e with
  | literal id value | zeroed id ty =>
    exact .remember he (Dag.answers_orFault _)
  | resource id res | input id i | array id elem length init | storage id name ty =>
    exact .remember he (Dag.answers_pure _)
  | unary id op a =>
    refine .remember he (.bind (inferType_answers a (operand ?_)) fun _ => Dag.answers_orFault _)
    simp
  | binary id op lhs rhs =>
    refine .remember he (.bind (inferType_answers rhs (operand ?_)) fun _ =>
      .bind (inferType_answers lhs (operand ?_)) fun _ => Dag.answers_orFault _)
    · simp
    · simp
  | call id callee args =>
    refine .remember he (.bind (inferTypes_answers args fun d hd => operand ?_) fun _ =>
      Dag.answers_orFault _)
    rwa [operands_call]
  | swizzle id base lanes | field id base name | element id base index =>
    refine .remember he (.bind (inferType_answers base (operand ?_)) fun _ =>
      Dag.answers_orFault _)
    simp
  | elementAt id base index =>
    refine .remember he (.bind (inferType_answers index (operand ?_)) fun _ =>
      .bind (Dag.answers_orFault _) fun _ =>
        .bind (inferType_answers base (operand ?_)) fun _ => Dag.answers_orFault _)
    · simp
    · simp
  | select id cond yes no =>
    refine .remember he (.bind (inferType_answers cond (operand ?_)) fun _ =>
      .bind (Dag.answers_orFault _) fun _ => .bind (inferType_answers yes (operand ?_)) fun _ =>
        .bind (inferType_answers no (operand ?_)) fun _ => Dag.answers_orFault _)
    · simp
    · simp
    · simp

theorem inferTypes_answers (es : List Expr) (he : ∀ e ∈ es, dag.contains e) :
    dag.Answers (inferTypes es) (plainTypes es) := by
  cases es with
  | nil => exact Dag.answers_pure []
  | cons e rest =>
    rw [inferTypes]
    exact .bind (inferType_answers e (he e (by simp))) fun ty =>
      .bind (inferTypes_answers rest fun d hd => he d (by simp [hd])) fun tys =>
        Dag.answers_pure (ty :: tys)

end

theorem inferType_finds {e : Expr} {t : IdTable Ty} (he : dag.contains e) (ht : dag.Faithful t) :
    Ensures e.inferType t
      (fun ty t' => (t.Extends t' ∧ dag.Faithful t') ∧ t'.find? e.id = some ty ∧
        e.plainType = .ok ty)
      fun t' => t.Extends t' ∧ dag.Faithful t' := by
  have hspec := inferType_spec e t
  have hplain := inferType_answers e he t ht
  unfold Ensures at *
  cases hrun : e.inferType t with
  | ok ty t' =>
    simp only [hrun] at hspec hplain ⊢
    exact ⟨⟨hspec.1, hplain.2⟩, hspec.2, hplain.1⟩
  | error fault t' =>
    simp only [hrun] at hspec hplain ⊢
    exact ⟨hspec, hplain.2⟩

end Expr

namespace Builtin

variable {b : Builtin} {callee : String} {args : List CallArg}

theorem eq_ok_of_guard {p : Prop} [Decidable p] {r : Except Fault Ty} {fault : Fault}
    (h : (if p then r else .error fault) = .ok ty) : r = .ok ty := by
  split at h
  · exact h
  · cases h

theorem kind_of_splat {width : Nat} {a : CallArg}
    (h : (splat width).returnType [a.ty] = .ok ty) :
    ∃ kind, a.ty.kind? = some kind ∧ Ty.vector kind width = .ok ty := by
  unfold returnType at h
  cases hk : a.ty.kind? with
  | some kind =>
    simp only [hk] at h
    exact ⟨kind, rfl, eq_ok_of_guard h⟩
  | none =>
    simp only [hk] at h
    cases h

theorem callText_of_returnType (callee : String)
    (h : b.returnType (args.map CallArg.ty) = .ok ty) :
    ∃ text, b.callText callee args = .ok text := by
  -- Of those that look at their arguments, each refuses any other number of them.
  cases b with
  | sample | write =>
    rcases args with _ | ⟨a, _ | ⟨c, _ | ⟨d, _ | ⟨e, rest⟩⟩⟩⟩ <;> first | exact ⟨_, rfl⟩ | cases h
  | read =>
    rcases args with _ | ⟨a, _ | ⟨c, _ | ⟨d, rest⟩⟩⟩ <;> first | exact ⟨_, rfl⟩ | cases h
  | ballot =>
    rcases args with _ | ⟨a, _ | ⟨c, rest⟩⟩ <;> first | exact ⟨_, rfl⟩ | cases h
  | convert kind =>
    rcases args with _ | ⟨a, _ | ⟨c, rest⟩⟩ <;> try cases h
    have hty : Ty.vector kind a.ty.rows = .ok ty := eq_ok_of_guard h
    exact exists_bind rfl (exists_bind hty ⟨_, rfl⟩)
  | u32ToF16 =>
    rcases args with _ | ⟨a, _ | ⟨c, rest⟩⟩ <;> try cases h
    have hty : Ty.vector .f16 a.ty.rows = .ok ty := eq_ok_of_guard h
    exact exists_bind rfl (exists_bind hty ⟨_, rfl⟩)
  | f16ToU32 =>
    rcases args with _ | ⟨a, _ | ⟨c, rest⟩⟩ <;> try cases h
    have hty : Ty.vector .u32 a.ty.rows = .ok ty := eq_ok_of_guard h
    exact exists_bind rfl (exists_bind hty ⟨_, rfl⟩)
  | splat width =>
    rcases args with _ | ⟨a, _ | ⟨c, rest⟩⟩ <;> try cases h
    obtain ⟨kind, hkind, hty⟩ := kind_of_splat h
    refine exists_bind rfl ?_
    rw [hkind]
    exact exists_bind hty ⟨_, rfl⟩
  | _ => exact ⟨plainCall callee args, rfl⟩

end Builtin

def Prototype.Prints (p : Prototype) : Prop :=
  match p.rule with
  | .custom rule => ∀ callee args, ∃ text, rule.callText callee args = .ok text
  | _ => True

variable {p : Prototype}

theorem Prototype.prints_of_rule
    (h : (∃ ret, p.rule = .fixed ret) ∨ ∃ b, p.rule = .builtin b) : p.Prints := by
  unfold Prints
  rcases h with ⟨ret, hrule⟩ | ⟨b, hrule⟩
  · rw [hrule]
    trivial
  · rw [hrule]
    trivial

theorem Prototype.Prints.callText (hp : p.Prints) {args : List CallArg}
    (h : p.returnType (args.map CallArg.ty) = .ok ty) : ∃ text, p.callText args = .ok text := by
  unfold Prints at hp
  unfold returnType at h
  unfold Prototype.callText
  cases hrule : p.rule with
  | fixed ret => exact ⟨_, rfl⟩
  | builtin b =>
    rw [hrule] at h
    exact Builtin.callText_of_returnType p.name h
  | custom rule =>
    rw [hrule] at hp
    exact hp p.name args

end ComputeKernel
