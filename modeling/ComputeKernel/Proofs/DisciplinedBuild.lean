import ComputeKernel.Proofs.BuildJudgements
import ComputeKernel.Proofs.DisciplinedEmission

namespace ComputeKernel

open Vocabulary Discipline

section Workspaces

variable {ν : Type}

def Halt.Admitted (v : Vocabulary) : Halt → Prop
  | .fatal fault | .refused fault => v.Admits fault
  | .overflow _ => True
  | .unbound _ => False

structure Workspace.Within (v : Vocabulary) (held : ν → List Expr) (w : Workspace ν) : Prop where
  sheet : w.sheet.Within v
  callables : w.callables.Within v
  held : ∀ e ∈ held w.notes, e.Within v

def Vocabulary.building (v : Vocabulary) (held : ν → List Expr) : Discipline Halt (Workspace ν) where
  good := Workspace.Within v held
  runs w w' := w.sheet.draft.Carried w'.sheet.draft
  fails _ _ := True
  stops := Halt.Admitted v
  refl w := .refl w.sheet.draft
  trans h h' := h.trans h'
  abandon _ := trivial
  trans_fails _ _ := trivial

def Operand.Within (v : Vocabulary) : Operand → Prop
  | .value e => e.Within v
  | .constant _ => True

end Workspaces

namespace Build

variable {ν α : Type} {v : Vocabulary} {held : ν → List Expr} {p : α → Prop} {e : Expr}

section Primitives

variable {x : Emit α} {mk : Nat → Expr} {o : Operand}

theorem obeys_attempt (h : v.emission.Obeys x p) :
    (v.building held).Obeys (attempt x) (v.Gives p) := by
  intro w hw
  have hx := h w.sheet hw.sheet
  simp only [Ends, attempt] at hx ⊢
  cases hr : x w.sheet with
  | ok a sheet =>
    rw [hr] at hx
    exact ⟨{ hw with sheet := hx.1 }, hx.2.1.toCarried, hx.2.2⟩
  | error fault sheet =>
    rw [hr] at hx
    exact ⟨{ hw with sheet := hx.2.1 }, hx.2.2, hx.1⟩

theorem obeys_must {r : Except Fault α} (h : v.Gives p r) : (v.building held).Obeys (must r) p := by
  cases r with
  | ok a => exact .pure h
  | error fault => exact .throw (show v.Admits fault from h)

theorem obeys_fatal {fault : Fault} (h : fault.isInternal = false) :
    (v.building held).Obeys (fatal fault) p := .throw (v.admits_of h)

theorem obeys_emitting (h : v.emission.Obeys x p) : (v.building held).Obeys (emitting x) p :=
  .bind (obeys_attempt h) fun _ hr => obeys_must hr

theorem obeys_making {x : Making α} (h : v.making.Obeys x p) :
    (v.building held).Obeys (making x) p := obeys_emitting (Emit.obeys_making h)

theorem obeys_drafting {x : Drafting α} (h : v.drafting.Obeys x p) :
    (v.building held).Obeys (drafting x) p := obeys_emitting (Emit.obeys_drafting h)

theorem obeys_redraft {f : Draft → Draft} (h : ∀ d, d.Within v → (f d).Within v ∧ d.Carried (f d)) :
    (v.building held).Upholds (redraft f) := by
  intro w hw
  obtain ⟨hwithin, hcarried⟩ := h w.sheet.draft hw.sheet.2
  exact ⟨{ hw with sheet := ⟨hw.sheet.1, hwithin⟩ }, hcarried, trivial⟩

theorem obeys_writeLine {line : Line} (h : line.Within v) (hflat : line.bracing = .flat) :
    (v.building held).Upholds (writeLine line) :=
  obeys_redraft fun d hd => ⟨hd.write h, d.outside_write line, fun _ hk => hk.flat hflat⟩

theorem obeys_draft : (v.building held).Upholds draft :=
  .bind .get fun _ _ => .pure trivial

theorem obeys_isWave32 : (v.building held).Upholds isWave32 :=
  .bind obeys_draft fun _ _ => .pure trivial

theorem obeys_nameOf (he : e.Within v) :
    (v.building held).Obeys (nameOf e) fun name => v.text name.text :=
  .bind .get fun _ hw => .pure (hw.sheet.1.name he)

theorem obeys_typeOf (he : e.Within v) : (v.building held).Obeys (typeOf e) (Ty.Within v) :=
  obeys_emitting (Emit.obeys_typing (e.inferType_obeys he))

theorem obeys_diverging (x : Diverging α) : (v.building held).Upholds (emitting (.diverging x)) :=
  obeys_emitting (Emit.obeys_diverging x)

theorem obeys_inDivergentRegion : (v.building held).Upholds inDivergentRegion :=
  obeys_emitting Emit.obeys_inDivergentRegion

theorem obeys_freshName {stem : String} (h : v.text stem) :
    (v.building held).Obeys (freshName stem) v.text := by
  intro w hw
  refine ⟨⟨hw.sheet, hw.callables, hw.held⟩, .refl w.sheet.draft, ?_⟩
  exact v.append _ _ (v.append _ _ h (v.plain _ (by decide))) (v.nat _)

theorem obeys_node (h : ∀ id, (mk id).Within v) :
    (v.building held).Obeys (node mk) (Expr.Within v) := obeys_making (Making.obeys_node h)

theorem obeys_emitValue (he : e.Within v) : v.emission.Upholds (emitValue e) :=
  .bind (e.emit_obeys he) fun _ _ => .bind Emit.obeys_inDivergentRegion fun _ _ =>
    .ite (fun _ => Emit.obeys_diverging _) fun _ => .pure trivial

theorem obeys_tryEmit_self (he : e.Within v) :
    (v.building held).Obeys (tryEmit e) (v.Gives (· = e)) := by
  refine .bind (obeys_attempt (obeys_emitValue he)) fun r hr => ?_
  cases r with
  | error fault => exact .pure hr
  | ok _ =>
    refine .bind (p := fun _ => True) (fun w hw => ?_) fun _ _ => .pure rfl
    exact ⟨⟨hw.sheet, hw.callables, hw.held⟩, .refl w.sheet.draft, trivial⟩

theorem obeys_tryEmit (he : e.Within v) :
    (v.building held).Obeys (tryEmit e) (v.Gives (Expr.Within v)) :=
  (obeys_tryEmit_self he).mono fun _ hr => hr.mono fun _ hd => hd ▸ he

theorem obeys_emit_self (he : e.Within v) : (v.building held).Obeys (emit e) (· = e) :=
  .bind (obeys_tryEmit_self he) fun _ hr => obeys_must hr

theorem obeys_emit (he : e.Within v) : (v.building held).Obeys (emit e) (Expr.Within v) :=
  (obeys_emit_self he).mono fun _ hd => hd ▸ he

theorem obeys_emitNode (h : ∀ id, (mk id).Within v) :
    (v.building held).Obeys (node mk >>= emit) (Expr.Within v) :=
  .bind (obeys_node h) fun _ he => obeys_emit he

theorem obeys_literal (l : Literal) :
    v.making.Obeys (Making.literal l) fun e => e.Within v ∧ ∃ id, e = .literal id l := by
  refine .bind (Discipline.obeys_orFault (fun _ hf => hf) l.text_gives) fun _ _ n hn => ?_
  refine ⟨⟨hn.names, hn.types⟩, trivial, Expr.within_iff.mpr ⟨trivial, ?_⟩, n.next, rfl⟩
  simp

theorem obeys_operand (ho : o.Within v) : (v.building held).Obeys (operand o) (Expr.Within v) := by
  cases o with
  | value e => exact .pure ho
  | constant l => exact (obeys_making (obeys_literal l)).mono fun _ he => he.1

theorem obeys_emitOperand (ho : o.Within v) :
    (v.building held).Obeys (emitOperand o) (Expr.Within v) :=
  .bind (obeys_operand ho) fun _ he => obeys_emit he

theorem obeys_builtin {b : Builtin} (hb : b.Within v) :
    (v.building held).Obeys (builtin b) (Prototype.Within v) := by
  intro w hw
  have hcall := hw.callables.builtin hb
  exact ⟨{ hw with callables := hcall.2 }, .refl w.sheet.draft, hcall.1⟩

theorem obeys_function? (name : String) :
    (v.building held).Obeys (function? name) fun p => ∀ q, p = some q → q.Within v :=
  .bind .get fun _ hw => .pure fun q hq => hw.callables name q hq

theorem obeys_register {q : Prototype} (hq : q.Within v) :
    (v.building held).Obeys (register q) (Prototype.Within v) := by
  intro w hw
  exact ⟨{ hw with callables := hw.callables.register hq }, .refl w.sheet.draft, hq⟩

end Primitives

section Values

theorem obeys_constant_self (l : Literal) :
    (v.building held).Obeys (constant l) fun e => e.Within v ∧ ∃ id, e = .literal id l :=
  .bind (obeys_making (obeys_literal l)) fun _ he => (obeys_emit_self he.1).mono fun _ hd => hd ▸ he

theorem obeys_constant (l : Literal) : (v.building held).Obeys (constant l) (Expr.Within v) :=
  (obeys_constant_self l).mono fun _ he => he.1

variable {op : Op} {args : List Expr} {o : Operand} {name : String} {elem : Ty} {lanes : String}
  {index : Operand} {q : Prototype} {b : Builtin}

theorem within_unary (he : e.Within v) (id : Nat) : (Expr.unary id op e).Within v :=
  Expr.within_iff.mpr ⟨trivial, by simpa using he⟩

theorem within_binary {lhs rhs : Expr} (hl : lhs.Within v) (hr : rhs.Within v)
    (id : Nat) : (Expr.binary id op lhs rhs).Within v :=
  Expr.within_iff.mpr ⟨trivial, by simpa using ⟨hl, hr⟩⟩

theorem within_call {callee : Prototype} (hc : callee.Within v)
    (ha : ∀ a ∈ args, a.Within v) (id : Nat) : (Expr.call id callee args).Within v :=
  Expr.within_iff.mpr ⟨hc, by rwa [Expr.operands_call]⟩

theorem within_leaf {d : Expr} (hown : d.Own v) (hops : d.operands = []) : d.Within v :=
  Expr.within_iff.mpr ⟨hown, by simp [hops]⟩

theorem obeys_variableOf (ho : o.Within v) :
    (v.building held).Obeys (variableOf o) (Expr.Within v) :=
  .bind (obeys_operand ho) fun _ he => obeys_emitNode (within_unary he)

theorem obeys_copy (he : e.Within v) : (v.building held).Obeys (copy e) (Expr.Within v) :=
  obeys_variableOf (show Operand.Within v (.value e) from he)

theorem obeys_zero (ty : Ty) : (v.building held).Obeys (zero ty) (Expr.Within v) :=
  .bind (obeys_must (Literal.zero_gives ty)) fun l _ => obeys_constant l

theorem obeys_zeroed {ty : Ty} (h : ty.Within v) :
    (v.building held).Obeys (zeroed ty) (Expr.Within v) :=
  obeys_emitNode fun _ => within_leaf h rfl

theorem obeys_input {i : Input} (h : i.Within v) :
    (v.building held).Obeys (input i) (Expr.Within v) :=
  obeys_emitNode fun _ => within_leaf h rfl

theorem obeys_resource {r : Resource} (h : r.Within v) :
    (v.building held).Obeys (resource r) (Expr.Within v) :=
  obeys_emitNode fun _ => within_leaf h rfl

theorem obeys_select {cond : Expr} {yes no : Operand} (hc : cond.Within v) (hy : yes.Within v)
    (hn : no.Within v) : (v.building held).Obeys (select cond yes no) (Expr.Within v) := by
  refine .bind (obeys_operand hy) fun a ha => .bind (obeys_operand hn) fun b hb =>
    obeys_emitNode fun _ => Expr.within_iff.mpr ⟨trivial, ?_⟩
  simpa using ⟨hc, ha, hb⟩

theorem obeys_sharedStorage (hn : v.text name) (h : elem.Within v) (count : UInt32) :
    (v.building held).Obeys (sharedStorage name elem count) (Expr.Within v) := by
  have hty : (if 1 < count then Ty.array elem (.fixed count) else elem).Within v := by
    split <;> exact h
  exact .bind (obeys_drafting (Drafting.addShared_obeys hn hty)) fun _ _ =>
    obeys_emitNode fun _ => within_leaf ⟨hn, hty⟩ rfl

theorem checkElements_gives (elem : Ty) (init : List Literal) :
    v.Gives (fun _ => True) (Making.checkElements elem init) := by
  induction init with
  | nil => trivial
  | cons value rest ih =>
    exact (Ty.vector_gives (P := Ty.Within v) _ _).bind fun _ _ =>
      gives_ite (fun _ => ih) fun _ => gives_error rfl

theorem obeys_makeArray (h : elem.Within v) (length : UInt32) (init : List Literal) :
    (v.building held).Obeys (making (.array elem length init)) (Expr.Within v) := by
  refine obeys_making (.ite (fun _ => .stop (v.admits_of rfl)) fun _ =>
    .ite (fun _ => .stop (v.admits_of rfl)) fun _ => ?_)
  exact .bind (Discipline.obeys_orFault (fun _ hf => hf) (checkElements_gives elem init)) fun _ _ =>
    Making.obeys_node fun _ => within_leaf h rfl

theorem obeys_localArray (h : elem.Within v) (length : UInt32) :
    (v.building held).Obeys (localArray elem length) (Expr.Within v) :=
  .bind (obeys_makeArray h length []) fun _ he => obeys_emit he

theorem obeys_arrayOf (values : List Literal) :
    (v.building held).Obeys (arrayOf values) (Expr.Within v) := by
  cases values with
  | nil => exact obeys_fatal rfl
  | cons first rest =>
    exact .bind (obeys_must (Ty.vector_gives (P := Ty.Within v) _ _)) fun _ hty =>
      .bind (obeys_makeArray hty _ _) fun _ he => obeys_emit he

theorem obeys_binary {lhs rhs : Operand} (hl : lhs.Within v) (hr : rhs.Within v) :
    (v.building held).Obeys (binary op lhs rhs) (Expr.Within v) :=
  .bind (obeys_operand hl) fun _ ha => .bind (obeys_operand hr) fun _ hb =>
    obeys_emitNode (within_binary ha hb)

theorem obeys_unary (he : e.Within v) :
    (v.building held).Obeys (unary op e) (Expr.Within v) := obeys_emitNode (within_unary he)

theorem obeys_complement (he : e.Within v) :
    (v.building held).Obeys (complement e) (Expr.Within v) :=
  .bind (obeys_typeOf he) fun _ _ => .ite (fun _ => obeys_unary he) fun _ => obeys_unary he

theorem obeys_assign (he : e.Within v) (ho : o.Within v) :
    (v.building held).Obeys (assign e o) (Expr.Within v) :=
  obeys_binary (show Operand.Within v (.value e) from he) ho

theorem obeys_named (he : e.Within v) (hn : v.text name) :
    (v.building held).Obeys (named e name) (Expr.Within v) :=
  .bind (obeys_node (within_unary he)) fun _ hc => .bind (obeys_emitting (Emit.obeys_rename _ hn))
    fun _ _ => obeys_emit hc

theorem checkLanes_gives (base : Ty) (lanes : String) (cs : List Char) :
    v.Gives (fun _ => True) (Making.checkLanes base lanes cs) := by
  induction cs with
  | nil => trivial
  | cons c rest ih =>
    rw [Making.checkLanes]
    split
    · exact gives_error rfl
    · exact gives_ite (fun _ => ih) fun _ => gives_error rfl

theorem obeys_makeSwizzle (he : e.Within v) (hl : v.text lanes) :
    v.making.Obeys (Making.swizzle e lanes) (Expr.Within v) := by
  refine .bind (Making.obeys_typing (e.inferType_obeys he)) fun ty _ => .ite (fun _ =>
    .stop (v.admits_of rfl)) fun _ => .bind
      (Discipline.obeys_orFault (fun _ hf => hf) (checkLanes_gives ty lanes _)) fun _ _ =>
        Making.obeys_node fun _ => Expr.within_iff.mpr ⟨hl, ?_⟩
  simpa using he

theorem obeys_trySwizzle (he : e.Within v) (hl : v.text lanes) :
    (v.building held).Obeys (trySwizzle e lanes) (v.Gives (Expr.Within v)) := by
  refine .bind (obeys_attempt (Emit.obeys_making (obeys_makeSwizzle he hl))) fun r hr => ?_
  cases r with
  | error fault => exact .pure hr
  | ok part => exact obeys_tryEmit hr

theorem obeys_swizzle (he : e.Within v) (hl : v.text lanes) :
    (v.building held).Obeys (swizzle e lanes) (Expr.Within v) :=
  .bind (obeys_trySwizzle he hl) fun _ hr => obeys_must hr

theorem obeys_tryField (he : e.Within v) (hn : v.text name) :
    (v.building held).Obeys (tryField e name) (v.Gives (Expr.Within v)) := by
  refine .bind (obeys_node fun _ => Expr.within_iff.mpr ⟨hn, ?_⟩) fun _ hd => obeys_tryEmit hd
  simpa using he

theorem obeys_field (he : e.Within v) (hn : v.text name) :
    (v.building held).Obeys (field e name) (Expr.Within v) :=
  .bind (obeys_tryField he hn) fun _ hr => obeys_must hr

theorem obeys_element (he : e.Within v) (index : UInt32) :
    (v.building held).Obeys (element e index) (Expr.Within v) :=
  obeys_emitNode fun _ => Expr.within_iff.mpr
    ⟨trivial, by simpa using he⟩

theorem obeys_elementAt (he : e.Within v) (hi : index.Within v) :
    (v.building held).Obeys (elementAt e index) (Expr.Within v) :=
  .bind (obeys_operand hi) fun _ hi => obeys_emitNode fun _ => Expr.within_iff.mpr
    ⟨trivial, by simpa using ⟨he, hi⟩⟩

theorem obeys_part (he : e.Within v) (hn : v.text name) :
    (v.building held).Obeys (part e name) (Expr.Within v) :=
  .bind (obeys_typeOf he) fun _ _ => .ite (fun _ => obeys_field he hn) fun _ => obeys_swizzle he hn

theorem obeys_setPart (he : e.Within v) (hn : v.text name)
    (ho : o.Within v) : (v.building held).Obeys (setPart e name o) (Expr.Within v) :=
  .bind (obeys_part he hn) fun _ hp => obeys_assign hp ho

theorem obeys_tryCall (hq : q.Within v) (ha : ∀ a ∈ args, a.Within v) :
    (v.building held).Obeys (tryCall q args) (v.Gives (Expr.Within v)) :=
  .bind (obeys_node (within_call hq ha)) fun _ hd => obeys_tryEmit hd

theorem obeys_call (hq : q.Within v)
    (ha : ∀ a ∈ args, a.Within v) : (v.building held).Obeys (call q args) (Expr.Within v) :=
  .bind (obeys_tryCall hq ha) fun _ hr => obeys_must hr

theorem obeys_callNamed (ha : ∀ a ∈ args, a.Within v) (name : String) :
    (v.building held).Obeys (callNamed name args) (Expr.Within v) := by
  refine .bind (obeys_function? name) fun q hq => ?_
  cases q with
  | none => exact obeys_fatal rfl
  | some q => exact obeys_call (hq q rfl) ha

theorem obeys_apply (hb : b.Within v)
    (ha : ∀ a ∈ args, a.Within v) : (v.building held).Obeys (apply b args) (Expr.Within v) :=
  .bind (obeys_builtin hb) fun _ hq => obeys_emitNode (within_call hq ha)

theorem obeys_applyTo (hb : b.Within v) {values : List Expr}
    (hv : ∀ e ∈ values, e.Within v) {operands : List Operand} (ho : ∀ o ∈ operands, o.Within v) :
    (v.building held).Obeys (applyTo b values operands) (Expr.Within v) := by
  refine .bind (.mapM fun o hm => obeys_emitOperand (ho o hm)) fun rest hrest => ?_
  refine obeys_apply hb fun e he => ?_
  exact (List.mem_append.mp he).elim (hv e) (hrest e)

theorem obeys_read {index : Expr} (he : e.Within v) (hi : index.Within v) :
    (v.building held).Obeys (read e index) (Expr.Within v) :=
  obeys_apply (b := .read) trivial (by simpa using ⟨he, hi⟩)

theorem obeys_write {index value : Expr} (he : e.Within v) (hi : index.Within v)
    (hv : value.Within v) : (v.building held).Upholds (write e index value) :=
  .bind (obeys_apply (b := .write) trivial (by simpa using ⟨he, hi, hv⟩)) fun _ _ => .pure trivial

theorem obeys_load (he : e.Within v) (hi : index.Within v) :
    (v.building held).Obeys (load e index) (Expr.Within v) :=
  .bind (obeys_typeOf he) fun _ _ => .ite
    (fun _ => .bind (obeys_emitOperand hi) fun _ hi => obeys_read he hi)
    fun _ => obeys_elementAt he hi

theorem obeys_store (he : e.Within v) {value : Operand} (hi : index.Within v)
    (hv : value.Within v) : (v.building held).Upholds (store e index value) :=
  .bind (obeys_typeOf he) fun _ _ => .ite
    (fun _ => .bind (obeys_emitOperand hi) fun _ hi => .bind (obeys_emitOperand hv) fun _ hv =>
      obeys_write he hi hv)
    fun _ => .bind (obeys_elementAt he hi) fun _ hd => .bind (obeys_assign hd hv) fun _ _ =>
      .pure trivial

end Values

theorem obeys_applyOne {b : Builtin} (hb : b.Within v) (he : e.Within v) :
    (v.building held).Obeys (apply b [e]) (Expr.Within v) :=
  obeys_apply hb (by simpa using he)

section Snippets

open Bears (items)

def Disciplined (v : Vocabulary) (held : ν → List Expr) : Tracking Events ν :=
  fun _ _ K _ _ x _ =>
  (∀ e, K (.value e) → e.Within v) →
    (v.building held).Obeys x fun a => ∀ e, .value e ∈ items a → e.Within v

theorem obeys_one {x : Build ν Expr} (h : (v.building held).Obeys x (Expr.Within v)) :
    (v.building held).Obeys x fun d => ∀ e, .value e ∈ items d → e.Within v :=
  h.mono fun d hd => by simpa [items] using hd

theorem within_of_has {K : Stock} {o : Operand} (hK : ∀ e, K (.value e) → e.Within v)
    (h : K.Has (items o)) : o.Within v := by
  cases o with
  | value e => exact hK e (h.each _ (.head _))
  | constant l => trivial

theorem braceFree_lanes {lanes : String} (h : CommonLanes lanes) : BraceFree lanes :=
  (by decide : ∀ lanes ∈ ["x", "y", "z", "xy", "yx"], BraceFree lanes) lanes h.known

theorem within_common {b : Builtin} (h : b.Common) : b.Within v := by
  cases b with
  | construct ty =>
    obtain ⟨kind, rows, cols, rfl⟩ := h.types ty rfl
    trivial
  | _ => trivial

instance : Arithmetic (Disciplined v held) where
  pure _ h := fun hK => .pure fun e he => hK e (h.each _ he)
  bind hx hf := fun hK => .bind (hx hK) fun a ha => hf a fun e he => he.elim (ha e) (hK e)
  grow h hx := fun hK => hx fun e he => hK e (h.kept _ he)
  constant l := fun _ => obeys_one (obeys_constant l)
  emitOperand _ := fun h hK => obeys_one (obeys_emitOperand (within_of_has hK h))
  zeroed _ _ _ := fun _ => obeys_one (obeys_zeroed trivial)
  select cond _ _ := fun h hK => obeys_one (obeys_select (hK cond h.left.value)
    (within_of_has hK h.right.left) (within_of_has hK h.right.right))
  binary _ _ _ := fun h hK =>
    obeys_one (obeys_binary (within_of_has hK h.left) (within_of_has hK h.right))
  unary _ e := fun h hK => obeys_one (obeys_unary (hK e h.value))
  lanes e lanes hl := fun h hK =>
    obeys_one (obeys_swizzle (hK e h.value) (v.plain lanes (braceFree_lanes hl)))
  common _ _ hb := fun h hK =>
    obeys_one (obeys_apply (within_common hb) fun a ha => hK a (h.mem ha).value)

end Snippets

end Build

end ComputeKernel
