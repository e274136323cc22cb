import ComputeKernel.Build.Snippets
import ComputeKernel.Proofs.Nesting

namespace ComputeKernel

-- The size of an instance doubles with every step of a program.
def Initial.callee? : Initial → Option Prototype
  | .call callee _ _ => some callee
  | _ => none

def Line.callee? : Line → Option Prototype
  | .declare _ _ value => value.callee?
  | .perform callee _ _ => some callee
  | _ => none

class Initial.NoCall (value : Initial) : Prop where
  callee : value.callee? = none

namespace Initial

instance (value : Spelling) : NoCall (.copy value) := ⟨rfl⟩

instance (op : Op) (operand : Spelling) : NoCall (.unary op operand) := ⟨rfl⟩

instance (op : Op) (lhs rhs : Spelling) : NoCall (.binary op lhs rhs) := ⟨rfl⟩

instance : NoCall .zero := ⟨rfl⟩

instance (p : Prop) [Decidable p] (x y : Initial) [hx : x.NoCall] [hy : y.NoCall] :
    NoCall (if p then x else y) := by
  split
  · exact hx
  · exact hy

end Initial

class Line.Straight (line : Line) : Prop where
  flat : line.bracing = .flat
  goesOn : line ≠ .breakLoop ∧ line ≠ .continueLoop
  callee : line.callee? = none

namespace Line

variable {line : Line} {p : Prototype}

theorem flat_of_callee? (h : line.callee? = some p) : line.bracing = .flat := by
  cases line <;> first | rfl | cases h

theorem goesOn_of_callee? (h : line.callee? = some p) :
    line ≠ .breakLoop ∧ line ≠ .continueLoop := by
  constructor <;> rintro rfl <;> cases h

instance (ty : Ty) (target : Spelling) (value : Initial) [h : value.NoCall] :
    Straight (.declare ty target value) := ⟨rfl, by simp, h.callee⟩

instance (ty : Ty) (target : Spelling) : Straight (.reserve ty target) := ⟨rfl, by simp, rfl⟩

instance (target : Spelling) (op : Op) (value : Spelling) :
    Straight (.assign target op value) := ⟨rfl, by simp, rfl⟩

instance (elem : Ty) (target : Spelling) (length : UInt32) (init : List String) :
    Straight (.array elem target length init) := ⟨rfl, by simp, rfl⟩

instance : Straight .returnVoid := ⟨rfl, by simp, rfl⟩

instance (value : Spelling) : Straight (.returnValue value) := ⟨rfl, by simp, rfl⟩

instance : Straight .barrier := ⟨rfl, by simp, rfl⟩

instance (name : String) : Straight (.declareQuery name) := ⟨rfl, by simp, rfl⟩

instance (query : String) (scene ray : Spelling) :
    Straight (.trace query scene ray) := ⟨rfl, by simp, rfl⟩

instance (cond : Spelling) (query : String) : Straight (.commit cond query) := ⟨rfl, by simp, rfl⟩

instance (hit : Spelling) (query : String) (stage : HitStage) :
    Straight (.readHit hit query stage) := ⟨rfl, by simp, rfl⟩

end Line

namespace Expr

def callee? : Expr → Option Prototype
  | .call _ callee _ => some callee
  | _ => none

def CallsOnly (callees : Prototype → Prop) (e : Expr) : Prop :=
  ∀ d p, e.Uses d → d.callee? = some p → callees p

variable {callees callees' : Prototype → Prop} {e d : Expr}

theorem CallsOnly.operand (h : e.CallsOnly callees) (hd : d ∈ e.operands) : d.CallsOnly callees :=
  fun _ _ hc hp => h _ _ (hc.of_operand hd) hp

theorem CallsOnly.callee {p : Prototype} (h : e.CallsOnly callees) (hp : e.callee? = some p) :
    callees p := h e p .self hp

theorem CallsOnly.mono (h : e.CallsOnly callees) (hsub : ∀ p, callees p → callees' p) :
    e.CallsOnly callees' := fun d p hd hp => hsub p (h d p hd hp)

theorem callsOnly_of_operands (hd : ∀ d ∈ e.operands, d.CallsOnly callees)
    (hp : ∀ p, e.callee? = some p → callees p) : e.CallsOnly callees := by
  intro c p hc hcall
  rcases hc.cases with rfl | ⟨d, hd', hdc⟩
  · exact hp p hcall
  · exact hd d hd' c p hdc hcall

theorem callsOnly_any (e : Expr) : e.CallsOnly fun _ => True := fun _ _ _ _ => trivial

end Expr

abbrev Judgement (M : Type → Type) := (α : Type) → M α → M α → Prop

class Judged {M : Type → Type} (J : Judgement M) {α : Type} (x x' : M α) : Prop where
  holds : J α x x'

abbrev Judgement.moving (R : Sheet → Sheet → Prop) : Judgement Emit := fun _ x _ => Moves R x

class Judgement.Chains {M : Type → Type} [Monad M] (J : Judgement M) : Prop where
  pure {α : Type} (a : α) : J α (pure a) (pure a)
  bind {α β : Type} {x x' : M α} {f f' : α → M β} :
    J α x x' → (∀ a, J β (f a) (f' a)) → J β (x >>= f) (x' >>= f')

section Chains

variable {M : Type → Type} [Monad M] {J : Judgement M} [J.Chains] {α β : Type}

instance (a : α) : Judged J (pure a) (pure a) := ⟨Judgement.Chains.pure a⟩

instance (x x' : M α) (f f' : α → M β) [hx : Judged J x x']
    [hf : ∀ a, Judged J (f a) (f' a)] : Judged J (x >>= f) (x' >>= f') :=
  ⟨Judgement.Chains.bind hx.holds fun a => (hf a).holds⟩

theorem Judged.after {x x' : M α} {f f' : α → M β} [hx : Judged J x x']
    (hf : ∀ a, Judged J (f a) (f' a)) : Judged J (x >>= f) (x' >>= f') := inferInstance

instance (p : Prop) [Decidable p] (x y x' y' : M α) [hx : Judged J x x']
    [hy : Judged J y y'] : Judged J (if p then x else y) (if p then x' else y') := by
  split
  · exact hx
  · exact hy

end Chains

namespace Emit

def choose (cond target yes no : Expr) (x y : Emit Unit) : Emit Unit := do
  write (.openIf (← nameOf cond))
  branch cond target yes x
  write .openElse
  branch cond target no y
  write .close

end Emit

class Judgement.Emission (callees : outParam (Prototype → Prop)) (J : Judgement Emit) : Prop
    extends J.Chains where
  orFault {α : Type} (r : Except Fault α) : J α (orFault r) (orFault r)
  typing (e : Expr) : J _ (Emit.typing e.inferType) (Emit.typing e.inferType)
  nameOf (e : Expr) : J _ (Emit.nameOf e) (Emit.nameOf e)
  rename (id : Nat) (name : Spelling) : J _ (Emit.rename id name) (Emit.rename id name)
  write (line : Line) [line.Straight] : J _ (Emit.write line) (Emit.write line)
  writeCall (line : Line) {p : Prototype} (h : line.callee? = some p) :
    callees p → J _ (Emit.write line) (Emit.write line)
  registerType (ty : Ty) :
    J _ (Emit.drafting (.registerType ty)) (Emit.drafting (.registerType ty))
  registerResource (res : Resource) :
    J _ (Emit.drafting (.registerResource res)) (Emit.drafting (.registerResource res))
  noteWrite (target : Expr) : J _ (Emit.noteWrite target) (Emit.noteWrite target)
  once (e : Expr) {body body' : Ty → Emit Unit} :
    (∀ ty, J _ (body ty) (body' ty)) → J _ (Emit.once e body) (Emit.once e body')
  choose (cond target yes no : Expr) {x x' y y' : Emit Unit} :
    J _ x x' → J _ y y' → J _ (Emit.choose cond target yes no x y)
      (Emit.choose cond target yes no x' y')

class Judgement.Strokes (nodes : outParam (Expr → Prop)) (J : Judgement Emit) : Prop
    extends J.Chains where
  operand {e d : Expr} : nodes e → d ∈ e.operands → nodes d
  orFault {α : Type} (r : Except Fault α) : J α (orFault r) (orFault r)
  typing (e : Expr) : nodes e → J _ (Emit.typing e.inferType) (Emit.typing e.inferType)
  nameOf (e : Expr) : J _ (Emit.nameOf e) (Emit.nameOf e)
  rename (id : Nat) (name : Spelling) : J _ (Emit.rename id name) (Emit.rename id name)
  write (line : Line) [line.Straight] : J _ (Emit.write line) (Emit.write line)
  writeCall (line : Line) {e : Expr} {p : Prototype} (h : line.callee? = some p)
    (hp : e.callee? = some p) : nodes e → J _ (Emit.write line) (Emit.write line)
  registerType (ty : Ty) :
    J _ (Emit.drafting (.registerType ty)) (Emit.drafting (.registerType ty))
  registerResource (res : Resource) :
    J _ (Emit.drafting (.registerResource res)) (Emit.drafting (.registerResource res))
  once (e : Expr) {body body' : Ty → Emit Unit} : nodes e →
    (∀ ty, J _ (body ty) (body' ty)) → J _ (Emit.once e body) (Emit.once e body')
  choose (cond target yes no : Expr) {x x' y y' : Emit Unit} : nodes cond →
    J _ x x' → J _ y y' → J _ (Emit.choose cond target yes no x y)
      (Emit.choose cond target yes no x' y')

class Judgement.Emitting (nodes : outParam (Expr → Prop)) (J : Judgement Emit) : Prop
    extends J.Strokes nodes where
  assign (id : Nat) (op : Op) (target value : Expr) : op.isAssign = true →
    nodes (.binary id op target value) → J _ target.emit target.emit → J _ value.emit value.emit →
      J _ (Expr.binary id op target value).emit (Expr.binary id op target value).emit

class Expr.Among (nodes : Expr → Prop) (e : Expr) : Prop where
  node : nodes e

section Emission

variable {nodes : Expr → Prop} {J : Judgement Emit} {α : Type}

section Strokes

variable [J.Strokes nodes]

instance (r : Except Fault α) : Judged J (orFault r) (orFault r) := ⟨Judgement.Strokes.orFault r⟩

instance (e : Expr) [he : e.Among nodes] :
    Judged J (Emit.typing e.inferType) (Emit.typing e.inferType) :=
  ⟨Judgement.Strokes.typing e he.node⟩

instance (e : Expr) : Judged J (Emit.nameOf e) (Emit.nameOf e) := ⟨Judgement.Strokes.nameOf e⟩

instance (id : Nat) (name : Spelling) :
    Judged J (Emit.rename id name) (Emit.rename id name) := ⟨Judgement.Strokes.rename id name⟩

instance (line : Line) [line.Straight] :
    Judged J (Emit.write line) (Emit.write line) := ⟨Judgement.Strokes.write line⟩

instance (ty : Ty) :
    Judged J (Emit.drafting (.registerType ty)) (Emit.drafting (.registerType ty)) :=
  ⟨Judgement.Strokes.registerType ty⟩

instance (res : Resource) :
    Judged J (Emit.drafting (.registerResource res)) (Emit.drafting (.registerResource res)) :=
  ⟨Judgement.Strokes.registerResource res⟩

instance judged_once (e : Expr) (body body' : Ty → Emit Unit) [he : e.Among nodes]
    [h : ∀ ty, Judged J (body ty) (body' ty)] : Judged J (Emit.once e body) (Emit.once e body') :=
  ⟨Judgement.Strokes.once e he.node fun ty => (h ty).holds⟩

instance (cond target yes no : Expr) (x x' y y' : Emit Unit) [hc : cond.Among nodes]
    [hx : Judged J x x'] [hy : Judged J y y'] :
    Judged J (Emit.choose cond target yes no x y) (Emit.choose cond target yes no x' y') :=
  ⟨Judgement.Strokes.choose cond target yes no hc.node hx.holds hy.holds⟩

theorem emitting_of_noteWrite
    (h : ∀ target, J _ (Emit.noteWrite target) (Emit.noteWrite target)) : J.Emitting nodes where
  assign id op target value hop he ht hv := by
    have : Expr.Among nodes (.binary id op target value) := ⟨he⟩
    have : Judged J target.emit target.emit := ⟨ht⟩
    have : Judged J value.emit value.emit := ⟨hv⟩
    have : Judged J (Emit.noteWrite target) (Emit.noteWrite target) := ⟨h target⟩
    have hassign : Judged J (Expr.binary id op target value).emit
        (Expr.binary id op target value).emit := by
      rw [Expr.emit]
      refine judged_once _ _ _ (h := fun ty => ?_)
      repeat with_reducible refine Judged.after fun _ => ?_
      infer_instance
    exact hassign.holds

end Strokes

variable [J.Emitting nodes]

mutual

theorem Expr.judged_emit_of (e : Expr) (h : nodes e) : Judged J e.emit e.emit := by
  have : e.Among nodes := ⟨h⟩
  have below {d : Expr} (hd : d ∈ e.operands) : nodes d :=
    Judgement.Strokes.operand J h hd
  cases e with
  | unary id op operand =>
    have := operand.judged_emit_of (below (by simp))
    rw [Expr.emit]; infer_instance
  | binary id op lhs rhs =>
    have hl := lhs.judged_emit_of (below (by simp))
    have hr := rhs.judged_emit_of (below (by simp))
    cases hop : op.isAssign with
    | true => exact ⟨Judgement.Emitting.assign id op lhs rhs hop h hl.holds hr.holds⟩
    | false =>
      simp only [Expr.emit, hop, Bool.false_eq_true, if_false]
      refine judged_once _ _ _ (h := fun ty => ?_)
      repeat with_reducible refine Judged.after fun _ => ?_
      infer_instance
  | call id callee args =>
    have := Expr.judged_emitArgs args fun d hd => below (by rwa [Expr.operands_call])
    have (names : List Spelling) (text : String) : Judged J
        (Emit.write (.perform callee names text)) (Emit.write (.perform callee names text)) :=
      ⟨Judgement.Strokes.writeCall _ rfl rfl h⟩
    have (ty : Ty) (target : Spelling) (names : List Spelling) (text : String) : Judged J
        (Emit.write (.declare ty target (.call callee names text)))
        (Emit.write (.declare ty target (.call callee names text))) :=
      ⟨Judgement.Strokes.writeCall _ rfl rfl h⟩
    rw [Expr.emit]; infer_instance
  | swizzle id base _ | field id base _ | element id base _ =>
    have := base.judged_emit_of (below (by simp))
    rw [Expr.emit]; infer_instance
  | elementAt id base index =>
    have := base.judged_emit_of (below (by simp))
    have := index.judged_emit_of (below (by simp))
    rw [Expr.emit]
    refine judged_once _ _ _ (h := fun ty => ?_)
    repeat with_reducible refine Judged.after fun _ => ?_
    infer_instance
  | select id cond yes no =>
    have hcond : nodes cond := below (by simp)
    have : cond.Among nodes := ⟨hcond⟩
    have := cond.judged_emit_of hcond
    have := yes.judged_emit_of (below (by simp))
    have := no.judged_emit_of (below (by simp))
    rw [Expr.emit]
    refine judged_once _ _ _ (h := fun ty => ?_)
    have hchoose : Judged J (do
        cond.emit
        Emit.write (.reserve ty (← Emit.nameOf (.select id cond yes no)))
        Emit.choose cond (.select id cond yes no) yes no yes.emit no.emit) (do
        cond.emit
        Emit.write (.reserve ty (← Emit.nameOf (.select id cond yes no)))
        Emit.choose cond (.select id cond yes no) yes no yes.emit no.emit) := by
      infer_instance
    exact hchoose
  | _ => rw [Expr.emit]; infer_instance

theorem Expr.judged_emitArgs (es : List Expr) (h : ∀ e ∈ es, nodes e) :
    Judged J (emitArgs es) (emitArgs es) := by
  cases es with
  | nil => rw [emitArgs]; infer_instance
  | cons e rest =>
    have : e.Among nodes := ⟨h e (by simp)⟩
    have := e.judged_emit_of (h e (by simp))
    have := Expr.judged_emitArgs rest fun d hd => h d (by simp [hd])
    rw [emitArgs]; infer_instance

end

end Emission

section Calls

variable {callees : Prototype → Prop} {J : Judgement Emit} [J.Emission callees]

instance : J.Strokes (Expr.CallsOnly callees) where
  operand := Expr.CallsOnly.operand
  orFault r := Judgement.Emission.orFault r
  typing e _ := Judgement.Emission.typing e
  nameOf e := Judgement.Emission.nameOf e
  rename id name := Judgement.Emission.rename id name
  write line := Judgement.Emission.write line
  writeCall line _ _ h hp he := Judgement.Emission.writeCall line h (he.callee hp)
  registerType ty := Judgement.Emission.registerType ty
  registerResource res := Judgement.Emission.registerResource res
  once e _ _ _ h := Judgement.Emission.once e h
  choose cond target yes no _ _ _ _ _ hx hy := Judgement.Emission.choose cond target yes no hx hy

theorem Expr.judged_emit (e : Expr) (h : e.CallsOnly callees) : Judged J e.emit e.emit :=
  have : J.Emitting (Expr.CallsOnly callees) := emitting_of_noteWrite Judgement.Emission.noteWrite
  e.judged_emit_of h

end Calls

end ComputeKernel
