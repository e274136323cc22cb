import ComputeKernel.Proofs.Dag
import ComputeKernel.Proofs.Ensures

namespace ComputeKernel

inductive Event where
  | completed (id : Nat) (written : Bool)
  | scopeOpened
  | scopeClosed
  | functionOpened
  | functionClosed
  | functionRefused
deriving DecidableEq

namespace Event

def replay : Event → List (List (List Nat)) → List (List (List Nat))
  | .completed id _, (ids :: scopes) :: bodies => ((id :: ids) :: scopes) :: bodies
  | .scopeOpened, scopes :: bodies => ([] :: scopes) :: bodies
  | .scopeClosed, (_ :: scopes) :: bodies => scopes :: bodies
  | .functionOpened, bodies => [[]] :: bodies
  | .functionClosed, _ :: bodies => bodies
  | _, bodies => bodies

def openBodies : List Event → List (List (List Nat))
  | [] => [[[]]]
  | event :: earlier => event.replay (openBodies earlier)

def CompletedInOpenScope (log : List Event) (id : Nat) : Prop :=
  ∃ ids ∈ (openBodies log).headD [], id ∈ ids

def WrittenOnce : List Event → Prop
  | [] => True
  | .completed id written :: earlier =>
    (written = true ↔ ¬CompletedInOpenScope earlier id) ∧ WrittenOnce earlier
  | _ :: earlier => WrittenOnce earlier

end Event

structure Record where
  sheet : Sheet
  log : List Event := []

abbrev Logged := EStateM Fault Record

namespace Logged

variable {α : Type}

def lift (x : Emit α) : Logged α := fun r =>
  match x r.sheet with
  | .ok a sheet => .ok a { r with sheet }
  | .error fault sheet => .error fault { r with sheet }

def log (event : Event) : Logged Unit :=
  modify fun r => { r with log := event :: r.log }

def once (e : Expr) (body : Ty → Logged Unit) : Logged Unit := do
  if (← get).sheet.draft.scopes.isVisible e.id then log (.completed e.id false)
  else
    let ty ← lift (Emit.typing e.inferType)
    body ty
    lift (Emit.redraft (·.mark e.id))
    log (.completed e.id true)

def branch (cond target value : Expr) (body : Logged Unit) : Logged Unit := do
  lift (Emit.redraft (·.enterScope (some cond)))
  log .scopeOpened
  body
  lift do Emit.write (.assign (← Emit.nameOf target) .assign (← Emit.nameOf value))
  lift (Emit.drafting .exitScope)
  log .scopeClosed

end Logged

namespace Expr

open Logged

mutual

def emitLogged (e : Expr) : Logged Unit :=
  match e with
  | .literal id value => once e fun _ => lift do
    let text ← orFault value.text
    Emit.rename id (.constant value text)
  | .unary _ op operand => once e fun ty => do
    operand.emitLogged
    lift do
      let r ← Emit.nameOf operand
      let target ← Emit.nameOf e
      Emit.write (.declare ty target (if op = .assign then .copy r else .unary op r))
  | .binary id op lhs rhs => once e fun ty => do
    lhs.emitLogged
    rhs.emitLogged
    lift do
      let r ← Emit.nameOf rhs
      let l ← Emit.nameOf lhs
      if op.isAssign then
        Emit.write (.assign l op r)
        Emit.rename id l
        Emit.noteWrite lhs
      else Emit.write (.declare ty (← Emit.nameOf e) (.binary op l r))
  | .call _ callee args => once e fun ty => do
    let given ← emitArgsLogged args
    lift do
      let texts := given.map fun (name, ty) => (⟨name.text, ty⟩ : CallArg)
      let text ← orFault (callee.callText texts)
      let names := given.map Prod.fst
      if ty.isVoid then Emit.write (.perform callee names text)
      else Emit.write (.declare ty (← Emit.nameOf e) (.call callee names text))
  | .resource id res => once e fun _ => lift do
    Emit.drafting (.registerResource res)
    Emit.rename id (.word res.name)
  | .input id i => once e fun _ => lift (Emit.rename id (.word i.name))
  | .array _ elem length init => once e fun _ => lift do
    Emit.drafting (.registerType elem)
    let texts ← orFault (init.mapM Literal.text)
    Emit.write (.array elem (← Emit.nameOf e) length texts)
  | .swizzle id base lanes => once e fun _ => do
    base.emitLogged
    lift do Emit.rename id (.member (← Emit.nameOf base) lanes)
  | .field id base name => once e fun _ => do
    base.emitLogged
    lift do Emit.rename id (.member (← Emit.nameOf base) name)
  | .element id base index => once e fun _ => do
    base.emitLogged
    lift do Emit.rename id (.element (← Emit.nameOf base) index)
  | .elementAt id base index => once e fun _ => do
    base.emitLogged
    index.emitLogged
    lift do Emit.rename id (.elementAt (← Emit.nameOf base) (← Emit.nameOf index))
  | .storage _ _ ty => once e fun _ => lift (Emit.drafting (.registerType ty))
  | .zeroed _ ty => once e fun _ => lift do
    Emit.drafting (.registerType ty)
    Emit.write (.declare ty (← Emit.nameOf e) .zero)
  | .select _ cond yes no => once e fun ty => do
    cond.emitLogged
    lift do
      Emit.write (.reserve ty (← Emit.nameOf e))
      Emit.write (.openIf (← Emit.nameOf cond))
    branch cond e yes yes.emitLogged
    lift (Emit.write .openElse)
    branch cond e no no.emitLogged
    lift (Emit.write .close)

def emitArgsLogged : List Expr → Logged (List (Spelling × Ty))
  | [] => pure []
  | e :: rest => do
    e.emitLogged
    let name ← lift (Emit.nameOf e)
    let ty ← lift (Emit.typing e.inferType)
    let given ← emitArgsLogged rest
    return (name, ty) :: given

end

end Expr

namespace Logged

variable {α β : Type}

def forget : EStateM.Result Fault Record α → EStateM.Result Fault Sheet α
  | .ok a r => .ok a r.sheet
  | .error fault r => .error fault r.sheet

def Follows (x : Logged α) (y : Emit α) : Prop := ∀ r, forget (x r) = y r.sheet

theorem follows_lift (x : Emit α) : Follows (lift x) x := by
  intro r
  simp only [lift]
  cases x r.sheet <;> rfl

theorem follows_pure (a : α) : Follows (pure a) (pure a) := fun _ => rfl

theorem Follows.bind {x : Logged α} {y : Emit α} {f : α → Logged β} {g : α → Emit β}
    (h : Follows x y) (hf : ∀ a, Follows (f a) (g a)) : Follows (x >>= f) (y >>= g) := by
  intro r
  have hx := h r
  simp only [Bind.bind, EStateM.bind]
  cases hr : x r with
  | ok a r' =>
    rw [hr] at hx
    rw [← hx]
    exact hf a r'
  | error fault r' =>
    rw [hr] at hx
    rw [← hx]
    rfl

variable {x : Logged Unit} {y : Emit Unit} {e : Expr} {body : Ty → Logged Unit} {r : Record}

theorem Follows.and_log (h : Follows x y) (event : Event) : Follows (do x; log event) y := by
  intro r
  have hx := h r
  simp only [Bind.bind, EStateM.bind]
  cases hr : x r with
  | ok a r' =>
    rw [hr] at hx
    exact hx
  | error fault r' =>
    rw [hr] at hx
    exact hx

theorem Follows.after_log (h : Follows x y) (event : Event) :
    Follows (do log event; x) y := fun r => h { r with log := event :: r.log }

theorem once_of_visible (h : r.sheet.draft.scopes.isVisible e.id = true) :
    once e body r = log (.completed e.id false) r := by
  simp only [once, bind_get, h]
  rfl

theorem once_of_hidden
    (h : ¬r.sheet.draft.scopes.isVisible e.id = true) :
    once e body r = (do
      let ty ← lift (Emit.typing e.inferType)
      body ty
      lift (Emit.redraft (·.mark e.id))
      log (.completed e.id true) : Logged Unit) r := by
  simp only [once, bind_get, h]
  rfl

theorem follows_once {plain : Ty → Emit Unit}
    (h : ∀ ty, Follows (body ty) (plain ty)) : Follows (once e body) (Emit.once e plain) := by
  intro r
  by_cases hv : r.sheet.draft.scopes.isVisible e.id
  · rw [once_of_visible hv, ComputeKernel.once_of_visible hv]
    rfl
  · rw [once_of_hidden hv, ComputeKernel.once_of_hidden hv]
    exact (follows_lift _).bind (fun ty => (h ty).bind fun _ => (follows_lift _).and_log _) r

theorem follows_branch {cond target value : Expr} {body : Logged Unit} {plain : Emit Unit}
    (h : Follows body plain) :
    Follows (branch cond target value body) (Emit.branch cond target value plain) :=
  (follows_lift _).bind fun _ => Follows.after_log
    (h.bind fun _ => (follows_lift _).bind fun _ => (follows_lift _).and_log _) _

end Logged

namespace Expr

open Logged

mutual

theorem emitLogged_follows (e : Expr) : Follows e.emitLogged e.emit := by
  cases e with
  | literal id value =>
    rw [emitLogged, emit]
    exact follows_once fun _ => follows_lift _
  | unary id op operand =>
    rw [emitLogged, emit]
    exact follows_once fun _ => (emitLogged_follows operand).bind fun _ => follows_lift _
  | binary id op lhs rhs =>
    rw [emitLogged, emit]
    exact follows_once fun _ => (emitLogged_follows lhs).bind fun _ =>
      (emitLogged_follows rhs).bind fun _ => follows_lift _
  | call id callee args =>
    rw [emitLogged, emit]
    exact follows_once fun _ => (emitArgsLogged_follows args).bind fun _ => follows_lift _
  | resource id res =>
    rw [emitLogged, emit]
    exact follows_once fun _ => follows_lift _
  | input id i =>
    rw [emitLogged, emit]
    exact follows_once fun _ => follows_lift _
  | array id elem length init =>
    rw [emitLogged, emit]
    exact follows_once fun _ => follows_lift _
  | swizzle id base lanes =>
    rw [emitLogged, emit]
    exact follows_once fun _ => (emitLogged_follows base).bind fun _ => follows_lift _
  | field id base name =>
    rw [emitLogged, emit]
    exact follows_once fun _ => (emitLogged_follows base).bind fun _ => follows_lift _
  | element id base index =>
    rw [emitLogged, emit]
    exact follows_once fun _ => (emitLogged_follows base).bind fun _ => follows_lift _
  | elementAt id base index =>
    rw [emitLogged, emit]
    exact follows_once fun _ => (emitLogged_follows base).bind fun _ =>
      (emitLogged_follows index).bind fun _ => follows_lift _
  | storage id name ty =>
    rw [emitLogged, emit]
    exact follows_once fun _ => follows_lift _
  | zeroed id ty =>
    rw [emitLogged, emit]
    exact follows_once fun _ => follows_lift _
  | select id cond yes no =>
    rw [emitLogged, emit]
    exact follows_once fun _ => (emitLogged_follows cond).bind fun _ =>
      (follows_lift _).bind fun _ => (follows_branch (emitLogged_follows yes)).bind fun _ =>
      (follows_lift _).bind fun _ => (follows_branch (emitLogged_follows no)).bind fun _ =>
      follows_lift _

theorem emitArgsLogged_follows (es : List Expr) : Follows (emitArgsLogged es) (emitArgs es) := by
  cases es with
  | nil =>
    rw [emitArgsLogged, emitArgs]
    exact follows_pure _
  | cons e rest =>
    rw [emitArgsLogged, emitArgs]
    exact (emitLogged_follows e).bind fun _ => (follows_lift _).bind fun _ =>
      (follows_lift _).bind fun _ => (emitArgsLogged_follows rest).bind fun _ => follows_pure _

end

end Expr

end ComputeKernel
