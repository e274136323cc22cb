import ComputeKernel.Proofs.Discipline
import ComputeKernel.Proofs.SessionHistory

namespace ComputeKernel

inductive Ty.Contains (ty : Ty) : Ty → Prop
  | self : Contains ty ty
  | field {name : String} {fields : List (String × Ty)} {builtin : Bool} {field : String × Ty} :
    Contains ty (.struct name fields builtin) → field ∈ fields → Contains ty field.2
  | element {elem : Ty} {extent : Extent} : Contains ty (.array elem extent) → Contains ty elem
  | resource {kind : ResourceKind} {elem : Ty} {dim : Dim} {access : Access} :
    Contains ty (.resource kind (some elem) dim access) → Contains ty elem

theorem Ty.Contains.trans {a b c : Ty} (h : a.Contains b) (h' : b.Contains c) : a.Contains c := by
  induction h' with
  | self => exact h
  | field _ hf ih => exact .field ih hf
  | element _ ih => exact .element ih
  | resource _ ih => exact .resource ih

structure Lexicon where
  struct : String → Ty → Prop
  resource : String → Ty × Option Binding → Prop
  struct_unique : ∀ {name a b}, struct name a → struct name b → a = b
  resource_unique : ∀ {name a b}, resource name a → resource name b → a = b

namespace Lexicon

variable {lx : Lexicon} {ty : Ty}

def Knows (lx : Lexicon) (ty : Ty) : Prop :=
  ∀ name fields builtin, ty.Contains (.struct name fields builtin) →
    lx.struct name (.struct name fields builtin)

theorem Knows.part {part : Ty} (h : lx.Knows ty) (hp : ty.Contains part) : lx.Knows part :=
  fun name fields builtin hc => h name fields builtin (hp.trans hc)

structure Covers (lx : Lexicon) (d : Draft) : Prop where
  structs : ∀ name ty, d.types.find? name = some ty → lx.struct name ty
  resources : ∀ name res, d.resources.find? name = some res → lx.resource name (res.ty, res.binding)

def drafting (lx : Lexicon) : Discipline Fault Draft where
  good := lx.Covers
  runs d d' := d'.scopes.stack = d.scopes.stack
  fails _ _ := True
  stops _ := False
  refl _ := rfl
  trans h h' := h'.trans h
  abandon _ := trivial
  trans_fails _ _ := trivial

def emission (lx : Lexicon) (dag : Dag) : Discipline Fault Sheet where
  good s := dag.Faithful s.nodes.types ∧ lx.Covers s.draft
  runs s s' := s'.draft.scopes.stack = s.draft.scopes.stack
  fails _ _ := True
  stops _ := False
  refl _ := rfl
  trans h h' := h'.trans h
  abandon _ := trivial
  trans_fails _ _ := trivial

theorem exists_ok_of_obeys {dag : Dag} {α : Type} {p : α → Prop} {x : Emit α} {s : Sheet}
    (h : (lx.emission dag).Obeys x p) (hs : (lx.emission dag).good s) :
    ∃ a s', x s = .ok a s' := by
  have hx := h s hs
  unfold Ends at hx
  split at hx
  · exact ⟨_, _, by assumption⟩
  · exact hx.1.elim

section Registration

open Drafting

mutual

theorem obeys_registerType (ty : Ty) (h : lx.Knows ty) : lx.drafting.Upholds (registerType ty) := by
  match ty with
  | .struct name fields builtin =>
    rw [registerType]
    have hname : lx.struct name (.struct name fields builtin) := h name fields builtin .self
    refine .bind .get fun d hd => ?_
    cases hf : d.types.find? name with
    | some existing =>
      have hsame : existing = .struct name fields builtin :=
        lx.struct_unique (Covers.structs hd name existing hf) hname
      exact .ite (fun hne => absurd hsame hne) fun _ => .pure trivial
    | none =>
      refine .bind (obeys_registerFields fields fun field hfield => h.part (.field .self hfield))
        fun _ _ => .modify fun d hd => ⟨⟨fun key ty hk => ?_, hd.resources⟩, rfl⟩
      by_cases same : key = name
      · subst same
        obtain rfl : Ty.struct key fields builtin = ty := by simpa using hk
        exact hname
      · exact Covers.structs hd key ty (by simpa [same] using hk)
  | .array elem _ =>
    rw [registerType]
    exact obeys_registerType elem (h.part (.element .self))
  | .resource _ (some elem) _ _ =>
    rw [registerType]
    exact obeys_registerType elem (h.part (.resource .self))
  | .resource _ none _ _ | .void | .numeric _ | .wildcard _ | .value .. =>
    rw [registerType]
    exact .pure trivial

theorem obeys_registerFields (fields : List (String × Ty)) (h : ∀ field ∈ fields, lx.Knows field.2) :
    lx.drafting.Upholds (registerFields fields) := by
  match fields with
  | [] =>
    rw [registerFields]
    exact .pure trivial
  | (name, ty) :: rest =>
    rw [registerFields]
    exact .bind (obeys_registerType ty (h (name, ty) (by simp))) fun _ _ =>
      obeys_registerFields rest fun field hfield => h field (by simp [hfield])

end

theorem obeys_registerResource {res : Resource} (hty : lx.Knows res.ty)
    (h : lx.resource res.name (res.ty, res.binding)) :
    lx.drafting.Upholds (registerResource res) := by
  refine .bind .get fun d hd => ?_
  cases hf : d.resources.find? res.name with
  | some existing =>
    have hsame := lx.resource_unique (Covers.resources hd res.name existing hf) h
    obtain ⟨hsamety, hsamebinding⟩ := Prod.mk.inj hsame
    refine .ite (fun hne => ?_) fun _ => .pure trivial
    exact (hne.elim (fun hne => hne hsamety) fun hne => hne hsamebinding).elim
  | none =>
    refine .bind (obeys_registerType res.ty hty) fun _ _ => .modify fun d hd =>
      ⟨⟨hd.structs, fun key found hk => ?_⟩, rfl⟩
    by_cases same : key = res.name
    · subst same
      obtain rfl : res = found := by simpa using hk
      exact h
    · exact Covers.resources hd key found (by simpa [same] using hk)

end Registration

section Emission

open Emit

variable {dag : Dag} {α : Type} {p : α → Prop}

theorem obeys_drafting {x : Drafting α} (h : lx.drafting.Obeys x p) :
    (lx.emission dag).Obeys (Emit.drafting x) p := by
  intro s hs
  have hx := h s.draft hs.2
  simp only [Ends, Emit.drafting] at hx ⊢
  cases hr : x s.draft with
  | ok a draft =>
    rw [hr] at hx
    exact ⟨⟨hs.1, hx.1⟩, hx.2.1, hx.2.2⟩
  | error fault draft =>
    rw [hr] at hx
    exact hx.1.elim

variable {e : Expr}

theorem obeys_typing (he : dag.contains e) (hty : e.plainType = .ok ty) :
    (lx.emission dag).Obeys (typing e.inferType) fun found => found = ty := by
  intro s hs
  have h := e.inferType_answers he s.nodes.types hs.1
  simp only [Ends, typing, making, Making.typing]
  cases hr : e.inferType s.nodes.types with
  | ok found types =>
    rw [hr, hty] at h
    obtain ⟨hfound, hfaithful⟩ := h
    exact ⟨⟨hfaithful, hs.2⟩, rfl, (Except.ok.inj hfound).symm⟩
  | error fault types =>
    rw [hr, hty] at h
    cases h.1

theorem obeys_diverging (x : Diverging α) :
    (lx.emission dag).Upholds (diverging x) := fun _ hs => ⟨hs, rfl, trivial⟩

theorem obeys_inDivergentRegion : (lx.emission dag).Upholds inDivergentRegion :=
  .bind .get fun _ _ => .bind (obeys_diverging _) fun _ _ => .pure trivial

theorem obeys_noteWrite (target : Expr) : (lx.emission dag).Upholds (noteWrite target) :=
  .bind obeys_inDivergentRegion fun _ _ => .ite
    (fun _ => .bind (obeys_diverging _) fun _ _ => obeys_diverging _) fun _ => .pure trivial

theorem obeys_nameOf (e : Expr) : (lx.emission dag).Upholds (nameOf e) :=
  fun _ hs => ⟨hs, rfl, trivial⟩

theorem obeys_rename (id : Nat) (name : Spelling) :
    (lx.emission dag).Upholds (rename id name) := fun _ hs => ⟨hs, rfl, trivial⟩

theorem obeys_write (line : Line) : (lx.emission dag).Upholds (write line) := by
  intro s hs
  refine ⟨⟨hs.1, ?_, ?_⟩, congrArg Scopes.stack (s.draft.scopes_write line), trivial⟩
  · exact (Draft.types_write s.draft line).symm ▸ hs.2.structs
  · exact (Draft.resources_write s.draft line).symm ▸ hs.2.resources

theorem obeys_orFault {r : Except Fault α} (h : ∃ a, r = .ok a) :
    (lx.emission dag).Obeys (orFault r) fun a => r = .ok a := by
  obtain ⟨a, rfl⟩ := h
  exact .pure rfl

theorem obeys_once {body : Ty → Emit Unit} (he : dag.contains e) (hty : e.plainType = .ok ty)
    (hbody : (lx.emission dag).Upholds (body ty)) : (lx.emission dag).Upholds (once e body) := by
  refine .bind .get fun s _ => .ite (fun _ => .pure trivial) fun _ =>
    .bind (obeys_typing he hty) fun found hfound => ?_
  subst hfound
  refine .bind hbody fun _ _ s hs => ⟨⟨hs.1, hs.2.structs, hs.2.resources⟩, ?_, trivial⟩
  exact Memo.stack_mark _

theorem obeys_branch {cond target value : Expr} {body : Emit Unit}
    (hbody : (lx.emission dag).Upholds body) :
    (lx.emission dag).Upholds (branch cond target value body) := by
  have hinner : (lx.emission dag).Upholds (do
      body
      write (.assign (← nameOf target) .assign (← nameOf value))) :=
    .bind hbody fun _ _ => .bind (obeys_nameOf _) fun _ _ => .bind (obeys_nameOf _) fun _ _ =>
      obeys_write _
  have heq : branch cond target value body = (do
      redraft (·.enterScope (some cond))
      (do
        body
        write (.assign (← nameOf target) .assign (← nameOf value)))
      Emit.drafting .exitScope) := by
    simp only [branch, bind_assoc]
  intro s hs
  have hstart : (lx.emission dag).good { s with draft := s.draft.enterScope (some cond) } :=
    ⟨hs.1, hs.2.structs, hs.2.resources⟩
  rw [heq]
  refine .bind (.bind ((hinner _ hstart).mono (fun _ s1 h1 => ?_) fun _ _ h => h.1.elim))
  obtain ⟨hgood, hruns, -⟩ := h1
  -- The scope that was opened is the innermost one again.
  have hleave : s1.draft.scopes.leave? = some s.draft.scopes := Memo.leave_of_push hruns
  simp only [Ends, Emit.drafting, exitScope_of_leave hleave]
  exact ⟨⟨hgood.1, hgood.2.structs, hgood.2.resources⟩, rfl, trivial⟩

end Emission

end Lexicon

def Expr.Fits (lx : Lexicon) : Expr → Prop
  | .literal _ value => ∃ text, value.text = .ok text
  | .call _ callee _ => callee.Prints
  | .resource _ res => lx.Knows res.ty ∧ lx.resource res.name (res.ty, res.binding)
  | .array _ elem _ init => lx.Knows elem ∧ ∃ texts, init.mapM Literal.text = .ok texts
  | .storage _ _ ty | .zeroed _ ty => lx.Knows ty
  | _ => True

namespace Expr

open Emit Lexicon

variable {lx : Lexicon} {dag : Dag}

mutual

theorem emit_flawless (e : Expr) (he : dag.contains e) (hty : ∃ ty, e.plainType = .ok ty)
    (hfits : ∀ d, e.Uses d → d.Fits lx) : (lx.emission dag).Upholds e.emit := by
  obtain ⟨ty, hty⟩ := hty
  have hself : e.Fits lx := hfits e .self
  have contains {d : Expr} (hd : d ∈ e.operands) : dag.contains d := dag.operands he hd
  have typed {d : Expr} (hd : d ∈ e.operands) : ∃ ty, d.plainType = .ok ty :=
    plainType_operand hty hd
  have below {d : Expr} (hd : d ∈ e.operands) : ∀ c, d.Uses c → c.Fits lx :=
    fun c hc => hfits c (.of_operand hd hc)
  unfold emit
  cases e with
  | literal id value =>
    exact obeys_once he hty (.bind (obeys_orFault hself) fun _ _ => obeys_rename _ _)
  | unary id op operand =>
    have hop : operand ∈ operands (.unary id op operand) := by simp
    exact obeys_once he hty (.bind (emit_flawless operand (contains hop) (typed hop) (below hop))
      fun _ _ => .bind (obeys_nameOf _) fun _ _ => .bind (obeys_nameOf _) fun _ _ => obeys_write _)
  | binary id op lhs rhs =>
    have hl : lhs ∈ operands (.binary id op lhs rhs) := by simp
    have hr : rhs ∈ operands (.binary id op lhs rhs) := by simp
    refine obeys_once he hty (.bind (emit_flawless lhs (contains hl) (typed hl) (below hl))
      fun _ _ => .bind (emit_flawless rhs (contains hr) (typed hr) (below hr)) fun _ _ =>
        .bind (obeys_nameOf _) fun _ _ => .bind (obeys_nameOf _) fun _ _ => .ite (fun _ => ?_)
          fun _ => .bind (obeys_nameOf _) fun _ _ => obeys_write _)
    exact .bind (obeys_write _) fun _ _ => .bind (obeys_rename _ _) fun _ _ => obeys_noteWrite _
  | call id callee args =>
    rw [operands_call] at contains typed below
    refine obeys_once he hty (.bind (emitArgs_flawless args (fun _ => contains) (fun _ => typed)
      fun _ => below) fun given hgiven => ?_)
    obtain ⟨tys, htys, hret⟩ := exists_of_bind hty
    obtain rfl : tys = given.map Prod.snd := Except.ok.inj (htys.symm.trans hgiven)
    have haccepted : callee.returnType
        ((given.map fun (name, ty) => (⟨name.text, ty⟩ : CallArg)).map CallArg.ty) = .ok ty := by
      rw [List.map_map]
      exact hret
    exact .bind (obeys_orFault (Prototype.Prints.callText hself haccepted)) fun _ _ =>
      .ite (fun _ => obeys_write _) fun _ =>
      .bind (obeys_nameOf _) fun _ _ => obeys_write _
  | resource id res =>
    exact obeys_once he hty (.bind (obeys_drafting (obeys_registerResource hself.1 hself.2))
      fun _ _ => obeys_rename _ _)
  | input id i =>
    exact obeys_once he hty (obeys_rename _ _)
  | array id elem length init =>
    exact obeys_once he hty (.bind (obeys_drafting (obeys_registerType elem hself.1)) fun _ _ =>
      .bind (obeys_orFault hself.2) fun _ _ => .bind (obeys_nameOf _) fun _ _ => obeys_write _)
  | swizzle id base name | field id base name | element id base name =>
    have hb : base ∈ [base] := List.mem_singleton.mpr rfl
    exact obeys_once he hty (.bind (emit_flawless base (contains hb) (typed hb) (below hb))
      fun _ _ => .bind (obeys_nameOf _) fun _ _ => obeys_rename _ _)
  | elementAt id base index =>
    have hb : base ∈ operands (.elementAt id base index) := by simp
    have hi : index ∈ operands (.elementAt id base index) := by simp
    exact obeys_once he hty (.bind (emit_flawless base (contains hb) (typed hb) (below hb))
      fun _ _ => .bind (emit_flawless index (contains hi) (typed hi) (below hi)) fun _ _ =>
        .bind (obeys_nameOf _) fun _ _ => .bind (obeys_nameOf _) fun _ _ => obeys_rename _ _)
  | storage id name ty =>
    exact obeys_once he hty (obeys_drafting (obeys_registerType ty hself))
  | zeroed id ty =>
    exact obeys_once he hty (.bind (obeys_drafting (obeys_registerType ty hself)) fun _ _ =>
      .bind (obeys_nameOf _) fun _ _ => obeys_write _)
  | select id cond yes no =>
    have hc : cond ∈ operands (.select id cond yes no) := by simp
    have hy : yes ∈ operands (.select id cond yes no) := by simp
    have hn : no ∈ operands (.select id cond yes no) := by simp
    exact obeys_once he hty (.bind (emit_flawless cond (contains hc) (typed hc) (below hc))
      fun _ _ => .bind (obeys_nameOf _) fun _ _ => .bind (obeys_write _) fun _ _ =>
        .bind (obeys_nameOf _) fun _ _ => .bind (obeys_write _) fun _ _ =>
          .bind (obeys_branch (emit_flawless yes (contains hy) (typed hy) (below hy))) fun _ _ =>
            .bind (obeys_write _) fun _ _ =>
              .bind (obeys_branch (emit_flawless no (contains hn) (typed hn) (below hn)))
                fun _ _ => obeys_write _)

theorem emitArgs_flawless (es : List Expr) (he : ∀ e ∈ es, dag.contains e)
    (hty : ∀ e ∈ es, ∃ ty, e.plainType = .ok ty) (hfits : ∀ e ∈ es, ∀ d, e.Uses d → d.Fits lx) :
    (lx.emission dag).Obeys (emitArgs es) fun given =>
      plainTypes es = .ok (given.map Prod.snd) := by
  cases es with
  | nil =>
    rw [emitArgs]
    exact .pure rfl
  | cons e rest =>
    obtain ⟨ty, hplain⟩ := hty e (by simp)
    rw [emitArgs]
    refine .bind (emit_flawless e (he e (by simp)) ⟨ty, hplain⟩ (hfits e (by simp))) fun _ _ =>
      .bind (obeys_nameOf _) fun name _ => .bind (obeys_typing (he e (by simp)) hplain)
        fun found hfound => .bind (emitArgs_flawless rest (fun d hd => he d (by simp [hd]))
          (fun d hd => hty d (by simp [hd])) fun d hd => hfits d (by simp [hd]))
            fun given hgiven => .pure ?_
    rw [plainTypes, hplain, hfound, hgiven]
    rfl

end

end Expr

def Literal.Finite : Literal → Prop
  | .f16 components | .f32 components => ∀ x ∈ components, x.isFinite = true
  | _ => True

theorem mapM_eq_ok {α β : Type} {f : α → Except Fault β} {xs : List α}
    (h : ∀ x ∈ xs, ∃ y, f x = .ok y) : ∃ ys, xs.mapM f = .ok ys := by
  induction xs with
  | nil => exact ⟨[], rfl⟩
  | cons x xs ih =>
    obtain ⟨y, hy⟩ := h x (by simp)
    obtain ⟨ys, hys⟩ := ih fun x hx => h x (by simp [hx])
    rw [List.mapM_cons]
    exact exists_bind hy (exists_bind hys ⟨_, rfl⟩)

variable {l : Literal}

theorem Literal.Finite.componentTexts (h : l.Finite) : ∃ texts, l.componentTexts = .ok texts := by
  have hfloats {components : List Binary32} (h : ∀ x ∈ components, x.isFinite = true) :
      ∃ texts, components.mapM floatText = .ok texts :=
    mapM_eq_ok fun x hx => ⟨_, if_pos (h x hx)⟩
  cases l with
  | f16 components | f32 components => exact hfloats h
  | i32 components | u32 components | bool components => exact ⟨_, rfl⟩

theorem Literal.Finite.text {ty : Ty} (h : l.Finite) (hty : l.ty = .ok ty) :
    ∃ text, l.text = .ok text := by
  obtain ⟨parts, hparts⟩ := h.componentTexts
  exact exists_bind hparts (exists_bind hty ⟨_, rfl⟩)

theorem ty_of_checkElements {elem : Ty} {init : List Literal}
    (h : Making.checkElements elem init = .ok ()) : ∀ l ∈ init, l.ty = .ok elem := by
  induction init with
  | nil => simp
  | cons l rest ih =>
    obtain ⟨ty, hty, hrest⟩ := exists_of_bind h
    split at hrest
    · rename_i hsame
      intro l' hl'
      rcases List.mem_cons.mp hl' with rfl | hl'
      · rw [hty, hsame]
      · exact ih hrest l' hl'
    · cases hrest

namespace Session

structure Typed (dag : Dag) (s : Session) : Prop where
  formed : ∀ e, dag.contains e → e.Formed
  types : dag.Faithful s.sheet.nodes.types

theorem Move.typed {dag dag' : Dag} {s s' : Session} (h : Move (dag, s) (dag', s'))
    (hs : s.Typed dag) : s'.Typed dag' := by
  cases h with
  | sheet h =>
    refine ⟨hs.formed, ?_⟩
    cases h with
    | @typed e he =>
      have hanswers := e.inferType_answers he _ hs.types
      cases hrun : e.inferType s.sheet.nodes.types <;> rw [hrun] at hanswers <;> exact hanswers.2
    | _ => exact hs.types
  | make hops hnew hid hformed =>
    refine ⟨?_, hs.types.mono fun _ => .inl⟩
    rintro e (he | rfl)
    · exact hs.formed e he
    · exact hformed
  | bind he name => exact ⟨hs.formed, hs.types⟩

theorem run_typed (settings : Settings) (first : Nat) (steps : List Step) :
    ∃ dag, (steps.foldl after (start settings first)).Placed dag ∧
      (steps.foldl after (start settings first)).Typed dag := by
  have hplaced := placed_start settings first
  obtain ⟨dag, hcomes⟩ := run_comes hplaced steps
  refine ⟨dag, hcomes.placed hplaced, ?_⟩
  refine hcomes.keeps (P := fun dag s => s.Typed dag) (fun _ _ _ _ => Move.typed) ⟨?_, ?_⟩
  · intro e he
    cases he
  · intro id ty hfind
    cases hfind

end Session

def Expr.registers : Expr → List Ty
  | .resource _ res => [res.ty]
  | .array _ elem _ _ => [elem]
  | .storage _ _ ty | .zeroed _ ty => [ty]
  | _ => []

namespace Draft

inductive Defines (d : Draft) (n : Expr) : String → Ty → Prop
  | table {name : String} {ty : Ty} : d.types.find? name = some ty → Defines d n name ty
  | node {e : Expr} {ty : Ty} {name : String} {fields : List (String × Ty)} {builtin : Bool} :
    n.Uses e → ty ∈ e.registers → ty.Contains (.struct name fields builtin) →
      Defines d n name (.struct name fields builtin)

inductive Binds (d : Draft) (n : Expr) : String → Ty × Option Binding → Prop
  | table {name : String} {res : Resource} :
    d.resources.find? name = some res → Binds d n name (res.ty, res.binding)
  | node {id : Nat} {res : Resource} :
    n.Uses (.resource id res) → Binds d n res.name (res.ty, res.binding)

structure Unambiguous (d : Draft) (n : Expr) : Prop where
  structs : ∀ {name a b}, d.Defines n name a → d.Defines n name b → a = b
  resources : ∀ {name a b}, d.Binds n name a → d.Binds n name b → a = b

def Unambiguous.lexicon {d : Draft} {n : Expr} (h : d.Unambiguous n) : Lexicon where
  struct := d.Defines n
  resource := d.Binds n
  struct_unique := h.structs
  resource_unique := h.resources

variable {d : Draft} {n : Expr}

theorem Unambiguous.covers (h : d.Unambiguous n) : h.lexicon.Covers d  where
  structs _ _ hf := .table hf
  resources _ _ hf := .table hf

theorem Unambiguous.knows {e : Expr} {ty : Ty} (h : d.Unambiguous n)
    (he : n.Uses e) (hty : ty ∈ e.registers) : h.lexicon.Knows ty :=
  fun _ _ _ hc => .node he hty hc

end Draft

namespace Session

def Accepts (s : Session) (e : Expr) : Prop :=
  ∃ ty types, e.inferType s.sheet.nodes.types = .ok ty types

variable {e : Expr}

theorem accepts_iff {dag : Dag} {s : Session} (hs : s.Typed dag) (he : dag.contains e) :
    s.Accepts e ↔ ∃ ty, e.plainType = .ok ty := by
  have h := e.inferType_answers he _ hs.types
  unfold Accepts
  cases hrun : e.inferType s.sheet.nodes.types with
  | ok ty types =>
    rw [hrun] at h
    exact ⟨fun _ => ⟨ty, h.1⟩, fun _ => ⟨ty, types, rfl⟩⟩
  | error fault types =>
    rw [hrun] at h
    constructor
    · rintro ⟨ty, types', hok⟩
      cases hok
    · rintro ⟨ty, hty⟩
      rw [h.1] at hty
      cases hty

theorem fits_of_formed {d : Draft} {n : Expr} (hnames : d.Unambiguous n) (he : n.Uses e)
    (hformed : e.Formed)
    (hcalls : ∀ id p args, n.Uses (.call id p args) →
      (∃ ret, p.rule = .fixed ret) ∨ ∃ b, p.rule = .builtin b)
    (hfinite : ∀ id elem length init, n.Uses (.array id elem length init) → ∀ l ∈ init, l.Finite) :
    e.Fits hnames.lexicon := by
  cases e with
  | literal id value => exact hformed
  | call id callee args => exact Prototype.prints_of_rule (hcalls id callee args he)
  | resource id res => exact ⟨hnames.knows he (by simp [Expr.registers]), .node he⟩
  | array id elem length init =>
    refine ⟨hnames.knows he (by simp [Expr.registers]), mapM_eq_ok fun l hl => ?_⟩
    exact (hfinite id elem length init he l hl).text (ty_of_checkElements hformed l hl)
  | storage id name ty | zeroed id ty => exact hnames.knows he (by simp [Expr.registers])
  | _ => trivial

theorem typed_nodes_emit (settings : Settings) (first : Nat) (steps : List Step) (s : Session)
    (hs : steps.foldl after (start settings first) = s) :
    (∀ n ∈ s.bound.map Prod.snd, s.Accepts n → ∀ e, n.Uses e → s.Accepts e) ∧
    (∀ (b : Builtin) (callee : String) (args : List CallArg) (ty : Ty),
      b.returnType (args.map CallArg.ty) = .ok ty → ∃ text, b.callText callee args = .ok text) ∧
    ∀ n ∈ s.bound.map Prod.snd, s.Accepts n →
      (∀ id p args, n.Uses (.call id p args) →
        (∃ ret, p.rule = .fixed ret) ∨ ∃ b, p.rule = .builtin b) →
      (∀ id elem length init, n.Uses (.array id elem length init) → ∀ l ∈ init, l.Finite) →
      ∀ d : Draft, d.Unambiguous n → ∃ sheet, n.emit ⟨s.sheet.nodes, d⟩ = .ok () sheet := by
  subst hs
  obtain ⟨dag, hplaced, htyped⟩ := run_typed settings first steps
  have hbound : ∀ n ∈ (steps.foldl after (start settings first)).bound.map Prod.snd,
      dag.contains n := by
    intro n hn
    obtain ⟨binding, hb, rfl⟩ := List.mem_map.mp hn
    exact hplaced.bound binding hb
  refine ⟨fun n hn haccepts e he => ?_, fun _ callee _ _ h => Builtin.callText_of_returnType callee h,
    fun n hn haccepts hcalls hfinite d hnames => ?_⟩
  · obtain ⟨ty, hty⟩ := (accepts_iff htyped (hbound n hn)).mp haccepts
    exact (accepts_iff htyped (dag.uses (hbound n hn) he)).mpr (Expr.plainType_uses hty he)
  · have hplain := (accepts_iff htyped (hbound n hn)).mp haccepts
    have hfits : ∀ e, n.Uses e → e.Fits hnames.lexicon := fun e he =>
      fits_of_formed hnames he (htyped.formed e (dag.uses (hbound n hn) he)) hcalls hfinite
    have hgood : (hnames.lexicon.emission dag).good
        ⟨(steps.foldl after (start settings first)).sheet.nodes, d⟩ := ⟨htyped.types, hnames.covers⟩
    obtain ⟨_, sheet, hemit⟩ :=
      Lexicon.exists_ok_of_obeys (n.emit_flawless (hbound n hn) hplain hfits) hgood
    exact ⟨sheet, hemit⟩

def particle : Ty := .struct "Particle" [("mass", .f32)] false

def particles : Resource := .buffer "particles" particle

def weighing : List Step :=
  [⟨.resource (.ok particles), "buffer"⟩, ⟨.literal (.u32 [0]), "index"⟩,
    ⟨.call (.ok (.ofBuiltin .read)) ["buffer", "index"], "first"⟩, ⟨.field "first" "mass", "mass"⟩,
    ⟨.array (.ok .f32) 2 [.f32 [.zero], .f32 [.zero]], "limits"⟩, ⟨.element "limits" 1, "limit"⟩,
    ⟨.call (.ok (.ofBuiltin .max)) ["mass", "limit"], "greater"⟩]

def mass : Expr :=
  .field 4 (.call 3 (.ofBuiltin .read) [.resource 1 particles, .literal 2 (.u32 [0])]) "mass"

def limits : Expr := .array 5 .f32 2 [.f32 [.zero], .f32 [.zero]]

def greater : Expr := .call 7 (.ofBuiltin .max) [mass, .element 6 limits 1]

theorem uses_greater (h : greater.Uses e) :
    e ∈ [greater, .element 6 limits 1, limits, mass,
      .call 3 (.ofBuiltin .read) [.resource 1 particles, .literal 2 (.u32 [0])],
      .literal 2 (.u32 [0]), .resource 1 particles] := by
  refine h.mem ?_ (by simp)
  simp [greater, mass, limits]

theorem contained_in_particles {ty part : Ty} (hty : ty ∈ [particles.ty, particle, .f32])
    (h : ty.Contains part) : part ∈ [particles.ty, particle, .f32] := by
  have hbuffer : particles.ty = .resource .buffer (some particle) .d1 .read := rfl
  have hf32 : Ty.f32 = .value .f32 1 1 := rfl
  induction h with
  | self => exact hty
  | field _ hf ih =>
    simp only [hbuffer, hf32, particle, List.mem_cons, List.not_mem_nil, or_false, false_or,
      reduceCtorEq, Ty.struct.injEq] at ih
    obtain ⟨-, rfl, -⟩ := ih
    simp only [List.mem_singleton] at hf
    simp [hf, hf32]
  | element _ ih => simp [hbuffer, hf32, particle] at ih
  | resource _ ih =>
    simp only [hbuffer, hf32, particle, List.mem_cons, List.not_mem_nil, or_false,
      reduceCtorEq, Ty.resource.injEq, Option.some.injEq] at ih
    simp [particle, ih.2.1]

theorem greater_unambiguous (settings : Settings) : (Draft.start settings).Unambiguous greater := by
  have hstruct {name : String} {ty : Ty} (h : (Draft.start settings).Defines greater name ty) :
      ty = particle := by
    cases h with
    | table h => cases h
    | @node e ty name fields builtin he hty hc =>
      have hlisted : ty ∈ [particles.ty, particle, .f32] := by
        have hmem := uses_greater he
        simp only [List.mem_cons, List.not_mem_nil, or_false] at hmem
        rcases hmem with rfl | rfl | rfl | rfl | rfl | rfl | rfl <;>
          simp_all [Expr.registers, greater, limits, mass]
      have hpart := contained_in_particles hlisted hc
      simpa [particles, Resource.buffer, Ty.buffer, Ty.f32] using hpart
  have hresource {name : String} {bound : Ty × Option Binding}
      (h : (Draft.start settings).Binds greater name bound) : bound = (particles.ty, none) := by
    cases h with
    | table h => cases h
    | @node id res he =>
      obtain ⟨-, rfl⟩ : id = 1 ∧ res = particles := by
        simpa [greater, mass, limits] using uses_greater he
      rfl
  exact ⟨fun ha hb => (hstruct ha).trans (hstruct hb).symm,
    fun ha hb => (hresource ha).trans (hresource hb).symm⟩

theorem greater_emits :
    ∃ s : Session, greater ∈ s.bound.map Prod.snd ∧ s.Accepts greater ∧
      s.draft.Unambiguous greater ∧ (∀ e, greater.Uses e → s.Accepts e) ∧
      ∃ sheet, greater.emit ⟨s.sheet.nodes, s.draft⟩ = .ok () sheet := by
  obtain ⟨haccepts, -, hemits⟩ := typed_nodes_emit .default 1 weighing _ rfl
  have hbound : greater ∈ (weighing.foldl after (start .default 1)).bound.map Prod.snd :=
    List.mem_cons_self
  have haccepted : (weighing.foldl after (start .default 1)).Accepts greater := ⟨_, _, rfl⟩
  have hnames := greater_unambiguous .default
  refine ⟨_, hbound, haccepted, hnames, haccepts greater hbound haccepted,
    hemits greater hbound haccepted ?_ ?_ _ hnames⟩
  · intro id p args hu
    have hmem := uses_greater hu
    simp only [greater, mass, limits, List.mem_cons, List.not_mem_nil, or_false, reduceCtorEq,
      Expr.call.injEq, false_or] at hmem
    rcases hmem with ⟨-, rfl, -⟩ | ⟨-, rfl, -⟩
    · exact .inr ⟨.max, rfl⟩
    · exact .inr ⟨.read, rfl⟩
  · intro id elem length init hu l hl
    have hmem := uses_greater hu
    simp only [greater, mass, limits, List.mem_cons, List.not_mem_nil, or_false, reduceCtorEq,
      Expr.array.injEq, false_or] at hmem
    obtain ⟨-, -, -, rfl⟩ := hmem
    obtain rfl : l = .f32 [.zero] := by simpa using hl
    simp only [Literal.Finite, List.mem_singleton, forall_eq]
    decide

end Session

end ComputeKernel
