import ComputeKernel.Proofs.Memoisation
import ComputeKernel.Proofs.PlainTyping
import ComputeKernel.Proofs.TextScopes

namespace ComputeKernel

def Ty.Registered (structs : NameTable Ty) : Ty → Prop
  | .struct name fields builtin => structs.find? name = some (.struct name fields builtin)
  | .array elem _ => elem.Registered structs
  | .resource _ (some elem) _ _ => elem.Registered structs
  | _ => True

def NameTable.Extends {α : Type} (t t' : NameTable α) : Prop :=
  ∀ name a, t.find? name = some a → t'.find? name = some a

variable {α : Type} {t : NameTable α}

theorem NameTable.Extends.refl (t : NameTable α) : t.Extends t := fun _ _ h => h

theorem NameTable.Extends.trans {t' t'' : NameTable α} (h : t.Extends t')
    (h' : t'.Extends t'') : t.Extends t'' := fun name a hf => h' name a (h name a hf)

theorem NameTable.extends_insert {name : String}
    (h : t.find? name = none) (a : α) : t.Extends (t.insert name a) := by
  intro key b hb
  have hne : key ≠ name := by
    rintro rfl
    rw [h] at hb
    cases hb
  simpa [hne] using hb

section Structs

variable {t t' : NameTable Ty}

theorem registered_mono (ht : t.Extends t') : ∀ ty : Ty, ty.Registered t → ty.Registered t' 
  | .struct name _ _, h => ht name _ h
  | .array elem _, h => registered_mono ht elem h
  | .resource _ (some elem) _ _, h => registered_mono ht elem h
  | .resource _ none _ _, _ | .void, _ | .numeric _, _ | .wildcard _, _ | .value .., _ => trivial

theorem Ty.Registered.mono {ty : Ty} (h : ty.Registered t) (ht : t.Extends t') : ty.Registered t' :=
  registered_mono ht ty h

theorem registerType_again {d : Draft} :
    ∀ ty : Ty, ty.Registered d.types →
      Ensures (Drafting.registerType ty) d (fun _ d' => d' = d) fun _ => False
  | .struct name fields builtin, h => by
    have hf : d.types.find? name = some (.struct name fields builtin) := h
    rw [Drafting.registerType]
    refine .bind (ensures_get ?_)
    rw [hf]
    exact ensures_ite (fun hne => absurd rfl hne) fun _ => ensures_pure rfl
  | .array elem _, h => by
    rw [Drafting.registerType]
    exact registerType_again elem h
  | .resource _ (some elem) _ _, h => by
    rw [Drafting.registerType]
    exact registerType_again elem h
  | .resource _ none _ _, _ | .void, _ | .numeric _, _ | .wildcard _, _ | .value .., _ => by
    rw [Drafting.registerType]
    exact ensures_pure rfl

mutual

theorem registerType_spec (ty : Ty) (d : Draft) :
    Ensures (Drafting.registerType ty) d
      (fun _ d' => d.types.Extends d'.types ∧ ty.Registered d'.types)
      fun d' => d.types.Extends d'.types := by
  match ty with
  | .struct name fields builtin =>
    rw [Drafting.registerType]
    refine .bind (ensures_get ?_)
    cases hf : d.types.find? name with
    | some existing =>
      refine ensures_ite (fun _ => ensures_throw (.refl _)) fun same => ensures_pure ⟨.refl _, ?_⟩
      rw [Ty.Registered, hf, not_not.mp same]
    | none =>
      refine .bind ((registerFields_spec fields d).imp fun _ d' h => ?_)
      refine ensures_modify ⟨fun key ty hk => ?_, by simp [Ty.Registered]⟩
      have hne : key ≠ name := by
        rintro rfl
        rw [hf] at hk
        cases hk
      simpa [hne] using h key ty hk
  | .array elem _ =>
    rw [Drafting.registerType]
    exact registerType_spec elem d
  | .resource _ (some elem) _ _ =>
    rw [Drafting.registerType]
    exact registerType_spec elem d
  | .resource _ none _ _ | .void | .numeric _ | .wildcard _ | .value .. =>
    rw [Drafting.registerType]
    exact ensures_pure ⟨.refl _, trivial⟩

theorem registerFields_spec (fields : List (String × Ty)) (d : Draft) :
    Ensures (Drafting.registerFields fields) d (fun _ d' => d.types.Extends d'.types)
      fun d' => d.types.Extends d'.types := by
  match fields with
  | [] =>
    rw [Drafting.registerFields]
    exact ensures_pure (.refl _)
  | (_, ty) :: rest =>
    rw [Drafting.registerFields]
    refine .bind ((registerType_spec ty d).imp fun _ d' h => ?_)
    exact (registerFields_spec rest d').mono (fun _ _ h' => h.1.trans h') fun _ h' => h.1.trans h'

end

end Structs

def Resource.Registered (resources : NameTable Resource) (res : Resource) : Prop :=
  ∃ existing, resources.find? res.name = some existing ∧ existing.ty = res.ty ∧
    existing.binding = res.binding

theorem registerResource_again {d : Draft} {res : Resource} (h : res.Registered d.resources) :
    Ensures (Drafting.registerResource res) d (fun _ d' => d' = d) fun _ => False := by
  obtain ⟨existing, hf, hty, hb⟩ := h
  refine .bind (ensures_get ?_)
  rw [hf]
  refine ensures_ite (fun hne => ?_) fun _ => ensures_pure rfl
  exact (hne.elim (fun h => h hty) fun h => h hb).elim

theorem registerResource_spec (res : Resource) (d : Draft) :
    Ensures (Drafting.registerResource res) d
      (fun _ d' => (d.types.Extends d'.types ∧ d.resources.Extends d'.resources) ∧
        res.Registered d'.resources)
      fun d' => d.types.Extends d'.types ∧ d.resources.Extends d'.resources := by
  refine .bind (ensures_get ?_)
  cases hf : d.resources.find? res.name with
  | some existing =>
    refine ensures_ite (fun _ => ensures_throw ⟨.refl _, .refl _⟩) fun same =>
      ensures_pure ⟨⟨.refl _, .refl _⟩, existing, hf, ?_⟩
    simpa only [not_or, not_not, ne_eq] using same
  | none =>
    have hk : Keeps Draft.resources (Drafting.registerType res.ty) :=
      keeps_registerType (fun _ _ _ => rfl) res.ty
    refine .bind (((registerType_spec res.ty d).and (hk d)).mono ?_ ?_)
    · rintro _ d' ⟨⟨ht, -⟩, hr⟩
      refine ensures_modify ⟨⟨ht, ?_⟩, res, by simp, rfl, rfl⟩
      rw [hr]
      exact NameTable.extends_insert hf res
    · rintro d' ⟨ht, hr⟩
      exact ⟨ht, hr ▸ .refl _⟩

def Nodes.knownType (n : Nodes) (e : Expr) : Ty := (n.types.find? e.id).getD .void

def Nodes.argument (n : Nodes) (e : Expr) : CallArg := ⟨(n.name e).text, n.knownType e⟩

def Nodes.OwnName (n : Nodes) (id : Nat) : Prop :=
  n.names.find? id = none ∨ ∃ word, n.names.find? id = some (.word word)

namespace Expr

def keepsName : Expr → Bool
  | .unary .. | .call .. | .array .. | .storage .. | .zeroed .. | .select .. => true
  | .binary _ op _ _ => !op.isAssign
  | .literal .. | .resource .. | .input .. | .swizzle .. | .field .. | .element ..
  | .elementAt .. => false

def Noted (s : Sheet) : Expr → Prop
  | .literal id value =>
    ∃ text, value.text = .ok text ∧ s.nodes.names.find? id = some (.constant value text)
  | .unary .. | .select .. => True
  | .binary id op lhs _ => op.isAssign = true → s.nodes.names.find? id = some (s.nodes.name lhs)
  | .call _ callee args => ∃ text, callee.callText (args.map s.nodes.argument) = .ok text
  | .resource id res =>
    s.nodes.names.find? id = some (.word res.name) ∧ res.Registered s.draft.resources
  | .input id i => s.nodes.names.find? id = some (.word i.name)
  | .array _ elem _ init =>
    elem.Registered s.draft.types ∧ ∃ texts, init.mapM Literal.text = .ok texts
  | .swizzle id base lanes => s.nodes.names.find? id = some (.member (s.nodes.name base) lanes)
  | .field id base name => s.nodes.names.find? id = some (.member (s.nodes.name base) name)
  | .element id base index => s.nodes.names.find? id = some (.element (s.nodes.name base) index)
  | .elementAt id base index =>
    s.nodes.names.find? id = some (.elementAt (s.nodes.name base) (s.nodes.name index))
  | .storage _ _ ty | .zeroed _ ty => ty.Registered s.draft.types

variable {s : Sheet} {e : Expr}

theorem Noted.of_tables {s' : Sheet} (h : e.Noted s) (hn : s'.nodes.names = s.nodes.names)
    (hty : s'.nodes.types = s.nodes.types) (ht : s'.draft.types = s.draft.types)
    (hr : s'.draft.resources = s.draft.resources) : e.Noted s' := by
  have hname : s'.nodes.name = s.nodes.name := by
    funext d
    simp only [Nodes.name, hn]
  have harg : s'.nodes.argument = s.nodes.argument := by
    funext d
    simp only [Nodes.argument, Nodes.knownType, hname, hty]
  cases e with
  | unary | select => trivial
  | _ => simpa only [Noted, hn, hname, harg, ht, hr] using h

def Established (s : Sheet) (e : Expr) : Prop :=
  ∀ d, e.Uses d → (∃ ty, s.nodes.types.find? d.id = some ty) ∧ d.Noted s

theorem Established.operand {d : Expr} (h : e.Established s) (hd : d ∈ e.operands) :
    d.Established s := fun c hc => h c (.of_operand hd hc)

theorem Established.of_operands {ty : Ty} (hops : ∀ d ∈ e.operands, d.Established s)
    (hty : s.nodes.types.find? e.id = some ty) (hn : e.Noted s) : e.Established s := by
  intro d hd
  rcases hd.cases with rfl | ⟨c, hc, hd⟩
  · exact ⟨⟨ty, hty⟩, hn⟩
  · exact hops c hc d hd

theorem Established.typed (h : e.Established s) :
    ∃ ty, s.nodes.types.find? e.id = some ty := (h e .self).1

theorem Established.noted (h : e.Established s) : e.Noted s := (h e .self).2

end Expr

structure Stays (dag : Dag) (s s' : Sheet) : Prop where
  names : ∀ e, dag.contains e → e.Established s →
    s'.nodes.names.find? e.id = s.nodes.names.find? e.id
  own : ∀ e, dag.contains e → e.keepsName = true →
    s'.nodes.names.find? e.id = s.nodes.names.find? e.id
  types : s.nodes.types.Extends s'.nodes.types
  structs : s.draft.types.Extends s'.draft.types
  resources : s.draft.resources.Extends s'.draft.resources

namespace Stays

variable {dag : Dag} {s s' s'' : Sheet} {e : Expr}

theorem refl (dag : Dag) (s : Sheet) : Stays dag s s :=
  ⟨fun _ _ _ => rfl, fun _ _ _ => rfl, .refl _, .refl _, .refl _⟩

theorem name (h : Stays dag s s') (he : dag.contains e) (hest : e.Established s) :
    s'.nodes.name e = s.nodes.name e := by
  simp only [Nodes.name, h.names e he hest]

theorem knownType (h : Stays dag s s') (hest : e.Established s) :
    s'.nodes.knownType e = s.nodes.knownType e := by
  obtain ⟨ty, hty⟩ := hest.typed
  simp only [Nodes.knownType, hty, h.types e.id ty hty]

theorem argument (h : Stays dag s s') (he : dag.contains e) (hest : e.Established s) :
    s'.nodes.argument e = s.nodes.argument e := by
  simp only [Nodes.argument, h.name he hest, h.knownType hest]

theorem noted (h : Stays dag s s') (he : dag.contains e) (hest : e.Established s) : e.Noted s' := by
  have hn := hest.noted
  have hfind := h.names e he hest
  have operand {d : Expr} (hd : d ∈ e.operands) : s'.nodes.name d = s.nodes.name d :=
    h.name (dag.operands he hd) (hest.operand hd)
  cases e with
  | literal id value =>
    obtain ⟨text, ht, hname⟩ := hn
    exact ⟨text, ht, hfind.trans hname⟩
  | unary id op a | select id cond yes no => trivial
  | binary id op lhs rhs =>
    intro ha
    rw [operand (d := lhs) (by simp)]
    exact hfind.trans (hn ha)
  | call id callee args =>
    obtain ⟨text, ht⟩ := hn
    refine ⟨text, ?_⟩
    rw [← ht]
    congr 1
    refine List.map_congr_left fun d hd => ?_
    have hd' : d ∈ (Expr.call id callee args).operands := by rwa [Expr.operands_call]
    exact h.argument (dag.operands he hd') (hest.operand hd')
  | resource id res =>
    obtain ⟨hname, existing, hf, hsame⟩ := hn
    exact ⟨hfind.trans hname, existing, h.resources _ _ hf, hsame⟩
  | input id i => exact hfind.trans hn
  | array id elem length init => exact ⟨hn.1.mono h.structs, hn.2⟩
  | swizzle id base lanes | field id base lanes | element id base lanes =>
    rw [Expr.Noted, operand (d := base) (by simp)]
    exact hfind.trans hn
  | elementAt id base index =>
    rw [Expr.Noted, operand (d := base) (by simp),
      operand (d := index) (by simp)]
    exact hfind.trans hn
  | storage id name ty | zeroed id ty => exact Ty.Registered.mono hn h.structs

theorem established (h : Stays dag s s') (he : dag.contains e) (hest : e.Established s) :
    e.Established s' := by
  intro d hd
  have hdest : d.Established s := fun c hc => hest c (hd.trans hc)
  obtain ⟨ty, hty⟩ := hdest.typed
  exact ⟨⟨ty, h.types _ _ hty⟩, h.noted (dag.uses he hd) hdest⟩

theorem trans (h : Stays dag s s') (h' : Stays dag s' s'') : Stays dag s s'' where
  names e he hest := (h'.names e he (h.established he hest)).trans (h.names e he hest)
  own e he hk := (h'.own e he hk).trans (h.own e he hk)
  types := h.types.trans h'.types
  structs := h.structs.trans h'.structs
  resources := h.resources.trans h'.resources

end Stays

end ComputeKernel
