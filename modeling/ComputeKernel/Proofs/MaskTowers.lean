import ComputeKernel.Proofs.Bracketing
import ComputeKernel.Proofs.GuardedMasks
import ComputeKernel.Proofs.LawfulScripts
import Mathlib.Data.List.Chain

namespace ComputeKernel

open Script

variable {p p' p'' : Phase} {known out : List Expr} {α : Type}

section Towers

variable {ν : Type} {w w' : Workspace ν} {m : Expr}

def Workspace.Anchors (w : Workspace ν) (m : Expr) : Prop :=
  ∃ x, w.sheet.nodes.Marks m.id x ∧ m.id ∈ w.sheet.draft.scopes.visible

structure Workspace.Tower (w : Workspace ν) (pushed : List Expr) (seed : Expr) : Prop where
  masks : w.sheet.draft.masks = pushed ++ [seed]
  seed : seed.IsSeed
  anchored : ∀ m ∈ pushed, w.Anchors m
  linked : ∀ o, pushed.IsChain fun inner outer =>
    w.laneMask o inner &&& w.laneMask o outer = w.laneMask o inner

structure Workspace.Orderly (w : Workspace ν) : Prop where
  labelled : w.sheet.Labelled w.labels
  tower : w.sheet.draft.masks = [] ∨ ∃ pushed seed, w.Tower pushed seed

theorem Workspace.laneMask_of_guards (ha : w.Anchors m)
    (hg : w.sheet.Guards w.sheet.draft.scopes.visible w'.sheet) (o : Votes) :
    w'.laneMask o m = w.laneMask o m := by
  obtain ⟨x, hx, hv⟩ := ha
  have hx' := hg.marks _ hv x hx
  obtain ⟨more, hlines, hunset⟩ := hg.unset _ hv x hx
  simp only [laneMask, laneState, Nodes.name, hx.1, hx'.1, Option.getD_some, LaneState.value, hlines]
  exact LaneState.store_after hunset

theorem Workspace.Anchors.of_guards (ha : w.Anchors m)
    (hg : w.sheet.Guards w.sheet.draft.scopes.visible w'.sheet)
    (hv : w.sheet.draft.scopes.visible ⊆ w'.sheet.draft.scopes.visible) : w'.Anchors m := by
  obtain ⟨x, hx, hm⟩ := ha
  exact ⟨x, hg.marks _ hm x hx, hv hm⟩

theorem Workspace.Tower.of_guards {pushed : List Expr} {seed : Expr} (h : w.Tower pushed seed)
    (hg : w.sheet.Guards w.sheet.draft.scopes.visible w'.sheet)
    (hv : w.sheet.draft.scopes.visible ⊆ w'.sheet.draft.scopes.visible)
    (hm : w'.sheet.draft.masks = w.sheet.draft.masks) : w'.Tower pushed seed where
  masks := hm.trans h.masks
  seed := h.seed
  anchored m hmem := (h.anchored m hmem).of_guards hg hv
  linked o := by
    refine (h.linked o).imp_of_mem_imp fun inner outer hi ho hlink => ?_
    rwa [laneMask_of_guards (h.anchored inner hi) hg o,
      laneMask_of_guards (h.anchored outer ho) hg o]

theorem Workspace.Orderly.of_guards (h : w.Orderly) (hl : w'.sheet.Labelled w'.labels)
    (hg : w.sheet.Guards w.sheet.draft.scopes.visible w'.sheet)
    (hv : w.sheet.draft.scopes.visible ⊆ w'.sheet.draft.scopes.visible)
    (hm : w'.sheet.draft.masks = w.sheet.draft.masks) : w'.Orderly := by
  refine ⟨hl, ?_⟩
  rw [hm]
  exact h.tower.imp_right fun ⟨pushed, seed, ht⟩ => ⟨pushed, seed, ht.of_guards hg hv hm⟩

end Towers

inductive Phase where
  | idle
  | whole
  | masked
deriving DecidableEq

namespace Phase

def Holds : Phase → Draft → Prop
  | idle, d => d.masks = [] ∧ d.wave32 = false
  | whole, d => (∃ seed, d.masks = [seed]) ∧ d.wave32 = true
  | masked, d => d.masks ≠ [] ∧ d.wave32 = true

def Leads (p p' : Phase) : Prop := p' = p ∨ p = idle ∧ p' = whole

variable {d d' : Draft}

theorem Leads.eq (h : p.Leads p') (hp : p ≠ idle) : p' = p := h.resolve_right fun h => hp h.1

theorem Leads.trans (h : p.Leads p') (h' : p'.Leads p'') : p.Leads p'' := by
  rcases h with rfl | ⟨rfl, rfl⟩
  · exact h'
  · exact .inr ⟨rfl, h'.eq (by decide)⟩

theorem Holds.of_eq (h : p.Holds d) (hd : (d'.masks, d'.wave32) = (d.masks, d.wave32)) :
    p.Holds d' := by
  obtain ⟨hm, hw⟩ := Prod.mk.injEq .. ▸ hd
  cases p <;> simpa only [Holds, hm, hw] using h

theorem Holds.enabled (h : p.Holds d) : d.wave32 = true ↔ d.masks ≠ [] := by
  cases p with
  | idle => simp [h.1, h.2]
  | whole =>
    obtain ⟨⟨seed, hm⟩, hw⟩ := h
    simp [hm, hw]
  | masked => simp [h.1, h.2]

theorem Holds.ne_nil (h : p.Holds d) (hp : p ≠ idle) : d.masks ≠ [] := by
  cases p with
  | idle => exact (hp rfl).elim
  | whole =>
    obtain ⟨⟨seed, hm⟩, -⟩ := h
    simp [hm]
  | masked => exact h.1

end Phase

theorem Workspace.Orderly.of_masks {ν : Type} {w w' : Workspace ν} (h : w.Orderly)
    (hp : p.Holds w.sheet.draft) (hl : w'.sheet.Labelled w'.labels)
    (hm : w'.sheet.draft.masks = w.sheet.draft.masks)
    (hg : p = .masked → w.sheet.Guards w.sheet.draft.scopes.visible w'.sheet ∧
      w.sheet.draft.scopes.visible ⊆ w'.sheet.draft.scopes.visible) : w'.Orderly := by
  cases p with
  | idle => exact ⟨hl, .inl (hm.trans hp.1)⟩
  | whole =>
    obtain ⟨⟨mask, hmask⟩, -⟩ := hp
    rcases h.tower with htower | ⟨pushed, seed, ht⟩
    · simp [hmask] at htower
    obtain ⟨rfl, rfl⟩ : pushed = [] ∧ mask = seed := by
      have hlast := hmask.symm.trans ht.masks
      cases pushed <;> simp_all
    exact ⟨hl, .inr ⟨[], mask, hm.trans hmask, ht.seed, by simp, by simp⟩⟩
  | masked => exact h.of_guards hl (hg rfl).1 (hg rfl).2 hm

section Relations

variable {w w' w'' : Workspace Notebook} {more : List Expr}

def Workspace.Furnished (w : Workspace Notebook) (known : List Expr) : Prop :=
  ∀ e ∈ known ++ (w.notes.held ++ w.sheet.draft.masks), e.Proper w.sheet.nodes.next

structure Workspace.Onward (w w' : Workspace Notebook) : Prop where
  labels : w.labels ≤ w'.labels
  next : w.sheet.nodes.next ≤ w'.sheet.nodes.next
  grows : w.sheet.draft.Grows w'.sheet.draft

structure Workspace.Done (p p' : Phase) (w : Workspace Notebook) (out : List Expr)
    (w' : Workspace Notebook) : Prop where
  onward : w.Onward w'
  furnished : w'.Furnished out
  leads : p.Leads p'
  phase : p'.Holds w'.sheet.draft
  masks : p ≠ .idle → w'.sheet.draft.masks = w.sheet.draft.masks
  safe : w.Orderly → w'.sheet.draft.SparesMasks → w'.Orderly ∧
    (p = .masked → w.sheet.Guards w.sheet.draft.scopes.visible w'.sheet)

structure Workspace.Left (p : Phase) (w w' : Workspace Notebook) : Prop where
  written : w.sheet.draft.everyLine ⊆ w'.sheet.draft.everyLine
  furnished : w'.Furnished []
  enabled : w'.sheet.draft.wave32 = true ↔ w'.sheet.draft.masks ≠ []
  masks : p ≠ .idle → w.sheet.draft.masks <:+ w'.sheet.draft.masks
  safe : w.Orderly → w'.sheet.draft.SparesMasks → w'.Orderly ∧
    (p = .masked → w.sheet.Guards w.sheet.draft.scopes.visible w'.sheet ∧
      w.sheet.draft.scopes.visible ⊆ w'.sheet.draft.scopes.visible)

theorem Workspace.Furnished.mono (h : w.Furnished known) (hsub : more ⊆ known) :
    w.Furnished more := by
  intro e he
  refine h e (List.mem_append.mpr ((List.mem_append.mp he).imp_left fun he => hsub he))

theorem Workspace.Furnished.keep (h : w'.Furnished more) (hw : w.Furnished known)
    (hnext : w.sheet.nodes.next ≤ w'.sheet.nodes.next) : w'.Furnished (more ++ known) := by
  intro e he
  rw [List.append_assoc] at he
  rcases List.mem_append.mp he with he | he
  · exact h e (List.mem_append_left _ he)
  rcases List.mem_append.mp he with he | he
  · exact (hw e (List.mem_append_left _ he)).mono hnext
  · exact h e (List.mem_append_right _ he)

theorem Workspace.Onward.refl (w : Workspace Notebook) : w.Onward w :=
  ⟨Nat.le_refl _, Nat.le_refl _, .refl _⟩

theorem Workspace.Onward.trans (h : w.Onward w') (h' : w'.Onward w'') : w.Onward w'' :=
  ⟨Nat.le_trans h.labels h'.labels, Nat.le_trans h.next h'.next, h.grows.trans h'.grows⟩

theorem Workspace.Done.refl (h : w.Furnished known) (hp : p.Holds w.sheet.draft) :
    w.Done p p known w :=
  ⟨.refl w, h, .inl rfl, hp, fun _ => rfl, fun ho _ => ⟨ho, fun _ => .refl _ _⟩⟩

theorem Workspace.Done.trans {out' : List Expr} (h : w.Done p p' out w')
    (h' : w'.Done p' p'' out' w'') : w.Done p p'' out' w'' where
  onward := h.onward.trans h'.onward
  furnished := h'.furnished
  leads := h.leads.trans h'.leads
  phase := h'.phase
  masks hp := (h'.masks (h.leads.eq hp ▸ hp)).trans (h.masks hp)
  safe ho hspares := by
    obtain ⟨ho', hg⟩ := h.safe ho (hspares.of_subset h'.onward.grows.everyLine)
    obtain ⟨ho'', hg'⟩ := h'.safe ho' hspares
    refine ⟨ho'', fun hp => (hg hp).trans ((hg' ?_).mono h.onward.grows.visible)⟩
    exact (h.leads.eq (hp ▸ by decide)).trans hp

theorem Workspace.Left.refl (h : w.Furnished known) (hp : p.Holds w.sheet.draft) : w.Left p w :=
  ⟨fun _ h => h, h.mono (List.nil_subset _), hp.enabled, fun _ => List.suffix_rfl,
    fun ho _ => ⟨ho, fun _ => ⟨.refl _ _, fun _ h => h⟩⟩⟩

theorem Workspace.Left.after (h : w.Done p p' out w') (h' : w'.Left p' w'') : w.Left p w'' where
  written := fun _ hl => h'.written (h.onward.grows.everyLine hl)
  furnished := h'.furnished
  enabled := h'.enabled
  masks hp := h.masks hp ▸ h'.masks (h.leads.eq hp ▸ hp)
  safe ho hspares := by
    obtain ⟨hmid, hg⟩ := h.safe ho (hspares.of_subset h'.written)
    obtain ⟨ho', hinside⟩ := h'.safe hmid hspares
    refine ⟨ho', fun hp => ?_⟩
    obtain ⟨hg', hv⟩ := hinside ((h.leads.eq (hp ▸ by decide)).trans hp)
    exact ⟨(hg hp).trans (hg'.mono h.onward.grows.visible),
      fun _ hid => hv (h.onward.grows.visible hid)⟩

end Relations

def Item.value? : Item → Option Expr
  | .value e => some e
  | _ => none

open Bears (items)

def nodes {α : Type} [Bears α] (a : α) : List Expr := (items a).filterMap Item.value?

@[simp] theorem nodes_expr (e : Expr) : nodes e = [e] := rfl

variable {e : Expr}

theorem mem_nodes [Bears α] {a : α} : e ∈ nodes a ↔ .value e ∈ items a := by
  simp only [nodes, List.mem_filterMap]
  refine ⟨fun ⟨i, hi, he⟩ => ?_, fun h => ⟨_, h, rfl⟩⟩
  cases i <;> cases he
  exact hi

theorem Workspace.Furnished.proper {w : Workspace Notebook}
    (h : w.Furnished known) (he : e ∈ known) : e.Proper w.sheet.nodes.next :=
  h e (List.mem_append_left _ he)

class Heeds {α : Type} [Bears α] (p : Phase) (p' : outParam Phase) (known : List Expr)
    (x : Scripted α) : Prop where
  ends : ∀ w, w.Furnished known → p.Holds w.sheet.draft →
    Ends x w (fun a w' => w.Done p p' (nodes a) w')
      fun halt w' => ∀ name, halt = .unbound name → w.Left p w'

namespace Build

structure Within (K : Stock) (known : List Expr) : Prop where
  value : ∀ e, K (.value e) → e ∈ known
  name : ∀ x, K (.name x) → ¬IsMaskName x

def listed (known : List Expr) : Stock
  | .value e => e ∈ known
  | .callee _ => False
  | .name x => ¬IsMaskName x

def Heeding : Tracking Phase Notebook := fun p p' K _ _ x _ =>
  (∀ known, Within K known → Heeds p p' known x) ∧
    ∀ w, Ensures x w (fun a _ => ∀ y, .name y ∈ items a → K (.name y)) fun _ => True

class Unnamed (α : Type) [Bears α] : Prop where
  unnamed : ∀ (a : α) x, .name x ∉ items a

instance (α : Type) [Bare α] : Unnamed α := ⟨fun _ _ => List.not_mem_nil⟩

instance : Unnamed Expr := ⟨fun _ _ => by simp [items]⟩

instance : Unnamed Prototype := ⟨fun _ _ => by simp [items]⟩

instance {α : Type} [Bears α] [h : Unnamed α] : Unnamed (Option α) :=
  ⟨fun a x => by cases a <;> simp [items, h.unnamed]⟩

instance : Unnamed (Except Fault Expr) := ⟨fun r => Unnamed.unnamed r.toOption⟩

section Rules

variable {K : Stock} {β γ : Type} [Bears α] [Bears β]

theorem within_listed (known : List Expr) : Within (listed known) known :=
  ⟨fun _ h => h, fun _ h => h⟩

variable {a : α} {x : Scripted α} {f : α → Scripted β}

theorem Within.adding (h : Within K known) (ha : ∀ y, .name y ∈ items a → K (.name y)) :
    Within (K.adding a) (nodes a ++ known) where
  value e he := List.mem_append.mpr (he.imp mem_nodes.mpr (h.value e))
  name x hx := h.name x (hx.elim (ha x) fun hx => hx)

theorem Within.has (h : Within K known) (ha : K.Has (items a)) : nodes a ⊆ known :=
  fun _ he => h.value _ (ha.each _ (mem_nodes.mp he))

theorem heeds_weaken {more : List Expr} (h : Heeds p p' known x)
    (hsub : known ⊆ more) : Heeds p p' more x :=
  ⟨fun w hw hp => h.ends w (hw.mono hsub) hp⟩

theorem heeds_bindWhere {P : α → Prop}
    (hx : Heeds p p' known x) (hP : ∀ w, Ensures x w (fun a _ => P a) fun _ => True)
    (hf : ∀ a, P a → Heeds p' p'' (nodes a ++ known) (f a)) : Heeds p p'' known (x >>= f) where
  ends w hw hp := by
    refine .bind (((hx.ends w hw hp).and (hP w)).mono (fun a w₁ h => ?_) fun _ _ h => h.1)
    obtain ⟨h₁, ha⟩ := h
    exact ((hf a ha).ends w₁ (h₁.furnished.keep hw h₁.onward.next) h₁.phase).mono
      (fun _ _ h₂ => h₁.trans h₂) fun _ _ h₂ name hn => .after h₁ (h₂ name hn)

theorem heeds_bind (hx : Heeds p p' known x)
    (hf : ∀ a, Heeds p' p'' (nodes a ++ known) (f a)) : Heeds p p'' known (x >>= f) :=
  heeds_bindWhere hx (fun _ => ensures_any (fun _ _ => trivial) fun _ => trivial) fun a _ => hf a

theorem heeds_pure (a : α) (h : nodes a ⊆ known) : Heeds p p known (pure a : Scripted α) :=
  ⟨fun _ hw hp => .refl (hw.mono h) hp⟩

theorem heeds_throw (halt : Halt) : Heeds p p' known (throw halt : Scripted α) :=
  ⟨fun _ hw hp _ _ => .refl hw hp⟩

theorem heeds_mustBare [Bare γ] (r : Except Fault γ) : Heeds p p known (must r : Scripted γ) := by
  cases r with
  | ok a => exact heeds_pure a (List.nil_subset _)
  | error fault => exact heeds_throw _

theorem heeding_of [hα : Unnamed α]
    (h : ∀ known, Within K known → Heeds p p' known x) : Heeding p p' K α x x :=
  ⟨h, fun _ => ensures_any (fun a _ y hy => (hα.unnamed a y hy).elim) fun _ => trivial⟩

instance : Heeding.Chains where
  pure a h := ⟨fun _ hK => heeds_pure a (hK.has h), fun _ => ensures_pure fun _ => h.each _⟩
  bind hx hf := ⟨fun known hK => heeds_bindWhere (hx.1 known hK) hx.2 fun a ha =>
    (hf a).1 _ (hK.adding ha), fun w => .bind ((hx.2 w).imp fun a w₁ ha =>
      ((hf a).2 w₁).mono (fun _ _ h y hy => (h y hy).elim (ha y) fun h => h) fun _ h => h)⟩
  grow hK hx := ⟨fun known h => hx.1 known ⟨fun e he => h.value e (hK.kept _ he),
    fun x hx => h.name x (hK.kept _ hx)⟩, fun w => (hx.2 w).mono
      (fun _ _ h y hy => hK.kept _ (h y hy)) fun _ h => h⟩

theorem heeds_of_tracked (h : Tracked Heeding p p' (listed known) x x) :
    Heeds p p' known x := h.holds.1 known (within_listed known)

theorem held_of_heeds [Unnamed α] (h : Heeds p p' known x) : Held Heeding p p' (listed known) x x :=
  ⟨heeding_of fun _ hK => heeds_weaken h fun e he => hK.value e he⟩

end Rules

structure Calm (w w' : Workspace Notebook) : Prop where
  onward : w.Onward w'
  held : w'.notes.held ⊆ w.notes.held
  masks : (w'.sheet.draft.masks, w'.sheet.draft.wave32) =
    (w.sheet.draft.masks, w.sheet.draft.wave32)
  safe : w.sheet.Labelled w.labels → w'.sheet.draft.SparesMasks →
    w'.sheet.Labelled w'.labels ∧ w.sheet.Guards w.sheet.draft.scopes.visible w'.sheet

section Calm

variable [Bears α] {w w' : Workspace Notebook}

theorem labelled_mono {s : Sheet} {labels labels' : Nat} (h : s.Labelled labels)
    (hle : labels ≤ labels') : s.Labelled labels' :=
  { h with issued := fun id stem hs n hf => Nat.lt_of_lt_of_le (h.issued id stem hs n hf) hle }

theorem Calm.of_spares (hlabels : w.labels ≤ w'.labels) (hheld : w'.notes.held ⊆ w.notes.held)
    (h : w.sheet.Spares w'.labels w.sheet.draft.scopes.visible w'.sheet) : Calm w w' :=
  ⟨⟨hlabels, h.next, h.grows⟩, hheld, h.masks, fun hl => h.safe (labelled_mono hl hlabels)⟩

theorem Calm.refl (w : Workspace Notebook) : Calm w w :=
  .of_spares (Nat.le_refl _) (fun _ h => h) (.refl _ _ _)

theorem Calm.of_frame (hn : w'.sheet.nodes.names = w.sheet.nodes.names)
    (hnext : w.sheet.nodes.next ≤ w'.sheet.nodes.next)
    (hd : w'.sheet.draft.frame = w.sheet.draft.frame) (hlabels : w'.labels = w.labels)
    (hnotes : w'.notes = w.notes) : Calm w w' :=
  .of_spares (Nat.le_of_eq hlabels.symm) (hnotes ▸ fun _ h => h) (.of_frame hn hnext hd)

theorem Calm.done (h : Calm w w') (hw : w.Furnished known) (hp : p.Holds w.sheet.draft)
    (hout : ∀ e ∈ out, e.Proper w'.sheet.nodes.next) : w.Done p p out w' := by
  have hmasks : w'.sheet.draft.masks = w.sheet.draft.masks := congrArg Prod.fst h.masks
  refine ⟨h.onward, fun e he => ?_, .inl rfl, hp.of_eq h.masks, fun _ => hmasks, fun ho hspares => ?_⟩
  · rcases List.mem_append.mp he with he | he
    · exact hout e he
    refine (hw e (List.mem_append_right _ ?_)).mono h.onward.next
    exact List.mem_append.mpr
      ((List.mem_append.mp he).imp (fun he => h.held he) fun he => hmasks ▸ he)
  · obtain ⟨hlabelled, hguards⟩ := h.safe ho.labelled hspares
    exact ⟨ho.of_guards hlabelled hguards h.onward.grows.visible hmasks, fun _ => hguards⟩

theorem heeds_of_calm {x : Scripted α}
    (h : ∀ w, w.Furnished known → Ends x w
      (fun a w' => Calm w w' ∧ ∀ e ∈ nodes a, e.Proper w'.sheet.nodes.next)
      fun halt _ => ∀ name, halt ≠ .unbound name) : Heeds p p known x :=
  ⟨fun w hw hp => (h w hw).mono (fun _ _ h => h.1.done hw hp h.2)
    fun _ _ h name hn => (h name hn).elim⟩

theorem heeds_emitting {x : Emit α}
    (h : ∀ w : Workspace Notebook, w.Furnished known → Ensures x w.sheet
      (fun a s => w.sheet.Spares w.labels w.sheet.draft.scopes.visible s ∧
        ∀ e ∈ nodes a, e.Proper s.nodes.next) fun _ => True) :
    Heeds p p known (emitting x) := by
  refine heeds_of_calm fun w hw => Ends.of_runs (fun a w' hrun => ?_) fun halt w' hrun => ?_
  all_goals
    simp only [emitting, attempt, Bind.bind, EStateM.bind] at hrun
    cases hx : x w.sheet <;> rw [hx] at hrun <;> cases hrun
  · exact ⟨.of_spares (Nat.le_refl _) (fun _ h => h) ((h w hw).of_ok hx).1, ((h w hw).of_ok hx).2⟩
  · exact fun name h => by cases h

theorem heeds_attempt {x : Emit Expr}
    (h : ∀ w : Workspace Notebook, w.Furnished known → Ensures x w.sheet
      (fun e s => w.sheet.Spares w.labels w.sheet.draft.scopes.visible s ∧ e.Proper s.nodes.next)
      (w.sheet.Spares w.labels w.sheet.draft.scopes.visible)) :
    Heeds p p known (attempt x) := by
  refine heeds_of_calm fun w hw => Ends.of_runs (fun r w' hrun => ?_) fun halt w' hrun => ?_
  all_goals
    simp only [attempt] at hrun
    cases hx : x w.sheet <;> rw [hx] at hrun <;> cases hrun
  · obtain ⟨hspares, hproper⟩ := (h w hw).of_ok hx
    exact ⟨.of_spares (Nat.le_refl _) (fun _ h => h) hspares,
      fun e he => List.mem_singleton.mp he ▸ hproper⟩
  · exact ⟨.of_spares (Nat.le_refl _) (fun _ h => h) ((h w hw).of_error hx), fun e he => by cases he⟩

end Calm

end Build

end ComputeKernel
