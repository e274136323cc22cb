import ComputeKernel.Proofs.DisciplinedBuild
import ComputeKernel.Proofs.LawfulControl

namespace ComputeKernel

variable {ν α : Type} {v : Vocabulary} {calm masked : Bool} {d : Draft} {k : Nat} {env : List Fact}

def Expr.IsSeed (e : Expr) : Prop := ∃ id, e = .literal id (.u32 [0xffffffff])

structure Draft.Kept (calm : Bool) (d d' : Draft) : Prop where
  targets : d'.targets = d.targets
  frames : d'.frames.map Frame.targets = d.frames.map Frame.targets
  masks : d'.masks = d.masks ∨ calm = false ∧ ∃ seed, seed.IsSeed ∧ d'.masks = [seed]

structure Draft.Under (d d' : Draft) : Prop where
  visible : d.scopes.visible ⊆ d'.scopes.visible
  masks : ∃ pushed base, d'.masks = pushed ++ base ∧
    (base = d.masks ∨ ∃ seed, seed.IsSeed ∧ base = [seed]) ∧
      ∀ m ∈ pushed, m.id ∈ d'.scopes.visible

structure Workspace.Met {ν : Type} (v : Vocabulary) (held : ν → List Expr) (w w' : Workspace ν) :
    Prop where
  within : w'.Within v held
  level : w'.sheet.draft.Level 0
  sound : ∃ dag, Sound dag w'.sheet ∧ ∀ f ∈ (held w'.notes).map Fact.known, f.Holds dag w'.sheet
  frames : w.sheet.draft.frames.length ≤ w'.sheet.draft.frames.length
  under : w'.sheet.draft.frames.length = w.sheet.draft.frames.length →
    w.sheet.draft.Under w'.sheet.draft

def Halt.Spared (v : Vocabulary) (calm : Bool) : Halt → Prop
  | .fatal fault => v.Admits fault ∨ calm = false ∧ fault = .maskUnderflow
  | .refused fault => v.Admits fault
  | .overflow _ | .unbound _ => True

section Relations

variable {held : ν → List Expr} {d' d'' : Draft} {w w₁ w' : Workspace ν}

theorem Draft.Kept.refl (calm : Bool) (d : Draft) : d.Kept calm d := ⟨rfl, rfl, .inl rfl⟩

theorem Draft.Kept.trans (h : d.Kept calm d') (h' : d'.Kept calm d'') : d.Kept calm d'' where
  targets := h'.targets.trans h.targets
  frames := h'.frames.trans h.frames
  masks := by
    rcases h'.masks with hm' | hm'
    · rw [hm']
      exact h.masks
    · exact .inr hm'

theorem Draft.Kept.of_outside (h : d'.outside = d.outside) : d.Kept calm d' where
  targets := congrArg (·.2.1) h
  frames := congrArg (·.2.2) h
  masks := .inl (congrArg (·.1.2.2) h)

theorem Draft.Kept.length_frames (h : d.Kept calm d') : d'.frames.length = d.frames.length := by
  simpa using congrArg List.length h.frames

theorem Draft.Kept.masks_ne_nil (h : d.Kept calm d') (hm : d.masks ≠ []) : d'.masks ≠ [] := by
  rcases h.masks with hm' | ⟨-, seed, -, hm'⟩
  · rwa [hm']
  · rw [hm']
    exact List.cons_ne_nil _ _

theorem Draft.Under.refl (d : Draft) : d.Under d :=
  ⟨fun _ h => h, [], d.masks, rfl, .inl rfl, by simp⟩

theorem Draft.Under.of_same (hv : d'.scopes.visible = d.scopes.visible)
    (hm : d'.masks = d.masks) : d.Under d' :=
  ⟨hv ▸ fun _ h => h, [], d'.masks, rfl, .inl hm, by simp⟩

theorem Draft.Under.of_kept (h : d.Kept calm d')
    (hv : d.scopes.visible ⊆ d'.scopes.visible) : d.Under d' :=
  ⟨hv, [], d'.masks, rfl, h.masks.imp_right fun h => h.2, by simp⟩

theorem Draft.Under.trans (h : d.Under d') (h' : d'.Under d'') : d.Under d'' := by
  refine ⟨fun _ hm => h'.visible (h.visible hm), ?_⟩
  obtain ⟨pushed, base, hmasks, hbase, hvis⟩ := h.masks
  obtain ⟨pushed', base', hmasks', hbase', hvis'⟩ := h'.masks
  rcases hbase' with hbase' | hseed
  · refine ⟨pushed' ++ pushed, base, by rw [hmasks', hbase', hmasks, List.append_assoc], hbase, ?_⟩
    intro m hm
    rcases List.mem_append.mp hm with hm | hm
    · exact hvis' m hm
    · exact h'.visible (hvis m hm)
  · exact ⟨pushed', base', hmasks', .inr hseed, hvis'⟩

theorem Workspace.Met.after (h : Met v held w₁ w')
    (hlen : w₁.sheet.draft.frames.length = w.sheet.draft.frames.length)
    (hu : w.sheet.draft.Under w₁.sheet.draft) : Met v held w w' where
  within := h.within
  level := h.level
  sound := h.sound
  frames := hlen ▸ h.frames
  under hl := hu.trans (h.under (hl.trans hlen.symm))

theorem Workspace.Met.outward (h : Met v held w₁ w')
    (hlen : w.sheet.draft.frames.length < w₁.sheet.draft.frames.length) : Met v held w w' where
  within := h.within
  level := h.level
  sound := h.sound
  frames := Nat.le_trans (Nat.le_of_lt hlen) h.frames
  under hl := absurd h.frames (by omega)

theorem Halt.Admitted.spared {halt : Halt} (h : halt.Admitted v) : halt.Spared v calm := by
  cases halt with
  | fatal fault => exact .inl h
  | refused fault => exact h
  | _ => trivial

end Relations

def Steady {ν α : Type} (v : Vocabulary) (calm : Bool) (held : ν → List Expr) (k : Nat)
    (masked : Bool) (env : List Fact) (x : Build ν α) (post : α → Prop) : Prop :=
  ∀ dag w, Sound dag w.sheet → (∀ f ∈ env ++ (held w.notes).map .known, f.Holds dag w.sheet) →
    w.Within v held → w.sheet.draft.Level k → (masked = true → w.sheet.draft.masks ≠ []) →
    Ends x w
      (fun a w' => w'.Within v held ∧ w.sheet.draft.Kept calm w'.sheet.draft ∧
        w'.sheet.draft.Level k ∧ post a)
      fun halt w' => halt.Spared v calm ∧ ∀ name, halt = .unbound name → w.Met v held w'

def Ending {ν : Type} (v : Vocabulary) (calm : Bool) (held : ν → List Expr) (k : Nat)
    (masked : Bool) (env : List Fact) (x : Build ν Unit) : Prop :=
  ∀ dag₀ s₀ dag w, Sound dag₀ s₀ → Opened dag₀ s₀ dag w.sheet →
    (∀ f ∈ env ++ (held w.notes).map .known, f.Holds dag w.sheet) →
    w.Within v held → w.sheet.draft.Level (k + 1) → (masked = true → w.sheet.draft.masks ≠ []) →
    Ends x w
      (fun _ w' => w'.Within v held ∧ w.sheet.draft.Kept calm w'.sheet.draft ∧
        w'.sheet.draft.Level k)
      fun halt w' => halt.Spared v calm ∧ ∀ name, halt = .unbound name → w.Met v held w'

section Rules

variable {β : Type} {held : ν → List Expr}

namespace Steady

variable {post : α → Prop} {x : Build ν α} {mid : β → List Fact} {p : β → Prop} {f : β → Build ν α}
  {γ : Type} {xs : List γ}

theorem mono {env' : List Fact} {post' : α → Prop} (h : Steady v calm held k masked env x post)
    (he : env ⊆ env') (hp : ∀ a, post a → post' a) : Steady v calm held k masked env' x post' := by
  intro dag w hs henv hw hl hm
  refine (h dag w hs (fun f hf => henv f ?_) hw hl hm).mono (fun a w' h' => ?_) fun _ _ h' => h'
  · exact (List.mem_append.mp hf).elim (fun hf => List.mem_append_left _ (he hf))
      fun hf => List.mem_append_right _ hf
  · exact ⟨h'.1, h'.2.1, h'.2.2.1, hp a h'.2.2.2⟩

theorem anyhow (h : Steady v calm held k false env x post) :
    Steady v calm held k masked env x post := by
  intro dag w hs henv hw hl _
  exact h dag w hs henv hw hl (by simp)

theorem of_obeys (h : (v.building held).Obeys x post) : Steady v calm held k masked env x post := by
  intro dag w _ _ hw hl _
  refine (h w hw).mono (fun a w' h' => ?_) fun halt w' h' => ⟨h'.1.spared, ?_⟩
  · exact ⟨h'.1, .of_outside h'.2.1.outside, h'.2.1.level k hl, h'.2.2⟩
  · rintro name rfl
    exact h'.1.elim

theorem bind {x : Build ν β} (hx : Lawful held .growing env x mid)
    (hsteady : Steady v calm held k masked env x p)
    (hf : ∀ a, p a → Steady v calm held k masked (mid a ++ env) (f a) post) :
    Steady v calm held k masked env (x >>= f) post := by
  intro dag w hs henv hw hl hm
  refine .bind (((hsteady dag w hs henv hw hl hm).and (hx dag w hs henv)).mono
    (fun a w₁ h₁ => ?_) fun _ _ h => h.1)
  obtain ⟨⟨hw₁, hkept, hl₁, ha⟩, dag₁, hadv, -, hfacts⟩ := h₁
  refine (hf a ha dag₁ w₁ hadv.sound (facts_after henv hadv hfacts) hw₁ hl₁
    fun hmasked => hkept.masks_ne_nil (hm hmasked)).mono (fun b w₂ h₂ => ?_) fun halt w₂ h₂ => ?_
  · exact ⟨h₂.1, hkept.trans h₂.2.1, h₂.2.2.1, h₂.2.2.2⟩
  · exact ⟨h₂.1, fun name hn => (h₂.2 name hn).after hkept.length_frames
      (.of_kept hkept hadv.visible)⟩

theorem next {x : Build ν β} (hx : Lawful held .growing env x mid) (ho : (v.building held).Obeys x p)
    (hf : ∀ a, p a → Steady v calm held k masked (mid a ++ env) (f a) post) :
    Steady v calm held k masked env (x >>= f) post := bind hx (of_obeys ho) hf

theorem pure {a : α} (h : post a) :
    Steady v calm held k masked env (Pure.pure a) post := of_obeys (.pure h)

theorem ite {c : Prop} [Decidable c] {y : Build ν α}
    (hx : Steady v calm held k masked env x post) (hy : Steady v calm held k masked env y post) :
    Steady v calm held k masked env (if c then x else y) post := by
  split
  · exact hx
  · exact hy

theorem forM {f : γ → Build ν Unit} (hl : ∀ x ∈ xs, Lawful held .growing env (f x) fun _ => [])
    (h : ∀ x ∈ xs, Steady v calm held k masked env (f x) fun _ => True) :
    Steady v calm held k masked env (xs.forM f) fun _ => True := by
  induction xs with
  | nil => exact pure trivial
  | cons x xs ih =>
    refine bind (hl x (by simp)) (h x (by simp)) fun _ _ => ?_
    exact ih (fun y hy => hl y (by simp [hy])) fun y hy => h y (by simp [hy])

theorem mapM {f : γ → Build ν α} {single : α → List Fact} {p : α → Prop}
    (hl : ∀ x ∈ xs, ∀ env', env ⊆ env' → Lawful held .growing env' (f x) single)
    (h : ∀ x ∈ xs, ∀ env', env ⊆ env' → Steady v calm held k masked env' (f x) p) :
    Steady v calm held k masked env (xs.mapM f) fun ys => ∀ y ∈ ys, p y := by
  induction xs generalizing env with
  | nil =>
    rw [List.mapM_nil]
    exact pure (by simp)
  | cons x xs ih =>
    rw [List.mapM_cons]
    refine bind (hl x (by simp) env fun _ hm => hm) (h x (by simp) env fun _ hm => hm) fun y hy => ?_
    have hsub {env' : List Fact} (he : single y ++ env ⊆ env') : env ⊆ env' :=
      fun _ hm => he (List.mem_append_right _ hm)
    have hrest : ∀ x' ∈ xs, ∀ env', single y ++ env ⊆ env' →
        Lawful held .growing env' (f x') single :=
      fun x' hx' env' he => hl x' (by simp [hx']) env' (hsub he)
    exact bind (.mapM hrest) (ih hrest fun x' hx' env' he => h x' (by simp [hx']) env' (hsub he))
      fun ys hys => pure (by simpa using ⟨hy, hys⟩)

end Steady

namespace Ending

theorem mono {env' : List Fact} {x : Build ν Unit} (h : Ending v calm held k masked env x)
    (he : env ⊆ env') : Ending v calm held k masked env' x := by
  intro dag₀ s₀ dag w hs₀ ho henv
  refine h dag₀ s₀ dag w hs₀ ho fun f hf => henv f ?_
  exact (List.mem_append.mp hf).elim (fun hf => List.mem_append_left _ (he hf))
    fun hf => List.mem_append_right _ hf

variable {x : Build ν α} {p : α → Prop} {mid : α → List Fact} {f : α → Build ν Unit}

theorem bind
    (hx : Lawful held .same env x mid) (hsteady : Steady v calm held (k + 1) masked env x p)
    (hf : ∀ a, p a → Ending v calm held k masked (mid a ++ env) (f a)) :
    Ending v calm held k masked env (x >>= f) := by
  intro dag₀ s₀ dag w hs₀ ho henv hw hl hm
  have hs := ho.advance.sound
  refine .bind (((hsteady dag w hs henv hw hl hm).and (hx dag w hs henv)).mono
    (fun a w₁ h₁ => ?_) fun _ _ h => h.1)
  obtain ⟨⟨hw₁, hkept, hl₁, ha⟩, dag₁, hadv, hscopes, hfacts⟩ := h₁
  have ho₁ : Opened dag₀ s₀ dag₁ w₁.sheet := ⟨ho.advance.andThen hadv, Eq.trans hscopes ho.scopes⟩
  refine (hf a ha dag₀ s₀ dag₁ w₁ hs₀ ho₁ (facts_after henv hadv hfacts) hw₁ hl₁
    fun hmasked => hkept.masks_ne_nil (hm hmasked)).mono (fun b w₂ h₂ => ?_) fun halt w₂ h₂ => ?_
  · exact ⟨h₂.1, hkept.trans h₂.2.1, h₂.2.2⟩
  · exact ⟨h₂.1, fun name hn => (h₂.2 name hn).after hkept.length_frames
      (.of_kept hkept hadv.visible)⟩

theorem next (hx : Lawful held .same env x mid) (ho : (v.building held).Obeys x p)
    (hf : ∀ a, p a → Ending v calm held k masked (mid a ++ env) (f a)) :
    Ending v calm held k masked env (x >>= f) := bind hx (.of_obeys ho) hf

end Ending

end Rules

section Blocks

variable {held : ν → List Expr} {line : Line} {w w' : Workspace ν} {x : Build ν Unit}

def Workspace.write (w : Workspace ν) (line : Line) : Workspace ν :=
  { w with sheet := { w.sheet with draft := w.sheet.draft.write line } }

theorem Workspace.Within.write (h : w.Within v held) (hline : line.Within v) :
    (w.write line).Within v held :=
  { h with sheet := ⟨h.sheet.1, h.sheet.2.write hline⟩ }

theorem Workspace.kept_write (w : Workspace ν) (line : Line) :
    w.sheet.draft.Kept calm (w.write line).sheet.draft := .of_outside (Draft.outside_write _ _)

theorem Workspace.Met.of_write (h : (w.write line).Met v held w') : w.Met v held w' := by
  have hkept : w.sheet.draft.Kept true (w.write line).sheet.draft := w.kept_write line
  refine h.after hkept.length_frames (.of_kept hkept ?_)
  exact fun _ hm => (Draft.scopes_write _ _).symm ▸ hm

theorem Workspace.masks_write (w : Workspace ν) (line : Line) :
    (w.write line).sheet.draft.masks = w.sheet.draft.masks :=
  congrArg (·.1.2.2) (Draft.outside_write w.sheet.draft line)

def Workspace.redraft (w : Workspace ν) (f : Draft → Draft) : Workspace ν :=
  { w with sheet := { w.sheet with draft := f w.sheet.draft } }

variable {done : α → Workspace ν → Prop} {failed : Halt → Workspace ν → Prop} {target : BreakTarget}
  {targets : List BreakTarget} {mask : Expr}

theorem Build.ends_redraft {f : Draft → Draft} {y : Build ν α}
    (h : Ends y (w.redraft f) done failed) :
    Ends (Build.redraft f >>= fun _ => y) w done failed := h

theorem Build.ends_drafting {y : Drafting α} {a : α} (hy : y w.sheet.draft = .ok a d)
    (h : done a (w.redraft fun _ => d)) : Ends (Build.drafting y) w done failed := by
  simp only [Ends, Build.drafting, Build.emitting, Build.attempt, Emit.drafting, Bind.bind,
    EStateM.bind, hy]
  exact h

theorem Steady.open (hstep : ∀ b, Blocks.step b line = b.enter)
    (hc : ∀ name ∈ line.computed, .inScope name ∈ env) (hb : line.bracing = .opens)
    (hline : line.Within v) (hx : Ending v calm held k masked env x) :
    Steady v calm held k masked env (Build.writeLine line >>= fun _ => x) fun _ => True := by
  intro dag w hs henv hw hl hm
  obtain ⟨ho, henv₁⟩ := Opened.start hstep hc hs henv
  have hrest := hx dag w.sheet dag (w.write line) hs ho henv₁ (hw.write hline) (hl.opens hb)
    (by rwa [w.masks_write])
  refine .bind (hrest.mono (fun _ w' h => ?_) fun halt w' h => ?_)
  · exact ⟨h.1, (w.kept_write line).trans h.2.1, h.2.2, trivial⟩
  · exact ⟨h.1, fun name hn => (h.2 name hn).of_write⟩

theorem ending_line (hb : line.bracing = .closes) (hline : line.Within v) :
    Ending v calm held k masked env (Build.writeLine line) := by
  intro dag₀ s₀ dag w _ _ _ hw hl _
  exact ⟨hw.write hline, w.kept_write line, hl.closes hb⟩

theorem Ending.turn (hstep : ∀ b, Blocks.step b line = b.leave.enter)
    (hc : ∀ name ∈ line.computed, .inScope name ∈ env) (hb : line.bracing = .turns)
    (hline : line.Within v) (hx : Ending v calm held k masked (env.filter Fact.isLasting) x) :
    Ending v calm held k masked env (Build.writeLine line >>= fun _ => x) := by
  intro dag₀ s₀ dag w hs₀ ho henv hw hl hm
  obtain ⟨ho₁, henv₁⟩ := ho.turn hstep hc hs₀ henv
  have hrest := hx dag₀ s₀ dag (w.write line) hs₀ ho₁ henv₁ (hw.write hline) (hl.turns hb)
    (by rwa [w.masks_write])
  refine .bind (hrest.mono (fun _ w' h => ?_) fun halt w' h => ?_)
  · exact ⟨h.1, (w.kept_write line).trans h.2.1, h.2.2⟩
  · exact ⟨h.1, fun name hn => (h.2 name hn).of_write⟩

theorem steady_inScope {condition : Option Expr} (hl : Lawful held .growing env x fun _ => [])
    (hx : Steady v calm held k masked env x fun _ => True) :
    Steady v calm held (k + 1) masked env (Build.inScope condition x) fun _ => True := by
  intro dag w hs henv hw hlevel hm
  refine Build.ends_redraft ?_
  generalize hw₁ : w.redraft (·.enterScope condition) = w₁
  have hs₁ : Sound dag w₁.sheet := hw₁ ▸ hs.enterScope condition
  have henv₁ : ∀ f ∈ env ++ (held w₁.notes).map .known, f.Holds dag w₁.sheet := by
    intro f hf
    subst hw₁
    exact (henv f hf).of_stays (.of_nodes rfl rfl rfl) (fun _ h => h) (fun _ hm => hm)
      (.inr fun _ hm => hm)
  have hwithin : w₁.Within v held :=
    hw₁ ▸ { hw with sheet := ⟨hw.sheet.1, hw.sheet.2.rescope _⟩ }
  have hlevel₁ : w₁.sheet.draft.Level k := hw₁ ▸ hlevel.enterScope condition
  have hbody := (hx dag w₁ hs₁ henv₁ hwithin hlevel₁ (hw₁ ▸ hm)).and (hl dag w₁ hs₁ henv₁)
  refine .bind (hbody.mono (fun _ w₂ h₂ => ?_) fun halt w₂ h₂ => ⟨h₂.1.1, fun name hn => ?_⟩)
  · obtain ⟨⟨hw₂, hkept, hl₂, -⟩, dag₂, ha₂, -, -⟩ := h₂
    subst hw₁
    obtain ⟨hleave, -⟩ := ha₂.leave hs (.refl _)
    refine Build.ends_drafting (exitScope_of_leave hleave) ⟨?_, ?_, hl₂.leave hleave, trivial⟩
    · exact { hw₂ with sheet := ⟨hw₂.sheet.1, hw₂.sheet.2.rescope _⟩ }
    · exact ⟨hkept.targets, hkept.frames, hkept.masks⟩
  · subst hw₁
    exact (h₂.1.2 name hn).after rfl (.of_same rfl rfl)

def BreakTarget.depth : BreakTarget → Nat
  | .loop => 0
  | .switch => 1

namespace Build

def withTarget (target : BreakTarget) (x : Build ν Unit) : Build ν Unit := do
  redraft (·.pushTarget target)
  x
  let _ ← drafting .popTarget

def withMask (mask : Expr) (x : Build ν Unit) : Build ν Unit := do
  redraft (·.pushMask mask)
  x
  let _ ← drafting .popMask

end Build

theorem Draft.nesting_of_target (h : d.targets = target :: targets) :
    d.nesting = nesting { d with targets } + target.depth := by
  cases target with
  | loop => simp [nesting, inFunction, BreakTarget.depth, h]
  | switch =>
    simp only [nesting, inFunction, BreakTarget.depth, h, List.count_cons_self]
    omega

theorem popTarget_of_cons (h : d.targets = target :: targets) :
    Drafting.popTarget d = .ok target { d with targets } := by
  simp only [Drafting.popTarget, bind_get, h]
  rfl

theorem steady_withTarget (target : BreakTarget)
    (hx : Steady v calm held k masked env x fun _ => True) :
    Steady v calm held (k + target.depth) masked env (Build.withTarget target x) fun _ => True := by
  intro dag w hs henv hw hlevel hm
  refine Build.ends_redraft ?_
  have ha : Advance Line.computed dag w.sheet w.sheet.blocks dag
      (w.redraft (·.pushTarget target)).sheet := .of_outline hs rfl
  have hlevel₁ : (w.sheet.draft.pushTarget target).Level k := by
    refine hlevel.of_nesting rfl rfl ?_
    have hn : (w.sheet.draft.pushTarget target).nesting = w.sheet.draft.nesting + target.depth :=
      Draft.nesting_of_target rfl
    omega
  have hbody := hx dag (w.redraft (·.pushTarget target)) ha.sound
    (fun f hf => (henv f hf).advance ha fun _ h => h)
    { hw with sheet := ⟨hw.sheet.1, { hw.sheet.2 with }⟩ } hlevel₁ hm
  refine .bind (hbody.mono (fun _ w₂ h₂ => ?_) fun halt w₂ h₂ => ⟨h₂.1, fun name hn => ?_⟩)
  · obtain ⟨hw₂, hkept, hl₂, -⟩ := h₂
    have htargets : w₂.sheet.draft.targets = target :: w.sheet.draft.targets := hkept.targets
    refine .bind (Build.ends_drafting (popTarget_of_cons htargets) ⟨?_, ?_, ?_, trivial⟩)
    · exact { hw₂ with sheet := ⟨hw₂.sheet.1, { hw₂.sheet.2 with }⟩ }
    · exact ⟨rfl, hkept.frames, hkept.masks⟩
    · refine hl₂.of_nesting rfl rfl ?_
      rw [Draft.nesting_of_target htargets]
      have hsum (n m : Nat) : n + (k + m) = n + m + k := by omega
      exact hsum _ _
  · exact (h₂.2 name hn).after rfl (.of_same rfl rfl)

theorem popMask_of_cons {masks : List Expr} (h : d.masks = mask :: masks)
    (hne : masks ≠ []) : Drafting.popMask d = .ok mask { d with masks } := by
  obtain ⟨next, rest, rfl⟩ := List.exists_cons_of_ne_nil hne
  simp only [Drafting.popMask, bind_get, h]
  rfl

theorem steady_withMask (hmask : mask.Within v) (hplain : .plain mask ∈ env)
    (hvisible : .visible mask ∈ env) (hx : Steady v calm held k true env x fun _ => True) :
    Steady v calm held k true env (Build.withMask mask x) fun _ => True := by
  intro dag w hs henv hw hlevel hm
  refine Build.ends_redraft ?_
  have ha : Advance Line.computed dag w.sheet w.sheet.blocks dag
      (w.redraft (·.pushMask mask)).sheet := by
    refine .remask hs fun m hmem => ?_
    rcases List.mem_cons.mp hmem with rfl | hmem
    · exact henv _ (List.mem_append_left _ hplain)
    · exact hs.masks m hmem
  have hlevel₁ : (w.sheet.draft.pushMask mask).Level k := hlevel.of_nesting rfl rfl rfl
  have hw₁ : (w.redraft (·.pushMask mask)).Within v held := by
    refine { hw with sheet := ⟨hw.sheet.1, { hw.sheet.2 with masks := fun m hmem => ?_ }⟩ }
    rcases List.mem_cons.mp hmem with rfl | hmem
    · exact hmask
    · exact hw.sheet.2.masks m hmem
  have hbody := hx dag (w.redraft (·.pushMask mask)) ha.sound
    (fun f hf => (henv f hf).advance ha fun _ h => h) hw₁ hlevel₁ fun _ => List.cons_ne_nil _ _
  refine .bind (hbody.mono (fun _ w₂ h₂ => ?_) fun halt w₂ h₂ => ⟨h₂.1, fun name hn => ?_⟩)
  · obtain ⟨hw₂, hkept, hl₂, -⟩ := h₂
    rcases hkept.masks with hmasks | ⟨hcalm, seed, -, hmasks⟩
    · refine .bind (Build.ends_drafting (popMask_of_cons hmasks (hm rfl)) ⟨?_, ?_, ?_, trivial⟩)
      · exact { hw₂ with sheet := ⟨hw₂.sheet.1, { hw₂.sheet.2 with masks := hw.sheet.2.masks }⟩ }
      · exact ⟨hkept.targets, hkept.frames, .inl rfl⟩
      · exact hl₂.of_nesting rfl rfl rfl
    -- masks that were enabled anew are not there to be popped
    · simp only [Ends, Build.drafting, Build.emitting, Build.attempt, Emit.drafting, Drafting.popMask,
        Bind.bind, EStateM.bind, run_get, hmasks]
      exact ⟨.inr ⟨hcalm, rfl⟩, fun name hn => by cases hn⟩
  · have hv : (Fact.visible mask).Holds dag w.sheet := henv _ (List.mem_append_left _ hvisible)
    exact (h₂.2 name hn).after rfl ⟨fun _ h => h, [mask], w.sheet.draft.masks, rfl, .inl rfl,
      fun m hm => List.mem_singleton.mp hm ▸ hv.2⟩

end Blocks

end ComputeKernel
