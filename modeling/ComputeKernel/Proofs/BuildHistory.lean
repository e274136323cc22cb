import ComputeKernel.Proofs.BracketedScripts
import ComputeKernel.Proofs.DivergentRegions

namespace ComputeKernel

def Workspace.draft {ν : Type} (w : Workspace ν) : Draft := w.sheet.draft

structure Sheet.Leads (s s' : Sheet) : Prop where
  draft : s.draft.Leads s'.draft
  marks : KeepsMarks s.nodes.modes s'.nodes.modes

section Leads

variable {s s' s'' : Sheet} {α : Type}

theorem Sheet.Leads.trans (h : s.Leads s') (h' : s'.Leads s'') : s.Leads s'' :=
  ⟨h.draft.trans h'.draft, h.marks.trans h'.marks⟩

theorem Sheet.Leads.of_eq (h : s' = s) : s.Leads s' := h ▸ ⟨.refl _, .of_eq rfl⟩

theorem leads_of_steps {x : Emit α} (h : Emit.Steps (fun _ => True) x)
    (hmodes : Keeps (fun s : Sheet => s.nodes.modes) x) : Moves Sheet.Leads x := fun s =>
  ((h.drafts s).and (hmodes s)).mono (fun _ _ h => ⟨h.1, .of_eq h.2⟩) fun _ h => ⟨h.1, .of_eq h.2⟩

theorem leads_making {x : Making α} (h : Keeps Nodes.modes x) : Moves Sheet.Leads (Emit.making x) :=
  fun s => ensures_making ((h s.nodes).mono (fun _ _ h => ⟨.refl _, .of_eq h⟩)
    fun _ h => ⟨.refl _, .of_eq h⟩)

theorem leads_diverging {x : Diverging α} (h : ∀ modes, KeepsMarks modes (x modes).2) :
    Moves Sheet.Leads (Emit.diverging x) := fun _ => ⟨.refl _, h _⟩

theorem leads_force (id : Nat) : Moves Sheet.Leads (Emit.diverging (.force id)) :=
  leads_diverging fun _ => keepsMarks_force id

theorem leads_inDivergentRegion : Moves Sheet.Leads Emit.inDivergentRegion := fun _ =>
  ⟨.refl _, fun _ h => Expr.anyDivergent_retains _ _ _ _ h⟩

theorem leads_emitValue (e : Expr) : Moves Sheet.Leads (Build.emitValue e) := by
  have hemit : Moves Sheet.Leads e.emit := fun s =>
    (((e.emit_steps fun _ _ => trivial).drafts s).and (e.emit_written Sheet.Marks s)).mono
      (fun _ _ h => ⟨h.1, h.2⟩) fun _ h => ⟨h.1, h.2⟩
  refine .bind .trans hemit fun _ => .bind .trans leads_inDivergentRegion fun divergent => ?_
  cases divergent with
  | false => exact fun _ => Sheet.Leads.of_eq rfl
  | true => exact leads_force e.id

end Leads

namespace Build

variable {ν α : Type}

def Leading (x : Build ν α) : Prop := Moves (fun w w' => w.sheet.Leads w'.sheet) x

theorem Leading.bind {β : Type} {x : Build ν α} {f : α → Build ν β} (hx : Leading x)
    (hf : ∀ a, Leading (f a)) : Leading (x >>= f) := Moves.bind .trans hx hf

theorem leading_aside {x : Build ν α} (h : Keeps Workspace.sheet x) : Leading x := fun w =>
  (h w).mono (fun _ _ hw => .of_eq hw) fun _ hw => .of_eq hw

variable {x : Emit α}

theorem leading_attempt (h : Moves Sheet.Leads x) : Leading (attempt x : Build ν _) := fun w =>
  ensures_attempt (fun _ _ he => (h w.sheet).of_ok he) fun _ _ he => (h w.sheet).of_error he

theorem leading_emitting (h : Moves Sheet.Leads x) : Leading (emitting x : Build ν _) := by
  refine .bind (leading_attempt h) fun r => ?_
  cases r with
  | ok a => exact leading_aside (keeps_pure a)
  | error fault => exact leading_aside (keeps_throw _)

theorem leading_making {x : Making α} (h : Keeps Nodes.modes x) :
    Leading (making x : Build ν _) := leading_emitting (leads_making h)

theorem leading_drafting {x : Drafting α} (c : Draft.Change) (h : ∀ d, c.apply d = final (x d)) :
    Leading (drafting x : Build ν _) :=
  leading_emitting (leads_of_steps (steps_drafting c h) fun _ => ComputeKernel.ensures_drafting
    (ensures_any (fun _ _ => rfl) fun _ => rfl))

theorem leading_asking {x : Drafting α} (h : Keeps (fun d => d) x) :
    Leading (drafting x : Build ν _) :=
  leading_emitting (leads_of_steps (steps_asking h) fun _ => ComputeKernel.ensures_drafting
    (ensures_any (fun _ _ => rfl) fun _ => rfl))

theorem leading_redraft {f : Draft → Draft} (c : Draft.Change) (h : ∀ d, c.apply d = f d) :
    Leading (redraft f : Build ν _) :=
  leading_emitting (leads_of_steps (steps_redraft c h) fun _ => rfl)

theorem leading_setGroupSize (size : GroupSize) : Leading (setGroupSize size : Build ν _) := by
  refine fun w => .bind (.bind (ensures_get (ensures_pure ?_)))
  have hs := Draft.Leads.change w.sheet.draft (.setGroupSize size)
  cases hset : w.sheet.draft.setGroupSize size with
  | error failure => cases failure <;> exact Sheet.Leads.of_eq rfl
  | ok d =>
    rw [Draft.Change.apply, hset] at hs
    exact ⟨hs, .of_eq rfl⟩

theorem leading_tryEmit (e : Expr) : Leading (tryEmit e : Build ν _) := by
  refine .bind (leading_attempt (leads_emitValue e)) fun r => ?_
  cases r with
  | ok _ => exact leading_aside fun _ => rfl
  | error fault => exact leading_aside (keeps_pure _)

theorem leading_spread (first last counter : Expr) :
    Leading (spread first last counter : Build ν _) := by
  have hasked := first.divergence_retains.either last.divergence_retains
  refine .bind (leading_emitting (leads_diverging fun _ _ h => hasked _ _ _ h)) fun _ => ?_
  split
  · exact leading_emitting (leads_force _)
  · exact leading_aside (keeps_pure ())

def left : FunctionEvent := .callsName ""

def Departs (halt : Halt) (P : Workspace ν → Prop) : Tracking Events ν :=
  fun D D' _ _ _ x x' => ∀ w, w.sheet.Leads (final (x w)).sheet ∧
    (x' w = x w ∧ ((∃ a w', x w = .ok a w') → left ∈ D' → left ∈ D) ∨
      ∃ w₁, x' w = .error halt w₁ ∧ P w₁ ∧ w₁.sheet.Leads (final (x w)).sheet)

section Departs

variable {halt : Halt} {P : Workspace ν → Prop} {D D₁ D₂ : Events} {K : Stock} [Bears α]
  {x x' : Build ν α}

theorem Leading.departs (h : Leading x) : Departs halt P D D K _ x x := fun w =>
  ⟨(h w).final, .inl ⟨rfl, fun _ h => h⟩⟩

theorem departs_aside (h : Keeps Workspace.sheet x) : Departs halt P D D K _ x x :=
  (leading_aside h).departs

theorem Departs.leading (h : Departs halt P D D₁ K _ x x') : Leading x := by
  intro w
  have hleads := (h w).1
  unfold Ensures
  cases hrun : x w <;> simpa only [hrun, final] using hleads

theorem Departs.of_iff (h : Departs halt P D D₁ K _ x x') (hD : left ∈ D₁ ↔ left ∈ D₂) :
    Departs halt P D D₂ K _ x x' := fun w => by simpa only [hD] using h w

theorem Departs.bind {β : Type} [Bears β] {f f' : α → Build ν β}
    (hx : Departs halt P D D₁ K _ x x')
    (hf : ∀ a, Departs halt P D₁ D₂ (K.adding a) _ (f a) (f' a)) :
    Departs halt P D D₂ K _ (x >>= f) (x' >>= f') := by
  intro w
  obtain ⟨hfirst, hparts⟩ := hx w
  have hsecond : (final (x w)).sheet.Leads (final ((x >>= f) w)).sheet := by
    cases hrun : x w with
    | error other w₁ =>
      rw [run_bind_error hrun]
      exact .of_eq rfl
    | ok a w₁ =>
      rw [run_bind_ok hrun]
      exact (hf a w₁).1
  refine ⟨hfirst.trans hsecond, ?_⟩
  rcases hparts with ⟨hsame, hpast⟩ | ⟨w₁, hleft, hw₁, hleads⟩
  · cases hrun : x w with
    | error other w₁ =>
      rw [run_bind_error hrun, run_bind_error (hsame.trans hrun)]
      exact .inl ⟨rfl, fun ⟨_, _, h⟩ => by cases h⟩
    | ok a w₁ =>
      rw [run_bind_ok hrun, run_bind_ok (hsame.trans hrun)]
      refine (hf a w₁).2.imp (fun ⟨hsame', hpast'⟩ => ⟨hsame', fun hok hD => ?_⟩) id
      exact hpast ⟨a, w₁, hrun⟩ (hpast' hok hD)
  · exact .inr ⟨w₁, run_bind_error hleft, hw₁, hleads.trans hsecond⟩

theorem departs_throw (other : Halt) :
    Departs halt P D D₁ K α (throw other) (throw other) := fun _ =>
  ⟨.of_eq rfl, .inl ⟨rfl, fun ⟨_, _, h⟩ => by cases h⟩⟩

instance : (Departs halt P).Chains where
  pure a _ := departs_aside (keeps_pure a)
  bind hx hf := hx.bind hf
  grow _ hx := hx

instance : FunctionStatements (Departs halt P) where
  throw halt := departs_throw halt
  node _ _ _ := Leading.departs (leading_making fun _ => rfl)
  place _ _ := Tracking.Chains.emitted (Leading.departs (leading_making fun _ => rfl))
    (fun e => (leading_tryEmit e).departs) fun halt => departs_throw halt
  literal l := (leading_making (@Session.forms_literal [] l).keeps_modes).departs
  array elem length init := Tracking.Chains.emitted
    (leading_making (@Session.forms_array [] elem length init).keeps_modes).departs
    (fun e => (leading_tryEmit e).departs) fun halt => departs_throw halt
  swizzle e lanes := fun _ => (leading_attempt (leads_making
    (Session.forms_swizzle lanes (List.mem_singleton_self e)).keeps_modes)).departs
  typeOf _ := fun _ => (leading_emitting (leads_of_steps (steps_typing trivial) fun _ =>
    ensures_typing (ensures_any (fun _ _ => rfl) fun _ => rfl))).departs
  nameOf _ := departs_aside fun _ => rfl
  rename e name := (leading_emitting
    (leads_of_steps (steps_rename e.id (.word name)) fun _ => rfl)).departs
  tryEmit e := fun _ => (leading_tryEmit e).departs
  builtin _ := departs_aside fun _ => rfl
  freshName _ := departs_aside fun _ => rfl
  draft := departs_aside fun _ => rfl
  currentMask := (leading_asking keeps_currentMask).departs
  addShared name ty := (leading_drafting (.addShared name ty) fun _ => rfl).departs
  setGroupSize size := (leading_setGroupSize size).departs
  writeHeader text := (leading_redraft (.writeHeader text) fun _ => rfl).departs
  writeLine line _ _ := (leading_redraft (.write line) fun _ => rfl).departs
  ballot _ _ _ _ := (leading_redraft (.write _) fun _ => rfl).departs
  noteSync := (leading_redraft .noteSync fun _ => rfl).departs
  seedMask seed := fun _ => (leading_redraft (.enableWave32 seed) fun _ => rfl).departs
  line line _ := (leading_redraft (.write line) fun _ => rfl).departs
  enterScope condition := (leading_redraft (.enterScope condition) fun _ => rfl).departs
  exitScope := (leading_drafting .exitScope fun _ => rfl).departs
  pushTarget target := (leading_redraft (.pushTarget target) fun _ => rfl).departs
  popTarget := (leading_drafting .popTarget fun _ => rfl).departs
  pushMask mask := fun _ => (leading_redraft (.pushMask mask) fun _ => rfl).departs
  popMask := (leading_drafting .popMask fun _ => rfl).departs
  checkBreak what := (leading_asking (keeps_checkBreak what)).departs
  checkContinue := (leading_asking keeps_checkContinue).departs
  spread first last counter := (leading_spread first last counter).departs
  enterFunction := (leading_redraft .enterFunction fun _ => rfl).departs
  openFunction p header := (leading_redraft (.write (.openFunction p header)) fun _ => rfl).departs
  exitFunction := (leading_drafting .exitFunction fun _ => rfl).departs

end Departs

end Build

namespace Script

open Build Scripted

variable {halt : Halt} {P : Workspace Notebook → Prop}

instance : Noting (Departs halt P) where
  toDefinitions := definitions_of_statements fun _ =>
    Departs.of_iff (departs_aside fun _ => rfl) (by simp [left])
  lookup _ := departs_aside fun _ => ensures_lookup (fun _ _ => rfl) rfl
  bindName _ _ := fun _ => departs_aside fun _ => rfl
  enterBody := departs_aside fun _ => rfl
  leaveBody := departs_aside fun _ => rfl
  record _ _ := departs_aside fun _ => rfl
  askFunction _ := departs_aside fun _ => rfl
  register _ := Departs.of_iff (departs_aside fun _ => rfl) (by simp [left])
  describe _ := departs_aside fun _ => rfl

instance : Scripting (Departs halt P) := scripting_of_answers (fun e => (leading_emitting
      (leads_diverging fun _ _ h => e.divergence_retains _ _ _ h)).departs)
    (leading_emitting leads_inDivergentRegion).departs (departs_aside fun _ => rfl)

instance : Operating (Departs halt P) where
  calls _ _ := ⟨fun _ _ _ => ⟨departs_aside (keeps_pure _)⟩,
    fun _ _ _ => ⟨departs_aside fun _ => rfl⟩⟩

theorem Built.leading {α : Type} {x : Scripted α} (h : Built α x) : Leading x := by
  obtain ⟨_, _, hx⟩ := h (Departs (.unbound "") fun _ => True)
  exact hx.leading

theorem Reaches.draft {settings : Settings} {first : Nat} {configured : Bool} {steps : List Step}
    {w : Workspace Notebook} (h : Reaches settings first configured steps w) :
    (Draft.start settings).Leads w.draft := by
  have hp := (built_program settings configured steps).leading (.start settings first {})
  rcases h with h | ⟨name, h⟩
  · exact (hp.of_ok h).draft
  · exact (hp.of_error h).draft

end Script

inductive Draft.Reached : Draft → Prop
  | session (settings : Settings) (first : Nat) (steps : List Session.Step) :
    Reached (steps.foldl Session.after (.start settings first)).draft
  | script {settings : Settings} {first : Nat} {configured : Bool} {steps : List Script.Step}
    {w : Workspace Script.Notebook} (h : Script.Reaches settings first configured steps w) :
    Reached w.draft

theorem Draft.Reached.leads {d : Draft} (h : d.Reached) :
    ∃ settings, (Draft.start settings).Leads d := by
  cases h with
  | session settings first steps =>
    obtain ⟨_, hcomes⟩ := Session.run_comes (Session.placed_start settings first) steps
    exact ⟨settings, hcomes.drafts⟩
  | script h => exact ⟨_, h.draft⟩

end ComputeKernel
