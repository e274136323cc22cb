import ComputeKernel.Proofs.BalancedText
import ComputeKernel.Proofs.Layouts

namespace ComputeKernel

variable {α σ : Type}

abbrev SheetPlain : Judgement Emit := .moving fun s s' => s.draft.Plain s'.draft

theorem plain_of_keeps {x : Emit α} (h : Keeps (fun s : Sheet => s.draft.outlook) x) :
    SheetPlain _ x x := fun s =>
  (h s).mono (fun _ _ heq => .of_outlook heq) fun _ heq => .of_outlook heq

theorem plain_making (x : Making α) : SheetPlain _ (Emit.making x) (Emit.making x) :=
  plain_of_keeps fun _ => ensures_making (ensures_any (fun _ _ => rfl) fun _ => rfl)

theorem plain_drafting {x : Drafting α} (h : Keeps Draft.outlook x) :
    SheetPlain _ (Emit.drafting x) (Emit.drafting x) := plain_of_keeps (keeps_drafting h)

theorem plain_redraft {f : Draft → Draft} (h : ∀ d, (f d).outlook = d.outlook) :
    SheetPlain _ (Emit.redraft f) (Emit.redraft f) := plain_of_keeps fun s => h s.draft

theorem Draft.outlook_mark (d : Draft) (id : Nat) : (d.mark id).outlook = d.outlook := by
  have hdepth : (d.scopes.mark id).depth = d.scopes.depth := by
    unfold Scopes.mark
    split <;> rfl
  simp only [Draft.outlook, Draft.mark, hdepth]
  rfl

theorem plain_branch {x : Emit Unit} (hx : SheetPlain _ x x) (cond target value : Expr) (s : Sheet) :
    Ensures (Emit.branch cond target value x) s (fun _ s' => s.draft.Plain s'.draft)
      fun s' => s'.draft.aside = s.draft.aside ∧ s.draft.scopes.depth < s'.draft.scopes.depth := by
  refine .bind (ensures_redraft ?_)
  refine .bind ((hx _).mono (fun _ s₁ h₁ => ?_) fun _ h₁ => ⟨h₁.aside, h₁.depth⟩)
  refine .bind (ensures_nameOf (.bind (ensures_nameOf (Ensures.bind
    (ensures_write (ensures_drafting ?_))))))
  exact (h₁.trans (.write _ rfl (by simp))).exitScope

instance : SheetPlain.Emission fun _ => True where
  pure _ := fun s => .refl s.draft
  bind hx hf := Moves.bind (fun h h' => h.trans h') hx hf
  orFault r := plain_of_keeps (keeps_orFault r)
  typing e := plain_making (.typing e.inferType)
  nameOf e := plain_of_keeps (keeps_nameOf e)
  rename id name := plain_of_keeps (keeps_rename id name)
  write line hs := fun s => .write s.draft hs.flat hs.goesOn
  writeCall line _ hp _ := fun s => .write s.draft (Line.flat_of_callee? hp) (Line.goesOn_of_callee? hp)
  registerType ty := plain_drafting (keeps_registerType (fun _ _ _ => rfl) ty)
  registerResource res :=
    plain_drafting (keeps_registerResource (fun _ _ _ => rfl) (fun _ _ => rfl) res)
  noteWrite target := plain_of_keeps (keeps_noteWrite target)
  once e body body' h := by
    intro s
    by_cases hvisible : s.draft.scopes.isVisible e.id = true
    · exact ensures_ok (once_of_visible hvisible) (.refl s.draft)
    · refine .of_eq (once_of_hidden hvisible) ?_
      refine Moves.bind (fun h h' => h.trans h') (plain_making (.typing e.inferType))
        (fun ty => ?_) s
      exact Moves.bind (fun h h' => h.trans h') (h ty) fun _ =>
        plain_redraft fun d => d.outlook_mark e.id
  choose cond target yes no x x' y y' hx hy := by
    intro s
    refine .bind (ensures_nameOf (.bind (ensures_write ?_)))
    refine .bind ((plain_branch hx cond target yes _).mono (fun _ s₁ h₁ => ?_)
      fun _ h₁ => .of_open (h₁.1.trans (Draft.aside_write ..)) (by simpa [Draft.scopes_write] using h₁.2))
    refine .bind (ensures_write (Ensures.bind ?_))
    refine (plain_branch hy cond target no _).mono (fun _ s₂ h₂ => ensures_write (h₁.choose h₂))
      fun _ h₂ => ?_
    have haside := ((h₂.1.trans (Draft.aside_write ..)).trans h₁.aside).trans (Draft.aside_write ..)
    have hdepth := h₁.depth
    have hopen := h₂.2
    simp only [Draft.scopes_write] at hdepth hopen
    exact .of_open haside (by omega)

namespace Build

variable {ν β : Type} {p q r : Pending} {targets : List BreakTarget} {n : Nat} {w : Workspace ν}

def Plainly (x : Build ν α) : Prop :=
  ∀ w, Ensures x w (fun _ w' => w.sheet.draft.Plain w'.sheet.draft) fun _ => True

theorem Plainly.bind {x : Build ν α} {f : α → Build ν β} (hx : Plainly x)
    (hf : ∀ a, Plainly (f a)) : Plainly (x >>= f) := fun w =>
  .bind ((hx w).imp fun a w₁ h₁ => (hf a w₁).mono (fun _ _ h₂ => h₁.trans h₂) fun _ h => h)

theorem plainly_of_sheet {x : Build ν α}
    (h : ∀ w, Ensures x w (fun _ w' => w'.sheet = w.sheet) fun _ => True) : Plainly x := fun w =>
  (h w).imp (fun _ _ h' => .of_outlook (congrArg (·.draft.outlook) h'))

theorem plainly_pure (a : α) : Plainly (pure a : Build ν α) := plainly_of_sheet fun _ => rfl

variable {x : Emit α} {body : List Expr → Build ν (Option Expr)}

theorem plainly_attempt (h : SheetPlain _ x x) :
    Plainly (attempt x : Build ν (Except Fault α)) := fun w =>
  ensures_attempt (fun _ _ hx => (h w.sheet).of_ok hx) fun _ _ hx => (h w.sheet).of_error hx

theorem plainly_emitting (h : SheetPlain _ x x) : Plainly (emitting x : Build ν α) :=
  (plainly_attempt h).bind fun _ => plainly_of_sheet fun _ => ensures_must (fun _ _ => rfl) trivial

theorem plainly_tryEmit (e : Expr) : Plainly (tryEmit e : Build ν (Except Fault Expr)) := by
  have hvalue : SheetPlain _ (emitValue e) (emitValue e) := by
    have hemit := (e.judged_emit (J := SheetPlain) e.callsOnly_any).holds
    refine Moves.bind (fun h h' => h.trans h') hemit fun _ => ?_
    refine plain_of_keeps (.bind (fun _ => ?_) fun _ => ?_)
    · exact ensures_inDivergentRegion fun _ _ => rfl
    · exact keeps_ite (keeps_diverging _) (keeps_pure _)
  refine (plainly_attempt hvalue).bind fun r => ?_
  cases r <;> exact plainly_of_sheet fun _ => rfl

theorem plainly_emit {x : Build ν Expr} (hx : Plainly x) : Plainly (do emit (← x)) :=
  hx.bind fun e => (plainly_tryEmit e).bind fun r => plainly_of_sheet fun _ => by
    cases r <;> trivial

theorem plainly_redraft {f : Draft → Draft} (h : ∀ d, (f d).outlook = d.outlook) :
    Plainly (redraft f : Build ν Unit) := plainly_emitting (plain_redraft h)

theorem plainly_writeLine {line : Line} (hflat : line.bracing = .flat)
    (hgoesOn : line ≠ .breakLoop ∧ line ≠ .continueLoop) : Plainly (writeLine line : Build ν Unit) :=
  fun w => ensures_writeLine (.write w.sheet.draft hflat hgoesOn)

theorem markings_of_plainly {J : Tracking σ ν} [J.Chains]
    (hthrow : ∀ {D D' : σ} {K : Stock} {α : Type} [Bears α] (halt : Halt),
      J D D' K α (throw halt) (throw halt))
    (h : ∀ {α : Type} [Bears α] (x : Build ν α), Plainly x → J.On x) : Markings J where
  throw halt := hthrow halt
  node mk _ _ := h (node mk) (plainly_emitting (plain_making (.node mk)))
  place mk _ := h _ (plainly_emit (plainly_emitting (plain_making (.node mk))))
  literal l := h (making (.literal l)) (plainly_emitting (plain_making (.literal l)))
  array elem length init := h _ (plainly_emit (plainly_emitting
    (plain_making (.array elem length init))))
  swizzle e lanes := fun _ => h _ (plainly_attempt (plain_making (.swizzle e lanes)))
  typeOf e := fun _ => h (typeOf e) (plainly_emitting (plain_making (.typing e.inferType)))
  nameOf e := h (nameOf e) (plainly_of_sheet fun _ => rfl)
  rename e name := h _ (plainly_emitting (plain_of_keeps (keeps_rename e.id (.word name))))
  tryEmit e := fun _ => h _ (plainly_tryEmit e)
  builtin b := h (builtin b) (plainly_of_sheet fun _ => rfl)
  freshName stem := h (freshName stem) (plainly_of_sheet fun _ => rfl)
  draft := h draft (plainly_of_sheet fun _ => rfl)
  currentMask := h currentMask (plainly_emitting (plain_drafting keeps_currentMask))
  addShared name ty := h (drafting (.addShared name ty)) (plainly_emitting (plain_drafting
    (keeps_addShared (fun _ _ _ => rfl) (fun _ _ => rfl) name ty)))
  setGroupSize _ := h _ fun _ => ensures_setGroupSize (.of_outlook rfl) (fun _ => .refl _) trivial
  writeHeader text := h (writeHeader text) (plainly_redraft fun _ => rfl)
  writeLine _ hs _ := h _ (plainly_writeLine hs.flat hs.goesOn)
  ballot _ _ _ _ := h _ (plainly_writeLine rfl (by simp))
  noteSync := h (redraft Draft.noteSync) (plainly_redraft fun _ => rfl)
  seedMask seed := fun _ => h _ (plainly_redraft (f := (·.enableWave32 seed)) fun _ => rfl)

abbrev anyExits : Exits → Prop := fun _ => True

def Passes (D D' : Pending × (Exits → Prop)) (x : Build ν α) : Prop :=
  ∀ (d : Draft) w, d.Amid D.1 D.2 w.sheet.draft →
    Ensures x w (fun _ w' => d.Amid D'.1 D'.2 w'.sheet.draft) fun _ => True

def Laid : Tracking (Pending × (Exits → Prop)) ν := fun D D' _ _ _ x _ => Passes D D' x

abbrev Fenced : Judgement (Build ν) := fun _ x _ =>
  ∀ around, Passes (.within around, anyExits) (.within around, anyExits) x

section Passes

variable {D D₁ D₂ : Pending × (Exits → Prop)} {p q : Pending} {S : Exits → Prop} {x : Build ν α}

theorem passes_pure (a : α) : Passes D D (pure a : Build ν α) := fun _ _ hd => ensures_pure hd

theorem Passes.bind {f : α → Build ν β} (hx : Passes D D₁ x) (hf : ∀ a, Passes D₁ D₂ (f a)) :
    Passes D D₂ (x >>= f) := fun d w h =>
  .bind ((hx d w h).imp fun a w' h' => hf a d w' h')

theorem Plainly.passes (h : Plainly x) : Passes D D x := fun _ w hd =>
  (h w).imp (fun _ _ h' => hd.plain h')

theorem Plainly.fenced (h : Plainly x) : Fenced _ x x := fun _ => h.passes

theorem passes_of_each (h : ∀ e, ∃ S, Passes (p, (· = e)) (q, S) x) :
    Passes (p, anyExits) (q, anyExits) x := fun d w hd => by
  obtain ⟨e, he⟩ := hd.exact
  obtain ⟨S, hS⟩ := h e
  exact (hS d w he).imp (fun _ _ h' => h'.mono fun _ _ => trivial)

instance : (Laid : Tracking (Pending × (Exits → Prop)) ν).Chains where
  pure a _ := passes_pure a
  bind hx hf := Passes.bind hx hf
  grow _ hx := hx

instance : (Fenced : Judgement (Build ν)).Chains where
  pure a _ := passes_pure a
  bind hx hf around := (hx around).bind fun a => hf a around

instance : Markings (Untracked (Fenced : Judgement (Build ν))) :=
  markings_of_plainly (fun _ _ _ _ _ => trivial) fun _ h => h.fenced

end Passes

theorem plainly_popMask : Plainly (drafting .popMask : Build ν Expr) :=
  plainly_emitting (plain_drafting (keeps_popMask fun _ _ => rfl))

theorem plainly_spread (a b counter : Expr) : Plainly (spread a b counter : Build ν Unit) := by
  have hdiverging {α : Type} (x : Diverging α) : Plainly (emitting (.diverging x) : Build ν α) :=
    plainly_emitting (plain_of_keeps (keeps_diverging x))
  refine (hdiverging _).bind fun either => ?_
  split
  · exact hdiverging _
  · exact plainly_pure _

instance : Layouts (Laid : Tracking (Pending × (Exits → Prop)) ν) where
  toMarkings := markings_of_plainly (fun _ _ _ _ => trivial) fun _ h => h.passes
  opens _ _ h b _ _ := fun _ _ hd => ensures_writeLine (hd.write
    (by rw [h.bracing]; decide) (by unfold Line.enclosedAfter; rw [h.bracing, h.enclosure]))
  turns _ _ h j b _ _ := fun _ _ hd => ensures_writeLine (hd.write
    (by rw [h.bracing]; decide) (by unfold Line.enclosedAfter; rw [h.bracing, h.enclosure]))
  closes _ h k b _ _ := fun _ _ hd => ensures_writeLine (hd.write
    (by rw [h.bracing]; decide) (by unfold Line.enclosedAfter; rw [h.bracing]))
  pushTarget target _ _ _ := fun _ _ hd => ensures_redraft (hd.retarget (congrArg (target :: ·)))
  popTarget _ _ _ _ := fun _ _ hd => ensures_drafting hd.popTarget
  enterScope condition _ _ _ := fun _ _ hd => ensures_redraft (hd.enterScope condition)
  exitScope _ _ _ := fun _ _ hd => ensures_drafting hd.exitScope
  pushMask mask := (plainly_redraft (f := (·.pushMask mask)) fun _ => rfl).passes
  popMask := plainly_popMask.passes
  spread a b counter := (plainly_spread a b counter).passes

theorem laidCases_of_fenced {D D' : Events} {K : Stock} {cases cases' : List (UInt32 × Build ν Unit)}
    (h : TrackedCases (Untracked Fenced) K D D' cases cases') (around : List Layer) :
    LaidCases Laid (.within around) anyExits anyExits cases := by
  induction h with
  | nil => exact .nil _
  | cons label hcase _ ih => exact .cons label (hcase around) ih

theorem passes_breakLoop (around : List Layer) (e : Exits) :
    Passes (.within around, (· = e)) (.within around, (· = e ++ ⟨[⟨.breakLoop, around⟩], []⟩))
      (breakLoop : Build ν Unit) := by
  refine fun d w hd => .bind (ensures_drafting (.bind (ensures_get ?_)))
  rcases htargets : w.sheet.draft.targets with _ | ⟨_ | _, targets⟩
  · exact ensures_throw trivial
  · refine ensures_pure (ensures_writeLine (hd.exit (x := ⟨.breakLoop, around⟩) fun heq => ?_))
    exact .inl ⟨rfl, by rw [← heq, htargets]; rfl⟩
  · exact ensures_throw trivial

theorem passes_continueLoop (around : List Layer) (e : Exits) :
    Passes (.within around, (· = e)) (.within around, (· = e ++ ⟨[⟨.continueLoop, around⟩], []⟩))
      (continueLoop : Build ν Unit) := by
  refine fun d w hd => .bind (ensures_drafting (.bind (ensures_get ?_)))
  refine ensures_ite (fun _ => ensures_throw trivial) fun hloop => ensures_pure ?_
  refine ensures_writeLine (hd.exit (x := ⟨.continueLoop, around⟩) fun heq => ?_)
  exact .inr ⟨rfl, heq ▸ by simpa using hloop⟩

instance fenced_controls : Controls (Untracked (Fenced : Judgement (Build ν))) where
  enableWave32 := by unfold enableWave32 constant; exact Tracked.holds
  laneIf cond _ _ _ h around := layout_laneIf (J := Laid) cond (h (.branch :: around))
  laneIfElse cond _ _ _ _ _ h ho around :=
    layout_laneIfElse (J := Laid) cond (h (.branch :: around)) (ho (.branch :: around))
  maskedIf cond _ _ h around := layout_maskedIf (J := Laid) cond (h (.branch :: around))
  maskedIfElse cond _ _ _ _ h ho around :=
    layout_maskedIfElse (J := Laid) cond (h (.branch :: around)) (ho (.branch :: around))
  ifLaneActive h around := layout_ifLaneActive (J := Laid) (h (.branch :: around))
  forRange first last _ _ _ _ h around :=
    layout_forRange (J := Laid) first last fun i => h i (.loop :: around)
  laneWhile h around := layout_laneWhile (J := Laid) (h (.loop :: around))
  maskedWhile h around := layout_maskedWhile (J := Laid) (h (.loop :: around))
  switchOn value _ _ _ h around :=
    layout_switchOn (J := Laid) value (laidCases_of_fenced h (.switch :: around))
  breakLoop around := passes_of_each fun e => ⟨_, passes_breakLoop around e⟩
  continueLoop around := passes_of_each fun e => ⟨_, passes_continueLoop around e⟩
  transparentQuery scene ray _ _ h around :=
    layout_transparentQuery (J := Laid) scene ray fun c => h c (.query :: around)

theorem defineFunction_completes (p : Prototype) {S : Exits → Prop}
    (h : ∀ params, Passes (.within [.function], (· = {})) (.within [.function], S) (body params))
    (w : Workspace ν) : Ensures (defineFunction p body) w
    (fun _ w' => ∃ e, S e ∧ w.sheet.draft.Completes p e w'.sheet.draft) fun _ => True := by
  have hbody : Laid (.within [.function], (· = {})) (.within [.function], S) .all _
      (functionBody p body) (functionBody p body) := by
    have (params : List Expr) : Held Laid (.within [.function], (· = {})) (.within [.function], S)
      .all (body params) (body params) := ⟨h params⟩
    unfold functionBody; exact Tracked.holds
  rw [defineFunction_eq]
  refine .bind (ensures_must (fun header hheader => ?_) trivial)
  refine .bind (ensures_redraft (.bind (ensures_writeLine ?_)))
  refine .bind ((hbody _ _ (.enterFunction _ p header)).imp fun _ w₁ h₁ => ?_)
  refine .bind (ensures_writeLine (.bind (ensures_drafting ?_)))
  exact (h₁.exitFunction hheader).imp (fun _ _ h₂ => h₂)

theorem fenced_completes (p : Prototype) (h : ∀ params, Fenced _ (body params) (body params))
    (w : Workspace ν) : Ensures (defineFunction p body) w
    (fun _ w' => ∃ e, w.sheet.draft.Completes p e w'.sheet.draft) fun _ => True :=
  (defineFunction_completes p (S := anyExits)
    (fun params d w hd => h params [.function] d w (hd.mono fun _ _ => trivial)) w).mono
    (fun _ _ ⟨e, _, h'⟩ => ⟨e, h'⟩) fun _ h => h

instance fenced_definitions : Definitions (Untracked (Fenced : Judgement (Build ν))) where
  defineFunction p _ _ h around := fun d w hd => by
    obtain ⟨e, he⟩ := hd.exact
    exact (fenced_completes p h w).mono
      (fun _ _ ⟨_, h'⟩ => (he.define h').mono fun _ _ => trivial) fun _ h => h

end Build

namespace Script

open Build Scripted

theorem plainly_function? (name : String) :
    Plainly (Build.function? name : Scripted (Option Prototype)) := plainly_of_sheet fun _ => rfl

theorem fenced_function? (name : String) : Fenced _
    (Build.function? name : Scripted (Option Prototype)) (Build.function? name) := fun _ =>
  (plainly_function? name).passes

theorem plainly_divergenceOf (e : Expr) : Plainly (divergenceOf e : Scripted Divergence) :=
  plainly_emitting (plain_of_keeps (keeps_diverging _))

theorem plainly_inDivergentRegion : Plainly (inDivergentRegion : Scripted Bool) :=
  plainly_emitting (plain_of_keeps fun _ => ensures_inDivergentRegion fun _ _ => rfl)

theorem plainly_name : Plainly (do return (← get).name : Scripted String) :=
  plainly_of_sheet fun _ => rfl

theorem plainly_register (p : Prototype) : Plainly (Build.register p : Scripted Prototype) :=
  plainly_of_sheet fun _ => rfl

variable {J : Tracking σ Notebook}

theorem notes_of_plainly [Crafting J]
    (h : ∀ {α : Type} [Bears α] (x : Scripted α), Plainly x → J.On x) : Notes J where
  lookup _ := h _ (plainly_of_sheet fun _ => ensures_lookup (fun _ _ => rfl) trivial)
  bindName name e := fun _ => h (renote (·.bind name e)) (plainly_of_sheet fun _ => rfl)
  enterBody := h (renote (·.enterBody)) (plainly_of_sheet fun _ => rfl)
  leaveBody := h (renote (·.leaveBody)) (plainly_of_sheet fun _ => rfl)
  record label outcome := h (record label outcome) (plainly_of_sheet fun _ => rfl)
  askFunction name := h _ ((plainly_function? name).bind fun _ => plainly_pure _)
  describe e := h (do return (← get).sheet.nodes.describe e) (plainly_of_sheet fun _ => rfl)

theorem asking_of_plainly [Notes J]
    (h : ∀ {α : Type} [Bears α] (x : Scripted α), Plainly x → J.On x) : Asking J :=
  asking_of_answers (fun e => h _ (plainly_divergenceOf e)) (h _ plainly_inDivergentRegion)
    (h _ plainly_name)

instance fenced_noting : Noting (Untracked Fenced) := { fenced_controls, fenced_definitions,
    notes_of_plainly (J := Untracked Fenced) fun _ h => h.fenced with
    register := fun p _ => ((plainly_register p).bind fun _ => plainly_pure _).passes }

instance : Scripting (Untracked Fenced) :=
  { fenced_noting, asking_of_plainly (J := Untracked Fenced) fun _ h => h.fenced with }

section Programs

variable {settings : Settings} {first : Nat} {configured : Bool} {steps : List Step}
  {w : Workspace Notebook}

theorem nothing_open_of_program
    (h : program settings configured steps (.start settings first {}) = .ok () w) :
    w.sheet.draft.frames = [] ∧ w.sheet.draft.scopes.depth = 0 := by
  have hrun := lawful_program settings configured steps _ (.start settings first {})
    (Sound.start settings first) (by simp [Workspace.start, Notebook.held])
  obtain ⟨dag, hadv, -, -⟩ := hrun.of_ok h
  have henclosing := congrArg Prod.fst hadv.enclosing
  exact ⟨List.map_eq_nil_iff.mp henclosing, congrArg (·.visible.length) hadv.stack⟩

theorem outline_of_program {S : Exits → Prop}
    (hprogram : Passes (.within [], (· = {})) (.within [], S) (program settings configured steps))
    (h : program settings configured steps (.start settings first {}) = .ok () w) :
    ∃ e, S e ∧ Outline w.sheet.draft.functions [] e.functions ∧
      Outline w.sheet.draft.body [] e.page := by
  obtain ⟨hframes, hdepth⟩ := nothing_open_of_program h
  have hstart : (Workspace.start settings first ({} : Notebook)).sheet.draft.Amid (.within []) (· = {})
      (Workspace.start settings first ({} : Notebook)).sheet.draft :=
    ⟨Nat.zero_le _, fun _ => ⟨{}, rfl, rfl, rfl, ⟨[], rfl, .nil⟩, List.prefix_rfl, .nil⟩⟩
  obtain ⟨e, he, htext⟩ := ((hprogram _ _ hstart).of_ok h).text hdepth
  obtain ⟨functions, hfunctions, houtline⟩ := htext.functions
  have hlines := htext.lines
  simp only [Draft.lines, hframes, Workspace.start, Draft.start, List.nil_append] at hfunctions hlines
  exact ⟨e, he, hfunctions ▸ houtline, hlines⟩

theorem lines_of_program
    (h : program settings configured steps (.start settings first {}) = .ok () w) :
    Stands [] w.sheet.draft.functions [] ∧ Stands [] w.sheet.draft.body [] := by
  have hprogram := judged_program (J := Fenced) fenced_function? settings configured steps []
  obtain ⟨_, -, hfunctions, hbody⟩ := outline_of_program
    (fun d w hd => hprogram d w (hd.mono fun _ _ => trivial)) h
  exact ⟨hfunctions.stands, hbody.stands⟩

end Programs

end Script

def Kernel.Prints (k : Kernel) (functions body : List Line) : Prop :=
  ∃ before size, k.text = before ++ Line.textOf functions ++ Draft.entryHeader size ++
    Line.textOf body ++ "\x7d\n"

theorem Workspace.prints_of_finish {ν : Type} {w : Workspace ν} {k : Kernel}
    (h : w.finish = .ok k) : k.Prints w.sheet.draft.functions w.sheet.draft.body := by
  obtain ⟨text, htext, h⟩ := exists_of_bind h
  obtain ⟨manifest, -, h⟩ := exists_of_bind h
  cases h
  obtain ⟨-, -, resources, -, rfl⟩ := Draft.finish_eq_ok htext
  exact ⟨_, _, rfl⟩

namespace Script

theorem exits_stand_in_loops (settings : Settings) (first : Nat) (configured : Bool)
    (steps : List Step) (w : Workspace Notebook)
    (h : program settings configured steps (.start settings first {}) = .ok () w) :
    ExitsStand w.sheet.draft.functions ∧ enclosedAfter [] w.sheet.draft.functions = some [] ∧
      ExitsStand w.sheet.draft.body ∧ enclosedAfter [] w.sheet.draft.body = some [] ∧
        ∀ k, w.finish = .ok k → k.Prints w.sheet.draft.functions w.sheet.draft.body := by
  obtain ⟨hfunctions, hbody⟩ := lines_of_program h
  exact ⟨hfunctions.exitsStand, hfunctions.enclosedAfter, hbody.exitsStand, hbody.enclosedAfter,
    fun _ hk => Workspace.prints_of_finish hk⟩

def leaving : List Step :=
  [ .act ⟨"lit", some "c"⟩ (.value (.constant (.bool [true]))),
    .act ⟨"var", some "v"⟩ (.value (.variableOf (.constant (.u32 [1])))),
    .loop "while" false
      [ .switchOn "switch" "v"
          [ (0, [.act ⟨"continue", none⟩ (.command .continueLoop)]),
            (1, [.forRange "for" (.constant (.u32 [0])) (.value "v") none
              [.act ⟨"break", none⟩ (.command .breakLoop)]]) ],
        .define "define" "define_body" (.ok (.fixed "f" .void [])) []
          [.loop "while" true [.act ⟨"break", none⟩ (.command .breakLoop)]] none,
        .ifThen "if" false "c" [.act ⟨"break", none⟩ (.command .breakLoop)] ] ]

theorem leaving_stands :
    ∃ w, program { Settings.default with wave32 := true } true leaving
        (.start { Settings.default with wave32 := true } 1 {}) = .ok () w ∧
      (w.sheet.draft.functions.map Line.text).count "break;\n" = 1 ∧
      (w.sheet.draft.body.map Line.text).count "break;\n" = 2 ∧
      (w.sheet.draft.body.map Line.text).count "continue;\n" = 1 ∧
      ExitsStand w.sheet.draft.functions ∧ ExitsStand w.sheet.draft.body := by
  obtain ⟨_, w, hrun, hfunctions, hbody, hcontinue⟩ := exists_ok_of_ensures
    (program { Settings.default with wave32 := true } true leaving)
    (.start { Settings.default with wave32 := true } 1 {})
    (fun _ w => (w.sheet.draft.functions.map Line.text).count "break;\n" = 1 ∧
      (w.sheet.draft.body.map Line.text).count "break;\n" = 2 ∧
      (w.sheet.draft.body.map Line.text).count "continue;\n" = 1) (by decide +kernel)
  have hstand := exits_stand_in_loops _ 1 true leaving w hrun
  exact ⟨w, hrun, hfunctions, hbody, hcontinue, hstand.1, hstand.2.2.1⟩

end Script

end ComputeKernel
