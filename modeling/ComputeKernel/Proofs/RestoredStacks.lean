import ComputeKernel.Proofs.BracketedScripts

namespace ComputeKernel

structure Draft.Restored (d d' : Draft) : Prop where
  scopes : d'.scopes.stack = d.scopes.stack
  targets : d'.targets = d.targets
  masks : d'.masks = d.masks
  enclosing : d'.enclosing = d.enclosing
  around : d'.frames.map Frame.targets = d.frames.map Frame.targets

section Finishing

def Failure.leavesOpen : Failure → Bool
  | .fault .functionOpen | .fault (.scopesOpen _) => true
  | _ => false

def LeavesNothingOpen {α : Type} (x : Except Failure α) : Prop :=
  ∀ failure, x = .error failure → failure.leavesOpen = false

variable {α : Type}

theorem leavesNothingOpen_ok (a : α) : LeavesNothingOpen (.ok a) :=
  nofun

theorem leavesNothingOpen_error {failure : Failure} (h : failure.leavesOpen = false) :
    LeavesNothingOpen (.error failure : Except Failure α) := fun _ hf => by cases hf; exact h

theorem LeavesNothingOpen.bind {β : Type} {x : Except Failure α} {f : α → Except Failure β}
    (hx : LeavesNothingOpen x) (hf : ∀ a, LeavesNothingOpen (f a)) :
    LeavesNothingOpen (x >>= f) := by
  cases x with
  | error failure => exact fun failure' h => hx failure' (by cases h; rfl)
  | ok a => exact hf a

theorem Declaration.leavesNothingOpen_typeText (res : Resource) :
    LeavesNothingOpen ((typeText? res).mapError Failure.fault) := by
  have hfault : ∀ fault, typeText? res = .error fault → (Failure.fault fault).leavesOpen = false := by
    intro fault h
    unfold typeText? at h
    repeat' split at h
    all_goals cases h
    all_goals rfl
  cases h : typeText? res with
  | ok text => exact leavesNothingOpen_ok text
  | error fault => exact leavesNothingOpen_error (hfault fault h)

theorem Declaration.leavesNothingOpen_ofResource (next : UInt32) (res : Resource) :
    LeavesNothingOpen (ofResource next res) := by
  refine (leavesNothingOpen_typeText res).bind fun typeText => ?_
  dsimp only
  split
  · exact leavesNothingOpen_error rfl
  · split
    · split
      · exact leavesNothingOpen_ok _
      · exact leavesNothingOpen_error rfl
    · exact leavesNothingOpen_ok _
  · exact leavesNothingOpen_ok _
  · exact leavesNothingOpen_ok _

theorem Declaration.leavesNothingOpen_ofResources (next : UInt32) (resources : List Resource) :
    LeavesNothingOpen (ofResources next resources) := by
  induction resources generalizing next with
  | nil => exact leavesNothingOpen_ok []
  | cons res rest ih =>
    exact (leavesNothingOpen_ofResource next res).bind fun declared =>
      (ih declared.2).bind fun _ => leavesNothingOpen_ok _

theorem Workspace.leavesNothingOpen_finish {ν : Type} {w : Workspace ν}
    (hf : w.sheet.draft.frames = []) (hs : w.sheet.draft.scopes.stack = {}) :
    LeavesNothingOpen w.finish := by
  have hdeclared : LeavesNothingOpen w.sheet.draft.declarations :=
    Declaration.leavesNothingOpen_ofResources _ _
  have hdraft : LeavesNothingOpen w.sheet.draft.finish := by
    have hin : w.sheet.draft.inFunction = false := by rw [Draft.inFunction, hf]; rfl
    have hdepth : w.sheet.draft.scopes.depth = 0 := by rw [Scopes.depth, hs]; rfl
    simp only [Draft.finish, hin, hdepth]
    refine LeavesNothingOpen.bind ?_ fun _ => leavesNothingOpen_ok _
    unfold Draft.resourceSection
    split
    · exact hdeclared.bind fun _ => leavesNothingOpen_ok _
    · exact leavesNothingOpen_ok _
  exact hdraft.bind fun _ => (hdeclared.bind fun _ => leavesNothingOpen_ok _).bind fun _ =>
    leavesNothingOpen_ok _

end Finishing

namespace Script

variable {v : Vocabulary} {dag : Dag} {w : Workspace Notebook}

def Step.inner : Step → List Part
  | .act .. => []
  | step => step.parts

def Step.isDefinition : Step → Bool
  | .define .. => true
  | _ => false

def Step.defined? : Step → Option Prototype
  | .define _ _ (.ok p) .. => some p
  | _ => none

section Halts

theorem enableWave32_spared (hw : w.Within v Notebook.held) :
    Ends Build.enableWave32 w (fun _ _ => True) fun halt _ => halt.Spared v true :=
  .bind ((Build.obeys_constant _ w hw).mono (fun _ _ _ => trivial) fun _ _ h => h.1.spared)

theorem configure_spared (settings : Settings) (hw : w.Within v Notebook.held) :
    Ends (Build.configure settings) w (fun _ _ => True) fun halt _ => halt.Spared v true := by
  refine .bind ((Build.obeys_setGroupSize _ w hw).mono (fun r w' h => ?_)
    fun _ _ h => h.1.spared)
  cases r with
  | error fault => exact h.2.2
  | ok _ =>
    change Ends (if settings.wave32 then Build.enableWave32 else pure ()) w' _ _
    split
    · exact enableWave32_spared h.1
    · trivial

theorem step_spared (h : Poised v dag w) {step : Step} (hfits : Fits v false step.parts)
    (hcalm : ∀ part ∈ step.inner, part.enables = false) :
    Ends step.run w (fun _ _ => True) fun halt _ => halt.Spared v true := by
  have hsteady (hall : ∀ part ∈ step.parts, part.enables = false) :
      Ends step.run w (fun _ _ => True) fun halt _ => halt.Spared v true := by
    have hfits' : Fits v true step.parts := fun part hp => ⟨(hfits part hp).1, fun _ => hall part hp⟩
    exact (h.steady (steady_step step hfits')).mono (fun _ _ _ => trivial) fun _ _ h => h.1
  match step with
  | .act heading action =>
    cases he : (Part.action action).enables with
    | false => exact hsteady fun part hp => by rw [List.mem_singleton.mp hp, he]
    | true =>
      unfold Part.enables at he
      split at he
      · rename_i heq
        cases heq
        exact .bind (.bind ((enableWave32_spared h.within).mono (fun _ _ _ => trivial)
          fun _ _ h => h))
      · cases he
  | .ifThen .. | .ifElse .. | .ifLaneActive .. | .forRange .. | .loop .. | .switchOn .. | .define ..
  | .transparentQuery .. => exact hsteady hcalm

variable {steps : List Step}

theorem runAll_spared (hfits : Fits v false (partsOf steps))
    (hcalm : ∀ step ∈ steps, ∀ part ∈ step.inner, part.enables = false) (h : Poised v dag w) :
    Ends (runAll steps) w (fun _ _ => True) fun halt _ => halt.Spared v true := by
  induction steps generalizing dag w with
  | nil => trivial
  | cons step steps ih =>
    obtain ⟨hstep, hsteps⟩ := fits_append.mp hfits
    have hspared := step_spared h hstep (hcalm step (by simp))
    refine .bind (.of_runs (fun _ w' hrun => ?_) fun halt w' hrun => hspared.of_error hrun)
    obtain ⟨dag', h'⟩ := h.after (lawful_step step) (steady_step step hstep) hrun
    exact ih hsteps (fun step' hs => hcalm step' (by simp [hs])) h'

theorem program_spared (settings : Settings) (first : Nat) (configured : Bool)
    (hfits : Fits v false (partsOf steps))
    (hcalm : ∀ step ∈ steps, ∀ part ∈ step.inner, part.enables = false) : Ends
    (program settings configured steps) (.start settings first {}) (fun _ _ => True) fun halt _ =>
    halt.Spared v true := by
  have h := Poised.start v settings first
  unfold program
  split
  · have hspared := configure_spared settings h.within
    refine .bind (.of_runs (fun _ w' hrun => ?_) fun halt w' hrun => hspared.of_error hrun)
    obtain ⟨dag', h'⟩ := h.after (Build.lawful_configure settings)
      (Build.steady_configure settings) hrun
    exact runAll_spared hfits hcalm h'
  · exact runAll_spared hfits hcalm h

theorem isInternal_of_spared {halt : Halt} (h : halt.Spared .candid true) {fault : Fault}
    (hf : halt = .fatal fault ∨ halt = .refused fault) : fault.isInternal = false := by
  have hadmits : Vocabulary.candid.Admits fault := by
    rcases hf with rfl | rfl
    · exact h.resolve_right fun hc => by cases hc.1
    · exact h
  by_contra hne
  exact hne (hadmits (by simpa using hne))

end Halts

section Stacks

variable {step : Step} {w' : Workspace Notebook}

theorem restored_of_ok (h : Poised v dag w) (hcalm : Fits v true step.parts)
    (hrun : step.run w = .ok () w') : w.sheet.draft.Restored w'.sheet.draft := by
  obtain ⟨-, hkept, -, -⟩ := (h.steady (steady_step step hcalm)).of_ok hrun
  have hlawful : Lawful Notebook.held .growing [] step.run fun _ => [] := lawful_step step
  obtain ⟨dag', hadv, -, -⟩ := (hlawful dag w h.sound (by simpa using h.held)).of_ok hrun
  have hmasks : w'.sheet.draft.masks = w.sheet.draft.masks := by
    rcases hkept.masks with hmasks | ⟨hcalm, -⟩
    · exact hmasks
    · cases hcalm
  exact ⟨hadv.stack, hkept.targets, hmasks, hadv.enclosing, hkept.frames⟩

theorem rejoined_of_ok (h : Poised v dag w)
    (hfits : Fits v true step.parts) (hdef : step.isDefinition = true)
    (hrun : step.run w = .ok () w') :
    ∃ p ∈ step.defined?, w.sheet.draft.Rejoined p w'.sheet.draft := by
  cases step with
  | define label bodyLabel callee =>
    obtain ⟨p, rfl, hjoined⟩ := (define_ends h hfits).of_ok hrun
    exact ⟨p, rfl, hjoined⟩
  | _ => cases hdef

theorem closed_of_program {settings : Settings} {first : Nat} {configured : Bool}
    {steps : List Step} (hrun : program settings configured steps (.start settings first {}) =
      .ok () w) : LeavesNothingOpen w.finish := by
  obtain ⟨dag, hadv, -, -⟩ := (lawful_program settings configured steps _ _
    (Sound.start settings first) (by simp [Workspace.start, Notebook.held])).of_ok hrun
  refine Workspace.leavesNothingOpen_finish ?_ hadv.stack
  exact List.map_eq_nil_iff.mp (congrArg Prod.fst hadv.enclosing)

def searching : Step :=
  .define "define" "define_body" (.ok (.fixed "f" .u32 [])) []
    [ .ifElse "if" false "c"
        [.loop "while" false [.act ⟨"break", none⟩ (.command .breakLoop)]]
        [.switchOn "switch" "n" [(0, []), (1, [.ifLaneActive "if_lane_active" []])]] ] (some "n")

def masking (steps : List Step) : List Step :=
  [ .act ⟨"enable_wave32", none⟩ (.command .enableWave32),
    .act ⟨"lit", some "c"⟩ (.value (.constant (.bool [true]))),
    .act ⟨"lit", some "n"⟩ (.value (.constant (.u32 [3]))),
    .ifThen "if" false "c" [.loop "while" false steps] ]

theorem fits_masking_searching : Fits .candid false (partsOf (masking [searching])) := by
  intro part hp
  simp only [masking, searching, partsOf, Step.parts, partsOfCases, partsOfCase, List.append_nil,
    List.nil_append, List.cons_append, List.mem_cons, List.not_mem_nil, or_false] at hp
  rcases hp with rfl | rfl | rfl | rfl | rfl
  case inr.inr.inr.inl =>
    refine ⟨⟨trivial, fun q hq => ?_, trivial⟩, fun h => ?_⟩
    · cases hq
    · cases h
  all_goals exact ⟨trivial, fun h => by cases h⟩

end Stacks

end Script

end ComputeKernel
