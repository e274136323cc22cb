import ComputeKernel.Proofs.LastingDivergence

namespace ComputeKernel.Script

open Build

section Exits

variable {settings : Settings} {first : Nat} {configured : Bool} {steps : List Step}
  {w w' : Workspace Notebook}

theorem keeps_exit {check : Drafting Unit} (hcheck : Keeps Draft.scopes check) (line : Line) :
    Keeps (fun w : Workspace Notebook => (w.sheet.draft.scopes, w.sheet.nodes.modes))
      (do drafting check; writeLine line) := fun w =>
  .bind (Build.ensures_drafting ((hcheck w.sheet.draft).mono
    (fun _ _ hd => ensures_writeLine (congrArg (·, _) ((Draft.scopes_write _ _).trans hd)))
    fun _ hd => congrArg (·, _) hd))

theorem Reaches.conditions (h : Reaches settings first configured steps w) {step : Step}
    (hrun : step.run w = .ok () w') :
    w'.sheet.draft.scopes.conditions = w.sheet.draft.scopes.conditions := by
  obtain ⟨dag, hpoised⟩ := h.poised (fits_any _)
  have hlawful : Lawful Notebook.held .growing [] step.run fun _ => [] := lawful_step step
  obtain ⟨dag', hadvance, -⟩ :=
    (hlawful dag w hpoised.sound (by simpa using hpoised.held)).of_ok hrun
  rw [Scopes.conditions, hadvance.stack]
  rfl

/-- Under a divergent condition every assignment leaves its target and the storage behind it divergent. -/
theorem assigned_divergent_in_region (settings : Settings) (first : Nat) (configured : Bool)
    (steps : List Step) (w : Workspace Notebook) (h : Reaches settings first configured steps w) :
    (∀ exit ∈ [breakLoop, continueLoop], ∀ w', exit w = .ok () w' →
      w'.sheet.draft.scopes = w.sheet.draft.scopes ∧ w'.sheet.nodes.modes = w.sheet.nodes.modes) ∧
    (∀ step w', Step.run step w = .ok () w' →
      w'.sheet.draft.scopes.conditions = w.sheet.draft.scopes.conditions) ∧
    ∀ op target o e w', op.isAssign = true → w.sheet.region = .divergent →
      Build.binary op (.value target) o w = .ok e w' → w'.sheet.DivergentStorage target := by
  refine ⟨fun exit hexit w' hrun => ?_, fun step w' => h.conditions,
    fun op target o e w' hop hregion hrun => ?_⟩
  · have hkeeps : Keeps (fun w : Workspace Notebook =>
        (w.sheet.draft.scopes, w.sheet.nodes.modes)) exit := by
      rcases List.mem_cons.mp hexit with rfl | hexit
      · exact keeps_exit (keeps_checkBreak "break") .breakLoop
      · rw [List.mem_singleton.mp hexit]
        exact keeps_exit keeps_checkContinue .continueLoop
    exact Prod.mk.inj ((hkeeps w).of_ok hrun)
  · obtain ⟨dag, hpoised⟩ := h.poised (fits_any _)
    obtain ⟨htarget, hroot⟩ := marks_of_binary (fresh_of_sound hpoised.sound) hregion hop hrun
    exact ⟨htarget.reports, hroot.reports⟩

end Exits

def sharedLoop (body : List Step) : List Step :=
  [ .act ⟨"input", some "lane"⟩ (.value (.input (.ok (.custom "v_lane" .bool)))),
    .act ⟨"var", some "count"⟩ (.value (.variableOf (.constant (.u32 [0])))),
    .loop "while" true body ]

def someLanes (body : List Step) : Step := .ifThen "lane_if" true "lane" body

def quit : Step := .act ⟨"break", none⟩ (.command .breakLoop)

theorem tally_divergent_after_quit :
    ∃ e w w', program .default false (sharedLoop [someLanes [quit], someLanes [abandoned]])
        (.start .default 1 {}) = .error (.unbound "here") w ∧
      w.sheet.region = .divergent ∧
      Build.binary .addAssign tally (.constant (.u32 [1])) w = .ok e w' ∧
      w'.sheet.DivergentStorage tally := by
  obtain ⟨w, hrun, hregion, hadds⟩ := exists_place
    (sharedLoop [someLanes [quit], someLanes [abandoned]])
    (fun w => w.sheet.region = .divergent ∧
      Ensures (Build.binary .addAssign tally (.constant (.u32 [1]))) w (fun _ _ => True)
        fun _ => False) (by decide +kernel)
  obtain ⟨e, w', hadd, -⟩ := exists_ok_of_ensures _ _ _ hadds
  obtain ⟨-, -, hstorage⟩ := assigned_divergent_in_region .default 1 false _ w (.inr ⟨_, hrun⟩)
  exact ⟨e, w, w', hrun, hregion, hadd, hstorage .addAssign tally _ e w' rfl hregion hadd⟩

theorem tally_uniform_after_quit :
    (∃ w, program .default false (sharedLoop [abandoned]) (.start .default 1 {}) =
      .error (.unbound "here") w ∧ w.sheet.region = .uniform) ∧
    (∃ w, program .default false (sharedLoop [someLanes [abandoned]]) (.start .default 1 {}) =
      .error (.unbound "here") w ∧ w.sheet.region = .divergent) ∧
    ∃ w, program .default false (sharedLoop [someLanes [quit],
        .act ⟨"compound", none⟩ (.command (.update .addAssign "count" (.constant (.u32 [1])))),
        abandoned]) (.start .default 1 {}) = .error (.unbound "here") w ∧
      w.sheet.reports tally = .uniform ∧ w.sheet.reports tally.lvalueRoot = .uniform :=
  ⟨exists_place _ _ (by decide +kernel), exists_place _ _ (by decide +kernel),
    exists_place _ _ (by decide +kernel)⟩

end ComputeKernel.Script
