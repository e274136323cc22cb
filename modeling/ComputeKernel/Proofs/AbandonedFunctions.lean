import ComputeKernel.Proofs.BuildHistory

namespace ComputeKernel

namespace Drafting

def closeScopes : Nat → Drafting Unit
  | 0 => pure ()
  | n + 1 => do
    exitScope
    closeScopes n

def completeFunction : Drafting Unit := do
  closeScopes (← get).scopes.depth
  exitFunction

end Drafting

namespace Draft

open Drafting

variable {d : Draft} {frame : Frame} {frames : List Frame}

theorem exitFunction_outside (h : d.frames = []) : exitFunction d = .error .noOpenFunction d := by
  simp only [exitFunction, bind_get, h]
  rfl

theorem exitFunction_ended (h : d.frames = frame :: frames) (hdepth : d.scopes.depth = 0) :
    exitFunction d = .ok () (d.afterFunction frame frames) := by
  simp only [exitFunction, bind_get, set, h, hdepth]
  rfl

theorem exitFunction_unended (h : d.frames = frame :: frames) (hdepth : d.scopes.depth ≠ 0) :
    exitFunction d = .error .functionLeftScope { d with frames } := by
  simp only [exitFunction, bind_get, set, h, if_pos hdepth]
  rfl

theorem exists_closeScopes (d : Draft) (hd : d.scopes.Matched) :
    ∃ scopes : Scopes, scopes.depth = 0 ∧ closeScopes d.scopes.depth d = .ok () { d with scopes } := by
  generalize hn : d.scopes.depth = n
  induction n generalizing d with
  | zero => exact ⟨d.scopes, hn, rfl⟩
  | succ n ih =>
    cases hleave : d.scopes.leave? with
    | none =>
      rw [Memo.leave?_eq_none_iff hd, hn] at hleave
      cases hleave
    | some outer =>
      have hdepth := Scopes.depth_leave hleave
      obtain ⟨scopes, hbottom, hclose⟩ := ih { d with scopes := outer }
        (Memo.matched_leave hd hleave) (show outer.depth = n by omega)
      exact ⟨scopes, hbottom, (run_bind_ok (exitScope_of_leave hleave)).trans hclose⟩

theorem completeFunction_eq (d : Draft) (hd : d.scopes.Matched) :
    ∃ scopes : Scopes, scopes.depth = 0 ∧
      completeFunction d = exitFunction { d with scopes } := by
  obtain ⟨scopes, hdepth, hclose⟩ := d.exists_closeScopes hd
  exact ⟨scopes, hdepth, run_bind_ok hclose⟩

theorem completeFunction_inside (hd : d.scopes.Matched) (h : d.frames = frame :: frames) :
    completeFunction d = .ok () (d.afterFunction frame frames) := by
  obtain ⟨scopes, hdepth, hcomplete⟩ := d.completeFunction_eq hd
  exact hcomplete.trans (exitFunction_ended h hdepth)

theorem completeFunction_outside (hd : d.scopes.Matched) (h : d.frames = []) :
    ∃ scopes : Scopes, completeFunction d = .error .noOpenFunction { d with scopes } := by
  obtain ⟨scopes, -, hcomplete⟩ := d.completeFunction_eq hd
  exact ⟨scopes, hcomplete.trans (exitFunction_outside h)⟩

/-- To end a function where a scope is left open fails, and its frame is gone with all it has held. -/
theorem failed_exitFunction_drops_frame (d : Draft) (fault : Fault) (d' : Draft)
    (h : exitFunction d = .error fault d') :
    (d.inFunction = false ∧ fault = .noOpenFunction ∧ d' = d) ∨
      ∃ frame frames, d.frames = frame :: frames ∧ d.scopes.depth ≠ 0 ∧
        fault = .functionLeftScope ∧ d' = { d with frames } ∧ d' ≠ d ∧
        (∀ other, exitFunction { d with frames := other :: frames } = .error fault d') ∧
        (d.scopes.Matched → completeFunction d = .ok () (d.afterFunction frame frames) ∧
          (frames = [] → ∃ scopes, completeFunction d' = .error .noOpenFunction { d' with scopes }) ∧
          ∀ outer rest, frames = outer :: rest →
            completeFunction d' = .ok () (d'.afterFunction outer rest)) := by
  cases hframes : d.frames with
  | nil =>
    rw [exitFunction_outside hframes] at h
    cases h
    exact .inl ⟨by rw [inFunction, hframes]; rfl, rfl, rfl⟩
  | cons frame frames =>
    by_cases hdepth : d.scopes.depth = 0
    · rw [exitFunction_ended hframes hdepth] at h
      cases h
    · have hexit := exitFunction_unended hframes hdepth
      rw [hexit] at h
      injection h with hfault hrest
      have hframes' : d'.frames = frames := by rw [← hrest]
      have hscopes : d'.scopes = d.scopes := by rw [← hrest]
      refine .inr ⟨frame, frames, rfl, hdepth, hfault.symm, hrest.symm, fun heq => ?_, fun other => ?_,
        fun hd => ⟨completeFunction_inside hd hframes,
          fun hnone => completeFunction_outside (hscopes ▸ hd) (hframes'.trans hnone),
          fun _ _ houter => completeFunction_inside (hscopes ▸ hd) (hframes'.trans houter)⟩⟩
      · have hlost : frames = frame :: frames := hframes'.symm.trans (heq ▸ hframes)
        exact List.cons_ne_self _ _ hlost.symm
      · rw [← hfault, ← hrest]
        exact exitFunction_unended (d := { d with frames := other :: frames }) rfl hdepth

def interrupted : List Session.Step :=
  [⟨.enterFunction, none⟩, ⟨.write "return;\n", none⟩, ⟨.enterScope none, none⟩]

theorem interrupted_lost :
    ∃ d d' d'', Reached d ∧ exitFunction d = .error .functionLeftScope d' ∧
      (d.inFunction, d.text) = (true, "return;\n") ∧ (d'.inFunction, d'.text) = (false, "") ∧
      exitScope d' = .ok () d'' ∧ exitFunction d'' = .error .noOpenFunction d'' :=
  ⟨_, _, _, Reached.session .default 1 interrupted, rfl, by decide +kernel, by decide +kernel, rfl, rfl⟩

theorem interrupted_drops_frame :
    ∃ d d' frame, Reached d ∧ exitFunction d = .error .functionLeftScope d' ∧
      d.frames = [frame] ∧ d' = { d with frames := [] } ∧
      completeFunction d = .ok () (d.afterFunction frame []) ∧
      ∃ scopes, completeFunction d' = .error .noOpenFunction { d' with scopes } := by
  have hexit : exitFunction (interrupted.foldl Session.after (.start .default 1)).draft =
      .error .functionLeftScope _ := rfl
  refine ⟨_, _, _, Reached.session .default 1 interrupted, hexit, rfl, rfl, ?_⟩
  obtain ⟨-, hfault, -⟩ | ⟨frame, frames, hframes, -, -, -, -, -, hmatched⟩ :=
    failed_exitFunction_drops_frame _ _ _ hexit
  · cases hfault
  · obtain ⟨rfl, rfl⟩ := List.cons.inj hframes
    obtain ⟨hcomplete, hfails, -⟩ := hmatched rfl
    exact ⟨hcomplete, hfails rfl⟩

end Draft

end ComputeKernel
