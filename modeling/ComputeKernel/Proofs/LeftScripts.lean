import ComputeKernel.Proofs.BuildHistory
import ComputeKernel.Proofs.CallOrder
import ComputeKernel.Proofs.DivergenceProbes
import ComputeKernel.Proofs.StandingExits

namespace ComputeKernel

def Workspace.Grown {ν : Type} (w w' : Workspace ν) : Prop :=
  w.sheet.draft.functions <+: w'.sheet.draft.functions

theorem Draft.Change.functions (c : Change) (d : Draft) : d.functions <+: (c.apply d).functions := by
  have same {d' : Draft} (h : d'.functions = d.functions) : d.functions <+: d'.functions :=
    h ▸ List.prefix_rfl
  cases c with
  | write line => exact same (congrArg (·.2.1) (d.context_write line))
  | exitFunction =>
    have h : Ensures Drafting.exitFunction d (fun _ d' => d.functions <+: d'.functions)
        fun d' => d.functions <+: d'.functions :=
      ensures_exitFunction (fun _ _ _ _ => List.prefix_append _ _) List.prefix_rfl
        fun _ _ _ => List.prefix_rfl
    exact h.final
  | exitScope => exact same (keeps_exitScope (fun _ _ => rfl) d).final
  | popTarget => exact same (keeps_popTarget (fun _ _ => rfl) d).final
  | popMask => exact same (keeps_popMask (fun _ _ => rfl) d).final
  | registerType ty => exact same (keeps_registerType (fun _ _ _ => rfl) ty d).final
  | registerResource res =>
    exact same (keeps_registerResource (fun _ _ _ => rfl) (fun _ _ => rfl) res d).final
  | addShared name ty =>
    exact same (keeps_addShared (fun _ _ _ => rfl) (fun _ _ => rfl) name ty d).final
  | setGroupSize size =>
    dsimp only [apply, Draft.setGroupSize]
    cases size.check <;> exact List.prefix_rfl
  | _ => exact same rfl

theorem Sheet.Leads.functions {s s' : Sheet} (h : s.Leads s') :
    s.draft.functions <+: s'.draft.functions :=
  h.draft.keeps (P := fun d => s.draft.functions <+: d.functions)
    (fun c d hd => hd.trans (c.functions d)) List.prefix_rfl

namespace Script

open Build Scripted

variable {halt : Halt} {P : Workspace Notebook → Prop} {p : Prototype} {K : Stock}

inductive LeftAfter (halt : Halt) (p : Prototype) : List Step → Scripted Unit → Prop
  | here {step : Step} (steps : List Step) : .returns p ∈ step.ownEvents →
      LeftAfter halt p (step :: steps) (step.run >>= fun _ => throw halt)
  | later (step : Step) {steps : List Step} {x : Scripted Unit} : LeftAfter halt p steps x →
      LeftAfter halt p (step :: steps) (step.run >>= fun _ => x)
  | within (step : Step) (i : Nat) (steps : List Step) {x : Scripted Unit} :
      LeftAfter halt p (step.body i) x →
        LeftAfter halt p (step :: steps)
          (step.runBy (fun j => if j = i then x else runAll (step.body j)) >>= fun _ => runAll steps)

def EndsDefining (p : Prototype) (lines : List Line) : Prop :=
  ∃ before definition, lines = before ++ definition ∧ Draft.IsDefinition p definition

variable {step : Step} {w : Workspace Notebook} {steps : List Step} {x : Scripted Unit}

theorem endsDefining_of_run {w' : Workspace Notebook} (hp : .returns p ∈ step.ownEvents)
    (h : step.run w = .ok () w') : EndsDefining p w'.sheet.draft.functions := by
  cases step with
  | define label bodyLabel callee params body result =>
    cases callee with
    | error fault => cases hp
    | ok q =>
      cases List.mem_singleton.mp hp
      have : Held (Untracked Fenced) ([] : Events) [] .all (runAll body) (runAll body) :=
        ⟨judged_runAll (J := Fenced) fenced_function? body⟩
      have hbody (values : List Expr) : Untracked Fenced ([] : Events) [] .all _
          (defining bodyLabel params (runAll body) result values)
          (defining bodyLabel params (runAll body) result values) := by
        unfold defining; exact Tracked.holds
      have hcompletes := fenced_completes p hbody w
      have hdefine : Ensures (Step.define label bodyLabel (.ok p) params body result).run w
          (fun _ w' => EndsDefining p w'.sheet.draft.functions) fun _ => True := by
        rw [Step.run]
        refine .bind (ensures_pure (.bind (hcompletes.imp fun _ w₁ h₁ => ?_)))
        obtain ⟨_, hcompletes⟩ := h₁
        obtain ⟨before, definition, hfunctions, -, -, hdefinition⟩ := hcompletes.functions
        exact ⟨w.sheet.draft.functions ++ before, definition, by simpa using hfunctions, hdefinition⟩
      exact hdefine.of_ok h
  | act heading action =>
    change .returns p ∈ action.events at hp
    unfold Action.events at hp
    split at hp <;> simp at hp
  | _ => cases hp

theorem LeftAfter.ne_nil (h : LeftAfter halt p steps x) : steps ≠ [] := by
  cases h <;> exact List.cons_ne_nil _ _

theorem departs_within {i : Nat} (hi : i < step.bodies.length)
    (h : ∀ K, Departs halt P [] [left] K _ (runAll (step.body i)) x) : Departs halt P [] [left] K _
    step.run (step.runBy fun j => if j = i then x else runAll (step.body j)) := by
  have hbodies (j : Nat) : Departs halt P (if j ≤ i then [] else [left])
      (if j + 1 ≤ i then [] else [left]) .all _ (runAll (step.body j))
      (if j = i then x else runAll (step.body j)) := by
    rcases Nat.lt_trichotomy j i with hlt | rfl | hgt
    · rw [if_pos (Nat.le_of_lt hlt), if_pos (Nat.succ_le_of_lt hlt), if_neg (Nat.ne_of_lt hlt)]
      exact (built_runAll _).leading.departs
    · rw [if_pos (Nat.le_refl j), if_neg (Nat.not_succ_le_self j), if_pos rfl]
      exact h .all
    · rw [if_neg (by omega), if_neg (by omega), if_neg (Nat.ne_of_gt hgt)]
      exact (built_runAll _).leading.departs
  have hstep := holds_runBy (K := .all) (D := fun j => if j ≤ i then [] else [left]) hbodies step
    (Operating.calls _ _)
  rw [if_pos (Nat.zero_le i), if_neg (Nat.not_le_of_lt hi)] at hstep
  rw [step.run_eq]
  exact hstep.of_iff (by simp)

theorem LeftAfter.departs (h : LeftAfter halt p steps x) : ∀ K, Departs halt
    (fun w => EndsDefining p w.sheet.draft.functions) [] [left] K _ (runAll steps) x := by
  induction h with
  | @here step steps hp =>
    intro K w
    rw [runAll_cons]
    refine ⟨((built_step step).leading.bind (fun _ => (built_runAll steps).leading) w).final, ?_⟩
    cases hrun : step.run w with
    | error other w₁ =>
      rw [run_bind_error hrun, run_bind_error hrun]
      exact .inl ⟨rfl, fun ⟨_, _, h⟩ => by cases h⟩
    | ok _ w₁ =>
      rw [run_bind_ok hrun, run_bind_ok hrun]
      exact .inr ⟨w₁, rfl, endsDefining_of_run hp hrun, ((built_runAll steps).leading w₁).final⟩
  | later step _ ih =>
    intro K
    rw [runAll_cons]
    exact (built_step step).leading.departs.bind fun _ => ih _
  | within step i steps hbody ih =>
    intro K
    have hi : i < step.bodies.length := by
      by_contra hlong
      refine hbody.ne_nil ?_
      rw [Step.body, List.getD_eq_getElem?_getD, List.getElem?_eq_none (Nat.le_of_not_lt hlong),
        Option.getD_none]
    rw [runAll_cons]
    exact (departs_within hi ih).bind fun _ => (built_runAll steps).leading.departs

theorem LeftAfter.exists_grown {settings : Settings} {first : Nat} {configured : Bool}
    (hleft : LeftAfter halt p steps x)
    (h : program settings configured steps (.start settings first {}) = .ok () w) : ∃ w₁, begun
    settings configured x (.start settings first {}) = .error halt w₁ ∧ EndsDefining p
    w₁.sheet.draft.functions ∧ w₁.Grown w := by
  have hbody : Held (Departs halt fun w => EndsDefining p w.sheet.draft.functions) [] [left] .all
      (runAll steps) x := ⟨hleft.departs _⟩
  have hbegun : Departs halt (fun w => EndsDefining p w.sheet.draft.functions) [] [left] .all _
      (program settings configured steps) (begun settings configured x) := by
    unfold program begun
    exact Tracked.holds
  rcases (hbegun (.start settings first {})).2 with ⟨-, hpast⟩ | ⟨w₁, hstop, hends, hleads⟩
  · exact absurd (hpast ⟨(), w, h⟩ (List.mem_singleton_self _)) List.not_mem_nil
  · rw [h] at hleads
    exact ⟨w₁, hstop, hends, hleads.functions⟩

end Script

end ComputeKernel
