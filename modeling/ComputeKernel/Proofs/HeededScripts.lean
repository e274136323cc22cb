import ComputeKernel.Proofs.BracketedScripts
import ComputeKernel.Proofs.HeededControl

namespace ComputeKernel.Script

open Build Scripted
open Bears (items)

def Part.names : Part → List String
  | .action (.value a) => a.names
  | _ => []

def PlainParts (parts : List Part) : Prop := ∀ part ∈ parts, ∀ name ∈ part.names, ¬IsMaskName name

theorem plainParts_append {parts more : List Part} :
    PlainParts (parts ++ more) ↔ PlainParts parts ∧ PlainParts more := List.forall_mem_append

def branchPhase (byLane : Bool) (body otherwise : Phase → Option Phase) (p : Phase) : Option Phase :=
  if byLane = true ∨ p = .idle then (body p).bind otherwise
  else if body .masked = some .masked ∧ otherwise .masked = some .masked then some p
  else none

theorem branchPhase_cases {byLane : Bool} {body otherwise : Phase → Option Phase}
    (h : branchPhase byLane body otherwise p = some p') :
    byLane = true ∧ (∃ q, body p = some q ∧ otherwise q = some p') ∨
      byLane = false ∧ (p = .idle ∧ (∃ q, body .idle = some q ∧ otherwise q = some p') ∨
        p ≠ .idle ∧ body .masked = some .masked ∧ otherwise .masked = some .masked ∧ p' = p) := by
  unfold branchPhase at h
  split at h
  next hplain =>
    have hbodies := Option.bind_eq_some_iff.mp h
    cases byLane with
    | true => exact .inl ⟨rfl, hbodies⟩
    | false =>
      obtain rfl : p = .idle := hplain.resolve_left (by decide)
      exact .inr ⟨rfl, .inl ⟨rfl, hbodies⟩⟩
  next hmasked =>
    obtain ⟨hlane, hp⟩ := not_or.mp hmasked
    obtain ⟨⟨hbody, hother⟩, ⟨⟩⟩ := Option.ite_none_right_eq_some.mp h
    exact .inr ⟨by simpa using hlane, .inr ⟨hp, hbody, hother, rfl⟩⟩

mutual

def Step.phase? : Step → Phase → Option Phase
  | .act _ (.command .enableWave32), p => if p = .idle then some .whole else none
  | .act _ _, p => some p
  | .ifThen _ byLane _ body, p | .loop _ byLane body, p => branchPhase byLane (phaseOf? body) some p
  | .ifElse _ byLane _ body otherwise, p =>
    branchPhase byLane (phaseOf? body) (phaseOf? otherwise) p
  | .ifLaneActive _ body, p | .forRange _ _ _ _ body, p | .transparentQuery _ _ _ _ body _, p =>
    phaseOf? body p
  | .switchOn _ _ cases, p => phaseOfCases? cases p
  | .define _ _ _ _ body _, p => if p = .masked then none else phaseOf? body p

def phaseOf? : List Step → Phase → Option Phase
  | [], p => some p
  | step :: steps, p => (step.phase? p).bind (phaseOf? steps)

def phaseOfCases? : List (UInt32 × List Step) → Phase → Option Phase
  | [], p => some p
  | case :: cases, p => (phaseOfCase? case p).bind (phaseOfCases? cases)

def phaseOfCase? : UInt32 × List Step → Phase → Option Phase
  | (_, body), p => phaseOf? body p

end

variable {p p' : Phase} {known : List Expr}

theorem heeds_renote {f : Notebook → Notebook} (h : ∀ n, (f n).held ⊆ known ++ n.held) :
    Heeds p p known (renote f) where
  ends w hw hp := by
    refine (⟨⟨Nat.le_refl _, Nat.le_refl _, .refl _⟩, fun e he => hw e ?_, .inl rfl, hp, fun _ => rfl,
      fun ho _ => ⟨ho.of_guards ho.labelled (.refl _ _) (fun _ h => h) rfl, fun _ => .refl _ _⟩⟩ :
        w.Done p p [] { w with notes := f w.notes })
    rcases List.mem_append.mp (show e ∈ (f w.notes).held ++ w.sheet.draft.masks from he) with he | he
    · have := h _ he
      simp only [List.mem_append] at this ⊢
      tauto
    · simp [he]

theorem heeds_lookup (name : String) : Heeds p p known (lookup name) where
  ends w hw hp := by
    cases h : w.notes.bound.lookup name with
    | none =>
      rw [Ends, lookup_unbound h]
      exact fun _ _ => .refl hw hp
    | some e =>
      have hheld : e ∈ w.notes.held := held_of_lookup h
      rw [Ends, lookup_bound h]
      refine .refl (fun d hd => hw d ?_) hp
      simp only [nodes_expr, List.mem_append, List.mem_singleton] at hd ⊢
      rcases hd with rfl | hd
      · exact .inr (.inl hheld)
      · exact .inr hd

theorem heeds_function? (name : String) :
    Heeds p p known (Build.function? name : Scripted (Option Prototype)) := by
  refine heeds_of_calm fun w _ => ⟨.refl w, fun e he => ?_⟩
  have hitem : .value e ∈ items (w.callables.find? name) := mem_nodes.mp he
  generalize w.callables.find? name = found at hitem
  cases found with
  | none => cases hitem
  | some callee => cases List.mem_singleton.mp hitem

instance : Unnamed Outcome := ⟨fun outcome _ => by cases outcome <;> simp [items]⟩

instance : Notes Heeding where
  lookup name := heeding_of fun _ _ => heeds_lookup name
  bindName name e := fun h => heeding_of fun known hK => heeds_renote fun n => by
    cases name with
    | none => exact List.subset_append_right _ _
    | some name =>
      exact List.cons_subset.mpr
        ⟨List.mem_append_left _ (hK.value e h.value), List.subset_append_right _ _⟩
  enterBody := heeding_of fun _ _ => heeds_renote fun _ => List.subset_append_right _ _
  leaveBody := heeding_of fun _ _ => heeds_renote fun _ => List.subset_append_right _ _
  record label outcome := heeding_of fun _ _ => heeds_bind (heeds_reading fun w => w.sheet.draft)
    fun _ => heeds_renote fun _ => List.subset_append_right _ _
  askFunction name := heeding_of fun _ _ => heeds_bind (heeds_function? name) fun _ =>
    heeds_pure _ (List.nil_subset _)
  describe e := heeding_of fun _ _ => heeds_reading fun w => w.sheet.nodes.describe e

instance : Asking Heeding :=
  asking_of_answers (fun e => heeding_of fun _ _ => heeds_divergingOf e.divergence)
    (heeding_of fun _ _ => heeds_of_emit fun _ _ _ => heeds_inDivergentRegion)
    (heeding_of fun _ _ => heeds_reading fun w => w.name)

theorem mayCall_heeding (p : Phase) (events : Events) : MayCall Heeding p events where
  calls q _ _ := ⟨heeding_of fun _ _ => heeds_pure q (List.nil_subset _)⟩
  callsName name _ _ := ⟨heeding_of fun _ _ => heeds_function? name⟩

theorem heeding_act (heading : Heading) {a : Action} (h : PlainParts [.action a])
    (hc : a ≠ .command .enableWave32) :
    Heeding p p (listed []) _ (Step.act heading a).run (Step.act heading a).run := by
  refine tracked_act heading (mayCall_heeding p _) (fun v hv => ?_)
    (fun c hc' => tracked_laneCommand fun h => hc (hc' ▸ h ▸ rfl)) fun q => ?_
  · subst hv
    exact tracked_laneAction v (mayCall_heeding p _) (h _ (List.mem_singleton_self _))
  · have (K : Stock) : Meets Heeding p K (given (.ok q)) :=
      ⟨heeding_of fun _ _ => heeds_pure q (List.nil_subset _)⟩
    have (q : Prototype) (K : Stock) : Meets Heeding p K (Build.register q) :=
      ⟨heeding_of fun _ _ => heeds_register q⟩
    unfold Query.perform; infer_instance

def Steps.Heeding (steps : List Step) : Prop :=
  ∀ {p p' : Phase}, PlainParts (partsOf steps) → phaseOf? steps p = some p' →
    Build.Heeding p p' (listed []) _ (runAll steps) (runAll steps)

theorem heeding_runCases {cases : List (UInt32 × List Step)}
    (hbodies : ∀ i, Steps.Heeding ((cases.map Prod.snd).getD i []))
    (hnames : PlainParts (partsOfCases cases)) (h : phaseOfCases? cases p = some p') :
    TrackedCases Heeding (listed []) p p' (runCases cases) (runCases cases) := by
  induction cases generalizing p with
  | nil =>
    obtain rfl : p = p' := Option.some.inj h
    exact .nil
  | cons case cases ih =>
    obtain ⟨label, body⟩ := case
    obtain ⟨q, hq, h⟩ := Option.bind_eq_some_iff.mp h
    obtain ⟨hcase, hcases⟩ := plainParts_append.mp hnames
    exact .cons label (hbodies 0 hcase hq) (ih (fun i => hbodies (i + 1)) hcases h)

theorem heeding_step (step : Step) (hbodies : ∀ i, Steps.Heeding (step.body i))
    (hnames : PlainParts step.parts) (h : step.phase? p = some p') :
    Heeding p p' (listed []) _ step.run step.run := by
  cases step with
  | act heading action =>
    by_cases hc : action = .command .enableWave32
    · subst hc
      obtain ⟨rfl, rfl⟩ : p = .idle ∧ p' = .whole := by
        by_cases hp : p = .idle <;> simp [Step.phase?, hp] at h
        exact ⟨hp, h.symm⟩
      have (K : Stock) : Tracked Heeding .idle .whole K enableWave32 enableWave32 :=
        ⟨heeding_of fun _ _ => heeds_enableWave32⟩
      rw [Step.run]; unfold Action.perform Command.perform; exact Tracked.holds
    · obtain rfl : p = p' := by
        cases action with
        | command c => cases c <;> first | exact (hc rfl).elim | exact Option.some.inj h
        | _ => exact Option.some.inj h
      exact heeding_act heading hnames hc
  | ifThen label byLane cond body =>
    rcases branchPhase_cases h with ⟨rfl, _, hb, ⟨⟩⟩ | ⟨rfl, ⟨rfl, _, hb, ⟨⟩⟩ | ⟨hp, hb, -, rfl⟩⟩
    all_goals have hbody := hbodies 0 hnames hb
    · have : Held Heeding p p' (listed []) (runAll body) (runAll body) := ⟨hbody⟩
      rw [Step.run]; simp only [if_true]; exact Tracked.holds
    · have (c : Expr) (K : Stock) [hK : (listed []).Grows K] [hc : K.Has (items c)] :
          Tracked Heeding .idle p' K (Build.ifThen c (runAll body)) (Build.ifThen c (runAll body)) :=
        ⟨heeding_ifThen_idle c hc (Tracking.Chains.grow hK hbody)⟩
      rw [Step.run]; simp only [Bool.false_eq_true, if_false]; exact Tracked.holds
    · have (c : Expr) (K : Stock) [hK : (listed []).Grows K] :
          Tracked Heeding p' p' K (Build.ifThen c (runAll body)) (Build.ifThen c (runAll body)) :=
        ⟨heeding_ifThen c hp (Tracking.Chains.grow hK hbody)⟩
      rw [Step.run]; simp only [Bool.false_eq_true, if_false]; exact Tracked.holds
  | ifElse label byLane cond body otherwise =>
    obtain ⟨hplain, hplain'⟩ := plainParts_append.mp hnames
    rcases branchPhase_cases h with ⟨rfl, q, hb, ho⟩ | ⟨rfl, ⟨rfl, q, hb, ho⟩ | ⟨hp, hb, ho, rfl⟩⟩
    all_goals
      have hbody := hbodies 0 hplain hb
      have hother := hbodies 1 hplain' ho
    · have : Held Heeding p q (listed []) (runAll body) (runAll body) := ⟨hbody⟩
      have : Held Heeding q p' (listed []) (runAll otherwise) (runAll otherwise) := ⟨hother⟩
      rw [Step.run]; simp only [if_true]; exact Tracked.holds
    · have (c : Expr) (K : Stock) [hK : (listed []).Grows K] [hc : K.Has (items c)] :
          Tracked Heeding .idle p' K (Build.ifElse c (runAll body) (runAll otherwise))
            (Build.ifElse c (runAll body) (runAll otherwise)) :=
        ⟨heeding_ifElse_idle c hc (Tracking.Chains.grow hK hbody) (Tracking.Chains.grow hK hother)⟩
      rw [Step.run]; simp only [Bool.false_eq_true, if_false]; exact Tracked.holds
    · have (c : Expr) (K : Stock) [hK : (listed []).Grows K] :
          Tracked Heeding p' p' K (Build.ifElse c (runAll body) (runAll otherwise))
            (Build.ifElse c (runAll body) (runAll otherwise)) :=
        ⟨heeding_ifElse c hp (Tracking.Chains.grow hK hbody) (Tracking.Chains.grow hK hother)⟩
      rw [Step.run]; simp only [Bool.false_eq_true, if_false]; exact Tracked.holds
  | loop label byLane body =>
    rcases branchPhase_cases h with ⟨rfl, _, hb, ⟨⟩⟩ | ⟨rfl, ⟨rfl, _, hb, ⟨⟩⟩ | ⟨hp, hb, -, rfl⟩⟩
    all_goals have hbody := hbodies 0 hnames hb
    · have : Held Heeding p p' (listed []) (runAll body) (runAll body) := ⟨hbody⟩
      rw [Step.run]; simp only [if_true]; exact Tracked.holds
    · have : Tracked Heeding .idle p' (listed []) (whileLoop (runAll body)) (whileLoop (runAll body)) :=
        ⟨heeding_whileLoop_idle hbody⟩
      rw [Step.run]; simp only [Bool.false_eq_true, if_false]; exact Tracked.holds
    · have : Tracked Heeding p' p' (listed []) (whileLoop (runAll body)) (whileLoop (runAll body)) :=
        ⟨heeding_whileLoop hp hbody⟩
      rw [Step.run]; simp only [Bool.false_eq_true, if_false]; exact Tracked.holds
  | switchOn label name cases =>
    have hcases := heeding_runCases hbodies hnames h
    have (value : Expr) (K : Stock) [hK : (listed []).Grows K] [hvalue : K.Has (items value)] :
        Tracked Heeding p p' K (Build.switchOn value (runCases cases))
          (Build.switchOn value (runCases cases)) :=
      ⟨LaneControls.switchOn value hvalue (hcases.mono (Tracking.Chains.grow hK))⟩
    rw [Step.run]; exact Tracked.holds
  | define label bodyLabel callee params body result =>
    obtain ⟨hp, h⟩ : p ≠ .masked ∧ phaseOf? body p = some p' := by
      by_cases hp : p = .masked <;> simp [Step.phase?, hp] at h
      exact ⟨hp, h⟩
    have hplain : PlainParts (partsOf body) := fun part hpart =>
      hnames part (List.mem_cons_of_mem _ hpart)
    have : Held Heeding p p' (listed []) (runAll body) (runAll body) := ⟨hbodies 0 hplain h⟩
    cases callee with
    | error fault => exact heeding_of fun _ _ => heeds_throw (.refused fault)
    | ok q =>
      have hdefine : Heeding p p' (listed []) _
          (defineFunction q (defining bodyLabel params (runAll body) result)) _ :=
        heeding_defineFunction hp fun values => by unfold defining; exact Tracked.holds
      rw [Step.run, given, pure_bind]
      exact Tracking.Chains.bind hdefine fun q => Notes.record label (.prototype (some q))
  | ifLaneActive label body | forRange label first last counter body
  | transparentQuery heading scene ray candidate body accept =>
    have : Held Heeding p p' (listed []) (runAll body) (runAll body) := ⟨hbodies 0 hnames h⟩
    rw [Step.run]; exact Tracked.holds

theorem heeding_runAll (steps : List Step) : Steps.Heeding steps := by
  refine holds_of_bodies (P := Steps.Heeding) (fun _ h => ?_) (fun step steps hbodies hsteps => ?_)
    steps
  · obtain ⟨⟩ := h
    exact Tracking.Chains.pure () inferInstance
  · intro p p' hnames h
    obtain ⟨q, hq, h⟩ := Option.bind_eq_some_iff.mp h
    obtain ⟨hstep, hrest⟩ := plainParts_append.mp hnames
    have : Held Heeding q p' (listed []) (runAll steps) (runAll steps) := ⟨hsteps hrest h⟩
    rw [runAll_cons]
    exact Tracking.Chains.bind (heeding_step step hbodies hstep hq) fun _ => Tracked.holds

section Programs

variable {settings : Settings} {first : Nat} {configured : Bool} {steps : List Step}
  {w : Workspace Notebook}

structure Heedful (p : Phase) (steps : List Step) : Prop where
  phases : (phaseOf? steps p).isSome = true
  names : PlainParts (partsOf steps)

theorem Heedful.heeds (h : Heedful p steps) : ∃ p', ∀ known, Heeds p p' known (runAll steps) := by
  obtain ⟨p', hp⟩ := Option.isSome_iff_exists.mp h.phases
  exact ⟨p', fun known => (heeding_runAll steps h.names hp).1 known
    ⟨fun _ he => (List.not_mem_nil he).elim, fun _ hx => hx⟩⟩

theorem Heedful.heeds_masked (h : Heedful .masked steps) (known : List Expr) :
    Heeds .masked .masked known (runAll steps) := by
  obtain ⟨p', hsteps⟩ := h.heeds
  exact ⟨fun w hw hp => ((hsteps known).ends w hw hp).mono
    (fun _ _ hdone => hdone.leads.eq (by decide) ▸ hdone) fun _ _ h => h⟩

def startPhase (settings : Settings) (configured : Bool) : Phase :=
  if configured && settings.wave32 then .whole else .idle

theorem heeds_program (h : Heedful (startPhase settings configured) steps) :
    ∃ p', Heeds .idle p' [] (program settings configured steps) := by
  obtain ⟨p', hsteps⟩ := h.heeds
  refine ⟨p', ?_⟩
  cases configured with
  | false => exact hsteps []
  | true => exact heeds_bind (heeds_configure settings) fun _ => hsteps []

theorem orderly_start (settings : Settings) (first : Nat) :
    (Workspace.start settings first ({} : Notebook)).Orderly := by
  refine ⟨⟨fun id hid => ?_, fun id x h => ?_, fun id stem hs n h => ?_, fun id id' x h => ?_⟩,
    .inl rfl⟩
  · cases hid
  · cases h.1
  · cases h
  · cases h.1

theorem Reaches.orderly (h : Reaches settings first configured steps w)
    (hsteps : Heedful (startPhase settings configured) steps) (hspares : w.sheet.draft.SparesMasks) :
    w.Orderly ∧ w.Furnished [] ∧ (w.sheet.draft.wave32 = true ↔ w.sheet.draft.masks ≠ []) := by
  obtain ⟨p', hprogram⟩ := heeds_program hsteps
  have hends := hprogram.ends (.start settings first {}) (fun e he => by cases he) ⟨rfl, rfl⟩
  have hstart := orderly_start settings first
  rcases h with hok | ⟨name, herror⟩
  · have hdone := hends.of_ok hok
    exact ⟨(hdone.safe hstart hspares).1, hdone.furnished, hdone.phase.enabled⟩
  · have hleft := hends.of_error herror name rfl
    exact ⟨(hleft.safe hstart hspares).1, hleft.furnished, hleft.enabled⟩

end Programs

end ComputeKernel.Script
