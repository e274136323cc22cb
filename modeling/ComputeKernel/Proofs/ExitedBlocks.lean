import ComputeKernel.Proofs.StandingExits

namespace ComputeKernel

def outside (wanted : Enclosure → Bool) : List Enclosure → Option (List Enclosure)
  | [] | .function :: _ => none
  | block :: around => if wanted block then some around else outside wanted around

def Line.left? (around : List Enclosure) : Line → Option (List Enclosure)
  | .breakLoop => outside (fun block => block = .loop ∨ block = .switch) around
  | .continueLoop => outside (· = .loop) around
  | _ => none

def innermost (wanted : Layer → Bool) : List Layer → Option (Layer × List Layer)
  | [] | .function :: _ => none
  | layer :: around => if wanted layer then some (layer, around) else innermost wanted around

namespace Layer

abbrev isLoop (layer : Layer) : Bool := layer = .loop

abbrev isRepeated (layer : Layer) : Bool := layer = .loop ∨ layer = .query

end Layer

section Places

variable {around asked outer : List Layer} {layer : Layer}

theorem exists_innermost (h : .loop ∈ (Pending.within around).targets) :
    ∃ asked, innermost Layer.isLoop around = some (.loop, asked) := by
  induction around with
  | nil => cases h
  | cons layer around ih =>
    cases layer with
    | loop => exact ⟨around, rfl⟩
    | branch | query => exact ih h
    | switch => exact ih ((List.mem_cons.mp h).resolve_left (by simp))
    | function => cases h

theorem innermost_blocks (h : innermost Layer.isLoop around = some (layer, asked)) :
    (Pending.within asked).blocks.length < (Pending.within around).blocks.length := by
  induction around with
  | nil => cases h
  | cons first around ih =>
    cases first with
    | loop =>
      cases h
      exact Nat.lt_succ_self _
    | branch => exact Nat.lt_succ_of_lt (ih h)
    | switch | query => exact Nat.lt_succ_of_lt (Nat.lt_succ_of_lt (ih h))
    | function => cases h

theorem innermost_blocks_eq_iff (hasked : innermost Layer.isLoop around = some (.loop, asked))
    (houter : innermost Layer.isRepeated around = some (layer, outer)) :
    (Pending.within outer).blocks = (Pending.within asked).blocks ↔ layer = .loop := by
  induction around with
  | nil => cases hasked
  | cons first around ih =>
    cases first with
    | loop =>
      cases hasked
      cases houter
      simp
    | branch | switch => exact ih hasked houter
    | query =>
      cases houter
      have hlt : _ < (Pending.within outer).blocks.length := innermost_blocks hasked
      refine iff_of_false (fun heq => ?_) (by simp)
      rw [heq] at hlt
      exact Nat.lt_irrefl _ hlt
    | function => cases hasked

theorem Exit.Accepted.left {x : Exit} (h : x.Accepted) :
    ∃ layer outer, innermost Layer.isRepeated x.around = some (layer, outer) ∧
      x.line.left? x.blocks = some (Pending.within outer).blocks := by
  obtain ⟨line, around⟩ := x
  rcases h with ⟨rfl, h⟩ | ⟨rfl, h⟩
  · induction around with
    | nil => cases h
    | cons layer around ih =>
      cases layer with
      | branch => exact ih h
      | loop => exact ⟨.loop, around, rfl, rfl⟩
      | query => exact ⟨.query, around, rfl, rfl⟩
      | switch | function => cases h
  · induction around with
    | nil => cases h
    | cons layer around ih =>
      cases layer with
      | branch => exact ih h
      | loop => exact ⟨.loop, around, rfl, rfl⟩
      | query => exact ⟨.query, around, rfl, rfl⟩
      | switch => exact ih ((List.mem_cons.mp h).resolve_left (by simp))
      | function => cases h

theorem Exit.Accepted.mem_targets {x : Exit} (h : x.Accepted) :
    .loop ∈ (Pending.within x.around).targets := by
  rcases h with ⟨-, h⟩ | ⟨-, h⟩
  · exact List.mem_of_head? h
  · exact h

end Places

namespace Exits

theorem append_assoc (a b c : Exits) : a ++ b ++ c = a ++ (b ++ c) := by
  show Exits.mk (a.page ++ b.page ++ c.page) (a.functions ++ b.functions ++ c.functions) = _
  rw [List.append_assoc, List.append_assoc]
  rfl

theorem append_nil (a : Exits) : a ++ {} = a := by
  show Exits.mk _ _ = _
  rw [List.append_nil, List.append_nil]

end Exits

namespace Script

open Build Scripted

def Action.exits (around : List Layer) : Action → Exits
  | .command .breakLoop => ⟨[⟨.breakLoop, around⟩], []⟩
  | .command .continueLoop => ⟨[⟨.continueLoop, around⟩], []⟩
  | .value (.binarySearch ..) => ⟨[⟨.breakLoop, .branch :: .loop :: around⟩], []⟩
  | _ => {}

mutual

def Step.exits : Step → List Layer → Exits
  | .act _ action, around => action.exits around
  | .ifThen _ _ _ body, around | .ifLaneActive _ body, around => exitsOf body (.branch :: around)
  | .ifElse _ _ _ body otherwise, around =>
    exitsOf body (.branch :: around) ++ exitsOf otherwise (.branch :: around)
  | .forRange _ _ _ _ body, around | .loop _ _ body, around => exitsOf body (.loop :: around)
  | .switchOn _ _ cases, around => exitsOfCases cases (.switch :: around)
  | .define _ _ _ _ body _, around => (exitsOf body (.function :: around)).ended
  | .transparentQuery _ _ _ _ body _, around => exitsOf body (.query :: around)

def exitsOf : List Step → List Layer → Exits
  | [], _ => {}
  | step :: steps, around => step.exits around ++ exitsOf steps around

def exitsOfCases : List (UInt32 × List Step) → List Layer → Exits
  | [], _ => {}
  | case :: cases, around => exitsOfCase case around ++ exitsOfCases cases around

def exitsOfCase : UInt32 × List Step → List Layer → Exits
  | (_, body), around => exitsOf body around

end

section Steps

variable {D : Pending × (Exits → Prop)} {around : List Layer} {e : Exits}

instance : Notes Laid := notes_of_plainly fun _ h => h.passes

instance : Asking Laid := asking_of_plainly fun _ h => h.passes

theorem mayCall_laid (events : Events) : MayCall Laid D events where
  calls p _ _ := ⟨passes_pure p⟩
  callsName name _ _ := ⟨(plainly_function? name).passes⟩

abbrev Shows {α : Type} [Bears α] (around : List Layer) (e e' : Exits) (x : Scripted α) : Prop :=
  Held Laid (.within around, (· = e)) (.within around, (· = e')) .all x x

theorem shows_binarySearch (buffer count key : Expr) :
    Shows around e (e ++ ⟨[⟨.breakLoop, .branch :: .loop :: around⟩], []⟩)
      (binarySearch buffer count key) := by
  have (done : Expr) : Shows (.loop :: around) e
      (e ++ ⟨[⟨.breakLoop, .branch :: .loop :: around⟩], []⟩) (laneIf done breakLoop) :=
    ⟨layout_laneIf done (passes_breakLoop (.branch :: .loop :: around) e)⟩
  have (above low high middle : Expr) (e : Exits) : Shows (.loop :: around) e e
      (laneIfElse above (do let _ ← assign high middle) (do let _ ← assign low middle)) :=
    ⟨layout_laneIfElse above Tracked.holds Tracked.holds⟩
  have (low high : Expr) : Shows (.loop :: around) e
      (e ++ ⟨[⟨.breakLoop, .branch :: .loop :: around⟩], []⟩) (searchStep buffer key low high) :=
    ⟨by
      unfold searchStep
      refine (?_ : Tracked Laid _ _ _ _ _).holds
      repeat with_reducible refine Tracked.after fun _ => ?_
      infer_instance⟩
  have (low high : Expr) : Shows around e (e ++ ⟨[⟨.breakLoop, .branch :: .loop :: around⟩], []⟩)
      (laneWhile (searchStep buffer key low high)) := ⟨layout_laneWhile (this low high).holds⟩
  rw [binarySearch_eq]
  exact ⟨Tracked.holds⟩

theorem meets_enableWave32 {K : Stock} : Meets Laid D K (enableWave32 : Scripted Unit) := by
  unfold enableWave32 constant; infer_instance

theorem laid_act (heading : Heading) (a : Action) :
    Shows around e (e ++ a.exits around) (Step.act heading a).run := by
  by_cases hsearch : ∃ buffer count key, a = .value (.binarySearch buffer count key)
  · obtain ⟨buffer, count, key, rfl⟩ := hsearch
    have (b c k : Expr) : Shows around e _ (binarySearch b c k) := shows_binarySearch b c k
    rw [Step.run]; unfold Action.perform ValueAction.perform; exact ⟨Tracked.holds⟩
  by_cases hbreak : a = .command .breakLoop
  · subst hbreak
    have : Shows around e _ breakLoop := ⟨passes_breakLoop around e⟩
    rw [Step.run]; unfold Action.perform Command.perform; exact ⟨Tracked.holds⟩
  by_cases hcontinue : a = .command .continueLoop
  · subst hcontinue
    have : Shows around e _ continueLoop := ⟨passes_continueLoop around e⟩
    rw [Step.run]; unfold Action.perform Command.perform; exact ⟨Tracked.holds⟩
  have hexits : a.exits around = {} := by
    unfold Action.exits
    split <;> simp_all
  rw [hexits, Exits.append_nil]
  refine ⟨tracked_act heading (mayCall_laid _) (fun v hv => ?_) (fun c hc => ?_) fun p => ?_⟩
  · subst hv
    exact tracked_valueAction v (mayCall_laid _) (fun _ _ => trivial) fun buffer count key h =>
      (hsearch ⟨buffer, count, key, h ▸ rfl⟩).elim
  · subst hc
    cases c with
    | breakLoop => exact (hbreak rfl).elim
    | continueLoop => exact (hcontinue rfl).elim
    | enableWave32 => exact meets_enableWave32
    | _ => unfold Command.perform; infer_instance
  · exact ⟨((plainly_register p).bind fun _ => plainly_pure _).passes⟩

def Steps.Shown (steps : List Step) : Prop :=
  ∀ around e, Shows around e (e ++ exitsOf steps around) (runAll steps)

theorem laidCases_runCases {cases : List (UInt32 × List Step)}
    (hbodies : ∀ i, Steps.Shown ((cases.map Prod.snd).getD i [])) (around : List Layer) (e : Exits) :
    LaidCases Laid (.within around) (· = e) (· = e ++ exitsOfCases cases around) (runCases cases) := by
  induction cases generalizing e with
  | nil =>
    rw [runCases, exitsOfCases, Exits.append_nil]
    exact .nil _
  | cons case cases ih =>
    obtain ⟨label, body⟩ := case
    rw [runCases, runCase, exitsOfCases, exitsOfCase, ← Exits.append_assoc]
    exact .cons label (hbodies 0 around e).holds (ih (fun i => hbodies (i + 1)) _)

theorem shows_step (step : Step) (hbodies : ∀ i, Steps.Shown (step.body i)) :
    Shows around e (e ++ step.exits around) step.run := by
  cases step with
  | act heading action => exact laid_act heading action
  | ifThen label byLane cond body =>
    have hbody := (hbodies 0 (.branch :: around) e).holds
    have (c : Expr) : Shows around e _ (Build.laneIf c (runAll body)) := ⟨layout_laneIf c hbody⟩
    have (c : Expr) : Shows around e _ (Build.ifThen c (runAll body)) := ⟨layout_ifThen c hbody⟩
    rw [Step.run]; exact ⟨Tracked.holds⟩
  | ifElse label byLane cond body otherwise =>
    have hbody := (hbodies 0 (.branch :: around) e).holds
    have hother := (hbodies 1 (.branch :: around) (e ++ exitsOf body (.branch :: around))).holds
    have (c : Expr) : Shows around e _ (Build.laneIfElse c (runAll body) (runAll otherwise)) :=
      ⟨layout_laneIfElse c hbody hother⟩
    have (c : Expr) : Shows around e _ (Build.ifElse c (runAll body) (runAll otherwise)) :=
      ⟨layout_ifElse c hbody hother⟩
    rw [Step.run, Step.exits, ← Exits.append_assoc]; exact ⟨Tracked.holds⟩
  | ifLaneActive label body =>
    have : Shows around e _ (Build.ifLaneActive (runAll body)) :=
      ⟨layout_ifLaneActive (hbodies 0 (.branch :: around) e).holds⟩
    rw [Step.run]; exact ⟨Tracked.holds⟩
  | forRange label first last counter body =>
    have hbody (i : Expr) : Shows (.loop :: around) e (e ++ exitsOf body (.loop :: around)) (do
        renote (·.bind counter i)
        runAll body) := by
      have : Shows (.loop :: around) e _ (runAll body) := hbodies 0 (.loop :: around) e
      exact ⟨Tracked.holds⟩
    have (a b : Operand) : Shows around e _ (Build.forRange a b fun i => do
        renote (·.bind counter i)
        runAll body) := ⟨layout_forRange a b fun i => (hbody i).holds⟩
    rw [Step.run]; exact ⟨Tracked.holds⟩
  | loop label byLane body =>
    have hbody := (hbodies 0 (.loop :: around) e).holds
    have : Shows around e _ (Build.laneWhile (runAll body)) := ⟨layout_laneWhile hbody⟩
    have : Shows around e _ (Build.whileLoop (runAll body)) := ⟨layout_whileLoop hbody⟩
    rw [Step.run]; exact ⟨Tracked.holds⟩
  | switchOn label name cases =>
    have hcases := laidCases_runCases hbodies (.switch :: around) e
    have (value : Expr) : Shows around e _ (Build.switchOn value (runCases cases)) :=
      ⟨layout_switchOn value hcases⟩
    rw [Step.run]; exact ⟨Tracked.holds⟩
  | define label bodyLabel callee params body result =>
    cases callee with
    | error fault => exact ⟨Basics.throw (.refused fault)⟩
    | ok p =>
      have hbody (values : List Expr) : Shows (.function :: around) {} (exitsOf body (.function :: around))
          (defining bodyLabel params (runAll body) result values) := by
        have : Shows (.function :: around) {} _ (runAll body) := hbodies 0 (.function :: around) {}
        unfold defining; exact ⟨Tracked.holds⟩
      have hdefine : Shows around e (e ++ (exitsOf body (.function :: around)).ended)
          (defineFunction p (defining bodyLabel params (runAll body) result)) := ⟨fun d w hd =>
        (defineFunction_completes p (fun values => (hbody values).holds) w).mono
          (fun _ _ h => h.elim fun _ h => h.1 ▸ hd.define h.2) fun _ h => h⟩
      rw [Step.run, given, pure_bind]
      exact ⟨Tracking.Chains.bind hdefine.holds fun p => Notes.record label (.prototype (some p))⟩
  | transparentQuery heading scene ray candidate body accept =>
    have haccept (c : Expr) : Shows (.query :: around) e (e ++ exitsOf body (.query :: around)) (do
        renote (·.bind candidate c)
        runAll body
        lookup accept) := by
      have : Shows (.query :: around) e _ (runAll body) := hbodies 0 (.query :: around) e
      exact ⟨Tracked.holds⟩
    have (s r : Expr) : Shows around e _ (Build.transparentQuery s r fun c => do
        renote (·.bind candidate c)
        runAll body
        lookup accept) := ⟨layout_transparentQuery s r fun c => (haccept c).holds⟩
    rw [Step.run]; exact ⟨Tracked.holds⟩

theorem shows_runAll (steps : List Step) : Steps.Shown steps := by
  refine holds_of_bodies (P := Steps.Shown) (fun around e => ?_)
    (fun step steps hbodies hsteps around e => ?_) steps
  · rw [exitsOf, Exits.append_nil]
    exact ⟨passes_pure ()⟩
  · have : Shows around e _ step.run := shows_step step hbodies
    have := hsteps around (e ++ step.exits around)
    rw [runAll_cons, exitsOf, ← Exits.append_assoc]
    exact ⟨Tracked.holds⟩

theorem shows_program (settings : Settings) (configured : Bool) (steps : List Step) :
    Shows [] {} (exitsOf steps []) (program settings configured steps) := by
  have (K : Stock) : Meets Laid (.within [], (· = ({} : Exits))) K (configure settings) :=
    meets_configure (fun _ => meets_enableWave32) settings
  have : Shows [] {} (exitsOf steps []) (runAll steps) := shows_runAll steps [] {}
  unfold program; exact ⟨Tracked.holds⟩

end Steps

/-- A `break` or `continue` leaves the loop that was asked for just when there is no ray query in between. -/
theorem exits_leave_innermost (settings : Settings) (first : Nat) (configured : Bool)
    (steps : List Step) (w : Workspace Notebook)
    (h : program settings configured steps (.start settings first {}) = .ok () w) :
    exitsIn [] w.sheet.draft.functions =
        (exitsOf steps []).functions.map (fun x => (x.line, x.blocks)) ∧
      exitsIn [] w.sheet.draft.body = (exitsOf steps []).page.map (fun x => (x.line, x.blocks)) ∧
      (∀ x ∈ (exitsOf steps []).functions ++ (exitsOf steps []).page,
        ∃ asked layer outer, innermost Layer.isLoop x.around = some (.loop, asked) ∧
          innermost Layer.isRepeated x.around = some (layer, outer) ∧
          x.line.left? x.blocks = some (Pending.within outer).blocks ∧
          (x.line.left? x.blocks = some (Pending.within asked).blocks ↔ layer = .loop)) ∧
      ∀ k, w.finish = .ok k → k.Prints w.sheet.draft.functions w.sheet.draft.body := by
  obtain ⟨_, rfl, hfunctions, hbody⟩ :=
    outline_of_program (shows_program settings configured steps).holds h
  refine ⟨hfunctions.shown, hbody.shown, fun x hx => ?_, fun _ hk => Workspace.prints_of_finish hk⟩
  have hx : x.Accepted := (List.mem_append.mp hx).elim (hfunctions.accepted x) (hbody.accepted x)
  obtain ⟨asked, hasked⟩ := exists_innermost hx.mem_targets
  obtain ⟨layer, outer, houter, hleft⟩ := hx.left
  refine ⟨asked, layer, outer, hasked, houter, hleft, ?_⟩
  rw [hleft, Option.some.injEq]
  exact innermost_blocks_eq_iff hasked houter

def givingUp : List Step :=
  [ .act ⟨"lit", some "ok"⟩ (.value (.constant (.bool [true]))),
    .act ⟨"resource", some "scene"⟩ (.value (.resource (.ok (.tlas "scene")))),
    .act ⟨"make", some "ray"⟩ (.value (.zeroed (.ok .rayDesc))),
    .loop "while" false
      [ .transparentQuery ⟨"ray_query_transparent", none⟩ "scene" "ray" none
          [.act ⟨"break", none⟩ (.command .breakLoop)] "ok",
        .act ⟨"break", none⟩ (.command .breakLoop) ] ]

theorem givingUp_exits :
    ∃ w, program .default false givingUp (.start .default 1 {}) = .ok () w ∧
      exitsIn [] w.sheet.draft.body =
        [(.breakLoop, [.other, .loop, .loop]), (.breakLoop, [.loop])] ∧
      ∀ x ∈ [Exit.mk .breakLoop [.query, .loop], ⟨.breakLoop, [.loop]⟩],
        ∃ asked layer outer, innermost Layer.isLoop x.around = some (.loop, asked) ∧
          innermost Layer.isRepeated x.around = some (layer, outer) ∧
          x.line.left? x.blocks = some (Pending.within outer).blocks ∧
          (x.line.left? x.blocks = some (Pending.within asked).blocks ↔ layer = .loop) := by
  obtain ⟨_, w, hrun, -⟩ := exists_ok_of_ensures (program .default false givingUp)
    (.start .default 1 {}) (fun _ _ => True) (by decide +kernel)
  obtain ⟨-, hbody, hexits, -⟩ := exits_leave_innermost .default 1 false givingUp w hrun
  exact ⟨w, hrun, hbody, hexits⟩

theorem givingUp_stays :
    ∃ w, program .default false givingUp (.start .default 1 {}) = .ok () w ∧
      exitsIn [] w.sheet.draft.body =
        [(.breakLoop, [.other, .loop, .loop]), (.breakLoop, [.loop])] ∧
      (exitsOf givingUp []).page.map Exit.around = [[.query, .loop], [.loop]] ∧
      innermost Layer.isLoop [.query, .loop] = some (.loop, []) ∧
      Line.breakLoop.left? [.other, .loop, .loop] = some [.loop] ∧
      (Pending.within []).blocks = [] := by
  obtain ⟨_, w, hrun, -⟩ := exists_ok_of_ensures (program .default false givingUp)
    (.start .default 1 {}) (fun _ _ => True) (by decide +kernel)
  obtain ⟨_, rfl, -, hbody⟩ := outline_of_program (shows_program .default false givingUp).holds hrun
  exact ⟨w, hrun, hbody.shown, rfl, rfl, rfl, rfl⟩

end Script

end ComputeKernel
