import ComputeKernel.Proofs.ControlJudgements
import ComputeKernel.Script.Basic

namespace ComputeKernel.Script

open Build Scripted
open Bears (items)

variable {K : Stock}

def Step.bodies : Step → List (List Step)
  | .act .. => []
  | .ifThen _ _ _ body | .ifLaneActive _ body | .forRange _ _ _ _ body | .loop _ _ body
  | .define _ _ _ _ body _ | .transparentQuery _ _ _ _ body _ => [body]
  | .ifElse _ _ _ body otherwise => [body, otherwise]
  | .switchOn _ _ cases => cases.map Prod.snd

def Step.body (step : Step) (i : Nat) : List Step := step.bodies.getD i []

def casesBy (run : Nat → Scripted Unit) (i : Nat) :
    List (UInt32 × List Step) → List (UInt32 × Scripted Unit)
  | [] => []
  | (label, _) :: cases => (label, run i) :: casesBy run (i + 1) cases

def Step.runBy (run : Nat → Scripted Unit) : Step → Scripted Unit
  | .act heading action => do
    heading.record (← action.perform)
  | .ifThen label byLane cond _ => do
    let c ← lookup cond
    if byLane then Build.laneIf c (run 0) else Build.ifThen c (run 0)
    record label .done
  | .ifElse label byLane cond _ _ => do
    let c ← lookup cond
    if byLane then Build.laneIfElse c (run 0) (run 1) else Build.ifElse c (run 0) (run 1)
    record label .done
  | .ifLaneActive label _ => do
    Build.ifLaneActive (run 0)
    record label .done
  | .forRange label first last counter _ => do
    let a ← first.operand
    let b ← last.operand
    Build.forRange a b fun i => do
      renote (·.bind counter i)
      run 0
    record label .done
  | .loop label byLane _ => do
    if byLane then Build.laneWhile (run 0) else Build.whileLoop (run 0)
    record label .done
  | .switchOn label name cases => do
    Build.switchOn (← lookup name) (casesBy run 0 cases)
    record label .done
  | .define label bodyLabel callee params _ result => do
    let p ← given callee
    let p ← Build.defineFunction p fun values => do
      renote (·.enterBody)
      bindAll params values
      run 0
      record bodyLabel .done
      renote (·.leaveBody)
      result.mapM lookup
    record label (.prototype (some p))
  | .transparentQuery heading scene ray candidate _ accept => do
    let tlas ← lookup scene
    let r ← lookup ray
    let hit ← Build.transparentQuery tlas r fun c => do
      renote (·.bind candidate c)
      run 0
      lookup accept
    heading.record (← describeValue hit)

theorem runCases_eq (cases : List (UInt32 × List Step)) (run : Nat → Scripted Unit) (i : Nat)
    (h : ∀ j, run (i + j) = runAll ((cases.map Prod.snd).getD j [])) :
    runCases cases = casesBy run i cases := by
  induction cases generalizing i with
  | nil => rw [runCases, casesBy]
  | cons case cases ih =>
    obtain ⟨label, body⟩ := case
    have hhead : run i = runAll body := h 0
    rw [runCases, casesBy, runCase, hhead, ih (i + 1)]
    intro j
    rw [show i + 1 + j = i + (j + 1) by omega]
    exact h (j + 1)

theorem Step.run_eq (step : Step) : step.run = step.runBy fun i => runAll (step.body i) := by
  cases step with
  | switchOn label name cases =>
    have hcases := runCases_eq cases (fun i => runAll ((Step.switchOn label name cases).body i)) 0
      fun j => by rw [Nat.zero_add]; rfl
    rw [Step.run, hcases]
    rfl
  | _ => rw [Step.run]; rfl

theorem runAll_cons (step : Step) (steps : List Step) :
    runAll (step :: steps) = step.run >>= fun _ => runAll steps := by
  rw [runAll]

section Induction

variable {P : List Step → Prop}

mutual

theorem Step.holds_body (hnil : P [])
    (hcons : ∀ step steps, (∀ i, P (step.body i)) → P steps → P (step :: steps)) (step : Step)
    (i : Nat) : P (step.body i) := by
  have single (body : List Step) (h : P body) : P ([body].getD i []) := by
    cases i with
    | zero => exact h
    | succ i => exact hnil
  cases step with
  | act heading action => exact hnil
  | ifThen label byLane cond body => exact single body (holds_of_bodies hnil hcons body)
  | ifElse label byLane cond body otherwise =>
    match i with
    | 0 => exact holds_of_bodies hnil hcons body
    | 1 => exact holds_of_bodies hnil hcons otherwise
    | _ + 2 => exact hnil
  | ifLaneActive label body => exact single body (holds_of_bodies hnil hcons body)
  | forRange label first last counter body => exact single body (holds_of_bodies hnil hcons body)
  | loop label byLane body => exact single body (holds_of_bodies hnil hcons body)
  | switchOn label name cases => exact holds_of_cases hnil hcons cases i
  | define label bodyLabel callee params body result =>
    exact single body (holds_of_bodies hnil hcons body)
  | transparentQuery heading scene ray candidate body accept =>
    exact single body (holds_of_bodies hnil hcons body)

theorem holds_of_bodies (hnil : P [])
    (hcons : ∀ step steps, (∀ i, P (step.body i)) → P steps → P (step :: steps))
    (steps : List Step) : P steps := by
  cases steps with
  | nil => exact hnil
  | cons step steps =>
    exact hcons step steps (step.holds_body hnil hcons) (holds_of_bodies hnil hcons steps)

theorem holds_of_cases (hnil : P [])
    (hcons : ∀ step steps, (∀ i, P (step.body i)) → P steps → P (step :: steps))
    (cases : List (UInt32 × List Step)) (i : Nat) : P ((cases.map Prod.snd).getD i []) := by
  cases cases with
  | nil => exact hnil
  | cons case cases =>
    match i with
    | 0 => exact holds_of_case hnil hcons case
    | i + 1 => exact holds_of_cases hnil hcons cases i

theorem holds_of_case (hnil : P [])
    (hcons : ∀ step steps, (∀ i, P (step.body i)) → P steps → P (step :: steps))
    (case : UInt32 × List Step) : P case.2 := by
  cases case with
  | mk label body => exact holds_of_bodies hnil hcons body

end

end Induction

instance : Bears Outcome :=
  ⟨fun
    | .value e _ _ => items e
    | _ => []⟩

instance (e : Expr) (name : Spelling) (ty : Ty) [h : K.Has (items e)] :
    K.Has (items (Outcome.value e name ty)) := ⟨h.each⟩

instance (fault : Fault) : K.Has (items (Outcome.faulty fault)) := ⟨nofun⟩

instance : K.Has (items Outcome.missing) := ⟨nofun⟩

instance (p : Option Prototype) : K.Has (items (Outcome.prototype p)) := ⟨nofun⟩

class Notes {σ : Type} (J : Tracking σ Notebook) : Prop extends Crafting J where
  lookup (name : String) : J.On (lookup name)
  bindName (name : Option String) (e : Expr) : J.Given (items e) (renote (·.bind name e))
  enterBody : J.On (renote (·.enterBody))
  leaveBody : J.On (renote (·.leaveBody))
  record (label : String) (outcome : Outcome) : J.On (record label outcome)
  askFunction (name : String) : J.On (Query.function name).perform
  describe (e : Expr) : J.On (do return (← get).sheet.nodes.describe e)

class Asking {σ : Type} (J : Tracking σ Notebook) : Prop extends Notes J where
  askDivergence (heading : Heading) (name : String) :
    J.On (Step.act heading (.query (.divergence name))).run
  askRegion (heading : Heading) : J.On (Step.act heading (.query .region)).run

class Noting (J : Tracking Events Notebook) : Prop
    extends Controls J, Definitions J, Notes J where
  register {D : Events} {K : Stock} (p : Prototype) :
    J D (D ++ [.registers p]) K _ (Query.register (.ok p)).perform (Query.register (.ok p)).perform

class Scripting (J : Tracking Events Notebook) : Prop extends Noting J, Asking J

def Action.events : Action → Events
  | .query (.register (.ok p)) => [.registers p]
  | .value (.call (.ok p) _) => [.calls p]
  | .value (.callNamed name _) | .attempt (.callNamed name _) => [.callsName name]
  | _ => []

def returning : Described Prototype → Events
  | .ok p => [.returns p]
  | .error _ => []

def Step.ownEvents : Step → Events
  | .act _ action => action.events
  | .define _ _ callee _ _ _ => returning callee
  | _ => []

def ValueAction.names : ValueAction → List String
  | .named _ name => [name]
  | .input (.ok i) => [i.name]
  | .resource (.ok res) => [res.name]
  | _ => []

variable {σ : Type}

structure MayCall (J : Tracking σ Notebook) (D : σ) (events : Events) :
    Prop where
  calls : ∀ p, .calls p ∈ events → ∀ K, Meets J D K (given (.ok p))
  callsName : ∀ name, .callsName name ∈ events → ∀ K, Meets J D K (Build.function? name)

section Actions

variable {J : Tracking σ Notebook} {D : σ}

instance tracked_snippet [Arithmetic J] (s : Snippet) (e : Expr) [K.Has (items e)] :
    Meets J D K (s.build e) := by
  cases s <;> unfold Snippet.build <;> infer_instance

variable [Notes J]

instance (name : String) : Meets J D K (lookup name) := ⟨Notes.lookup name⟩

instance (name : Option String) (e : Expr) [h : K.Has (items e)] :
    Meets J D K (renote (·.bind name e)) := ⟨Notes.bindName name e h⟩

instance : Meets J D K (renote (·.enterBody)) := ⟨Notes.enterBody⟩

instance : Meets J D K (renote (·.leaveBody)) := ⟨Notes.leaveBody⟩

instance (label : String) (outcome : Outcome) : Meets J D K (record label outcome) :=
  ⟨Notes.record label outcome⟩

instance tracked_heading (heading : Heading) (outcome : Outcome) [h : K.Has (items outcome)] :
    Meets J D K (heading.record outcome) := by
  cases outcome with
  | value e name ty =>
    have : K.Has (items e) := ⟨h.each⟩
    unfold Heading.record; infer_instance
  | _ => unfold Heading.record; infer_instance

theorem asking_of_answers
    (hmode : ∀ e, J.On (divergenceOf e)) (hregion : J.On inDivergentRegion)
    (hname : J.On (do return (← get).name)) :
    Asking J where
  askDivergence heading name := fun {D K} => by
    have (e : Expr) (K : Stock) : Meets J D K (divergenceOf e) := ⟨hmode e⟩
    rw [Step.run]
    unfold Action.perform Query.perform; exact Tracked.holds
  askRegion heading := fun {D K} => by
    have (K : Stock) : Meets J D K (inDivergentRegion : Scripted Bool) := ⟨hregion⟩
    have (K : Stock) : Meets J D K (do return (← get).name : Scripted String) := ⟨hname⟩
    have hask : Meets J D K (do
        let divergent ← inDivergentRegion
        let wave32 ← isWave32
        let name ← (do return (← get).name : Scripted String)
        heading.record (.region divergent wave32 name)) := inferInstance
    exact hask.holds

instance {α : Type} [Bare α] (x : Described α) : Meets J D K (given x) := by
  cases x <;> unfold given <;> infer_instance

instance (ref : Ref) : Meets J D K ref.operand := by
  cases ref <;> unfold Ref.operand <;> infer_instance

instance (e : Expr) [K.Has (items e)] : Meets J D K (describeValue e) := by
  unfold describeValue; infer_instance

instance (r : Except Fault Expr) [h : K.Has (items r)] :
    Meets J D K (survive r) := by
  cases r with
  | ok e =>
    have : K.Has (items e) := ⟨h.each⟩
    unfold survive; infer_instance
  | error fault => unfold survive; infer_instance

theorem tracked_tryAction (a : TryAction) (hcalls : MayCall J D (Action.attempt a).events) :
    Meets J D K a.perform := by
  cases a with
  | callNamed name args =>
    have hname := hcalls.callsName name (List.mem_singleton_self _) K
    refine ⟨Tracking.Chains.bind hname.holds fun p => ?_⟩
    cases p with
    | none => exact Tracking.Chains.pure _ inferInstance
    | some p =>
      have : (K.adding (some p)).Has (items p) := ⟨fun _ hi => .inl hi⟩
      have hcall : Meets J D (K.adding (some p))
          (do survive (← tryCall p (← args.mapM lookup))) := by infer_instance
      exact hcall.holds
  | _ => unfold TryAction.perform; infer_instance

theorem tracked_laneCommand [LaneControls J] {c : Command} (h : c ≠ .enableWave32) :
    Meets J D K c.perform := by
  cases c with
  | enableWave32 => exact (h rfl).elim
  | _ => unfold Command.perform; infer_instance

theorem tracked_valueAction (a : ValueAction) (hcalls : MayCall J D (Action.value a).events)
    (hnames : ∀ x ∈ a.names, K (.name x))
    (hsearch : ∀ buffer count key, a = .binarySearch buffer count key → Meets J D K a.perform) :
    Meets J D K a.perform := by
  have (x : String) (h : x ∈ a.names) : K.Has [.name x] :=
    ⟨fun _ hi => List.mem_singleton.mp hi ▸ hnames x h⟩
  cases a with
  | named value name =>
    have := this name (.head _)
    unfold ValueAction.perform; infer_instance
  | input i =>
    cases i with
    | error fault => exact tracked_throw (.refused fault)
    | ok i =>
      have := this i.name (.head _)
      exact tracked_input i
  | resource res =>
    cases res with
    | error fault => exact tracked_throw (.refused fault)
    | ok res =>
      have := this res.name (.head _)
      exact tracked_resource res
  | call callee args =>
    cases callee with
    | error fault => exact tracked_throw (.refused fault)
    | ok p =>
      have := hcalls.calls p (List.mem_singleton_self _)
      unfold ValueAction.perform; infer_instance
  | callNamed name args =>
    have := hcalls.callsName name (List.mem_singleton_self _)
    unfold ValueAction.perform; infer_instance
  | binarySearch buffer count key => exact hsearch buffer count key rfl
  | _ => unfold ValueAction.perform; infer_instance

theorem tracked_laneAction [LaneControls J] (a : ValueAction)
    (hcalls : MayCall J D (Action.value a).events) (hnames : ∀ x ∈ a.names, K (.name x)) :
    Meets J D K a.perform :=
  tracked_valueAction a hcalls hnames fun buffer count key h => by
    subst h
    unfold ValueAction.perform; infer_instance

omit [Notes J] in
theorem tracked_query [Asking J] (heading : Heading) (q : Query)
    (hq : ∀ callee, q ≠ .register callee) : J.On (Step.act heading (.query q)).run := by
  intro D K
  have record (h : J D D K _ q.perform q.perform) :
      J D D K _ (Step.act heading (.query q)).run (Step.act heading (.query q)).run := by
    rw [Step.run]
    exact Tracking.Chains.bind h fun outcome => (tracked_heading heading outcome).holds
  cases q with
  | divergence name => exact Asking.askDivergence heading name
  | region => exact Asking.askRegion heading
  | register callee => exact (hq callee rfl).elim
  | function name => exact record (Notes.askFunction name)
  | setGroupSize size =>
    refine record (Tracking.Chains.bind (Basics.setGroupSize size) fun x => ?_)
    cases x <;> exact Tracking.Chains.pure _ inferInstance
  | describe name =>
    have hdescribe (e : Expr) (ty : Ty) (spelling : Spelling) (K : Stock) : J D D K _ _ _ :=
      Tracking.Chains.bind (Notes.describe e) fun text =>
        Tracking.Chains.pure (Outcome.description spelling ty text) inferInstance
    refine record (Tracking.Chains.bind (Notes.lookup name) fun e => ?_)
    refine Tracking.Chains.bind (Basics.typeOf e inferInstance) fun ty => ?_
    exact Tracking.Chains.bind (Basics.nameOf e) fun spelling => hdescribe e ty spelling _
  | text =>
    have htext : Meets J D K (do return Outcome.text (← Build.draft).text) := by infer_instance
    exact record htext.holds
  | builtin b => exact record (by unfold Query.perform; exact Tracked.holds)
  | warnings => exact record (by unfold Query.perform; exact Tracked.holds)

omit [Notes J] in
theorem tracked_act [Asking J] (heading : Heading) {a : Action} (hcalls : MayCall J D a.events)
    (hvalue : ∀ v, a = .value v → Meets J D K v.perform)
    (hcommand : ∀ c, a = .command c → Meets J D K c.perform)
    (hregister : ∀ p, Meets J D K (Query.register (.ok p)).perform) :
    J D D K _ (Step.act heading a).run (Step.act heading a).run := by
  have record (h : Meets J D K a.perform) :
      J D D K _ (Step.act heading a).run (Step.act heading a).run := by
    rw [Step.run]; exact Tracked.holds
  cases a with
  | value v =>
    have := hvalue v rfl
    exact record (by unfold Action.perform; infer_instance)
  | attempt t => exact record (tracked_tryAction t hcalls)
  | command c =>
    have := hcommand c rfl
    exact record (by unfold Action.perform; infer_instance)
  | query q =>
    by_cases hq : ∃ callee, q = .register callee
    · obtain ⟨callee, rfl⟩ := hq
      cases callee with
      | ok p => exact record (hregister p)
      | error fault => exact record ⟨Basics.throw (.refused fault)⟩
    · exact tracked_query heading q fun callee h => hq ⟨callee, h⟩

instance (names : List String) (es : List Expr) [h : K.Has (items es)] :
    Meets J D K (bindAll names es) := by
  have hes : ∀ b ∈ names.zip es, K.Has (items b.2) := fun b hb => h.mem (List.of_mem_zip hb).2
  unfold bindAll
  generalize names.zip es = bindings at hes
  induction bindings with
  | nil => exact tracked_pure ()
  | cons b bs ih =>
    have := hes b (List.mem_cons_self ..)
    have : Held J D D K (bs.forM fun (name, e) => renote (·.bind (some name) e))
        (bs.forM fun (name, e) => renote (·.bind (some name) e)) :=
      ⟨(ih fun b hb => hes b (List.mem_cons_of_mem _ hb)).holds⟩
    exact tracked_bind (renote (·.bind (some b.1) b.2)) (renote (·.bind (some b.1) b.2)) _ _

instance (name : Option String) : Meets J D K (name.mapM lookup) := by
  cases name with
  | none => exact tracked_pure none
  | some name =>
    show Meets J D K (some <$> lookup name)
    rw [map_eq_pure_bind]
    infer_instance

end Actions

section Steps

variable {J : Tracking Events Notebook} {D D' : Events}

theorem scripting_of_answers [Noting J]
    (hmode : ∀ e, J.On (divergenceOf e)) (hregion : J.On inDivergentRegion)
    (hname : J.On (do return (← get).name)) : Scripting J :=
  { ‹Noting J›, asking_of_answers hmode hregion hname with }

instance tracked_command [Noting J] (c : Command) : Meets J D K c.perform := by
  by_cases hc : c = .enableWave32
  · subst hc
    exact tracked_enableWave32
  · exact tracked_laneCommand hc

variable [Scripting J]

theorem holds_query (heading : Heading) (q : Query) :
    J D (D ++ lasting (Action.query q).events) K _ (Step.act heading (.query q)).run
      (Step.act heading (.query q)).run := by
  have register {callee : Described Prototype} {D' : Events}
      (h : J D D' K _ (Query.register callee).perform (Query.register callee).perform) :
      J D D' K _ (Step.act heading (.query (.register callee))).run
        (Step.act heading (.query (.register callee))).run := by
    rw [Step.run]
    exact Tracking.Chains.bind h fun outcome => (tracked_heading heading outcome).holds
  by_cases hq : ∃ callee, q = .register callee
  · obtain ⟨callee, rfl⟩ := hq
    cases callee with
    | error fault => exact register (Basics.throw (.refused fault))
    | ok p => exact register (Noting.register p)
  · have hask : J D D K _ (Step.act heading (.query q)).run (Step.act heading (.query q)).run :=
      tracked_query heading q fun callee h => hq ⟨callee, h⟩
    have hlasting : lasting (Action.query q).events = [] := by
      cases q with
      | register callee => exact (hq ⟨callee, rfl⟩).elim
      | _ => rfl
    rwa [hlasting, List.append_nil]

variable [hK : K.Names]

theorem holds_act (heading : Heading) (a : Action) (hcalls : MayCall J D a.events) :
    J D (D ++ lasting a.events) K _ (Step.act heading a).run (Step.act heading a).run := by
  cases a with
  | query q => exact holds_query heading q
  | value a =>
    have : Meets J D K a.perform := tracked_laneAction a hcalls fun x _ => hK.each x
    have hlasting : lasting (Action.value a).events = [] := by
      cases a with
      | call callee args => cases callee <;> rfl
      | _ => rfl
    rw [hlasting, List.append_nil, Step.run]
    unfold Action.perform; exact Tracked.holds
  | attempt a =>
    have : Meets J D K a.perform := tracked_tryAction a hcalls
    have hlasting : lasting (Action.attempt a).events = [] := by cases a <;> rfl
    rw [hlasting, List.append_nil, Step.run]
    unfold Action.perform; exact Tracked.holds
  | command c =>
    have hlasting : lasting (Action.command c).events = [] := rfl
    rw [hlasting, List.append_nil, Step.run]
    unfold Action.perform; exact Tracked.holds

variable {run run' : Nat → Scripted Unit}

omit [Scripting J] hK in
theorem tracked_casesBy {D : Nat → Events} (h : ∀ i, J (D i) (D (i + 1)) K _ (run i) (run' i))
    (i : Nat) (cases : List (UInt32 × List Step)) :
    TrackedCases J K (D i) (D (i + cases.length)) (casesBy run i cases) (casesBy run' i cases) := by
  induction cases generalizing i with
  | nil => exact .nil
  | cons case cases ih =>
    rw [List.length_cons, show i + (cases.length + 1) = i + 1 + cases.length by omega]
    exact .cons case.1 (h i) (ih (i + 1))

theorem holds_runBy {D : Nat → Events} (h : ∀ i, J (D i) (D (i + 1)) K _ (run i) (run' i))
    (step : Step) (hcalls : MayCall J (D 0) step.ownEvents) : J (D 0)
    (D step.bodies.length ++ lasting step.ownEvents) K _ (step.runBy run) (step.runBy run') := by
  have (i : Nat) : Held J (D i) (D (i + 1)) K (run i) (run' i) := ⟨h i⟩
  cases step with
  | act heading a =>
    have hact : J (D 0) (D 0 ++ lasting a.events) K _ _ _ := holds_act heading a hcalls
    rwa [Step.run] at hact
  | switchOn label name cases =>
    have (value : Expr) (K' : Stock) [hK : K.Grows K'] [hvalue : K'.Has (items value)] :
        Tracked J (D 0) (D cases.length) K' (Build.switchOn value (casesBy run 0 cases))
          (Build.switchOn value (casesBy run' 0 cases)) := by
      have hcases := tracked_casesBy h 0 cases
      rw [Nat.zero_add] at hcases
      exact ⟨LaneControls.switchOn value hvalue (hcases.mono (Tracking.Chains.grow hK))⟩
    simp only [Step.ownEvents, lasting, List.filter_nil, List.append_nil, Step.bodies,
      List.length_map]
    unfold Step.runBy; exact Tracked.holds
  | define label bodyLabel callee params body result =>
    cases callee with
    | error fault => exact Basics.throw (.refused fault)
    | ok p =>
      show J (D 0) (D 1 ++ [.returns p]) K _ _ _
      simp only [Step.runBy, given, pure_bind]
      exact Tracked.holds
  | _ =>
    simp only [Step.ownEvents, lasting, List.filter_nil, List.append_nil]
    unfold Step.runBy; exact Tracked.holds

end Steps

def program (settings : Settings) (configured : Bool) (steps : List Step) : Scripted Unit := do
  if configured then Build.configure settings
  runAll steps

section Events

mutual

def Step.events : Step → Events
  | .act _ action => action.events
  | .ifThen _ _ _ body => eventsOf body
  | .ifElse _ _ _ body otherwise => eventsOf body ++ eventsOf otherwise
  | .ifLaneActive _ body => eventsOf body
  | .forRange _ _ _ _ body => eventsOf body
  | .loop _ _ body => eventsOf body
  | .switchOn _ _ cases => eventsOfCases cases
  | .define _ _ callee _ body _ => eventsOf body ++ returning callee
  | .transparentQuery _ _ _ _ body _ => eventsOf body

def eventsOf : List Step → Events
  | [] => []
  | step :: steps => step.events ++ eventsOf steps

def eventsOfCases : List (UInt32 × List Step) → Events
  | [] => []
  | case :: cases => eventsOfCase case ++ eventsOfCases cases

def eventsOfCase : UInt32 × List Step → Events
  | (_, body) => eventsOf body

end

def IsEarly (before : Events) (event : FunctionEvent) (p : Prototype) : Prop :=
  .returns p ∉ before ∧
    (event = .calls p ∨ event = .callsName p.name ∧ .registers p ∈ before)

def Admits (vouched : Prototype → Prop) (past events : Events) : Prop :=
  ∀ before event after p, events = before ++ event :: after → IsEarly (past ++ before) event p →
    vouched p

variable {vouched : Prototype → Prop} {past events events' : Events}

theorem admits_any (past events : Events) : Admits (fun _ => True) past events :=
  fun _ _ _ _ _ _ => trivial

theorem Admits.left (h : Admits vouched past (events ++ events')) : Admits vouched past events :=
  fun before event after p heq hp =>
    h before event (after ++ events') p (by simp [heq]) hp

theorem Admits.right (h : Admits vouched past (events ++ events')) :
    Admits vouched (past ++ events) events' := by
  intro before event after p heq hp
  refine h (events ++ before) event after p (by simp [heq]) ?_
  rwa [← List.append_assoc]

theorem eventsOfCases_eq (cases : List (UInt32 × List Step)) :
    eventsOfCases cases = (cases.map Prod.snd).flatMap eventsOf := by
  induction cases with
  | nil => rw [eventsOfCases]; rfl
  | cons case cases ih =>
    obtain ⟨label, body⟩ := case
    rw [eventsOfCases, eventsOfCase, ih]
    rfl

theorem Step.events_eq (step : Step) :
    step.events = step.bodies.flatMap eventsOf ++ step.ownEvents := by
  cases step with
  | switchOn label name cases =>
    rw [Step.events, eventsOfCases_eq]
    exact (List.append_nil _).symm
  | _ => simp [Step.events, Step.bodies, Step.ownEvents]

theorem Step.events_take_succ (step : Step) (i : Nat) :
    (step.bodies.take (i + 1)).flatMap eventsOf =
      (step.bodies.take i).flatMap eventsOf ++ eventsOf (step.body i) := by
  rw [List.take_add_one, List.flatMap_append, Step.body, List.getD_eq_getElem?_getD]
  cases step.bodies[i]? with
  | none => simp [eventsOf]
  | some body => simp

def Step.before (step : Step) (past : Events) (i : Nat) : Events :=
  past ++ (step.bodies.take i).flatMap eventsOf

theorem Step.before_succ (step : Step) (past : Events) (i : Nat) :
    step.before past (i + 1) = step.before past i ++ eventsOf (step.body i) := by
  rw [Step.before, Step.before, events_take_succ, List.append_assoc]

variable {step : Step}

theorem Admits.body (h : Admits vouched past step.events) (i : Nat) :
    Admits vouched (step.before past i) (eventsOf (step.body i)) := by
  have hbodies : step.bodies.flatMap eventsOf = (step.bodies.take i).flatMap eventsOf ++
      eventsOf (step.body i) ++ (step.bodies.drop (i + 1)).flatMap eventsOf := by
    rw [← step.events_take_succ, ← List.flatMap_append, List.take_append_drop]
  rw [step.events_eq, hbodies] at h
  exact h.left.left.right

theorem lasting_append (events events' : Events) :
    lasting (events ++ events') = lasting events ++ lasting events' := List.filter_append ..

variable {J : Tracking Events Notebook} [Scripting J] [K.Names]

theorem holds_step (hcalls : MayCall J (lasting past) step.ownEvents)
    (hbodies : ∀ i, J (lasting (step.before past i))
      (lasting (step.before past i ++ eventsOf (step.body i))) K _ (runAll (step.body i))
      (runAll (step.body i))) :
    J (lasting past) (lasting (past ++ step.events)) K _ step.run step.run := by
  have hstart : step.before past 0 = past := by simp [Step.before]
  have hend : step.before past step.bodies.length ++ step.ownEvents = past ++ step.events := by
    rw [Step.before, List.take_length, List.append_assoc, ← step.events_eq]
  have hcalls : MayCall J (lasting (step.before past 0)) step.ownEvents := hstart.symm ▸ hcalls
  have hstep := holds_runBy (D := fun i => lasting (step.before past i))
    (fun i => step.before_succ past i ▸ hbodies i) step hcalls
  rw [← lasting_append, hstart, hend] at hstep
  rwa [step.run_eq]

theorem holds_runAll (hcalls : ∀ {past step}, Admits vouched past (Step.events step) →
    MayCall J (lasting past) step.ownEvents) (steps : List Step) :
    ∀ past (K : Stock) [K.Names], Admits vouched past (eventsOf steps) →
      J (lasting past) (lasting (past ++ eventsOf steps)) K _ (runAll steps) (runAll steps) := by
  refine holds_of_bodies (P := fun steps => ∀ past (K : Stock) [K.Names],
    Admits vouched past (eventsOf steps) →
      J (lasting past) (lasting (past ++ eventsOf steps)) K _ (runAll steps) (runAll steps)) ?_
    (fun step steps hbodies hsteps => ?_) steps
  · intro past K _ _
    rw [runAll, eventsOf, List.append_nil]
    exact Tracking.Chains.pure () inferInstance
  · intro past K _ h
    rw [eventsOf] at h ⊢
    have hstep := holds_step (K := K) (hcalls h.left) fun i => hbodies i _ _ (h.left.body i)
    have hrest := hsteps _ (K.adding ()) h.right
    rw [runAll_cons, ← List.append_assoc]
    exact Tracking.Chains.bind hstep fun _ => hrest

theorem holds_program (hcalls : ∀ {past step}, Admits vouched past (Step.events step) →
    MayCall J (lasting past) step.ownEvents) (settings : Settings) (configured : Bool)
    {steps : List Step} (h : Admits vouched [] (eventsOf steps)) :
    J [] (lasting (eventsOf steps)) K _ (program settings configured steps)
      (program settings configured steps) := by
  have : Held J [] (lasting (eventsOf steps)) K (runAll steps) (runAll steps) :=
    ⟨holds_runAll hcalls steps [] K h⟩
  unfold program
  exact Tracked.holds

end Events

class Operating (J : Tracking Events Notebook) : Prop extends FunctionStatements J, Scripting J where
  calls (D events : Events) : MayCall J D events

def Built (α : Type) (x : Scripted α) : Prop :=
  ∀ J : Tracking Events Notebook, [Operating J] → ∃ (_ : Bears α) (D : _), J [] D .all α x x

theorem built_runAll (steps : List Step) : Built Unit (runAll steps) := fun _ _ =>
  ⟨_, _, holds_runAll (fun _ => Operating.calls _ _) steps [] .all (admits_any [] _)⟩

theorem built_step (step : Step) : Built Unit step.run := fun _ _ =>
  ⟨_, _, holds_step (Operating.calls (lasting []) _) fun i =>
    holds_runAll (fun _ => Operating.calls _ _) (step.body i) _ .all (admits_any _ _)⟩

theorem built_program (settings : Settings) (configured : Bool) (steps : List Step) :
    Built Unit (program settings configured steps) := fun _ _ =>
  ⟨_, _, holds_program (fun _ => Operating.calls _ _) settings configured (admits_any [] _)⟩

section Untracked

variable {J : Judgement Scripted} [hJ : Scripting (Untracked J)]

theorem mayCall_untracked (hname : ∀ name, J _ (Build.function? name) (Build.function? name))
    (D events : Events) : MayCall (Untracked J) D events :=
  ⟨fun p _ _ => ⟨hJ.pure (D := []) (K := .all) p inferInstance⟩, fun name _ _ => ⟨hname name⟩⟩

theorem judged_runAll (hname : ∀ name, J _ (Build.function? name) (Build.function? name))
    (steps : List Step) : J _ (runAll steps) (runAll steps) :=
  holds_runAll (J := Untracked J) (fun _ => mayCall_untracked hname _ _) steps [] .all
    (admits_any [] _)

theorem judged_program (hname : ∀ name, J _ (Build.function? name) (Build.function? name))
    (settings : Settings) (configured : Bool) (steps : List Step) :
    J _ (program settings configured steps) (program settings configured steps) :=
  holds_program (J := Untracked J) (K := .all) (fun _ => mayCall_untracked hname _ _) settings
    configured (admits_any [] _)

end Untracked

end ComputeKernel.Script
