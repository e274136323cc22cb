import ComputeKernel.Proofs.BuildJudgements

namespace ComputeKernel

namespace Line

instance (cond : Spelling) : Simple (.openIf cond) := ⟨rfl, rfl, nofun⟩

instance : Simple .openElse := ⟨rfl, rfl, nofun⟩

instance (mask : Spelling) : Simple (.openMask mask) := ⟨rfl, rfl, nofun⟩

instance (mask : Spelling) : Simple (.openElseMask mask) := ⟨rfl, rfl, nofun⟩

instance (counter first last : Spelling) : Simple (.openFor counter first last) := ⟨rfl, rfl, nofun⟩

instance : Simple .openWhile := ⟨rfl, rfl, nofun⟩

instance (value : Spelling) : Simple (.openSwitch value) := ⟨rfl, rfl, nofun⟩

instance (label : UInt32) : Simple (.openCase label) := ⟨rfl, rfl, nofun⟩

instance : Simple .closeCase := ⟨rfl, rfl, nofun⟩

instance : Simple .close := ⟨rfl, rfl, nofun⟩

instance : Simple .breakLoop := ⟨rfl, rfl, nofun⟩

instance : Simple .continueLoop := ⟨rfl, rfl, nofun⟩

instance (query : String) : Simple (.openQueryLoop query) := ⟨rfl, rfl, nofun⟩

instance (query : String) : Simple (.openCandidate query) := ⟨rfl, rfl, nofun⟩

instance (query : String) : Simple (.openCommitted query) := ⟨rfl, rfl, nofun⟩

end Line

namespace Build

open Bears (items)

variable {σ ν : Type}

def spread (first last counter : Expr) : Build ν Unit := do
  let either ← emitting (.diverging (.either first.divergence last.divergence))
  if either = .divergent then emitting (.diverging (.force counter.id))

def countFrom (a b counter : Expr) (body : Expr → Build ν Unit) : Build ν Unit := do
  writeLine (.openFor (← nameOf counter) (← nameOf a) (← nameOf b))
  let running ← node fun id => .binary id .le counter b
  loopBody (some running) (body counter)
  writeLine .close

theorem forRange_eq (first last : Operand) (body : Expr → Build ν Unit) :
    forRange first last body = (do
      let a ← emitOperand first
      let b ← emitOperand last
      let ty ← typeOf a
      let ty' ← typeOf b
      if ty ≠ ty' ∨ !isLoopBound ty then fatal (.loopBounds ty ty')
      let z ← zero ty
      let counter ← copy z
      spread a b counter
      countFrom a b counter body) := by
  have hmark (mode : Divergence) (id : Nat) (k : Build ν Unit) :
      (if mode = .divergent then emitting (.diverging (.force id)) >>= fun _ => k else k) =
        (if mode = .divergent then emitting (.diverging (.force id)) else pure ()) >>= fun _ => k := by
    split
    · rfl
    · rw [pure_bind]
  simp only [forRange, spread, countFrom, bind_assoc, ← hmark]

def writeFunction (p : Prototype) (body : List Expr → Build ν (Option Expr)) : Build ν Unit := do
  let header ← must p.header
  redraft Draft.enterFunction
  writeLine (.openFunction p header)
  let params ← p.params.mapM fun q => do
    emit (← node fun id => .storage id q.name q.ty)
  let result ← body params
  returnResult p (p.fixedReturn?.getD .void) result
  writeLine .close
  drafting .exitFunction

theorem defineFunction_eq_writeFunction (p : Prototype)
    (body : List Expr → Build ν (Option Expr)) :
    defineFunction p body = writeFunction p body >>= fun _ => register p := by
  simp only [defineFunction, writeFunction, bind_assoc]

class Lines (J : Tracking σ ν) : Prop extends Operations J where
  line (line : Line) [line.Simple] : J.On (Build.writeLine line)
  pushTarget (target : BreakTarget) : J.On (redraft (·.pushTarget target))
  popTarget : J.On (drafting .popTarget)
  checkBreak (what : String) : J.On (drafting (.checkBreak what))
  checkContinue : J.On (drafting .checkContinue)

class Blocks (J : Tracking σ ν) : Prop extends Lines J, Naming J where
  inScope {D D' : σ} {K : Stock} (condition : Option Expr) {body body' : Build ν Unit} :
    J D D' K _ body body' → J D D' K _ (inScope condition body) (inScope condition body')

class Ranges (J : Tracking σ ν) : Prop extends Blocks J where
  spread (first last counter : Expr) : J.On (spread first last counter)

class MaskLines (J : Tracking σ ν) : Prop extends Lines J, Markings J where
  spread (first last counter : Expr) : J.On (spread first last counter)
  pushMask (mask : Expr) : J.Given (items mask) (redraft (·.pushMask mask))
  popMask : J.On (drafting .popMask)

class MaskBlocks (J : Tracking σ ν) : Prop extends Ranges J, MaskLines J

class Statements (J : Tracking σ ν) : Prop extends MaskLines J where
  enterScope (condition : Option Expr) : J.On (redraft (·.enterScope condition))
  exitScope : J.On (drafting .exitScope)

class FunctionStatements (J : Tracking σ ν) : Prop extends Statements J where
  enterFunction : J.On (redraft Draft.enterFunction)
  openFunction (p : Prototype) (header : String) : J.On (Build.writeLine (.openFunction p header))
  exitFunction : J.On (drafting .exitFunction)

inductive TrackedCases (J : Tracking σ ν) (K : Stock) : σ → σ →
    List (UInt32 × Build ν Unit) → List (UInt32 × Build ν Unit) → Prop
  | nil {D : σ} : TrackedCases J K D D [] []
  | cons {D D₁ D₂ : σ} (label : UInt32) {body body' : Build ν Unit}
    {cases cases' : List (UInt32 × Build ν Unit)} : J D D₁ K _ body body' →
      TrackedCases J K D₁ D₂ cases cases' →
        TrackedCases J K D D₂ ((label, body) :: cases) ((label, body') :: cases')

class LaneControls (J : Tracking σ ν) : Prop extends Crafting J where
  laneIf {D D' : σ} {K : Stock} (cond : Expr) {body body' : Build ν Unit} :
    K.Has (items cond) → J D D' K _ body body' →
      J D D' K _ (laneIf cond body) (laneIf cond body')
  laneIfElse {D D₁ D₂ : σ} {K : Stock} (cond : Expr)
    {body body' other other' : Build ν Unit} : K.Has (items cond) → J D D₁ K _ body body' →
      J D₁ D₂ K _ other other' →
        J D D₂ K _ (laneIfElse cond body other) (laneIfElse cond body' other')
  ifLaneActive {D D' : σ} {K : Stock} {body body' : Build ν Unit} :
    J D D' K _ body body' → J D D' K _ (ifLaneActive body) (ifLaneActive body')
  forRange {D D' : σ} {K : Stock} (first last : Operand)
    {body body' : Expr → Build ν Unit} : K.Has (items first) → K.Has (items last) →
      (∀ i, J D D' (K.adding i) _ (body i) (body' i)) →
        J D D' K _ (forRange first last body) (forRange first last body')
  laneWhile {D D' : σ} {K : Stock} {body body' : Build ν Unit} :
    J D D' K _ body body' → J D D' K _ (laneWhile body) (laneWhile body')
  switchOn {D D' : σ} {K : Stock} (value : Expr)
    {cases cases' : List (UInt32 × Build ν Unit)} : K.Has (items value) →
      TrackedCases J K D D' cases cases' → J D D' K _ (switchOn value cases) (switchOn value cases')
  breakLoop : J.On breakLoop
  continueLoop : J.On continueLoop
  transparentQuery {D D' : σ} {K : Stock} (scene ray : Expr)
    {accept accept' : Expr → Build ν Expr} :
      (∀ c, J D D' (K.adding c) _ (accept c) (accept' c)) →
        J D D' K _ (transparentQuery scene ray accept) (transparentQuery scene ray accept')

class Controls (J : Tracking σ ν) : Prop extends LaneControls J where
  enableWave32 : J.On enableWave32
  maskedIf {D D' : σ} {K : Stock} (cond : Expr) {body body' : Build ν Unit} :
    J D D' K _ body body' → J D D' K _ (maskedIf cond body none) (maskedIf cond body' none)
  maskedIfElse {D D₁ D₂ : σ} {K : Stock} (cond : Expr)
    {body body' other other' : Build ν Unit} : J D D₁ K _ body body' → J D₁ D₂ K _ other other' →
      J D D₂ K _ (Build.maskedIf cond body (some other)) (Build.maskedIf cond body' (some other'))
  maskedWhile {D D' : σ} {K : Stock} {body body' : Build ν Unit} :
    J D D' K _ body body' → J D D' K _ (maskedWhile body) (maskedWhile body')

theorem TrackedCases.mono {J' : Tracking σ ν} {K' : Stock}
    {cases cases' : List (UInt32 × Build ν Unit)} (h : TrackedCases J K D D' cases cases')
    (hJ : ∀ {D D' body body'}, J D D' K Unit body body' → J' D D' K' Unit body body') :
    TrackedCases J' K' D D' cases cases' := by
  induction h with
  | nil => exact .nil
  | cons label hbody _ ih => exact .cons label (hJ hbody) ih

instance both_lanes (J J' : Tracking σ ν) [LaneControls J] [LaneControls J'] :
    LaneControls (Both J J') where
  toCrafting := both_crafting J J'
  laneIf cond _ _ hcond h := ⟨LaneControls.laneIf cond hcond h.1, LaneControls.laneIf cond hcond h.2⟩
  laneIfElse cond _ _ _ _ hcond h ho :=
    ⟨LaneControls.laneIfElse cond hcond h.1 ho.1, LaneControls.laneIfElse cond hcond h.2 ho.2⟩
  ifLaneActive h := ⟨LaneControls.ifLaneActive h.1, LaneControls.ifLaneActive h.2⟩
  forRange first last _ _ hfirst hlast h :=
    ⟨LaneControls.forRange first last hfirst hlast fun i => (h i).1,
      LaneControls.forRange first last hfirst hlast fun i => (h i).2⟩
  laneWhile h := ⟨LaneControls.laneWhile h.1, LaneControls.laneWhile h.2⟩
  switchOn value _ _ hvalue h := ⟨LaneControls.switchOn value hvalue (h.mono fun h => h.1),
    LaneControls.switchOn value hvalue (h.mono fun h => h.2)⟩
  breakLoop := ⟨LaneControls.breakLoop, LaneControls.breakLoop⟩
  continueLoop := ⟨LaneControls.continueLoop, LaneControls.continueLoop⟩
  transparentQuery scene ray _ _ h := ⟨LaneControls.transparentQuery scene ray fun c => (h c).1,
    LaneControls.transparentQuery scene ray fun c => (h c).2⟩

instance both_controls (J J' : Tracking σ ν) [Controls J] [Controls J'] : Controls (Both J J') where
  toLaneControls := both_lanes J J'
  enableWave32 := ⟨Controls.enableWave32, Controls.enableWave32⟩
  maskedIf cond _ _ h := ⟨Controls.maskedIf cond h.1, Controls.maskedIf cond h.2⟩
  maskedIfElse cond _ _ _ _ h ho :=
    ⟨Controls.maskedIfElse cond h.1 ho.1, Controls.maskedIfElse cond h.2 ho.2⟩
  maskedWhile h := ⟨Controls.maskedWhile h.1, Controls.maskedWhile h.2⟩

class Definitions (J : Tracking Events ν) : Prop where
  defineFunction {D D' : Events} {K : Stock} (p : Prototype)
    {body body' : List Expr → Build ν (Option Expr)} :
      (∀ params, J D D' (K.adding params) _ (body params) (body' params)) →
        J D (D' ++ [.returns p]) K _ (defineFunction p body) (defineFunction p body')

variable {J : Tracking σ ν} {D D' D₁ D₂ : σ} {K : Stock}

section Lines

variable [Lines J]

instance (line : Line) [line.Simple] : Meets J D K (writeLine line) := ⟨Lines.line line⟩

instance (target : BreakTarget) :
    Meets J D K (redraft (·.pushTarget target)) := ⟨Lines.pushTarget target⟩

instance : Meets J D K (drafting .popTarget) := ⟨Lines.popTarget⟩

instance (what : String) : Meets J D K (drafting (.checkBreak what)) := ⟨Lines.checkBreak what⟩

instance : Meets J D K (drafting .checkContinue) := ⟨Lines.checkContinue⟩

end Lines

section Blocks

variable [Blocks J]

theorem Tracked.scope {condition : Option Expr} {body body' : Build ν Unit}
    (h : Tracked J D D' K body body') :
    Tracked J D D' K (inScope condition body) (inScope condition body') :=
  ⟨Blocks.inScope condition h.holds⟩

instance (condition : Option Expr) (body body' : Build ν Unit) [h : Tracked J D D' K body body'] :
    Tracked J D D' K (inScope condition body) (inScope condition body') := h.scope

section Bodies

variable {K₀ : Stock} (body body' : Build ν Unit) [Held J D D' K₀ body body'] [K₀.Grows K]

instance (condition : Option Expr) :
    Tracked J D D' K (loopBody condition body) (loopBody condition body') := by
  unfold loopBody; infer_instance

instance (value : Expr) (label : UInt32) :
    Tracked J D D' K (switchCase value label body) (switchCase value label body') := by
  unfold switchCase; infer_instance

end Bodies

end Blocks

section Ranges

variable [Ranges J]

instance (first last counter : Expr) : Meets J D K (spread first last counter) :=
  ⟨Ranges.spread first last counter⟩

instance {K₀ : Stock} (a b counter : Expr) (body body' : Expr → Build ν Unit)
    [∀ i, Held J D D' (K₀.adding i) (body i) (body' i)] [K₀.Grows K] [K.Has (items b)]
    [K.Has (items counter)] :
    Tracked J D D' K (countFrom a b counter body) (countFrom a b counter body') := by
  unfold countFrom
  repeat with_reducible refine Tracked.after fun _ => ?_
  infer_instance

theorem tracked_cases (value : Expr) {cases cases' : List (UInt32 × Build ν Unit)}
    (h : TrackedCases J K D D' cases cases') :
    Tracked J D D' K (cases.forM fun (label, body) => switchCase value label body)
      (cases'.forM fun (label, body) => switchCase value label body) := by
  induction h with
  | nil => exact tracked_pure ()
  | @cons D D₁ D₂ label body body' cases cases' hbody _ ih =>
    have : Held J D D₁ K body body' := ⟨hbody⟩
    have : Held J D₁ D₂ K (cases.forM fun (label, body) => switchCase value label body)
      (cases'.forM fun (label, body) => switchCase value label body) := ⟨ih.holds⟩
    exact tracked_bind (switchCase value label body) (switchCase value label body') _ _

instance : LaneControls J where
  laneIf {D D' K} cond body body' hcond h := by
    have : Held J D D' K body body' := ⟨h⟩
    unfold laneIf; exact Tracked.holds
  laneIfElse {D D₁ D₂ K} cond body body' other other' hcond h ho := by
    have : Held J D D₁ K body body' := ⟨h⟩
    have : Held J D₁ D₂ K other other' := ⟨ho⟩
    unfold laneIfElse
    refine (?_ : Tracked J D D₂ K _ _).holds
    repeat with_reducible refine Tracked.after fun _ => ?_
    infer_instance
  ifLaneActive {D D' K body body'} h := by
    have : Held J D D' K body body' := ⟨h⟩
    unfold ifLaneActive
    refine (?_ : Tracked J D D' K _ _).holds
    repeat with_reducible refine Tracked.after fun _ => ?_
    infer_instance
  forRange {D D' K} first last body body' hfirst hlast h := by
    have (i : Expr) : Held J D D' (K.adding i) (body i) (body' i) := ⟨h i⟩
    rw [forRange_eq, forRange_eq]
    refine (?_ : Tracked J D D' K _ _).holds
    repeat with_reducible refine Tracked.after fun _ => ?_
    refine Tracked.branch ?_ ?_ <;>
      ((repeat with_reducible refine Tracked.after fun _ => ?_); infer_instance)
  laneWhile {D D' K body body'} h := by
    have : Held J D D' K body body' := ⟨h⟩
    unfold laneWhile; exact Tracked.holds
  switchOn {D D' K} value cases cases' hvalue h := by
    have : Held J D D' K _ _ := ⟨(tracked_cases value h).holds⟩
    dsimp only [switchOn]
    refine (?_ : Tracked J D D' K _ _).holds
    refine Tracked.after fun _ => Tracked.branch ?_ ?_ <;>
      ((repeat with_reducible refine Tracked.after fun _ => ?_); infer_instance)
  breakLoop := by unfold breakLoop; exact Tracked.holds
  continueLoop := by unfold continueLoop; exact Tracked.holds
  transparentQuery {D D' K} scene ray accept accept' h := by
    have (c : Expr) : Held J D D' (K.adding c) (accept c) (accept' c) := ⟨h c⟩
    unfold transparentQuery
    refine (?_ : Tracked J D D' K _ _).holds
    repeat with_reducible refine Tracked.after fun _ => ?_
    -- The scope of the query's loop, with that of the candidate in it.
    refine Tracked.andThen D' (Tracked.scope ?_) fun _ => ?_
    · refine Tracked.after fun _ => Tracked.andThen D' (Tracked.scope ?_) fun _ => inferInstance
      repeat with_reducible refine Tracked.after fun _ => ?_
      infer_instance
    · repeat with_reducible refine Tracked.after fun _ => ?_
      infer_instance

end Ranges

section Statements

variable [Statements J]

instance (condition : Option Expr) :
    Meets J D K (redraft (·.enterScope condition)) := ⟨Statements.enterScope condition⟩

instance : Meets J D K (drafting .exitScope) := ⟨Statements.exitScope⟩

instance : MaskBlocks J where
  inScope {D D' K} condition body body' h := by
    have : Held J D D' K body body' := ⟨h⟩
    unfold inScope; exact Tracked.holds

end Statements

section MaskBlocks

variable [MaskBlocks J]

instance (mask : Expr) [h : K.Has (items mask)] :
    Meets J D K (redraft (·.pushMask mask)) := ⟨MaskLines.pushMask mask h⟩

instance : Meets J D K (drafting .popMask) := ⟨MaskLines.popMask⟩

instance {K₀ : Stock} (mask : Expr) (body body' : Build ν Unit)
    [Held J D D' K₀ body body'] [K₀.Grows K] [K.Has (items mask)] :
    Tracked J D D' K (maskedBranch mask body) (maskedBranch mask body') := by
  unfold maskedBranch; infer_instance

instance : Controls J where
  enableWave32 := by unfold enableWave32 constant; exact Tracked.holds
  maskedIf {D D' K} cond body body' h := by
    have : Held J D D' K body body' := ⟨h⟩
    dsimp only [maskedIf]
    refine (?_ : Tracked J D D' K _ _).holds
    repeat with_reducible refine Tracked.after fun _ => ?_
    infer_instance
  maskedIfElse {D D₁ D₂ K} cond body body' other other' h ho := by
    have : Held J D D₁ K body body' := ⟨h⟩
    have : Held J D₁ D₂ K other other' := ⟨ho⟩
    dsimp only [maskedIf]
    refine (?_ : Tracked J D D₂ K _ _).holds
    repeat with_reducible refine Tracked.after fun _ => ?_
    infer_instance
  maskedWhile {D D' K body body'} h := by
    have : Held J D D' K body body' := ⟨h⟩
    unfold maskedWhile
    refine (?_ : Tracked J D D' K _ _).holds
    repeat with_reducible refine Tracked.after fun _ => ?_
    infer_instance

end MaskBlocks

section Functions

variable [FunctionStatements J]

instance : Meets J D K (redraft Draft.enterFunction) := ⟨FunctionStatements.enterFunction⟩

instance (p : Prototype) (header : String) :
    Meets J D K (writeLine (.openFunction p header)) := ⟨FunctionStatements.openFunction p header⟩

instance : Meets J D K (drafting .exitFunction) := ⟨FunctionStatements.exitFunction⟩

instance tracked_writeFunction {K₀ : Stock} (p : Prototype)
    (body body' : List Expr → Build ν (Option Expr))
    [∀ params, Held J D D' (K₀.adding params) (body params) (body' params)] [K₀.Grows K] :
    Tracked J D D' K (writeFunction p body) (writeFunction p body') := by
  unfold writeFunction
  repeat with_reducible refine Tracked.after fun _ => ?_
  infer_instance

theorem definitions_of_statements {J : Tracking Events ν} [FunctionStatements J]
    (hregister : ∀ {D K} (p : Prototype),
    J D (D ++ [.returns p]) K _ (register p) (register p)) : Definitions J where
  defineFunction {D D' K} p body body' h := by
    have (params : List Expr) : Held J D D' (K.adding params) (body params) (body' params) :=
      ⟨h params⟩
    rw [defineFunction_eq_writeFunction, defineFunction_eq_writeFunction]
    exact Tracking.Chains.bind (tracked_writeFunction p body body').holds fun _ => hregister p

end Functions

section Controls

instance tracked_enableWave32 [Controls J] : Meets J D K enableWave32 := ⟨Controls.enableWave32⟩

theorem meets_configure [Basics J] (h : ∀ K, Meets J D K enableWave32) (settings : Settings) :
    Meets J D K (configure settings) := by
  refine ⟨Tracking.Chains.bind (Basics.setGroupSize _) fun r => ?_⟩
  cases r with
  | error fault => exact Basics.throw _
  | ok _ =>
    dsimp only
    split
    · exact (h _).holds
    · exact Tracking.Chains.pure () inferInstance

instance [Controls J] (settings : Settings) : Meets J D K (configure settings) :=
  meets_configure (fun _ => tracked_enableWave32) settings

variable (body body' other other' : Build ν Unit) [hbody : Tracked J D D₁ K body body']
  [hother : Tracked J D₁ D₂ K other other']

section Lanes

variable [LaneControls J]

instance (cond : Expr) [hcond : K.Has (items cond)] :
    Tracked J D D₁ K (laneIf cond body) (laneIf cond body') :=
  ⟨LaneControls.laneIf cond hcond hbody.holds⟩

instance (cond : Expr) [hcond : K.Has (items cond)] :
    Tracked J D D₂ K (laneIfElse cond body other) (laneIfElse cond body' other') :=
  ⟨LaneControls.laneIfElse cond hcond hbody.holds hother.holds⟩

instance : Tracked J D D₁ K (ifLaneActive body) (ifLaneActive body') :=
  ⟨LaneControls.ifLaneActive hbody.holds⟩

instance : Tracked J D D₁ K (laneWhile body) (laneWhile body') :=
  ⟨LaneControls.laneWhile hbody.holds⟩

instance (first last : Operand) (body body' : Expr → Build ν Unit)
    [hfirst : K.Has (items first)] [hlast : K.Has (items last)]
    [h : ∀ i, Tracked J D D' (K.adding i) (body i) (body' i)] :
    Tracked J D D' K (forRange first last body) (forRange first last body') :=
  ⟨LaneControls.forRange first last hfirst hlast fun i => (h i).holds⟩

instance : Meets J D K breakLoop := ⟨LaneControls.breakLoop⟩

instance : Meets J D K continueLoop := ⟨LaneControls.continueLoop⟩

instance (scene ray : Expr) (accept accept' : Expr → Build ν Expr)
    [h : ∀ c, Tracked J D D' (K.adding c) (accept c) (accept' c)] :
    Tracked J D D' K (transparentQuery scene ray accept) (transparentQuery scene ray accept') :=
  ⟨LaneControls.transparentQuery scene ray fun c => (h c).holds⟩

instance (buffer count key : Expr) [K.Has (items buffer)]
    [K.Has (items count)] [K.Has (items key)] : Meets J D K (binarySearch buffer count key) := by
  unfold binarySearch
  repeat with_reducible refine Tracked.after fun _ => ?_
  refine Tracked.andThen D ⟨LaneControls.laneWhile ?_⟩ fun _ => inferInstance
  refine (?_ : Tracked J D D _ _ _).holds
  repeat with_reducible refine Tracked.after fun _ => ?_
  infer_instance

end Lanes

variable [Controls J]

instance (cond : Expr) : Tracked J D D₁ K (maskedIf cond body none) (maskedIf cond body' none) :=
  ⟨Controls.maskedIf cond hbody.holds⟩

instance (cond : Expr) :
    Tracked J D D₂ K (maskedIf cond body (some other)) (maskedIf cond body' (some other')) :=
  ⟨Controls.maskedIfElse cond hbody.holds hother.holds⟩

instance : Tracked J D D₁ K (maskedWhile body) (maskedWhile body') :=
  ⟨Controls.maskedWhile hbody.holds⟩

end Controls

section Choices

variable [Controls J] {K₀ : Stock} (body body' other other' : Build ν Unit)
  [Held J D D₁ K₀ body body'] [Held J D₁ D₂ K₀ other other'] [K₀.Grows K]

instance (cond : Expr) [K.Has (items cond)] :
    Tracked J D D₁ K (ifThen cond body) (ifThen cond body') := by
  unfold ifThen; infer_instance

instance (cond : Expr) [K.Has (items cond)] :
    Tracked J D D₂ K (ifElse cond body other) (ifElse cond body' other') := by
  unfold ifElse; infer_instance

instance : Tracked J D D₁ K (whileLoop body) (whileLoop body') := by
  unfold whileLoop; infer_instance

end Choices

instance {J : Tracking Events ν} {D D' : Events} [Definitions J] (p : Prototype)
    (body body' : List Expr → Build ν (Option Expr))
    [h : ∀ params, Tracked J D D' (K.adding params) (body params) (body' params)] :
    Tracked J D (D' ++ [.returns p]) K (defineFunction p body) (defineFunction p body') :=
  ⟨Definitions.defineFunction p fun params => (h params).holds⟩

end Build

end ComputeKernel
