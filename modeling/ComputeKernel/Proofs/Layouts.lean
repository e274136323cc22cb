import ComputeKernel.Proofs.LoopExits

namespace ComputeKernel

namespace Line

class Opens (line : Line) (block : outParam Enclosure) : Prop where
  bracing : line.bracing = .opens
  enclosure : line.enclosure = block

class Turns (line : Line) (block : outParam Enclosure) : Prop where
  bracing : line.bracing = .turns
  enclosure : line.enclosure = block

class Closes (line : Line) : Prop where
  bracing : line.bracing = .closes

instance (cond : Spelling) : Opens (.openIf cond) .other := ⟨rfl, rfl⟩

instance (mask : Spelling) : Opens (.openMask mask) .other := ⟨rfl, rfl⟩

instance (counter first last : Spelling) : Opens (.openFor counter first last) .loop := ⟨rfl, rfl⟩

instance : Opens .openWhile .loop := ⟨rfl, rfl⟩

instance (value : Spelling) : Opens (.openSwitch value) .switch := ⟨rfl, rfl⟩

instance (label : UInt32) : Opens (.openCase label) .other := ⟨rfl, rfl⟩

instance (query : String) : Opens (.openQueryLoop query) .loop := ⟨rfl, rfl⟩

instance (query : String) : Opens (.openCandidate query) .other := ⟨rfl, rfl⟩

instance (query : String) : Opens (.openCommitted query) .other := ⟨rfl, rfl⟩

instance : Turns .openElse .other := ⟨rfl, rfl⟩

instance (mask : Spelling) : Turns (.openElseMask mask) .other := ⟨rfl, rfl⟩

instance : Closes .close := ⟨rfl⟩

instance : Closes .closeCase := ⟨rfl⟩

end Line

namespace Build

open Bears (items)

variable {ε ν : Type}

abbrev Tracking.Shifts {α : Type} [Bears α] (J : Tracking (Pending × ε) ν) (x : Build ν α)
    (p q : Pending) : Prop := ∀ {e : ε} {K : Stock}, J (p, e) (q, e) K α x x

class Layouts (J : Tracking (Pending × ε) ν) : Prop extends Markings J where
  opens (line : Line) {k : Enclosure} [line.Opens k] (b : List Enclosure) (t : List BreakTarget)
    (n : Nat) : J.Shifts (Build.writeLine line) ⟨b, t, n⟩ ⟨k :: b, t, n⟩
  turns (line : Line) {k : Enclosure} [line.Turns k] (j : Enclosure) (b : List Enclosure)
    (t : List BreakTarget) (n : Nat) : J.Shifts (Build.writeLine line) ⟨j :: b, t, n⟩ ⟨k :: b, t, n⟩
  closes (line : Line) [line.Closes] (k : Enclosure) (b : List Enclosure) (t : List BreakTarget)
    (n : Nat) : J.Shifts (Build.writeLine line) ⟨k :: b, t, n⟩ ⟨b, t, n⟩
  pushTarget (target : BreakTarget) (b : List Enclosure) (t : List BreakTarget) (n : Nat) :
    J.Shifts (redraft (·.pushTarget target)) ⟨b, t, n⟩ ⟨b, target :: t, n⟩
  popTarget (target : BreakTarget) (b : List Enclosure) (t : List BreakTarget) (n : Nat) :
    J.Shifts (drafting .popTarget) ⟨b, target :: t, n⟩ ⟨b, t, n⟩
  enterScope (condition : Option Expr) (b : List Enclosure) (t : List BreakTarget) (n : Nat) :
    J.Shifts (redraft (·.enterScope condition)) ⟨b, t, n⟩ ⟨b, t, n + 1⟩
  exitScope (b : List Enclosure) (t : List BreakTarget) (n : Nat) :
    J.Shifts (drafting .exitScope) ⟨b, t, n + 1⟩ ⟨b, t, n⟩
  pushMask (mask : Expr) : J.On (redraft (·.pushMask mask))
  popMask : J.On (drafting .popMask)
  spread (first last counter : Expr) : J.On (spread first last counter)

variable {J : Tracking (Pending × ε) ν} [Layouts J] {b : List Enclosure} {t : List BreakTarget}
  {n : Nat} {e e' e'' : ε} {K : Stock}

instance (line : Line) {k : Enclosure} [line.Opens k] :
    Tracked J (⟨b, t, n⟩, e) (⟨k :: b, t, n⟩, e) K (writeLine line) (writeLine line) :=
  ⟨Layouts.opens line b t n⟩

instance (line : Line) {j k : Enclosure} [line.Turns k] :
    Tracked J (⟨j :: b, t, n⟩, e) (⟨k :: b, t, n⟩, e) K (writeLine line) (writeLine line) :=
  ⟨Layouts.turns line j b t n⟩

instance (line : Line) {k : Enclosure} [line.Closes] :
    Tracked J (⟨k :: b, t, n⟩, e) (⟨b, t, n⟩, e) K (writeLine line) (writeLine line) :=
  ⟨Layouts.closes line k b t n⟩

instance (target : BreakTarget) :
    Tracked J (⟨b, t, n⟩, e) (⟨b, target :: t, n⟩, e) K (redraft (·.pushTarget target))
      (redraft (·.pushTarget target)) := ⟨Layouts.pushTarget target b t n⟩

instance {target : BreakTarget} :
    Tracked J (⟨b, target :: t, n⟩, e) (⟨b, t, n⟩, e) K (drafting .popTarget)
      (drafting .popTarget) := ⟨Layouts.popTarget target b t n⟩

instance (condition : Option Expr) :
    Tracked J (⟨b, t, n⟩, e) (⟨b, t, n + 1⟩, e) K (redraft (·.enterScope condition))
      (redraft (·.enterScope condition)) := ⟨Layouts.enterScope condition b t n⟩

instance :
    Tracked J (⟨b, t, n + 1⟩, e) (⟨b, t, n⟩, e) K (drafting .exitScope) (drafting .exitScope) :=
  ⟨Layouts.exitScope b t n⟩

instance (mask : Expr) (D : Pending × ε) :
    Meets J D K (redraft (·.pushMask mask)) := ⟨Layouts.pushMask mask⟩

instance (D : Pending × ε) : Meets J D K (drafting .popMask) := ⟨Layouts.popMask⟩

instance (first last counter : Expr) (D : Pending × ε) :
    Meets J D K (spread first last counter) := ⟨Layouts.spread first last counter⟩

section Branches

variable (cond : Expr) {body other : Build ν Unit}
  (h : J (⟨.other :: b, t, n + 1⟩, e) (⟨.other :: b, t, n + 1⟩, e') .all _ body body)
  (ho : J (⟨.other :: b, t, n + 1⟩, e') (⟨.other :: b, t, n + 1⟩, e'') .all _ other other)

include h

theorem layout_laneIf :
    J (⟨b, t, n⟩, e) (⟨b, t, n⟩, e') .all _ (laneIf cond body) (laneIf cond body) := by
  have := Held.mk h
  unfold laneIf inScope; exact Tracked.holds

theorem layout_maskedIf :
    J (⟨b, t, n⟩, e) (⟨b, t, n⟩, e') .all _ (maskedIf cond body none) (maskedIf cond body none) := by
  have := Held.mk h
  dsimp only [maskedIf, maskedBranch, inScope]
  refine (?_ : Tracked J _ _ _ _ _).holds
  repeat with_reducible refine Tracked.after fun _ => ?_
  infer_instance

theorem layout_ifThen :
    J (⟨b, t, n⟩, e) (⟨b, t, n⟩, e') .all _ (ifThen cond body) (ifThen cond body) := by
  have := Held.mk (layout_maskedIf cond h)
  have := Held.mk (layout_laneIf cond h)
  unfold ifThen; exact Tracked.holds

theorem layout_ifLaneActive :
    J (⟨b, t, n⟩, e) (⟨b, t, n⟩, e') .all _ (ifLaneActive body) (ifLaneActive body) := by
  have := Held.mk h
  unfold ifLaneActive inScope
  refine (?_ : Tracked J _ _ _ _ _).holds
  repeat with_reducible refine Tracked.after fun _ => ?_
  infer_instance

include ho

theorem layout_laneIfElse : J (⟨b, t, n⟩, e) (⟨b, t, n⟩, e'') .all _ (laneIfElse cond body other)
    (laneIfElse cond body other) := by
  have := Held.mk h
  have := Held.mk ho
  unfold laneIfElse inScope
  refine (?_ : Tracked J _ _ _ _ _).holds
  repeat with_reducible refine Tracked.after fun _ => ?_
  infer_instance

theorem layout_maskedIfElse : J (⟨b, t, n⟩, e) (⟨b, t, n⟩, e'') .all _
    (maskedIf cond body (some other)) (maskedIf cond body (some other)) := by
  have := Held.mk h
  have := Held.mk ho
  dsimp only [maskedIf, maskedBranch, inScope]
  simp only [bind_assoc, pure_bind]
  refine (?_ : Tracked J _ _ _ _ _).holds
  repeat with_reducible refine Tracked.after fun _ => ?_
  infer_instance

theorem layout_ifElse :
    J (⟨b, t, n⟩, e) (⟨b, t, n⟩, e'') .all _ (ifElse cond body other) (ifElse cond body other) := by
  have := Held.mk (layout_maskedIfElse cond h ho)
  have := Held.mk (layout_laneIfElse cond h ho)
  unfold ifElse; exact Tracked.holds

end Branches

section Loops

theorem layout_forRange (first last : Operand) {body : Expr → Build ν Unit}
    (h : ∀ i, J (⟨.loop :: b, .loop :: t, n + 1⟩, e) (⟨.loop :: b, .loop :: t, n + 1⟩, e') .all _
      (body i) (body i)) :
    J (⟨b, t, n⟩, e) (⟨b, t, n⟩, e') .all _ (forRange first last body)
      (forRange first last body) := by
  have (i : Expr) := Held.mk (h i)
  rw [forRange_eq]
  refine (?_ : Tracked J _ _ _ _ _).holds
  repeat with_reducible refine Tracked.after fun _ => ?_
  unfold countFrom loopBody inScope
  simp only [bind_assoc, pure_bind]
  refine Tracked.branch ?_ ?_ <;>
    ((repeat with_reducible refine Tracked.after fun _ => ?_); infer_instance)

variable {body : Build ν Unit}
  (h : J (⟨.loop :: b, .loop :: t, n + 1⟩, e) (⟨.loop :: b, .loop :: t, n + 1⟩, e') .all _ body body)

include h

theorem layout_laneWhile :
    J (⟨b, t, n⟩, e) (⟨b, t, n⟩, e') .all _ (laneWhile body) (laneWhile body) := by
  have := Held.mk h
  unfold laneWhile loopBody inScope; exact Tracked.holds

theorem layout_maskedWhile :
    J (⟨b, t, n⟩, e) (⟨b, t, n⟩, e') .all _ (maskedWhile body) (maskedWhile body) := by
  have := Held.mk h
  unfold maskedWhile loopBody inScope
  simp only [bind_assoc, pure_bind]
  refine (?_ : Tracked J _ _ _ _ _).holds
  repeat with_reducible refine Tracked.after fun _ => ?_
  infer_instance

theorem layout_whileLoop :
    J (⟨b, t, n⟩, e) (⟨b, t, n⟩, e') .all _ (whileLoop body) (whileLoop body) := by
  have := Held.mk (layout_maskedWhile h)
  have := Held.mk (layout_laneWhile h)
  unfold whileLoop; exact Tracked.holds

end Loops

theorem layout_transparentQuery (scene ray : Expr) {accept : Expr → Build ν Expr}
    (h : ∀ c, J (⟨.other :: .loop :: b, t, n + 1 + 1⟩, e) (⟨.other :: .loop :: b, t, n + 1 + 1⟩, e')
      .all _ (accept c) (accept c)) :
    J (⟨b, t, n⟩, e) (⟨b, t, n⟩, e') .all _ (transparentQuery scene ray accept)
      (transparentQuery scene ray accept) := by
  have (c : Expr) := Held.mk (h c)
  unfold transparentQuery inScope
  simp only [bind_assoc]
  refine (?_ : Tracked J _ _ _ _ _).holds
  repeat with_reducible refine Tracked.after fun _ => ?_
  infer_instance

inductive LaidCases (J : Tracking (Pending × ε) ν) (p : Pending) :
    ε → ε → List (UInt32 × Build ν Unit) → Prop
  | nil (e : ε) : LaidCases J p e e []
  | cons {e e' e'' : ε} (label : UInt32) {body : Build ν Unit}
    {cases : List (UInt32 × Build ν Unit)} : J (p, e) (p, e') .all _ body body →
      LaidCases J p e' e'' cases → LaidCases J p e e'' ((label, body) :: cases)

variable {cases : List (UInt32 × Build ν Unit)}

theorem layout_cases (value : Expr) (h : LaidCases J ⟨.other :: b, t, n + 1⟩ e e' cases) : Tracked J
    (⟨b, t, n⟩, e) (⟨b, t, n⟩, e') .all
    (cases.forM fun (label, body) => switchCase value label body)
    (cases.forM fun (label, body) => switchCase value label body) := by
  induction h with
  | nil e => exact tracked_pure ()
  | @cons e e' _ label body cases hbody _ ih =>
    have := Held.mk hbody
    have := Held.mk ih.holds
    have : Tracked J (⟨b, t, n⟩, e) (⟨b, t, n⟩, e') .all (switchCase value label body)
        (switchCase value label body) := by
      unfold switchCase inScope; infer_instance
    exact tracked_bind (switchCase value label body) (switchCase value label body) _ _

theorem layout_switchOn (value : Expr)
    (h : LaidCases J ⟨.other :: .switch :: b, .switch :: t, n + 1⟩ e e' cases) :
    J (⟨b, t, n⟩, e) (⟨b, t, n⟩, e') .all _ (switchOn value cases) (switchOn value cases) := by
  have := Held.mk (layout_cases value h).holds
  dsimp only [switchOn]
  refine (?_ : Tracked J _ _ _ _ _).holds
  refine Tracked.after fun _ => Tracked.branch ?_ ?_ <;>
    ((repeat with_reducible refine Tracked.after fun _ => ?_); infer_instance)

end Build

end ComputeKernel
