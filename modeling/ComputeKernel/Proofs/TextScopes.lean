import ComputeKernel.Proofs.BlockProgram
import ComputeKernel.Proofs.KnownTypes
import Mathlib.Data.List.Forall2

namespace ComputeKernel

def Initial.names : Initial → List Spelling
  | .copy value => [value]
  | .unary _ operand => [operand]
  | .binary _ lhs rhs => [lhs, rhs]
  | .call _ args _ => args
  | .zero => []

namespace Line

@[simp]
def computed : Line → List Spelling
  | .declare _ _ value => value.names
  | .assign target _ value => [target, value]
  | .perform _ args _ => args
  | .ballot mask _ _ current => [mask, current]
  | .openMask mask | .openElseMask mask => [mask]
  | .openFor counter first last => [counter, first, last]
  | .readHit hit _ _ => [hit]
  | _ => []

def borrowed : Line → List Spelling
  | .ballot _ _ cond _ => [cond]
  | .openIf cond => [cond]
  | .openSwitch value => [value]
  | .returnValue value => [value]
  | .trace _ scene ray => [scene, ray]
  | .commit cond _ => [cond]
  | _ => []

def mentioned (line : Line) : List Spelling := line.computed ++ line.borrowed

def declared : Line → List Nat
  | .declare _ (.temp id) _ | .reserve _ (.temp id) | .array _ (.temp id) _ _ => [id]
  | _ => []

end Line

structure Blocks where
  top : List Nat := []
  rest : List (List Nat) := []

namespace Blocks

def all (b : Blocks) : List Nat := b.top ++ b.rest.flatten

def enter (b : Blocks) : Blocks := ⟨[], b.top :: b.rest⟩

def leave (b : Blocks) : Blocks :=
  match b.rest with
  | [] => {}
  | top :: rest => ⟨top, rest⟩

def declare (b : Blocks) (ids : List Nat) : Blocks := { b with top := ids ++ b.top }

def step (b : Blocks) (line : Line) : Blocks :=
  match line with
  | .openIf _ | .openMask _ | .openFor .. | .openWhile | .openSwitch _ | .openCase _
  | .openQueryLoop _ | .openCandidate _ | .openCommitted _ => b.enter
  | .openElse | .openElseMask _ => b.leave.enter
  | .close | .closeCase => b.leave
  | .openFunction .. => {}
  | line => b.declare line.declared

def after (b : Blocks) (lines : List Line) : Blocks := lines.foldl step b

theorem after_append (b : Blocks) (lines rest : List Line) :
    b.after (lines ++ rest) = (b.after lines).after rest := List.foldl_append

structure Within (b c : Blocks) : Prop where
  top : b.top ⊆ c.top
  rest : List.Forall₂ (· ⊆ ·) b.rest c.rest

theorem enter_leave (b : Blocks) : b.enter.leave = b := rfl

theorem all_enter (b : Blocks) : b.enter.all = b.all := by
  simp [enter, all]

theorem all_declare (b : Blocks) (ids : List Nat) : (b.declare ids).all = ids ++ b.all := by
  simp [declare, all]

namespace Within

variable {a b c : Blocks}

theorem refl (b : Blocks) : b.Within b :=
  ⟨fun _ h => h, List.forall₂_same.mpr fun _ _ _ h => h⟩

theorem trans (h : a.Within b) (h' : b.Within c) : a.Within c where
  top := fun _ hm => h'.top (h.top hm)
  rest := by
    obtain ⟨-, hr⟩ := h
    obtain ⟨-, hr'⟩ := h'
    generalize a.rest = xs, b.rest = ys, c.rest = zs at hr hr'
    induction hr generalizing zs with
    | nil => exact hr'
    | cons hx _ ih =>
      cases hr' with
      | cons hy htail => exact .cons (fun _ hm => hy (hx hm)) (ih _ htail)

theorem all_subset (h : b.Within c) : b.all ⊆ c.all := by
  have hrest : b.rest.flatten ⊆ c.rest.flatten := by
    have hr := h.rest
    generalize b.rest = xs, c.rest = ys at hr
    induction hr with
    | nil => exact fun _ hm => hm
    | cons hx _ ih =>
      rw [List.flatten_cons, List.flatten_cons]
      exact List.append_subset.mpr
        ⟨fun _ hm => List.mem_append_left _ (hx hm), fun _ hm => List.mem_append_right _ (ih hm)⟩
  exact List.append_subset.mpr ⟨fun _ hm => List.mem_append_left _ (h.top hm),
    fun _ hm => List.mem_append_right _ (hrest hm)⟩

theorem enter (h : b.Within c) : b.enter.Within c.enter :=
  ⟨fun _ hm => hm, .cons h.top h.rest⟩

theorem leave (h : b.Within c) : b.leave.Within c.leave := by
  obtain ⟨btop, brest⟩ := b
  obtain ⟨ctop, crest⟩ := c
  cases h.rest with
  | nil => exact .refl {}
  | cons hx htail => exact ⟨hx, htail⟩

theorem declare (h : b.Within c) (ids : List Nat) : (b.declare ids).Within (c.declare ids) :=
  ⟨fun _ hm => (List.mem_append.mp hm).elim (fun hi => List.mem_append_left _ hi)
    fun hb => List.mem_append_right _ (h.top hb), h.rest⟩

theorem declared (b : Blocks) (ids : List Nat) : b.Within (b.declare ids) :=
  ⟨fun _ hm => List.mem_append_right _ hm, (refl b).rest⟩

theorem step (h : b.Within c) (line : Line) : (b.step line).Within (c.step line) := by
  unfold Blocks.step
  split
  iterate 9 exact h.enter
  iterate 2 exact h.leave.enter
  iterate 2 exact h.leave
  · exact .refl {}
  · exact h.declare _

end Within

end Blocks

def InScope (types : IdTable Ty) (b : Blocks) (name : Spelling) : Prop :=
  ∀ id ∈ name.temps, types.find? id ≠ some .void → id ∈ b.all

def Scoped (names : Line → List Spelling) (types : IdTable Ty) : Blocks → List Line → Prop
  | _, [] => True
  | b, line :: lines =>
    (∀ name ∈ names line, InScope types b name) ∧ Scoped names types (b.step line) lines

section Text

variable {names : Line → List Spelling} {types types' : IdTable Ty} {b : Blocks}
  {lines rest : List Line}

theorem scoped_append :
    Scoped names types b (lines ++ rest) ↔
      Scoped names types b lines ∧ Scoped names types (b.after lines) rest := by
  induction lines generalizing b with
  | nil => simp [Scoped, Blocks.after]
  | cons line lines ih =>
    rw [List.cons_append, Scoped, Scoped, ih]
    exact and_assoc.symm

theorem InScope.mono {b' : Blocks} {name : Spelling} (h : InScope types b name)
    (ht : types.Extends types') (hb : b.all ⊆ b'.all) : InScope types' b' name := by
  intro id hid hv
  exact hb (h id hid fun hf => hv (ht id .void hf))

theorem Scoped.mono (h : Scoped names types b lines) (ht : types.Extends types') :
    Scoped names types' b lines := by
  induction lines generalizing b with
  | nil => trivial
  | cons line lines ih => exact ⟨fun name hn => (h.1 name hn).mono ht fun _ h => h, ih h.2⟩

theorem Scoped.sparing {names' : Line → List Spelling} (h : Scoped names types b lines)
    (hn : ∀ line, names' line ⊆ names line) : Scoped names' types b lines := by
  induction lines generalizing b with
  | nil => trivial
  | cons line lines ih => exact ⟨fun name hm => h.1 name (hn line hm), ih h.2⟩

theorem scoped_mentioned :
    Scoped Line.mentioned types b lines ↔
      Scoped Line.computed types b lines ∧ Scoped Line.borrowed types b lines := by
  induction lines generalizing b with
  | nil => simp [Scoped]
  | cons line lines ih =>
    simp only [Scoped, Line.mentioned, List.mem_append, or_imp, forall_and, ih]
    exact and_and_and_comm

end Text

end ComputeKernel
