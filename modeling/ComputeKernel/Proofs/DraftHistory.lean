import ComputeKernel.Proofs.Judgements
import Mathlib.Logic.Relation

namespace ComputeKernel

namespace Draft

inductive Change where
  | write (line : Line)
  | writeHeader (text : String)
  | enterFunction
  | exitFunction
  | enterScope (condition : Option Expr)
  | exitScope
  | mark (id : Nat)
  | pushTarget (target : BreakTarget)
  | popTarget
  | setGroupSize (size : GroupSize)
  | enableWave32 (seed : Expr)
  | pushMask (mask : Expr)
  | popMask
  | noteSync
  | registerType (ty : Ty)
  | registerResource (res : Resource)
  | addShared (name : String) (ty : Ty)

def Change.apply (d : Draft) : Change → Draft
  | .write line => d.write line
  | .writeHeader text => d.writeHeader text
  | .enterFunction => d.enterFunction
  | .exitFunction => final (Drafting.exitFunction d)
  | .enterScope condition => d.enterScope condition
  | .exitScope => final (Drafting.exitScope d)
  | .mark id => d.mark id
  | .pushTarget target => d.pushTarget target
  | .popTarget => final (Drafting.popTarget d)
  | .setGroupSize size => (d.setGroupSize size).toOption.getD d
  | .enableWave32 seed => d.enableWave32 seed
  | .pushMask mask => d.pushMask mask
  | .popMask => final (Drafting.popMask d)
  | .noteSync => d.noteSync
  | .registerType ty => final (Drafting.registerType ty d)
  | .registerResource res => final (Drafting.registerResource res d)
  | .addShared name ty => final (Drafting.addShared name ty d)

def Leads (d d' : Draft) : Prop := ∃ changes : List Change, d' = changes.foldl Change.apply d

namespace Leads

theorem refl (d : Draft) : d.Leads d := ⟨[], rfl⟩

theorem change (d : Draft) (c : Change) : d.Leads (c.apply d) := ⟨[c], rfl⟩

theorem trans {d d' d'' : Draft} (h : d.Leads d') (h' : d'.Leads d'') : d.Leads d'' := by
  obtain ⟨changes, rfl⟩ := h
  obtain ⟨more, rfl⟩ := h'
  exact ⟨changes ++ more, (List.foldl_append ..).symm⟩

theorem keeps {P : Draft → Prop} (hP : ∀ (c : Change) d, P d → P (c.apply d)) {d d' : Draft}
    (h : d.Leads d') (hd : P d) : P d' := by
  obtain ⟨changes, rfl⟩ := h
  induction changes generalizing d with
  | nil => exact hd
  | cons c changes ih => exact ih (hP c d hd)

end Leads

end Draft

def Drafts {ε σ α : Type} (draft : σ → Draft) (x : EStateM ε σ α) : Prop :=
  Moves (fun s s' => (draft s).Leads (draft s')) x

inductive Sheet.Step (nodes : Expr → Prop) (s : Sheet) : Sheet → Prop
  | typed {e : Expr} (he : nodes e) :
    Step nodes s { s with nodes := { s.nodes with types := final (e.inferType s.nodes.types) } }
  | renamed (id : Nat) (name : Spelling) : Step nodes s { s with nodes := s.nodes.rename id name }
  | diverged (modes : IdTable Divergence) :
    Step nodes s { s with nodes := { s.nodes with modes } }
  | changed (c : Draft.Change) : Step nodes s { s with draft := c.apply s.draft }

abbrev Sheet.Comes (nodes : Expr → Prop) : Sheet → Sheet → Prop :=
  Relation.ReflTransGen (Sheet.Step nodes)

def Emit.Steps {α : Type} (nodes : Expr → Prop) (x : Emit α) : Prop :=
  Moves (Sheet.Comes nodes) x

section Emission

open Emit

variable {nodes : Expr → Prop} {α β : Type}

theorem Emit.Steps.bind {x : Emit α} {f : α → Emit β} (hx : Steps nodes x)
    (hf : ∀ a, Steps nodes (f a)) : Steps nodes (x >>= f) :=
  Moves.bind .trans hx hf

theorem steps_pure (a : α) : Steps nodes (pure a) := fun _ => ensures_pure .refl

theorem steps_get : Steps nodes get := fun _ => ensures_get .refl

theorem steps_ite {p : Prop} [Decidable p] {x y : Emit α} (hx : Steps nodes x)
    (hy : Steps nodes y) : Steps nodes (if p then x else y) := by
  split
  · exact hx
  · exact hy

theorem steps_orFault (r : Except Fault α) : Steps nodes (orFault r) := fun _ =>
  ensures_orFault (fun _ _ => .refl) fun _ _ => .refl

theorem steps_drafting {x : Drafting α} (c : Draft.Change) (h : ∀ d, c.apply d = final (x d)) :
    Steps nodes (drafting x) := by
  intro s
  refine ensures_drafting ?_
  have hs : Sheet.Comes nodes s { s with draft := c.apply s.draft } := .single (.changed c)
  rw [h s.draft] at hs
  unfold Ensures
  cases hx : x s.draft <;> simpa only [hx, final] using hs

theorem steps_redraft {f : Draft → Draft} (c : Draft.Change) (h : ∀ d, c.apply d = f d) :
    Steps nodes (redraft f) := by
  intro s
  have hs : Sheet.Comes nodes s { s with draft := c.apply s.draft } := .single (.changed c)
  rw [h s.draft] at hs
  exact hs

theorem steps_asking {x : Drafting α} (h : Keeps (fun d => d) x) : Steps nodes (drafting x) := by
  intro s
  have same {d : Draft} (hd : d = s.draft) : Sheet.Comes nodes s { s with draft := d } :=
    hd ▸ .refl
  exact ensures_drafting ((h s.draft).mono (fun _ _ hd => same hd) fun _ hd => same hd)

theorem steps_write (line : Line) : Steps nodes (write line) :=
  steps_redraft (.write line) fun _ => rfl

theorem steps_nameOf (e : Expr) : Steps nodes (nameOf e) := fun _ => .refl

theorem steps_rename (id : Nat) (name : Spelling) : Steps nodes (rename id name) := fun _ =>
  .single (.renamed id name)

theorem steps_typing {e : Expr} (he : nodes e) : Steps nodes (typing e.inferType) := by
  intro s
  refine ensures_typing ?_
  have hs : Sheet.Comes nodes s _ := .single (.typed he)
  unfold Ensures
  cases hx : e.inferType s.nodes.types <;> simpa only [hx, final] using hs

theorem steps_diverging (x : Diverging α) : Steps nodes (diverging x) := fun _ =>
  ensures_diverging fun _ modes => .single (.diverged modes)

theorem steps_inDivergentRegion : Steps nodes inDivergentRegion := fun _ =>
  ensures_inDivergentRegion fun _ modes => .single (.diverged modes)

theorem steps_noteWrite (target : Expr) : Steps nodes (noteWrite target) :=
  .bind steps_inDivergentRegion fun _ => steps_ite
    (.bind (steps_diverging _) fun _ => steps_diverging _) (steps_pure _)

theorem steps_registerType (ty : Ty) : Steps nodes (drafting (.registerType ty)) :=
  steps_drafting (.registerType ty) fun _ => rfl

theorem steps_once {e : Expr} {body : Ty → Emit Unit} (he : nodes e)
    (h : ∀ ty, Steps nodes (body ty)) : Steps nodes (once e body) :=
  .bind steps_get fun _ => steps_ite (steps_pure _) (.bind (steps_typing he) fun ty =>
    .bind (h ty) fun _ => steps_redraft (.mark e.id) fun _ => rfl)

theorem steps_branch {cond target value : Expr} {body : Emit Unit} (h : Steps nodes body) :
    Steps nodes (branch cond target value body) :=
  .bind (steps_redraft (.enterScope (some cond)) fun _ => rfl) fun _ => .bind h fun _ =>
    .bind (steps_nameOf _) fun _ => .bind (steps_nameOf _) fun _ => .bind (steps_write _)
      fun _ => steps_drafting .exitScope fun _ => rfl

instance (nodes : Expr → Prop) :
    (Judgement.moving (Sheet.Comes nodes)).Strokes fun e => ∀ d, e.Uses d → nodes d where
  pure a := steps_pure a
  bind hx hf := Steps.bind hx hf
  operand he hd _ hu := he _ (.of_operand hd hu)
  orFault r := steps_orFault r
  typing e he := steps_typing (he e .self)
  nameOf e := steps_nameOf e
  rename id name := steps_rename id name
  write line := steps_write line
  writeCall line _ _ _ _ _ := steps_write line
  registerType ty := steps_registerType ty
  registerResource res := steps_drafting (.registerResource res) fun _ => rfl
  once e _ _ he h := steps_once (he e .self) h
  choose cond _ _ _ _ _ _ _ _ hx hy :=
    Steps.bind (steps_nameOf cond) fun _ => .bind (steps_write _) fun _ => .bind (steps_branch hx)
      fun _ => .bind (steps_write _) fun _ => .bind (steps_branch hy) fun _ => steps_write _

theorem Expr.emit_steps (e : Expr) (he : ∀ d, e.Uses d → nodes d) : Steps nodes e.emit :=
  have : (Judgement.moving (Sheet.Comes nodes)).Emitting fun e => ∀ d, e.Uses d → nodes d :=
    emitting_of_noteWrite steps_noteWrite
  (e.judged_emit_of (J := .moving (Sheet.Comes nodes)) he).holds

end Emission

section Consequences

variable {nodes : Expr → Prop} {α : Type} {s s' : Sheet}

theorem Sheet.Comes.draft (h : Sheet.Comes nodes s s') : s.draft.Leads s'.draft := by
  induction h with
  | refl => exact .refl _
  | tail _ hstep ih =>
    refine ih.trans ?_
    cases hstep with
    | changed c => exact .change _ c
    | _ => exact .refl _

theorem Sheet.Comes.next (h : Sheet.Comes nodes s s') : s'.nodes.next = s.nodes.next := by
  induction h with
  | refl => rfl
  | tail _ hstep ih =>
    rw [← ih]
    cases hstep <;> rfl

theorem Emit.Steps.drafts {x : Emit α} (h : Steps nodes x) : Drafts Sheet.draft x := fun s =>
  (h s).mono (fun _ _ h => h.draft) fun _ h => h.draft

end Consequences

end ComputeKernel
