import ComputeKernel.Proofs.RememberedAnswers

namespace ComputeKernel

def KeepsMarks (modes modes' : IdTable Divergence) : Prop :=
  ∀ id, modes.find? id = some .divergent → modes'.find? id = some .divergent

def Asserted (base : List Expr) (modes : IdTable Divergence) : Prop :=
  ∃ c ∈ base, modes.find? c.id = some .divergent

def Answered (base : List Expr) (first modes : IdTable Divergence) : Prop :=
  (modes = first ∧ (Expr.anyDivergent base modes).1 = .divergent) ∨ Asserted base modes

section Tables

variable {base more : List Expr} {modes modes' modes'' : IdTable Divergence} {e : Expr}

theorem KeepsMarks.of_eq (h : modes' = modes) : KeepsMarks modes modes' := h ▸ fun _ hid => hid

theorem KeepsMarks.trans (h : KeepsMarks modes modes') (h' : KeepsMarks modes' modes'') :
    KeepsMarks modes modes'' := fun id hid => h' id (h id hid)

theorem keepsMarks_force (id : Nat) : KeepsMarks modes (modes.insert id .divergent) := by
  intro key hkey
  rw [IdTable.find?_insert]
  split
  · rfl
  · exact hkey

theorem Asserted.keep (h : Asserted base modes) (hkeeps : KeepsMarks modes modes') :
    Asserted base modes' := by
  obtain ⟨c, hc, hmark⟩ := h
  exact ⟨c, hc, hkeeps c.id hmark⟩

theorem Expr.divergence_of_mark (h : modes.find? e.id = some .divergent) :
    (e.divergence modes).1 = .divergent := by
  have hknown := e.divergence_retains modes e.id .divergent h
  rw [e.divergence_remembers modes] at hknown
  exact Option.some.inj hknown

theorem anyDivergent_stops (h : (Expr.anyDivergent base modes).1 = .divergent) :
    (Expr.anyDivergent (base ++ more) modes).1 = .divergent ∧
      Asserted base (Expr.anyDivergent (base ++ more) modes).2 := by
  induction base generalizing modes with
  | nil =>
    rw [Expr.anyDivergent] at h
    cases h
  | cons c rest ih =>
    rw [Expr.anyDivergent, Diverging.either_run] at h
    rw [List.cons_append, Expr.anyDivergent, Diverging.either_run]
    have hknown := c.divergence_remembers modes
    cases hmode : (c.divergence modes).1 with
    | divergent =>
      rw [hmode] at hknown
      exact ⟨rfl, c, List.mem_cons_self, hknown⟩
    | uniform =>
      rw [hmode] at h
      obtain ⟨hdivergent, d, hd, hmark⟩ := ih h
      exact ⟨hdivergent, d, List.mem_cons_of_mem c hd, hmark⟩

theorem Asserted.anyDivergent (h : Asserted base modes) :
    (Expr.anyDivergent base modes).1 = .divergent := by
  induction base generalizing modes with
  | nil =>
    obtain ⟨c, hc, -⟩ := h
    cases hc
  | cons c rest ih =>
    rw [Expr.anyDivergent, Diverging.either_run]
    cases hmode : (c.divergence modes).1 with
    | divergent => rfl
    | uniform =>
      obtain ⟨d, hd, hmark⟩ := h
      rcases List.mem_cons.mp hd with rfl | hd
      · rw [Expr.divergence_of_mark hmark] at hmode
        cases hmode
      · exact ih ⟨d, hd, c.divergence_retains _ _ _ hmark⟩

end Tables

structure Lasts (base : List Expr) (first : IdTable Divergence) (s s' : Sheet) : Prop where
  stack : s.draft.scopes.stack.conditions <:+ s'.draft.scopes.stack.conditions
  marks : KeepsMarks s.nodes.modes s'.nodes.modes
  answered : base <+: s.draft.scopes.conditions → Answered base first s.nodes.modes →
    Answered base first s'.nodes.modes

section Sheets

variable {base : List Expr} {first modes : IdTable Divergence} {s s' s'' : Sheet}

theorem conditions_of_suffix (h : s.draft.scopes.stack.conditions <:+ s'.draft.scopes.stack.conditions) :
    s.draft.scopes.conditions <+: s'.draft.scopes.conditions :=
  (List.reverse_prefix.mpr h).filterMap _

theorem Lasts.trans (h : Lasts base first s s') (h' : Lasts base first s' s'') :
    Lasts base first s s'' where
  stack := h.stack.trans h'.stack
  marks := h.marks.trans h'.marks
  answered hbase hs := h'.answered (hbase.trans (conditions_of_suffix h.stack)) (h.answered hbase hs)

instance : Abiding (Lasts base first) where
  trans := Lasts.trans
  still h := by
    simp only [Sheet.stillness, Prod.mk.injEq] at h
    obtain ⟨hbodies, hmodes, -⟩ := h
    refine ⟨(List.cons.inj hbodies).1 ▸ List.suffix_rfl, .of_eq hmodes, fun _ hs => ?_⟩
    rwa [hmodes]

theorem Answered.region (h : Answered base first s.nodes.modes)
    (hbase : base <+: s.draft.scopes.conditions) :
    s.region = .divergent ∧
      Asserted base (Expr.anyDivergent s.draft.scopes.conditions s.nodes.modes).2 := by
  obtain ⟨more, hconditions⟩ := hbase
  have hdivergent : (Expr.anyDivergent base s.nodes.modes).1 = .divergent :=
    h.elim And.right Asserted.anyDivergent
  rw [Sheet.region, ← hconditions]
  exact anyDivergent_stops hdivergent

theorem Lasts.of_asked (h : KeepsMarks
    (Expr.anyDivergent s.draft.scopes.conditions s.nodes.modes).2 modes) :
    Lasts base first s { s with nodes := { s.nodes with modes } } where
  stack := List.suffix_rfl
  marks id hid := h id (Expr.anyDivergent_retains _ _ _ _ hid)
  answered hbase hs := .inr ((hs.region hbase).2.keep h)

theorem lasts_enterScope (condition : Option Expr) :
    Moves (Lasts base first) (Emit.redraft (·.enterScope condition)) := fun _ =>
  ⟨List.suffix_cons .., .of_eq rfl, fun _ h => h⟩

theorem Lasts.exitScope {condition : Option Expr}
    (h : Lasts base first { s with draft := s.draft.enterScope condition } s') :
    Ensures Drafting.exitScope s'.draft
      (fun _ draft => Lasts base first s { s' with draft })
      fun draft => Lasts base first s { s' with draft } := by
  have hentered := (lasts_enterScope condition s).trans h
  cases hleave : s'.draft.scopes.leave? with
  | none => exact ensures_error (exitScope_of_bottom hleave) hentered
  | some scopes =>
    obtain ⟨inner, hstack⟩ := Memo.leave_eq hleave
    have hsuffix := h.stack
    rw [hstack] at hsuffix
    refine ensures_ok (exitScope_of_leave hleave) ⟨?_, hentered.marks, hentered.answered⟩
    rcases List.suffix_cons_iff.mp hsuffix with heq | hsuffix
    · exact (List.cons.inj heq).2 ▸ List.suffix_rfl
    · exact (List.suffix_cons ..).trans hsuffix

variable {target value : Expr}

theorem lasts_branch {cond : Expr} {body : Emit Unit} (h : Moves (Lasts base first) body) : Moves
    (Lasts base first) (Emit.branch cond target value body) := by
  intro s
  refine .bind (ensures_redraft (.bind ((h _).mono (fun _ s₁ h₁ => ?_) fun _ h₁ => ?_)))
  · refine .bind (ensures_nameOf (.bind (ensures_nameOf (.bind (ensures_write ?_)))))
    exact ensures_drafting (h₁.trans (Abiding.still (still_write _ s₁))).exitScope
  · exact (lasts_enterScope (some cond) s).trans h₁

theorem lasts_noteWrite (target : Expr) : Moves (Lasts base first) (Emit.noteWrite target) := by
  refine fun s => ensures_ok (noteWrite_run s target) (.of_asked ?_)
  unfold Sheet.modesAfterWrite
  split
  · exact (keepsMarks_force _).trans (keepsMarks_force _)
  · exact .of_eq rfl

instance : (Judgement.moving (Lasts base first)).Strokes fun _ => True :=
  strokes_of_abiding (fun _ _ => trivial)
    (fun id _ => ⟨(Memo.stack_mark id).symm ▸ List.suffix_rfl, .of_eq rfl, fun _ h => h⟩)
    fun _ => lasts_branch

theorem Expr.emit_lasts (e : Expr) (base : List Expr) (first : IdTable Divergence) :
    Moves (Lasts base first) e.emit :=
  have : (Judgement.moving (Lasts base first)).Emitting fun _ => True :=
    emitting_of_noteWrite lasts_noteWrite
  (e.judged_emit_of (J := .moving (Lasts base first)) trivial).holds

class Writing (R : Sheet → Sheet → Prop) : Prop extends Abiding R where
  mark (id : Nat) : Moves R (Emit.redraft (·.mark id))
  enterScope (condition : Option Expr) : Moves R (Emit.redraft (·.enterScope condition))
  exitScope : Moves R (Emit.drafting .exitScope)
  ask : Moves R Emit.inDivergentRegion
  force (id : Nat) : Moves R (Emit.diverging (.force id))

def Emit.Written (α : Type) (x : Emit α) : Prop := ∀ R, [Writing R] → Moves R x

theorem Expr.emit_written (e : Expr) : Emit.Written Unit e.emit := by
  intro R _
  have : (Judgement.moving R).Strokes fun _ => True :=
    strokes_of_abiding (fun _ _ => trivial) Writing.mark fun {cond target value body} _ h =>
      (Writing.enterScope (some cond)).onward fun _ => h.onward fun _ =>
        (still_nameOf target).moves.onward fun _ => (still_nameOf value).moves.onward fun _ =>
          (still_write _).moves.onward fun _ => Writing.exitScope
  have : (Judgement.moving R).Emitting fun _ => True :=
    emitting_of_noteWrite fun target => Writing.ask.onward fun divergent => by
      cases divergent with
      | false => exact Still.moves (keeps_pure _)
      | true => exact (Writing.force _).onward fun _ => Writing.force _
  exact (e.judged_emit_of (J := .moving R) trivial).holds

def Sheet.Marks (s s' : Sheet) : Prop := KeepsMarks s.nodes.modes s'.nodes.modes

instance : Writing Sheet.Marks where
  still h := .of_eq (congrArg (·.2.1) h)
  trans := KeepsMarks.trans
  mark _ _ := KeepsMarks.of_eq rfl
  enterScope _ _ := KeepsMarks.of_eq rfl
  exitScope _ := ensures_drafting (ensures_any (fun _ _ => .of_eq rfl) fun _ => .of_eq rfl)
  ask _ _ h := Expr.anyDivergent_retains _ _ _ _ h
  force id _ := keepsMarks_force id

theorem marks_of_assign {id : Nat} {op : Op} (hop : op.isAssign = true)
    (hidden : ¬s.draft.scopes.isVisible id = true) (hregion : s.region = .divergent)
    (h : (Expr.binary id op target value).emit s = .ok () s') : s'.nodes.modes.find? target.id =
    some .divergent ∧ s'.nodes.modes.find? target.lvalueRoot.id = some .divergent := by
  obtain ⟨u, hsides, hmodes⟩ := emit_assign_modes hop hidden h
  have hlasts : Moves (Lasts s.draft.scopes.conditions s.nodes.modes)
      ((Expr.binary id op target value).emitSides target value) :=
    (still_typing _).moves.onward fun _ => (target.emit_lasts _ _).onward fun _ => value.emit_lasts _ _
  have hu := (hlasts s).of_ok hsides
  have hasked := (hu.answered List.prefix_rfl (.inl ⟨rfl, hregion⟩)).region
    (conditions_of_suffix hu.stack)
  rw [hmodes, Sheet.modesAfterWrite, if_pos hasked.1]
  refine ⟨keepsMarks_force _ _ ?_, ?_⟩ <;> rw [IdTable.find?_insert, if_pos rfl]

end Sheets

end ComputeKernel
