import ComputeKernel.Proofs.EmissionLog
import Mathlib.Data.List.Forall2

namespace ComputeKernel

variable {dag : Dag} {s s' : Scopes} {es fs : List Expr}

def Scopes.levels (s : Scopes) : List (List Nat) := s.visible :: s.stack.visible

def Scopes.Matched (s : Scopes) : Prop := s.stack.visible.length = s.stack.conditions.length

instance : Append ScopeStack :=
  ⟨fun s t => ⟨s.visible ++ t.visible, s.conditions ++ t.conditions⟩⟩

theorem ScopeStack.append_assoc (s t u : ScopeStack) : s ++ t ++ u = s ++ (t ++ u) :=
  congrArg₂ ScopeStack.mk (List.append_assoc ..) (List.append_assoc ..)

theorem Scopes.isVisible_iff {id : Nat} : s.isVisible id = true ↔ id ∈ s.visible := by
  simp [Scopes.isVisible]

theorem Expr.emit_of_visible {e : Expr} {s : Sheet} (h : e.id ∈ s.draft.scopes.visible) :
    e.emit s = .ok () s := by
  have hv := Scopes.isVisible_iff.mpr h
  cases e <;> rw [Expr.emit] <;> exact once_of_visible hv

def Draft.bodies (d : Draft) : List Scopes := d.scopes :: d.frames.map Frame.scopes

inductive Call (dag : Dag) where
  | emit (e : dag.Node)
  | enterScope (condition : Option Expr)
  | exitScope
  | enterFunction
  | exitFunction
  | arrange (f : Nodes → Nodes)

namespace Call

def arrangeNodes (f : Nodes → Nodes) : Emit Unit :=
  modify fun s => { s with nodes := f s.nodes }

def perform : Call dag → Emit Unit
  | .emit e => e.val.emit
  | .enterScope condition => Emit.redraft (·.enterScope condition)
  | .exitScope => Emit.drafting .exitScope
  | .enterFunction => Emit.redraft Draft.enterFunction
  | .exitFunction => Emit.drafting .exitFunction
  | .arrange f => arrangeNodes f

def after (s : Sheet) (c : Call dag) : Sheet := final (c.perform s)

def exitFunctionLogged : Logged Unit := fun r =>
  match Emit.drafting .exitFunction r.sheet with
  | .ok a sheet => .ok a ⟨sheet, .functionClosed :: r.log⟩
  | .error fault sheet => .error fault ⟨sheet, .functionRefused :: r.log⟩

def logged : Call dag → Logged Unit
  | .emit e => e.val.emitLogged
  | .enterScope condition => do
    Logged.lift (Emit.redraft (·.enterScope condition))
    Logged.log .scopeOpened
  | .exitScope => do
    Logged.lift (Emit.drafting .exitScope)
    Logged.log .scopeClosed
  | .enterFunction => do
    Logged.lift (Emit.redraft Draft.enterFunction)
    Logged.log .functionOpened
  | .exitFunction => exitFunctionLogged
  | .arrange f => Logged.lift (arrangeNodes f)

def record (r : Record) (c : Call dag) : Record := final (c.logged r)

theorem logged_follows (c : Call dag) : Logged.Follows c.logged c.perform := by
  cases c with
  | emit e => exact e.val.emitLogged_follows
  | enterScope condition => exact (Logged.follows_lift _).and_log _
  | exitScope => exact (Logged.follows_lift _).and_log _
  | enterFunction => exact (Logged.follows_lift _).and_log _
  | exitFunction =>
    intro r
    simp only [logged, perform, exitFunctionLogged]
    cases Emit.drafting Drafting.exitFunction r.sheet <;> rfl
  | arrange f => exact Logged.follows_lift (arrangeNodes f)

theorem record_sheet (r : Record) (c : Call dag) : (record r c).sheet = after r.sheet c := by
  rw [after, ← logged_follows c r, record]
  cases c.logged r <;> rfl

theorem foldl_record_sheet (r : Record) (calls : List (Call dag)) :
    (calls.foldl record r).sheet = calls.foldl after r.sheet := by
  induction calls generalizing r with
  | nil => rfl
  | cons c calls ih => rw [List.foldl_cons, List.foldl_cons, ih, record_sheet]

end Call

def Dag.Closed (dag : Dag) (ids : List Nat) : Prop :=
  ∀ e, dag.contains e → e.id ∈ ids → ∀ d ∈ e.prerequisites, d.id ∈ ids

def Agrees : List (List Nat) → List (List Nat) → Prop
  | [], [] => True
  | level :: levels, ids :: scopes =>
    (∀ id, id ∈ level ↔ id ∈ (ids :: scopes).flatten) ∧ Agrees levels scopes
  | _, _ => False

structure Memo (dag : Dag) (bodies : List Scopes) (log : List Event) : Prop where
  matched : ∀ b ∈ bodies, b.Matched
  nested : ∀ b ∈ bodies, b.levels.Pairwise fun inner outer => outer ⊆ inner
  closed : ∀ b ∈ bodies, ∀ level ∈ b.levels, dag.Closed level
  agrees : .functionRefused ∉ log →
    List.Forall₂ (fun b scopes => Agrees b.levels scopes) bodies (Event.openBodies log)
  once : .functionRefused ∉ log → Event.WrittenOnce log

namespace Memo

variable {b : Scopes} {bodies bodies' : List Scopes} {log : List Event}

theorem start : Memo dag [{}] [] where
  matched := by simp [Scopes.Matched]
  nested := by simp [Scopes.levels]
  closed := by simp [Scopes.levels, Dag.Closed]
  agrees := by simp [Event.openBodies, Scopes.levels, Agrees]
  once := by simp [Event.WrittenOnce]

theorem openBodies_eq (h : Memo dag (s :: bodies) log) (hr : .functionRefused ∉ log) :
    ∃ ids scopes rest, Event.openBodies log = (ids :: scopes) :: rest ∧
      (∀ id, id ∈ s.visible ↔ id ∈ (ids :: scopes).flatten) ∧
      Agrees s.stack.visible scopes ∧
      List.Forall₂ (fun b scopes => Agrees b.levels scopes) bodies rest := by
  have ha := h.agrees hr
  cases hl : Event.openBodies log with
  | nil => rw [hl] at ha; cases ha
  | cons scopes rest =>
    rw [hl] at ha
    obtain ⟨hs, hrest⟩ := List.forall₂_cons.mp ha
    cases scopes with
    | nil => exact hs.elim
    | cons ids scopes => exact ⟨ids, scopes, rest, rfl, hs.1, hs.2, hrest⟩

theorem visible_iff (h : Memo dag (s :: bodies) log) (hr : .functionRefused ∉ log) (id : Nat) :
    id ∈ s.visible ↔ Event.CompletedInOpenScope log id := by
  obtain ⟨ids, scopes, rest, hl, hv, -⟩ := h.openBodies_eq hr
  rw [hv id, Event.CompletedInOpenScope, hl, List.mem_flatten]
  rfl

theorem refused_of_cons {event : Event} (hr : .functionRefused ∉ event :: log) :
    .functionRefused ∉ log := fun hm => hr (List.mem_cons_of_mem _ hm)

theorem reused (h : Memo dag (s :: bodies) log) {id : Nat} (hid : id ∈ s.visible) :
    Memo dag (s :: bodies) (.completed id false :: log) where
  matched := h.matched
  nested := h.nested
  closed := h.closed
  agrees hr := by
    obtain ⟨ids, scopes, rest, hl, hv, hs, hrest⟩ := h.openBodies_eq (refused_of_cons hr)
    rw [Event.openBodies, hl]
    refine .cons ⟨fun other => ?_, hs⟩ hrest
    rw [hv other, List.flatten_cons, List.flatten_cons, List.cons_append, List.mem_cons]
    refine ⟨.inr, fun ho => ho.elim (fun he => ?_) fun hm => hm⟩
    rw [he]
    simpa using (hv id).mp hid
  once hr := by
    refine ⟨?_, h.once (refused_of_cons hr)⟩
    simpa using (h.visible_iff (refused_of_cons hr) id).mp hid

theorem mem_visible_mark {id other : Nat} :
    other ∈ (s.mark id).visible ↔ other = id ∨ other ∈ s.visible := by
  unfold Scopes.mark
  split
  · rename_i hv
    have hm : id ∈ s.visible := Scopes.isVisible_iff.mp hv
    exact ⟨.inr, fun h => h.elim (fun he => he ▸ hm) fun h => h⟩
  · simp

theorem stack_mark (id : Nat) : (s.mark id).stack = s.stack := by
  unfold Scopes.mark
  split <;> rfl

theorem matched_mark {id : Nat} (h : s.Matched) : (s.mark id).Matched := by
  rwa [Scopes.Matched, stack_mark]

theorem closed_mark {e : Expr} (he : dag.contains e) (hc : dag.Closed s.visible)
    (hp : ∀ d ∈ e.prerequisites, d.id ∈ s.visible) : dag.Closed (s.mark e.id).visible := by
  intro d hd hm c hcd
  rw [mem_visible_mark] at hm ⊢
  rcases hm with same | hm
  · rw [dag.numbered hd he same] at hcd
    exact .inr (hp c hcd)
  · exact .inr (hc d hd hm c hcd)

theorem written (h : Memo dag (s :: bodies) log) {e : Expr} (he : dag.contains e)
    (hid : e.id ∉ s.visible) (hp : ∀ d ∈ e.prerequisites, d.id ∈ s.visible) :
    Memo dag (s.mark e.id :: bodies) (.completed e.id true :: log) where
  matched := List.forall_mem_cons.mpr
    ⟨matched_mark (h.matched s (by simp)), fun b hb => h.matched b (List.mem_cons_of_mem _ hb)⟩
  nested b hb := by
    rcases List.mem_cons.mp hb with rfl | hb
    · have hn := List.pairwise_cons.mp (h.nested s (by simp))
      rw [Scopes.levels, stack_mark]
      refine List.pairwise_cons.mpr ⟨fun level hl id hm => ?_, hn.2⟩
      exact mem_visible_mark.mpr (.inr (hn.1 level hl hm))
    · exact h.nested b (List.mem_cons_of_mem _ hb)
  closed b hb level hl := by
    rcases List.mem_cons.mp hb with rfl | hb
    · have hc := h.closed s (by simp)
      rw [Scopes.levels, stack_mark] at hl
      rcases List.mem_cons.mp hl with rfl | hl
      · exact closed_mark he (hc _ (by simp [Scopes.levels])) hp
      · exact hc level (List.mem_cons_of_mem _ hl)
    · exact h.closed b (List.mem_cons_of_mem _ hb) level hl
  agrees hr := by
    obtain ⟨ids, scopes, rest, hl, hv, hs, hrest⟩ := h.openBodies_eq (refused_of_cons hr)
    rw [Event.openBodies, hl]
    refine .cons ⟨fun other => ?_, ?_⟩ hrest
    · rw [mem_visible_mark, hv other]
      simp
    · rw [stack_mark]
      exact hs
  once hr := by
    refine ⟨?_, h.once (refused_of_cons hr)⟩
    simpa using (h.visible_iff (refused_of_cons hr) e.id).not.mp hid

theorem opened (h : Memo dag (s :: bodies) log) (condition : Option Expr) :
    Memo dag (s.enter condition :: bodies) (.scopeOpened :: log) where
  matched := List.forall_mem_cons.mpr
    ⟨congrArg Nat.succ (h.matched s (by simp)), fun b hb => h.matched b (List.mem_cons_of_mem _ hb)⟩
  nested b hb := by
    rcases List.mem_cons.mp hb with rfl | hb
    · have hn := h.nested s (by simp)
      refine List.pairwise_cons.mpr ⟨fun level hl => ?_, hn⟩
      rcases List.mem_cons.mp hl with rfl | hl
      · exact fun _ hm => hm
      · exact (List.pairwise_cons.mp hn).1 level hl
    · exact h.nested b (List.mem_cons_of_mem _ hb)
  closed b hb level hl := by
    rcases List.mem_cons.mp hb with rfl | hb
    · rcases List.mem_cons.mp hl with rfl | hl
      · exact h.closed s (by simp) _ (by simp [Scopes.levels, Scopes.enter])
      · exact h.closed s (by simp) level hl
    · exact h.closed b (List.mem_cons_of_mem _ hb) level hl
  agrees hr := by
    obtain ⟨ids, scopes, rest, hl, hv, hs, hrest⟩ := h.openBodies_eq (refused_of_cons hr)
    rw [Event.openBodies, hl]
    exact .cons ⟨fun id => by simpa [Scopes.enter] using hv id, hv, hs⟩ hrest
  once hr := h.once (refused_of_cons hr)

theorem leave_eq (hs : s.leave? = some s') :
    ∃ condition, s.stack = s'.stack.push s'.visible condition := by
  obtain ⟨visible, ⟨outer, conditions⟩⟩ := s
  cases outer <;> cases conditions <;> cases hs
  exact ⟨_, rfl⟩

theorem leave_of_push {condition : Option Expr} (hs : s'.stack = s.stack.push s.visible condition) :
    s'.leave? = some s := by
  rw [Scopes.leave?, hs]
  rfl

theorem leave?_eq_none_iff (h : s.Matched) : s.leave? = none ↔ s.depth = 0 := by
  obtain ⟨visible, ⟨outer, conditions⟩⟩ := s
  cases outer <;> cases conditions
  · simp [Scopes.leave?, Scopes.depth]
  · cases h
  · cases h
  · simp [Scopes.leave?, Scopes.depth]

theorem matched_leave (h : s.Matched) (hs : s.leave? = some s') : s'.Matched := by
  obtain ⟨_, hst⟩ := leave_eq hs
  rw [Scopes.Matched, hst] at h
  exact Nat.succ.inj h

theorem ended (h : Memo dag (s :: bodies) log) (hs : s.leave? = some s') :
    Memo dag (s' :: bodies) (.scopeClosed :: log) := by
  obtain ⟨condition, hst⟩ := leave_eq hs
  have hlevels : s.levels = s.visible :: s'.levels := by
    simp [Scopes.levels, hst, ScopeStack.push]
  refine ⟨List.forall_mem_cons.mpr ⟨?_, fun b hb => h.matched b (List.mem_cons_of_mem _ hb)⟩,
    fun b hb => ?_, fun b hb level hl => ?_, fun hr => ?_, fun hr => ?_⟩
  · exact matched_leave (h.matched s (by simp)) hs
  · rcases List.mem_cons.mp hb with rfl | hb
    · have hn := h.nested s (by simp)
      rw [hlevels] at hn
      exact (List.pairwise_cons.mp hn).2
    · exact h.nested b (List.mem_cons_of_mem _ hb)
  · rcases List.mem_cons.mp hb with rfl | hb
    · exact h.closed s (by simp) level (hlevels ▸ List.mem_cons_of_mem _ hl)
    · exact h.closed b (List.mem_cons_of_mem _ hb) level hl
  · obtain ⟨ids, scopes, rest, hl, hv, ha, hrest⟩ := h.openBodies_eq (refused_of_cons hr)
    rw [Event.openBodies, hl]
    rw [hst] at ha
    exact .cons ha hrest
  · exact h.once (refused_of_cons hr)

theorem functionOpened (h : Memo dag bodies log) :
    Memo dag ({} :: bodies) (.functionOpened :: log) where
  matched := List.forall_mem_cons.mpr ⟨rfl, h.matched⟩
  nested b hb := by
    rcases List.mem_cons.mp hb with rfl | hb
    · simp [Scopes.levels]
    · exact h.nested b hb
  closed b hb level hl := by
    rcases List.mem_cons.mp hb with rfl | hb
    · simp only [Scopes.levels, List.mem_singleton] at hl
      rw [hl]
      intro e _ hm
      simp at hm
    · exact h.closed b hb level hl
  agrees hr := .cons (by simp [Scopes.levels, Agrees]) (h.agrees (refused_of_cons hr))
  once hr := h.once (refused_of_cons hr)

theorem functionClosed (h : Memo dag (s :: bodies) log) :
    Memo dag bodies (.functionClosed :: log) where
  matched b hb := h.matched b (List.mem_cons_of_mem _ hb)
  nested b hb := h.nested b (List.mem_cons_of_mem _ hb)
  closed b hb := h.closed b (List.mem_cons_of_mem _ hb)
  agrees hr := by
    obtain ⟨ids, scopes, rest, hl, hv, hs, hrest⟩ := h.openBodies_eq (refused_of_cons hr)
    rw [Event.openBodies, hl]
    exact hrest
  once hr := h.once (refused_of_cons hr)

theorem functionRefused (h : Memo dag bodies log) (hb : bodies' ⊆ bodies) :
    Memo dag bodies' (.functionRefused :: log) where
  matched b hm := h.matched b (hb hm)
  nested b hm := h.nested b (hb hm)
  closed b hm := h.closed b (hb hm)
  agrees hr := absurd (List.mem_cons_self ..) hr
  once hr := absurd (List.mem_cons_self ..) hr

end Memo

theorem Scopes.depth_leave {s s' : Scopes} (h : s.leave? = some s') : s.depth = s'.depth + 1 := by
  obtain ⟨_, hstack⟩ := Memo.leave_eq h
  rw [depth, hstack]
  rfl

def UsedBy (es : List Expr) (id : Nat) : Prop := ∃ e ∈ es, ∃ d, e.Uses d ∧ d.id = id

structure Grown (es : List Expr) (s s' : Scopes) : Prop where
  stack : s'.stack = s.stack
  visible : s.visible ⊆ s'.visible
  used : ∀ id ∈ s'.visible, id ∈ s.visible ∨ UsedBy es id

namespace Grown

variable {s'' : Scopes}

theorem refl (es : List Expr) (s : Scopes) : Grown es s s :=
  ⟨rfl, fun _ h => h, fun _ h => .inl h⟩

theorem trans (h : Grown es s s') (h' : Grown es s' s'') : Grown es s s'' where
  stack := h'.stack.trans h.stack
  visible := fun _ hm => h'.visible (h.visible hm)
  used := fun id hm => (h'.used id hm).elim (h.used id) .inr

theorem mono (h : Grown es s s') (hs : es ⊆ fs) : Grown fs s s' where
  stack := h.stack
  visible := h.visible
  used := fun id hm => (h.used id hm).imp_right fun ⟨e, he, hd⟩ => ⟨e, hs he, hd⟩

theorem mark {e : Expr} (h : Grown e.operands s s') : Grown [e] s (s'.mark e.id) where
  stack := (Memo.stack_mark e.id).trans h.stack
  visible := fun _ hm => Memo.mem_visible_mark.mpr (.inr (h.visible hm))
  used := by
    intro id hm
    rcases Memo.mem_visible_mark.mp hm with rfl | hm
    · exact .inr ⟨e, by simp, e, .self, rfl⟩
    · refine (h.used id hm).imp_right fun ⟨c, hc, d, hd, hid⟩ => ?_
      exact ⟨e, by simp, d, .of_operand hc hd, hid⟩

end Grown

namespace Record

def scopes (r : Record) : Scopes := r.sheet.draft.scopes

def around (r : Record) : List Scopes := r.sheet.draft.frames.map Frame.scopes

def Memo (dag : Dag) (r : Record) : Prop :=
  ComputeKernel.Memo dag (r.scopes :: r.around) r.log

structure Emitted (dag : Dag) (es : List Expr) (r r' : Record) : Prop where
  memo : r'.Memo dag
  around : r'.around = r.around
  grown : Grown es r.scopes r'.scopes

variable {r r' r'' : Record}

theorem Emitted.refl (h : r.Memo dag) (es : List Expr) : Emitted dag es r r :=
  ⟨h, rfl, .refl es _⟩

theorem Emitted.trans (h : Emitted dag es r r') (h' : Emitted dag es r' r'') :
    Emitted dag es r r'' :=
  ⟨h'.memo, h'.around.trans h.around, h.grown.trans h'.grown⟩

theorem Emitted.mono (h : Emitted dag es r r') (hs : es ⊆ fs) : Emitted dag fs r r' :=
  ⟨h.memo, h.around, h.grown.mono hs⟩

end Record

open Logged

variable {r r' : Record} {α : Type}

theorem ensures_lift {x : Emit α} {done : α → Record → Prop} {failed : Record → Prop}
    (h : Ensures x r.sheet (fun a sheet => done a { r with sheet })
      fun sheet => failed { r with sheet }) : Ensures (lift x) r done failed := by
  simp only [Ensures, lift] at *
  cases hx : x r.sheet <;> simpa only [hx] using h

theorem ensures_log {event : Event} {done : Unit → Record → Prop} {failed : Record → Prop}
    (h : done () { r with log := event :: r.log }) : Ensures (log event) r done failed := h

def Quiet (x : Emit α) : Prop := Keeps (fun s : Sheet => s.draft.bodies) x

theorem bodies_write (d : Draft) (line : Line) : (d.write line).bodies = d.bodies := by
  unfold Draft.write Draft.bodies
  split <;> simp [*]

theorem quiet_write (line : Line) : Quiet (Emit.write line) :=
  keeps_write fun d => bodies_write d line

theorem quiet_register (ty : Ty) : Quiet (Emit.drafting (.registerType ty)) :=
  keeps_drafting (keeps_registerType (fun _ _ _ => rfl) ty)

theorem quiet_rename (id : Nat) (name : Spelling) : Quiet (Emit.rename id name) :=
  keeps_rename id name

theorem quiet_nameOf (e : Expr) : Quiet (Emit.nameOf e) := keeps_nameOf e

theorem Quiet.spec {x : Emit α} (hx : Quiet x) (h : r.Emitted dag es r') :
    Ensures (lift x) r' (fun _ r'' => r.Emitted dag es r'' ∧ r''.scopes = r'.scopes)
      (Record.Memo dag) := by
  have key (sheet : Sheet) (hs : sheet.draft.bodies = r'.sheet.draft.bodies) :
      r.Emitted dag es { r' with sheet } ∧ sheet.draft.scopes = r'.sheet.draft.scopes := by
    have hsc := (List.cons.inj hs).1
    have har := (List.cons.inj hs).2
    refine ⟨⟨?_, ?_, ?_⟩, hsc⟩
    · simpa only [Record.Memo, Record.scopes, Record.around, hsc, har] using h.memo
    · simpa only [Record.around, har] using h.around
    · simpa only [Record.scopes, hsc] using h.grown
  exact ensures_lift ((hx r'.sheet).mono (fun _ s hs => key s hs) fun s hs => (key s hs).1.memo)

theorem once_spec {e : Expr} {body : Ty → Logged Unit} (he : dag.contains e) (hm : r.Memo dag)
    (hbody : ∀ ty r', r'.Memo dag → Ensures (body ty) r' (fun _ r'' =>
      r'.Emitted dag e.operands r'' ∧ ∀ d ∈ e.prerequisites, d.id ∈ r''.scopes.visible)
      (Record.Memo dag)) :
    Ensures (once e body) r
      (fun _ r' => r.Emitted dag [e] r' ∧ e.id ∈ r'.scopes.visible) (Record.Memo dag) := by
  by_cases hv : r.sheet.draft.scopes.isVisible e.id = true
  · have hid : e.id ∈ r.scopes.visible := Scopes.isVisible_iff.mp hv
    exact Ensures.of_eq (Logged.once_of_visible hv) ⟨⟨Memo.reused hm hid, rfl, .refl _ _⟩, hid⟩
  · have hid : e.id ∉ r.scopes.visible := fun h => hv (Scopes.isVisible_iff.mpr h)
    refine Ensures.of_eq (Logged.once_of_hidden hv) ?_
    refine .bind ((Quiet.spec (keeps_typing _) (.refl hm e.operands)).imp ?_)
    rintro ty r1 ⟨h1, hs1⟩
    refine .bind ((hbody ty r1 h1.memo).imp ?_)
    rintro _ r2 ⟨h2, hp⟩
    have hg := (h1.trans h2).grown
    have hid2 : e.id ∉ r2.scopes.visible := by
      intro hm2
      rcases hg.used _ hm2 with hold | ⟨c, hc, d, hd, hdid⟩
      · exact hid hold
      · exact Dag.id_ne_of_operand_uses he hc hd hdid
    refine ⟨⟨Memo.written h2.memo he hid2 hp, (h1.trans h2).around, hg.mark⟩, ?_⟩
    exact Memo.mem_visible_mark.mpr (.inl rfl)

theorem exitScope_of_leave {d : Draft} (h : d.scopes.leave? = some s) :
    Drafting.exitScope d = .ok () { d with scopes := s } := by
  simp only [Drafting.exitScope, Bind.bind, EStateM.bind, run_get, h]
  rfl

theorem branch_spec {cond target value : Expr} {body : Logged Unit} (hm : r.Memo dag)
    (hbody : ∀ r', r'.Memo dag → Ensures body r' (fun _ r'' => r'.Emitted dag [value] r'')
      (Record.Memo dag)) :
    Ensures (branch cond target value body) r (fun _ r' =>
      r'.Memo dag ∧ r'.around = r.around ∧ r'.scopes = r.scopes) (Record.Memo dag) := by
  let r1 : Record :=
    { sheet := { r.sheet with draft := r.sheet.draft.enterScope (some cond) }
      log := .scopeOpened :: r.log }
  have hm1 : r1.Memo dag := Memo.opened hm (some cond)
  refine .bind (ensures_lift (ensures_redraft (.bind (ensures_log ?_))))
  refine .bind ((hbody r1 hm1).imp ?_)
  intro _ r2 h2
  have hw : Quiet (do Emit.write (.assign (← Emit.nameOf target) .assign (← Emit.nameOf value))) :=
    .bind (quiet_nameOf _) fun _ => .bind (quiet_nameOf _) fun _ => quiet_write _
  refine .bind ((hw.spec h2).imp ?_)
  rintro _ r3 ⟨h3, -⟩
  have hleave : r3.sheet.draft.scopes.leave? = some r.scopes := Memo.leave_of_push h3.grown.stack
  refine .bind (ensures_lift (ensures_drafting ?_))
  refine ensures_ok (exitScope_of_leave hleave) ?_
  exact ⟨Memo.ended h3.memo hleave, h3.around, rfl⟩

theorem finish_spec {e : Expr} {x : Emit Unit} (hx : Quiet x)
    (h : r.Emitted dag e.operands r')
    (hp : ∀ d ∈ e.prerequisites, d.id ∈ r'.scopes.visible) :
    Ensures (lift x) r' (fun _ r'' => r.Emitted dag e.operands r'' ∧
      ∀ d ∈ e.prerequisites, d.id ∈ r''.scopes.visible) (Record.Memo dag) :=
  (hx.spec h).mono (fun _ _ h' => ⟨h'.1, h'.2 ▸ hp⟩) fun _ h' => h'

theorem leaf_spec {e : Expr} {x : Emit Unit} (hp : e.prerequisites = []) (hx : Quiet x)
    (hm : r.Memo dag) :
    Ensures (lift x) r (fun _ r' => r.Emitted dag e.operands r' ∧
      ∀ d ∈ e.prerequisites, d.id ∈ r'.scopes.visible) (Record.Memo dag) :=
  finish_spec hx (.refl hm _) (by simp [hp])

namespace Expr

mutual

theorem emitLogged_spec (e : Expr) (he : dag.contains e) (r : Record) (hm : r.Memo dag) :
    Ensures e.emitLogged r (fun _ r' => r.Emitted dag [e] r' ∧ e.id ∈ r'.scopes.visible)
      (Record.Memo dag) := by
  have ops {d : Expr} (hd : d ∈ e.operands) : dag.contains d := dag.operands he hd
  unfold emitLogged
  cases e with
  | literal id value =>
    refine once_spec he hm fun _ r1 hm1 => leaf_spec rfl ?_ hm1
    exact .bind (keeps_orFault _) fun _ => quiet_rename _ _
  | unary id op operand =>
    refine once_spec he hm fun ty r1 hm1 => ?_
    refine .bind ((emitLogged_spec operand (ops (by simp)) r1 hm1).imp ?_)
    rintro _ r2 ⟨h2, hv2⟩
    refine finish_spec ?_ h2 (by simpa [prerequisites] using hv2)
    exact .bind (quiet_nameOf _) fun _ => .bind (quiet_nameOf _) fun _ => quiet_write _
  | binary id op lhs rhs =>
    refine once_spec he hm fun ty r1 hm1 => ?_
    refine .bind ((emitLogged_spec lhs (ops (by simp)) r1 hm1).imp ?_)
    rintro _ r2 ⟨h2, hv2⟩
    refine .bind ((emitLogged_spec rhs (ops (by simp)) r2
      h2.memo).imp ?_)
    rintro _ r3 ⟨h3, hv3⟩
    refine finish_spec ?_ ((h2.mono (by simp)).trans
      (h3.mono (by simp))) ?_
    · refine .bind (quiet_nameOf _) fun _ => .bind (quiet_nameOf _) fun _ =>
        keeps_ite (.bind (quiet_write _) fun _ => .bind (quiet_rename _ _) fun _ => ?_)
          (.bind (quiet_nameOf _) fun _ => quiet_write _)
      exact keeps_noteWrite _
    · simpa [prerequisites] using ⟨h3.grown.visible hv2, hv3⟩
  | call id callee args =>
    refine once_spec he hm fun ty r1 hm1 => ?_
    refine .bind ((emitArgsLogged_spec args (fun d hd => ops (by rwa [operands_call])) r1
      hm1).imp ?_)
    rintro given r2 ⟨h2, hv2⟩
    refine finish_spec ?_ (by rwa [operands_call])
      (by simpa only [prerequisites, operands_call] using hv2)
    exact .bind (keeps_orFault _) fun _ => keeps_ite (quiet_write _)
      (.bind (quiet_nameOf _) fun _ => quiet_write _)
  | resource id res =>
    refine once_spec he hm fun _ r1 hm1 => leaf_spec rfl ?_ hm1
    refine .bind (keeps_drafting ?_) fun _ => quiet_rename _ _
    exact keeps_registerResource (fun _ _ _ => rfl) (fun _ _ => rfl) res
  | input id i =>
    exact once_spec he hm fun _ r1 hm1 => leaf_spec rfl (quiet_rename _ _) hm1
  | array id elem length init =>
    refine once_spec he hm fun _ r1 hm1 => leaf_spec rfl ?_ hm1
    exact .bind (quiet_register _) fun _ => .bind (keeps_orFault _) fun _ =>
      .bind (quiet_nameOf _) fun _ => quiet_write _
  | swizzle _ base _ | field _ base _ | element _ base _ =>
    refine once_spec he hm fun ty r1 hm1 => ?_
    refine .bind ((emitLogged_spec base (ops (by simp)) r1 hm1).imp ?_)
    rintro _ r2 ⟨h2, hv2⟩
    refine finish_spec ?_ h2 (by simpa [prerequisites] using hv2)
    exact .bind (quiet_nameOf _) fun _ => quiet_rename _ _
  | elementAt id base index =>
    refine once_spec he hm fun ty r1 hm1 => ?_
    refine .bind ((emitLogged_spec base (ops (by simp)) r1 hm1).imp ?_)
    rintro _ r2 ⟨h2, hv2⟩
    refine .bind ((emitLogged_spec index (ops (by simp)) r2
      h2.memo).imp ?_)
    rintro _ r3 ⟨h3, hv3⟩
    refine finish_spec ?_ ((h2.mono (by simp)).trans
      (h3.mono (by simp))) ?_
    · exact .bind (quiet_nameOf _) fun _ => .bind (quiet_nameOf _) fun _ =>
        quiet_rename _ _
    · simpa [prerequisites] using ⟨h3.grown.visible hv2, hv3⟩
  | storage id name ty =>
    exact once_spec he hm fun _ r1 hm1 => leaf_spec rfl (quiet_register _) hm1
  | zeroed id ty =>
    refine once_spec he hm fun _ r1 hm1 => leaf_spec rfl ?_ hm1
    exact .bind (quiet_register _) fun _ => .bind (quiet_nameOf _) fun _ => quiet_write _
  | select id cond yes no =>
    refine once_spec he hm fun ty r1 hm1 => ?_
    refine .bind ((emitLogged_spec cond (ops (by simp)) r1 hm1).imp ?_)
    rintro _ r2 ⟨h2, hv2⟩
    have hw (l : Line) : Quiet (Emit.write l) := quiet_write l
    refine .bind ((Quiet.spec (.bind (quiet_nameOf _) fun _ => .bind (hw _) fun _ =>
      .bind (quiet_nameOf _) fun _ => hw _) h2).imp ?_)
    rintro _ r3 ⟨h3, hs3⟩
    refine .bind ((branch_spec h3.memo fun r' hm' =>
      (emitLogged_spec yes (ops (by simp)) r' hm').imp fun _ _ h => h.1).imp ?_)
    rintro _ r4 ⟨hm4, ha4, hs4⟩
    have h4 : r1.Emitted dag [cond] r4 := ⟨hm4, ha4.trans h3.around, hs4 ▸ h3.grown⟩
    refine .bind ((Quiet.spec (hw _) h4).imp ?_)
    rintro _ r5 ⟨h5, hs5⟩
    refine .bind ((branch_spec h5.memo fun r' hm' =>
      (emitLogged_spec no (ops (by simp)) r' hm').imp fun _ _ h => h.1).imp ?_)
    rintro _ r6 ⟨hm6, ha6, hs6⟩
    have h6 : r1.Emitted dag [cond] r6 := ⟨hm6, ha6.trans h5.around, hs6 ▸ h5.grown⟩
    refine finish_spec (hw _) (h6.mono (by simp)) ?_
    simpa [prerequisites, hs6, hs5, hs4, hs3] using hv2

theorem emitArgsLogged_spec (es : List Expr) (he : ∀ e ∈ es, dag.contains e) (r : Record)
    (hm : r.Memo dag) :
    Ensures (emitArgsLogged es) r (fun _ r' => r.Emitted dag es r' ∧
      ∀ e ∈ es, e.id ∈ r'.scopes.visible) (Record.Memo dag) := by
  cases es with
  | nil =>
    rw [emitArgsLogged]
    exact ⟨.refl hm _, by simp⟩
  | cons e rest =>
    rw [emitArgsLogged]
    refine .bind ((emitLogged_spec e (he e (by simp)) r hm).imp ?_)
    rintro _ r1 ⟨h1, hv1⟩
    refine .bind ((Quiet.spec (quiet_nameOf e) h1).imp ?_)
    rintro _ r2 ⟨h2, hs2⟩
    refine .bind ((Quiet.spec (keeps_typing _) h2).imp ?_)
    rintro _ r3 ⟨h3, hs3⟩
    refine .bind ((emitArgsLogged_spec rest (fun d hd => he d (by simp [hd])) r3
      h3.memo).imp ?_)
    rintro given r4 ⟨h4, hv4⟩
    refine ⟨(h3.mono (by simp)).trans (h4.mono (by simp)), fun d hd => ?_⟩
    rcases List.mem_cons.mp hd with rfl | hd
    · exact h4.grown.visible (hs3 ▸ hs2 ▸ hv1)
    · exact hv4 d hd

end

end Expr

theorem exitScope_of_bottom {d : Draft} (h : d.scopes.leave? = none) :
    Drafting.exitScope d = .error .scopeUnderflow d := by
  simp only [Drafting.exitScope, Bind.bind, EStateM.bind, run_get, h]
  rfl

theorem exitFunction_spec (d : Draft) :
    Ensures Drafting.exitFunction d (fun _ d' => d.bodies = d.scopes :: d'.bodies)
      (fun d' => d'.bodies ⊆ d.bodies) := by
  refine ensures_exitFunction (fun frame frames hf _ => ?_) (fun _ h => h)
    fun frame frames hf b hb => ?_
  · simp [Draft.bodies, Draft.afterFunction, hf]
  · simp only [Draft.bodies, hf, List.map_cons, List.mem_cons] at hb ⊢
    exact hb.imp_right .inr

theorem Call.record_memo (c : Call dag) (hm : r.Memo dag) : (c.record r).Memo dag := by
  refine Ensures.final ?_
  cases c with
  | emit e =>
    exact (e.val.emitLogged_spec e.property r hm).imp (fun _ _ h => h.1.memo)
  | enterScope condition => exact Memo.opened hm condition
  | exitScope =>
    refine .bind (ensures_lift (ensures_drafting ?_))
    cases hs : r.scopes.leave? with
    | none => exact ensures_error (exitScope_of_bottom hs) hm
    | some s => exact ensures_ok (exitScope_of_leave hs) (Memo.ended hm hs)
  | enterFunction => exact Memo.functionOpened hm
  | exitFunction =>
    have h := exitFunction_spec r.sheet.draft
    unfold Ensures at *
    simp only [Call.logged, Call.exitFunctionLogged, Emit.drafting]
    cases hx : Drafting.exitFunction r.sheet.draft with
    | ok a d =>
      simp only [hx] at h ⊢
      have hb : r.scopes :: r.around = r.scopes :: d.bodies := h
      rw [Record.Memo, hb] at hm
      exact Memo.functionClosed hm
    | error fault d =>
      simp only [hx] at h ⊢
      exact Memo.functionRefused hm h
  | arrange f => exact hm

structure Memoised (dag : Dag) (draft : Draft) (log : List Event) : Prop where
  depths : ∀ b ∈ draft.bodies, b.levels ≠ [] ∧
    b.levels.length = b.stack.conditions.length + 1
  underflow : (∃ fault d, Drafting.exitScope draft = .error fault d) ↔ draft.scopes.depth = 0
  underflow_eq : ∀ fault d, Drafting.exitScope draft = .error fault d → d = draft
  nested : ∀ b ∈ draft.bodies, b.levels.Pairwise fun inner outer => outer ⊆ inner
  closed : ∀ b ∈ draft.bodies, ∀ level ∈ b.levels, dag.Closed level
  visible_iff : .functionRefused ∉ log →
    ∀ id, draft.scopes.isVisible id = true ↔ Event.CompletedInOpenScope log id
  writtenOnce : .functionRefused ∉ log → Event.WrittenOnce log

theorem Record.Memo.memoised (hm : r.Memo dag) : Memoised dag r.sheet.draft r.log where
  depths b hb := ⟨List.cons_ne_nil _ _, congrArg Nat.succ (hm.matched b hb)⟩
  underflow := by
    have hdepth := Memo.leave?_eq_none_iff (hm.matched r.sheet.draft.scopes (List.mem_cons_self ..))
    rw [← hdepth]
    cases hs : r.sheet.draft.scopes.leave? with
    | none => exact iff_of_true ⟨_, _, exitScope_of_bottom hs⟩ rfl
    | some s => simp [exitScope_of_leave hs]
  underflow_eq fault d hx := by
    cases hs : r.sheet.draft.scopes.leave? with
    | none =>
      rw [exitScope_of_bottom hs] at hx
      cases hx
      rfl
    | some s =>
      rw [exitScope_of_leave hs] at hx
      cases hx
  nested := hm.nested
  closed := hm.closed
  visible_iff hr id := Scopes.isVisible_iff.trans (hm.visible_iff hr id)
  writtenOnce := hm.once

theorem calls_memoised (settings : Settings) (nodes : Nodes) (calls : List (Call dag)) :
    let start : Sheet := ⟨nodes, .start settings⟩
    let r := calls.foldl Call.record { sheet := start }
    r.sheet = calls.foldl Call.after start ∧ Memoised dag r.sheet.draft r.log := by
  refine ⟨Call.foldl_record_sheet _ calls, Record.Memo.memoised ?_⟩
  have run (r : Record) (hm : r.Memo dag) : (calls.foldl Call.record r).Memo dag := by
    induction calls generalizing r with
    | nil => exact hm
    | cons c calls ih => exact ih _ (c.record_memo hm)
  exact run _ Memo.start

end ComputeKernel
