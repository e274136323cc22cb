import ComputeKernel.Proofs.SessionHistory

namespace ComputeKernel

theorem Expr.uses_lvalueRoot (e : Expr) : e.Uses e.lvalueRoot := by
  fun_induction lvalueRoot e with
  | case1 id base lanes ih | case2 id base name ih | case3 id base index ih
  | case4 id base index ih => exact .of_operand (by simp) ih
  | case5 => exact .self

namespace Sheet

def DivergentStorage (s : Sheet) (target : Expr) : Prop :=
  s.reports target = .divergent ∧ s.reports target.lvalueRoot = .divergent

def modesAfterWrite (s : Sheet) (target : Expr) : IdTable Divergence :=
  let asked := (Expr.anyDivergent s.draft.scopes.conditions s.nodes.modes).2
  if s.region = .divergent then
    (asked.insert target.id .divergent).insert target.lvalueRoot.id .divergent
  else asked

end Sheet

section Writes

variable {dag : Dag} {s s' u : Sheet} {target value : Expr} {id : Nat} {op : Op}

theorem inDivergentRegion_run (s : Sheet) :
    Emit.inDivergentRegion s =
      .ok (s.region == .divergent) { s with
        nodes := { s.nodes with
          modes := (Expr.anyDivergent s.draft.scopes.conditions s.nodes.modes).2 } } := rfl

theorem noteWrite_run (s : Sheet) (target : Expr) :
    Emit.noteWrite target s =
      .ok () { s with nodes := { s.nodes with modes := s.modesAfterWrite target } } := by
  simp only [Emit.noteWrite, bind, EStateM.bind, inDivergentRegion_run, Sheet.modesAfterWrite]
  cases s.region <;> rfl

theorem divergentStorage_modesAfterWrite_iff (hs : s.draft.Rooted dag) (ht : dag.contains target)
    (h : s'.nodes.modes = s.modesAfterWrite target) :
    s'.DivergentStorage target ↔ s.region = .divergent ∨ s.DivergentStorage target := by
  have hroot : dag.contains target.lvalueRoot := Dag.uses ht target.uses_lvalueRoot
  have hsame := (Expr.anyDivergent_tells _ hs.conditions s.nodes.modes).2
  simp only [Sheet.DivergentStorage, Sheet.reports_eq_divergent_iff ht,
    Sheet.reports_eq_divergent_iff hroot, h]
  unfold Sheet.modesAfterWrite
  split
  · rename_i hregion
    refine iff_of_true ⟨?_, .marked ?_⟩ (.inl hregion)
    · refine rises_force _ _ ht (.marked ?_)
      rw [IdTable.find?_insert, if_pos rfl]
    · rw [IdTable.find?_insert, if_pos rfl]
  · rename_i hregion
    rw [hsame _ ht, hsame _ hroot, or_iff_right hregion]

def Expr.emitSides (e target value : Expr) : Emit Unit := do
  let _ ← Emit.typing e.inferType
  target.emit
  value.emit

theorem emitSides_moves {e : Expr} (ht : dag.contains target) (hv : dag.contains value) :
    Moves (Onward dag) (e.emitSides target value) :=
  (still_typing _).moves.onward fun _ => (target.emit_moves ht).onward fun _ => value.emit_moves hv

theorem emitSides_of_visible {e : Expr} (ht : target.id ∈ s.draft.scopes.visible)
    (hv : value.id ∈ s.draft.scopes.visible) (h : e.emitSides target value s = .ok () u) :
    u.draft = s.draft ∧ u.nodes.modes = s.nodes.modes := by
  have hens : Ensures (e.emitSides target value) s
      (fun _ u => u.draft = s.draft ∧ u.nodes.modes = s.nodes.modes) fun _ => True := by
    refine .bind (ensures_typing (ensures_any (fun _ types => ?_) fun _ => trivial))
    exact .bind (ensures_ok (Expr.emit_of_visible ht) (ensures_ok (Expr.emit_of_visible hv) ⟨rfl, rfl⟩))
  exact hens.of_ok h

theorem emit_assign_run (hop : op.isAssign = true) (hidden : ¬s.draft.scopes.isVisible id = true) :
    (Expr.binary id op target value).emit s = (do
      (Expr.binary id op target value).emitSides target value
      let r ← Emit.nameOf value
      let l ← Emit.nameOf target
      Emit.write (.assign l op r)
      Emit.rename id l
      Emit.noteWrite target
      Emit.redraft (·.mark id) : Emit Unit) s := by
  rw [Expr.emit]
  refine (once_of_hidden hidden).trans (congrFun ?_ s)
  simp only [Expr.emitSides, hop, if_true, bind_assoc]
  rfl

theorem emit_assign_modes (hop : op.isAssign = true)
    (hidden : ¬s.draft.scopes.isVisible id = true)
    (h : (Expr.binary id op target value).emit s = .ok () s') :
    ∃ u, (Expr.binary id op target value).emitSides target value s = .ok () u ∧
      s'.nodes.modes = u.modesAfterWrite target := by
  rw [emit_assign_run hop hidden] at h
  cases hsides : (Expr.binary id op target value).emitSides target value s with
  | error fault u =>
    simp only [bind, EStateM.bind, hsides] at h
    cases h
  | ok _ u =>
    refine ⟨u, rfl, ?_⟩
    have hlast : Ensures (do
        let r ← Emit.nameOf value
        let l ← Emit.nameOf target
        Emit.write (.assign l op r)
        Emit.rename id l
        Emit.noteWrite target
        Emit.redraft (·.mark id)) u
        (fun _ s' => s'.nodes.modes = u.modesAfterWrite target) fun _ => False := by
      refine .bind (ensures_nameOf (.bind (ensures_nameOf ?_)))
      refine .bind (ensures_write (.bind (ensures_rename ?_)))
      refine .bind (ensures_ok (noteWrite_run _ _) (ensures_redraft ?_))
      simp only [Sheet.modesAfterWrite, Sheet.region, Draft.scopes_write]
      rfl
    simp only [bind, EStateM.bind, hsides] at h
    exact hlast.of_ok h

end Writes

namespace Session

structure Rooted (dag : Dag) (s : Session) : Prop where
  bound : ∀ binding ∈ s.bound, dag.contains binding.2
  draft : s.sheet.draft.Rooted dag
  below : ∀ e, dag.contains e → e.id < s.sheet.nodes.next

def Leads (dag : Dag) (s : Session) (made : List Expr) (s' : Session) : Prop :=
  ∃ dag' : Dag, (∀ e, dag.contains e → dag'.contains e) ∧ s'.Rooted dag' ∧
    (∀ e ∈ made, dag'.contains e) ∧ Rises dag s.sheet.nodes.modes s'.sheet.nodes.modes

section Leads

variable {dag dag' : Dag} {s s' : Session} {made : List Expr}

theorem Rooted.leads (h : s.Rooted dag) (hmade : ∀ e ∈ made, dag.contains e) : Leads dag s made s :=
  ⟨dag, fun _ he => he, h, hmade, .refl _⟩

theorem Guides.leads (h : Guides (dag, s) (dag', s')) (hs : s.Rooted dag)
    (hmade : ∀ e ∈ made, dag'.contains e) : Leads dag s made s' := by
  have hplaced := h.comes.placed ⟨hs.bound, hs.below⟩
  exact ⟨dag', fun _ => h.comes.contains, ⟨hplaced.bound, h.rooted hs.draft, hplaced.below⟩, hmade,
    h.rises hs.draft⟩

end Leads

def Run.Leading {α : Type} (given : List Expr) (x : Run α) (made : α → List Expr) : Prop :=
  ∀ dag s, s.Rooted dag → (∀ e ∈ given, dag.contains e) →
    Ensures x s (fun a s' => Leads dag s (made a ++ given) s') (Leads dag s [])

theorem leading_perform (operation : Operation) :
    Run.Leading [] (perform operation) Answer.made := by
  intro dag s hs hgiven
  have h := guided_perform operation dag s ⟨hs.bound, hs.below⟩ hgiven
  refine h.mono (fun _ _ ⟨_, hguides, hmade⟩ => ?_) fun _ ⟨_, hguides⟩ => ?_
  · exact hguides.leads hs hmade
  · exact hguides.leads hs (by simp)

section Runs

variable {dag : Dag} {s : Session}

theorem start_rooted (settings : Settings) (first : Nat) :
    (start settings first).Rooted (.ofList [] (by simp) (by simp)) where
  bound _ hb := (List.not_mem_nil hb).elim
  draft b hb scope hscope := by
    rw [List.mem_singleton.mp hb] at hscope
    exact (List.not_mem_nil hscope).elim
  below _ he := (List.not_mem_nil he).elim

theorem after_leads (hs : s.Rooted dag) (step : Step) : Leads dag s [] (s.after step) := by
  have h := leading_perform step.operation dag s hs (by simp)
  unfold after
  cases hrun : perform step.operation s with
  | error stop t => exact h.of_error hrun
  | ok answer t =>
    obtain ⟨dag', hsub, ht, hmade, hrises⟩ := h.of_ok hrun
    cases answer with
    | node e label =>
      refine ⟨dag', hsub, ⟨fun binding hb => ?_, ht.draft, ht.below⟩, by simp, hrises⟩
      rcases List.mem_append.mp hb with hb | hb
      · obtain ⟨name, -, rfl⟩ : ∃ name, step.bind = some name ∧ (name, e) = binding := by
          simpa using hb
        exact hmade e (by simp [Answer.made])
      · exact ht.bound binding hb
    | _ => exact ⟨dag', hsub, ht, by simp, hrises⟩

theorem run_leads (hs : s.Rooted dag) (steps : List Step) : Leads dag s [] (steps.foldl after s) := by
  induction steps generalizing dag s with
  | nil => exact hs.leads (by simp)
  | cons step steps ih =>
    obtain ⟨dag', hsub, hs', -, hrises⟩ := after_leads hs step
    obtain ⟨dag'', hsub', hs'', -, hrises'⟩ := ih hs'
    exact ⟨dag'', fun e he => hsub' e (hsub e he), hs'', by simp,
      hrises.trans fun e he => hrises' e (hsub e he)⟩

theorem divergentStorage_run (hs : s.Rooted dag) {target : Expr} (ht : dag.contains target)
    (h : s.sheet.DivergentStorage target) (later : List Step) :
    (later.foldl after s).sheet.DivergentStorage target := by
  obtain ⟨dag', hsub, -, -, hrises⟩ := run_leads hs later
  have hroot : dag.contains target.lvalueRoot := Dag.uses ht target.uses_lvalueRoot
  simp only [Sheet.DivergentStorage, Sheet.reports_eq_divergent_iff ht,
    Sheet.reports_eq_divergent_iff hroot] at h ⊢
  exact ⟨hrises _ ht h.1, hrises _ hroot h.2⟩

end Runs

theorem perform_emit {s t : Session} {name : String} {e : Expr} {answer : Answer}
    (hname : s.bound.lookup name = some e) (h : perform (.emit name) s = .ok answer t) :
    e.emit s.sheet = .ok () t.sheet := by
  have hens : Ensures (perform (.emit name)) s
      (fun _ t => e.emit s.sheet = .ok () t.sheet) fun _ => True := by
    refine .bind ?_
    rw [Run.value]
    refine .bind (ensures_get ?_)
    rw [hname]
    refine ensures_pure (.bind ?_)
    cases hrun : e.emit s.sheet with
    | ok _ sheet =>
      have hemit : Run.emitting e.emit s = .ok () { s with sheet } := by
        simp only [Run.emitting, hrun]
      exact ensures_ok hemit (.bind (ensures_get (ensures_pure rfl)))
    | error fault sheet =>
      have hemit : Run.emitting e.emit s = .error (.fault fault) { s with sheet } := by
        simp only [Run.emitting, hrun]
      exact ensures_error hemit trivial
  exact hens.of_ok h

theorem assigned_divergent_for_good_iff (settings : Settings) (first : Nat) (before : List Step)
    (name : String) (id : Nat) (op : Op) (target value : Expr) (answer : Answer) (t : Session) :
    let s := before.foldl after (start settings first)
    let e := Expr.binary id op target value
    s.bound.lookup name = some e → op.isAssign = true →
    ¬s.sheet.draft.scopes.isVisible id = true → perform (.emit name) s = .ok answer t →
    ∃ u, e.emitSides target value s.sheet = .ok () u ∧
      ((∀ later : List Step, (later.foldl after t).sheet.DivergentStorage target) ↔
        u.region = .divergent ∨ u.DivergentStorage target) ∧
      (s.sheet.draft.scopes.isVisible target.id = true →
        s.sheet.draft.scopes.isVisible value.id = true →
        u.region = s.sheet.region ∧ ∀ d, u.reports d = s.sheet.reports d) := by
  intro s e hname hop hidden hperform
  obtain ⟨dag, -, hs, -, -⟩ := run_leads (start_rooted settings first) before
  obtain ⟨_, _, hbound, -⟩ := List.lookup_eq_some_iff.mp hname
  have he : dag.contains e := hs.bound (name, e) (by simp [s, hbound])
  have htarget : dag.contains target := dag.operands he (by simp [e])
  have hvalue : dag.contains value := dag.operands he (by simp [e])
  obtain ⟨u, hsides, hmodes⟩ := emit_assign_modes hop hidden (perform_emit hname hperform)
  have hu : u.draft.Rooted dag :=
    ((emitSides_moves htarget hvalue s.sheet).of_ok hsides).rooted hs.draft
  obtain ⟨dag', hsub, ht, -, -⟩ := (leading_perform (.emit name) dag s hs (by simp)).of_ok hperform
  refine ⟨u, hsides, ?_, fun hvt hvv => ?_⟩
  · rw [← divergentStorage_modesAfterWrite_iff hu htarget hmodes]
    constructor
    · intro h
      exact h []
    · intro h later
      exact divergentStorage_run ht (hsub target htarget) h later
  · obtain ⟨hdraft, hsame⟩ := emitSides_of_visible (Scopes.isVisible_iff.mp hvt)
      (Scopes.isVisible_iff.mp hvv) hsides
    simp only [Sheet.region, Sheet.reports, hdraft, hsame, implies_true, and_self]

def laneStore : List Step :=
  [ ⟨.zeroed (.ok .u32x3), some "cells"⟩, ⟨.swizzle "cells" "x", some "cell"⟩,
    ⟨.input (.ok .threadId), some "thread"⟩, ⟨.swizzle "thread" "x", some "lane"⟩,
    ⟨.binary .assign "cell" "lane", some "store"⟩ ]

def cell : Expr := .swizzle 2 (.zeroed 1 .u32x3) "x"

def lane : Expr := .swizzle 4 (.input 3 .threadId) "x"

theorem laneStore_divergent_iff :
    ∃ answer t u, perform (.emit "store") (laneStore.foldl after (start .default 1)) = .ok answer t ∧
      (Expr.binary 5 .assign cell lane).emitSides cell lane
        (laneStore.foldl after (start .default 1)).sheet = .ok () u ∧
      ((∀ later : List Step, (later.foldl after t).sheet.DivergentStorage cell) ↔
        u.region = .divergent ∨ u.DivergentStorage cell) := by
  obtain ⟨answer, t, hperform, -⟩ := exists_ok_of_ensures (perform (.emit "store"))
    (laneStore.foldl after (start .default 1)) (fun _ _ => True) (by decide +kernel)
  obtain ⟨u, hu, hiff, -⟩ := assigned_divergent_for_good_iff .default 1 laneStore "store" 5 .assign
    cell lane answer t rfl rfl (by decide +kernel) hperform
  exact ⟨answer, t, u, hperform, hu, hiff⟩

theorem laneStore_not_divergent :
    ∃ answer t, perform (.emit "store") (laneStore.foldl after (start .default 1)) = .ok answer t ∧
      (laneStore.foldl after (start .default 1)).sheet.reports lane = .divergent ∧
      t.sheet.reports lane = .divergent ∧ t.sheet.reports cell = .uniform ∧
      t.sheet.reports cell.lvalueRoot = .uniform := by
  obtain ⟨answer, t, hperform, hreports⟩ := exists_ok_of_ensures (perform (.emit "store"))
    (laneStore.foldl after (start .default 1))
    (fun _ t => (laneStore.foldl after (start .default 1)).sheet.reports lane = .divergent ∧
      t.sheet.reports lane = .divergent ∧ t.sheet.reports cell = .uniform ∧
      t.sheet.reports cell.lvalueRoot = .uniform) (by decide +kernel)
  exact ⟨answer, t, hperform, hreports⟩

end Session

end ComputeKernel
