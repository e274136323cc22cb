import ComputeKernel.Proofs.BracketedFunctions
import ComputeKernel.Proofs.MaskDivision

namespace ComputeKernel

open Script
open Bears (items)

variable {p p' : Phase} {w w' : Workspace Notebook} {mask : Expr} {known : List Expr} {K : Stock}

section Kept

variable {w'' : Workspace Notebook}

structure Workspace.Keeps (w w' : Workspace Notebook) : Prop where
  guards : w.sheet.Guards w.sheet.draft.scopes.visible w'.sheet
  visible : w.sheet.draft.scopes.visible ⊆ w'.sheet.draft.scopes.visible

theorem Workspace.Keeps.trans (h : w.Keeps w') (h' : w'.Keeps w'') : w.Keeps w'' :=
  ⟨h.guards.trans (h'.guards.mono h.visible), fun _ hid => h'.visible (h.visible hid)⟩

theorem Workspace.Done.keeping {out more : List Expr} (h : w.Done p p out w') (hon : w'.Onward w'')
    (hfurnished : w''.Furnished more)
    (hmasks : (w''.sheet.draft.masks, w''.sheet.draft.wave32) =
      (w'.sheet.draft.masks, w'.sheet.draft.wave32))
    (hsafe : w.Orderly → w''.sheet.draft.SparesMasks →
      w''.sheet.Labelled w''.labels ∧ w'.Keeps w'') : w.Done p p more w'' := by
  have hm : w''.sheet.draft.masks = w'.sheet.draft.masks := congrArg Prod.fst hmasks
  refine ⟨h.onward.trans hon, hfurnished, .inl rfl, h.phase.of_eq hmasks,
    fun hne => hm.trans (h.masks hne), fun ho hspares => ?_⟩
  obtain ⟨hl, hk⟩ := hsafe ho hspares
  obtain ⟨ho', hg⟩ := h.safe ho (hspares.of_subset hon.grows.everyLine)
  exact ⟨ho'.of_guards hl hk.guards hk.visible hm,
    fun hp => (hg hp).trans (hk.guards.mono h.onward.grows.visible)⟩

def Workspace.Fits (w : Workspace Notebook) (mask : Expr) : Prop :=
  w.Anchors mask ∧ ∀ pushed seed, w.sheet.draft.masks = pushed ++ [seed] → ∀ outer ∈ pushed.head?,
    ∀ o, w.laneMask o mask &&& w.laneMask o outer = w.laneMask o mask

variable {pushed : List Expr} {seed : Expr} {stem : String} {n : Nat} {cond taken missed : Expr}

theorem Workspace.Orderly.anchors (ho : w.Orderly)
    (hm : w.sheet.draft.masks = pushed ++ [seed]) (hmask : mask ∈ pushed) : w.Anchors mask := by
  rcases ho.tower with hnil | ⟨pushed', seed', ht⟩
  · simp [hnil] at hm
  obtain ⟨rfl, -⟩ := List.append_inj' (hm.symm.trans ht.masks) rfl
  exact ht.anchored mask hmask

theorem Workspace.Orderly.outer {outer : Expr} (ho : w.Orderly) (hp : p.Holds w.sheet.draft)
    (hne : p ≠ .idle) (hm : w.sheet.draft.masks = pushed ++ [seed]) (hout : outer ∈ pushed.head?) :
    p = .masked ∧ w.Anchors outer ∧ outer ∈ w.sheet.draft.masks.head? := by
  refine ⟨?_, ho.anchors hm (List.mem_of_mem_head? hout), ?_⟩
  · cases p with
    | idle => exact (hne rfl).elim
    | whole =>
      obtain ⟨⟨mask, hmask⟩, -⟩ := hp
      obtain rfl : pushed = [] := by
        cases pushed <;> simp_all
      cases hout
    | masked => rfl
  · rw [hm, List.head?_append, Option.mem_def.mp hout]
    rfl

theorem Workspace.Fits.of_keeps (h : w.Fits mask) (ho : w.Orderly) (hk : w.Keeps w')
    (hm : w'.sheet.draft.masks = w.sheet.draft.masks) : w'.Fits mask := by
  refine ⟨h.1.of_guards hk.guards hk.visible, fun pushed seed hmasks outer hout o => ?_⟩
  have hmasks' := hm.symm.trans hmasks
  have hanchors := ho.anchors hmasks' (List.mem_of_mem_head? hout)
  rw [laneMask_of_guards h.1 hk.guards o, laneMask_of_guards hanchors hk.guards o]
  exact h.2 pushed seed hmasks' outer hout o

def Workspace.Legible (p : Phase) (w : Workspace Notebook) : Prop :=
  ∀ current ∈ w.sheet.draft.masks.head?, w.Reads p current

structure Workspace.Branching (w : Workspace Notebook) (cond taken missed : Expr)
    (w' : Workspace Notebook) : Prop where
  shown : w'.Shown taken ("m_if" ++ "_" ++ toString w.labels) ∧
    w'.Shown missed ("m_else" ++ "_" ++ toString (w.labels + 1))
  voted : ∃ w₁, Build.divide cond w = .ok (taken, missed) w₁ ∧
    ∀ o, w'.laneMask o taken = w₁.laneMask o taken ∧ w'.laneMask o missed = w₁.laneMask o missed
  disjoint : ∀ o, w'.laneMask o taken &&& w'.laneMask o missed = 0
  covering : ∀ o, w'.laneMask o taken ||| w'.laneMask o missed = w.current o

theorem Workspace.Shown.anchors
    (h : w.Shown mask (stem ++ "_" ++ toString n)) (hs : stem ∈ ["m_if", "m_else", "m_loop"]) :
    w.Anchors mask := ⟨_, ⟨h.1, stem, hs, n, rfl⟩, h.2⟩

theorem Workspace.Shown.of_keeps
    (h : w.Shown mask (stem ++ "_" ++ toString n)) (hs : stem ∈ ["m_if", "m_else", "m_loop"])
    (hk : w.Keeps w') : w'.Shown mask (stem ++ "_" ++ toString n) :=
  ⟨(hk.guards.marks _ h.2 _ ⟨h.1, stem, hs, n, rfl⟩).1, hk.visible h.2⟩

theorem Workspace.Branching.of_keeps (h : w.Branching cond taken missed w')
    (hk : w'.Keeps w'') : w.Branching cond taken missed w'' := by
  have ht := laneMask_of_guards (h.shown.1.anchors (by simp)) hk.guards
  have hm := laneMask_of_guards (h.shown.2.anchors (by simp)) hk.guards
  obtain ⟨w₁, hrun, hvalues⟩ := h.voted
  refine ⟨⟨h.shown.1.of_keeps (by simp) hk, h.shown.2.of_keeps (by simp) hk⟩, ⟨w₁, hrun, fun o => ?_⟩,
    fun o => ?_, fun o => ?_⟩ <;> rw [ht, hm]
  · exact hvalues o
  · exact h.disjoint o
  · exact h.covering o

theorem Workspace.current_of_head {current : Expr} (h : current ∈ w.sheet.draft.masks.head?)
    (o : Votes) : w.current o = w.laneMask o current := by
  rw [Workspace.current, Workspace.maskStack, List.head?_map, Option.mem_def.mp h]
  rfl

theorem Workspace.Divided.branching (h : w.Divided p taken missed w')
    (hrun : Build.divide cond w = .ok (taken, missed) w') (hp : p.Holds w.sheet.draft)
    (hne : p ≠ .idle) (ho : w.Orderly) (hspares : w'.sheet.draft.SparesMasks) (hl : w.Legible p) :
    w.Branching cond taken missed w' := by
  obtain ⟨current, rest, hmasks⟩ := List.exists_cons_of_ne_nil (hp.ne_nil hne)
  have hcurrent : current ∈ w.sheet.draft.masks.head? := by simp [hmasks]
  have hparts := h.parts ho hspares current hcurrent (hl current hcurrent)
  exact ⟨h.shown, ⟨w', hrun, fun _ => ⟨rfl, rfl⟩⟩, fun o => (hparts o).1,
    fun o => w.current_of_head hcurrent o ▸ (hparts o).2⟩

theorem Lanes.and_or_left (a b : Lanes) : a &&& (a ||| b) = a := by
  refine ext fun l => ?_
  simp only [BitVec.getLsbD_and, BitVec.getLsbD_or]
  cases a.getLsbD l <;> simp

theorem Workspace.Divided.fits (h : w.Divided p taken missed w')
    (hp : p.Holds w.sheet.draft) (hne : p ≠ .idle) (ho : w.Orderly)
    (hspares : w'.sheet.draft.SparesMasks) : w'.Fits taken ∧ w'.Fits missed := by
  have hlink {pushed : List Expr} {seed outer : Expr}
      (hm : w'.sheet.draft.masks = pushed ++ [seed]) (hout : outer ∈ pushed.head?) (o : Votes) :
      w'.laneMask o taken ||| w'.laneMask o missed = w'.laneMask o outer := by
    obtain ⟨hmasked, hanchors, hhead⟩ := ho.outer hp hne ((h.done.masks hne).symm.trans hm) hout
    rw [laneMask_of_guards hanchors ((h.done.safe ho hspares).2 hmasked) o]
    exact (h.parts ho hspares outer hhead (.inl ⟨hmasked, hanchors⟩) o).2
  refine ⟨⟨h.shown.1.anchors (by simp), fun _ _ hm _ hout o => ?_⟩,
    h.shown.2.anchors (by simp), fun _ _ hm _ hout o => ?_⟩
  · rw [← hlink hm hout o, Lanes.and_or_left]
  · rw [← hlink hm hout o, BitVec.or_comm, Lanes.and_or_left]

structure Workspace.Looping (w : Workspace Notebook) (mask : Expr) (w' : Workspace Notebook) :
    Prop where
  shown : w'.Shown mask ("m_loop" ++ "_" ++ toString w.labels)
  same : ∀ o, w'.laneMask o mask = w.current o

theorem Workspace.Looping.of_keeps (h : w.Looping mask w') (hk : w'.Keeps w'') :
    w.Looping mask w'' := by
  refine ⟨h.shown.of_keeps (by simp) hk, fun o => ?_⟩
  rw [laneMask_of_guards (h.shown.anchors (by simp)) hk.guards o, h.same o]

theorem Workspace.Copied.looping (h : w.Copied p mask w') (hp : p.Holds w.sheet.draft)
    (hne : p ≠ .idle) (ho : w.Orderly) (hspares : w'.sheet.draft.SparesMasks) (hl : w.Legible p) :
    w.Looping mask w' := by
  obtain ⟨current, rest, hmasks⟩ := List.exists_cons_of_ne_nil (hp.ne_nil hne)
  have hcurrent : current ∈ w.sheet.draft.masks.head? := by simp [hmasks]
  refine ⟨h.shown ho, fun o => ?_⟩
  rw [w.current_of_head hcurrent, h.same ho hspares current hcurrent (hl current hcurrent) o]

theorem Workspace.Copied.fits (h : w.Copied p mask w') (hp : p.Holds w.sheet.draft)
    (hne : p ≠ .idle) (ho : w.Orderly) (hspares : w'.sheet.draft.SparesMasks) : w'.Fits mask := by
  refine ⟨(h.shown ho).anchors (by simp), fun pushed seed hm outer hout o => ?_⟩
  obtain ⟨hmasked, hanchors, hhead⟩ := ho.outer hp hne ((h.done.masks hne).symm.trans hm) hout
  rw [laneMask_of_guards hanchors ((h.done.safe ho hspares).2 hmasked) o,
    h.same ho hspares outer hhead (.inl ⟨hmasked, hanchors⟩) o, BitVec.and_self]

end Kept

namespace Build

section Scopes

variable (body : Scripted Unit)

theorem done_enterScope (condition : Option Expr) (hw : w.Furnished known)
    (hp : p.Holds w.sheet.draft) : w.Done p p known (w.redraft (·.enterScope condition)) :=
  Calm.done (.of_spares (Nat.le_refl _) (fun _ h => h) (.enterScope _ _)) hw hp fun e he =>
    hw e (List.mem_append_left _ he)

theorem done_leaveScope {condition : Option Expr} {scopes : Scopes}
    (hw : w.Furnished known) (hp : p.Holds w.sheet.draft)
    (hdone : (w.redraft (·.enterScope condition)).Done p p' [] w')
    (hl : w'.sheet.draft.scopes.leave? = some scopes) :
    w.Done p p' [] (w'.redraft fun d => { d with scopes }) := by
  have hgrows : w.sheet.draft.Grows { w'.sheet.draft with scopes } := hdone.onward.grows.leave hl
  refine ⟨⟨hdone.onward.labels, hdone.onward.next, hgrows⟩, hdone.furnished, hdone.leads,
    hdone.phase.of_eq rfl, hdone.masks, fun ho hspares => ?_⟩
  have hentered := (done_enterScope condition hw hp).safe ho
    (hspares.of_subset hdone.onward.grows.everyLine)
  obtain ⟨ho', hg'⟩ := hdone.safe hentered.1 hspares
  have hlabelled :
      Sheet.Labelled w'.labels { w'.sheet with draft := { w'.sheet.draft with scopes } } :=
    ho'.labelled.of_same rfl (Nat.le_refl _) fun id hid => List.mem_append.mpr
      ((List.mem_append.mp hid).imp_left fun hid => Scopes.ids_leave hl hid)
  refine ⟨?_, fun hm => ⟨(hg' hm).marks, (hg' hm).unset⟩⟩
  by_cases hm : p = .masked
  · exact ho.of_masks hp hlabelled (hdone.masks (hm ▸ by decide)) fun _ =>
      ⟨⟨(hg' hm).marks, (hg' hm).unset⟩, hgrows.visible⟩
  · have hm' : p' ≠ .masked := by
      rcases hdone.leads with rfl | ⟨-, rfl⟩
      · exact hm
      · decide
    exact ho'.of_masks hdone.phase hlabelled rfl fun h => (hm' h).elim

instance heeds_inScope (condition : Option Expr) [h : Heeds p p' known body] :
    Heeds p p' known (inScope condition body) where
  ends w hw hp := by
    have henter := done_enterScope condition hw hp
    refine ends_redraft (.bind ((h.ends _ henter.furnished henter.phase).mono (fun _ w' h' => ?_)
      fun _ _ h' name hn => .after henter (h' name hn)))
    obtain ⟨scopes, hl⟩ := h'.onward.grows.leave_isSome
    exact ends_drafting (exitScope_of_leave hl) (done_leaveScope hw hp h' hl)

instance : Ranges Heeding where
  line line _ := heeding_of fun _ _ => heeds_writeLine line.declares_simple
  pushTarget target := heeding_of fun _ _ => heeds_redraft fun _ => rfl
  popTarget := heeding_of fun _ _ => heeds_asking (keeps_popTarget fun _ _ => rfl)
  checkBreak what := heeding_of fun _ _ => heeds_asking (keeps_checkBreak what)
  checkContinue := heeding_of fun _ _ => heeds_asking keeps_checkContinue
  spread first last counter := heeding_of fun _ _ => by
    refine heeds_bind (heeds_divergingOf _) fun either => ?_
    split
    · exact heeds_divergingOf _
    · exact heeds_pure () (List.nil_subset _)
  inScope condition _ _ h := heeding_of fun known hK =>
    have := h.1 known hK
    heeds_inScope _ condition

instance (condition : Option Expr) [h : Heeds p p' known body] :
    Heeds p p' known (loopBody condition body) :=
  have := held_of_heeds h
  heeds_of_tracked inferInstance

end Scopes

theorem heeds_enableWave32 : Heeds .idle .whole known (enableWave32 : Scripted Unit) where
  ends w hw hp := by
    have hconstant : Heeds .idle .idle known (constant (.u32 [0xffffffff]) : Scripted Expr) :=
      heeds_of_tracked inferInstance
    have hseed := (hconstant.ends w hw hp).and
      (adds_constant (w := w) (.u32 [0xffffffff]))
    refine .bind (hseed.mono (fun seed w' h => ?_) fun _ _ h => h.1)
    obtain ⟨h, rfl, -⟩ := h
    set seed : Expr := .literal w.sheet.nodes.next (.u32 [0xffffffff])
    have hgrows := h.onward.grows
    refine (⟨⟨h.onward.labels, h.onward.next, hgrows.enclosing, hgrows.functions, hgrows.lines,
      hgrows.stack, hgrows.visible⟩, fun e he => ?_, .inr ⟨rfl, rfl⟩, ⟨⟨seed, rfl⟩, rfl⟩,
      fun h => (h rfl).elim, fun ho hspares => ⟨⟨?_, .inr ⟨[], seed, rfl, ⟨_, rfl⟩, by simp, by simp⟩⟩,
        fun h => by cases h⟩⟩ : w.Done .idle .whole [] (w'.redraft (·.enableWave32 seed)))
    · refine h.furnished e (List.mem_append.mpr ?_)
      rcases List.mem_append.mp (show e ∈ w'.notes.held ++ [seed] from he) with he | he
      · exact .inr (List.mem_append_left _ he)
      · exact .inl he
    · exact (h.safe ho hspares).1.labelled.of_same rfl (Nat.le_refl _) fun _ h => h

theorem heeds_configure (settings : Settings) :
    Heeds .idle (if settings.wave32 then .whole else .idle) known (configure settings) := by
  refine heeds_bind (heeds_setGroupSize settings.groupSize) fun r => ?_
  cases r with
  | error fault => exact heeds_throw _
  | ok _ =>
    cases settings.wave32 with
    | false => exact heeds_pure () (List.nil_subset _)
    | true => exact heeds_enableWave32

section Masks

variable {w₀ : Workspace Notebook}

theorem orderly_pushMask (ho : w.Orderly) (hne : w.sheet.draft.masks ≠ []) (hfit : w.Fits mask) :
    (w.redraft (·.pushMask mask)).Orderly := by
  refine ⟨ho.labelled.of_same rfl (Nat.le_refl _) fun _ h => h, .inr ?_⟩
  obtain ⟨pushed, seed, ht⟩ := ho.tower.resolve_left hne
  refine ⟨mask :: pushed, seed, congrArg (mask :: ·) ht.masks, ht.seed, fun m hm => ?_, fun o => ?_⟩
  · rcases List.mem_cons.mp hm with rfl | hm
    · exact hfit.1
    · exact ht.anchored m hm
  · cases pushed with
    | nil => exact .singleton _
    | cons outer pushed => exact .cons_cons (hfit.2 _ _ ht.masks outer rfl o) (ht.linked o)

variable {out : List Expr}

theorem ends_withMask (body : Scripted Unit)
    [h : Heeds .masked .masked known body]
    (hbase : w₀.Done p p out w) (hw : w.Furnished known) (hne : p ≠ .idle)
    (hmask : mask.Proper w.sheet.nodes.next)
    (hfit : w₀.Orderly → w.sheet.draft.SparesMasks → w.Fits mask) :
    Ends (withMask mask body) w (fun _ w' => w₀.Done p p [] w' ∧ w.Onward w' ∧
        (w₀.Orderly → w'.sheet.draft.SparesMasks → w.Keeps w'))
      fun halt w' => ∀ name, halt = .unbound name → w₀.Left p w' ∧
        mask :: w.sheet.draft.masks <:+ w'.sheet.draft.masks ∧
        (w₀.Orderly → w'.sheet.draft.SparesMasks → w.sheet.draft.SparesMasks ∧ w.Keeps w') := by
  have hp := hbase.phase
  have hmasks := hp.ne_nil hne
  have hpushed : (w.redraft (·.pushMask mask)).Furnished known := fun e he => by
    rcases List.mem_append.mp he with he | he
    · exact hw e (List.mem_append_left _ he)
    rcases List.mem_append.mp he with he | he
    · exact hw e (List.mem_append_right _ (List.mem_append_left _ he))
    rcases List.mem_cons.mp he with rfl | he
    · exact hmask
    · exact hw e (by simp [he])
  have horderly (ho : w₀.Orderly) (hspares : w.sheet.draft.SparesMasks) :
      (w.redraft (·.pushMask mask)).Orderly :=
    orderly_pushMask (hbase.safe ho hspares).1 hmasks (hfit ho hspares)
  have hphase : Phase.masked.Holds (w.redraft (·.pushMask mask)).sheet.draft :=
    ⟨List.cons_ne_nil _ _, hp.enabled.mpr hmasks⟩
  refine ends_redraft (.bind ((h.ends _ hpushed hphase).mono (fun _ w' h' => ?_)
    fun _ w' h' name hn => ?_))
  · have hmasks' : w'.sheet.draft.masks = mask :: w.sheet.draft.masks := h'.masks (by decide)
    refine .bind (ends_drafting (popMask_of_cons hmasks' hmasks) ?_)
    have hgrows := h'.onward.grows
    have hon : w.Onward (w'.redraft fun d => { d with masks := w.sheet.draft.masks }) :=
      ⟨h'.onward.labels, h'.onward.next, hgrows.enclosing, hgrows.functions, hgrows.lines,
        hgrows.stack, hgrows.visible⟩
    have hsafe (ho : w₀.Orderly) (hspares : w'.sheet.draft.SparesMasks) :
        w'.Orderly ∧ w.Keeps (w'.redraft fun d => { d with masks := w.sheet.draft.masks }) := by
      obtain ⟨ho', hg'⟩ := h'.safe (horderly ho (hspares.of_subset hgrows.everyLine)) hspares
      exact ⟨ho', ⟨(hg' rfl).marks, (hg' rfl).unset⟩, hgrows.visible⟩
    refine ⟨hbase.keeping hon (fun e he => h'.furnished e ?_) (Prod.ext rfl ?_) fun ho hspares =>
      ⟨?_, (hsafe ho hspares).2⟩, hon, fun ho hspares => (hsafe ho hspares).2⟩
    · rcases List.mem_append.mp (show e ∈ w'.notes.held ++ w.sheet.draft.masks from he) with he | he
      · simp [he]
      · simp [hmasks', he]
    · exact h'.phase.2.trans (hp.enabled.mpr hmasks).symm
    · exact (hsafe ho hspares).1.labelled.of_same rfl (Nat.le_refl _) fun _ h => h
  · have hleft := h' name hn
    have hsuffix : mask :: w.sheet.draft.masks <:+ w'.sheet.draft.masks := hleft.masks (by decide)
    have hsafe (ho : w₀.Orderly) (hspares : w'.sheet.draft.SparesMasks) :
        w'.Orderly ∧ w.Keeps w' := by
      obtain ⟨ho', hg'⟩ := hleft.safe (horderly ho (hspares.of_subset hleft.written)) hspares
      exact ⟨ho', ⟨(hg' rfl).1.marks, (hg' rfl).1.unset⟩, (hg' rfl).2⟩
    refine ⟨⟨fun _ hl => hleft.written (hbase.onward.grows.everyLine hl), hleft.furnished,
      hleft.enabled, fun hne => ?_, fun ho hspares => ⟨(hsafe ho hspares).1, fun hm => ?_⟩⟩, hsuffix,
      fun ho hspares => ⟨hspares.of_subset hleft.written, (hsafe ho hspares).2⟩⟩
    · rw [← hbase.masks hne]
      exact (List.suffix_cons _ _).trans hsuffix
    · have hk := (hsafe ho hspares).2
      have hg := (hbase.safe ho (hspares.of_subset hleft.written)).2 hm
      exact ⟨hg.trans (hk.guards.mono hbase.onward.grows.visible),
        fun _ hid => hk.visible (hbase.onward.grows.visible hid)⟩

theorem calm_write {line : Line} (h : line.declares = []) : Calm w (w.write line) :=
  .of_spares (Nat.le_refl _) (fun _ h => h) (.write_plain _ h)

theorem ends_underMask (line : Line) (hline : line.declares = [])
    (body : Scripted Unit) [h : Heeds .masked .masked known body] (hw : w₀.Furnished known)
    (hne : p ≠ .idle)
    (hdone : w₀.Done p p out w) (hmask : mask.Proper w.sheet.nodes.next)
    (hfit : w₀.Orderly → w.sheet.draft.SparesMasks → w.Fits mask) :
    Ends (do
        writeLine line
        withMask mask body) w
      (fun _ w' => w₀.Done p p [] w' ∧ w.Onward w' ∧
        (w₀.Orderly → w'.sheet.draft.SparesMasks → w.Keeps w'))
      fun halt w' => ∀ name, halt = .unbound name → w₀.Left p w' ∧
        mask :: w₀.sheet.draft.masks <:+ w'.sheet.draft.masks ∧
        (w₀.Orderly → w'.sheet.draft.SparesMasks → w.sheet.draft.SparesMasks ∧ w.Keeps w') := by
  have hopen : Calm w (w.write line) := calm_write hline
  have hbase : w₀.Done p p [] (w.write line) :=
    hdone.trans (hopen.done hdone.furnished hdone.phase (by simp))
  have hkeeps (ho : w₀.Orderly) (hspares : (w.write line).sheet.draft.SparesMasks) :
      w.sheet.draft.SparesMasks ∧ w.Orderly ∧ w.Keeps (w.write line) := by
    have hspares₁ := hspares.of_subset hopen.onward.grows.everyLine
    have ho₁ := (hdone.safe ho hspares₁).1
    exact ⟨hspares₁, ho₁, (hopen.safe ho₁.labelled hspares).2, hopen.onward.grows.visible⟩
  have hfit' (ho : w₀.Orderly) (hspares : (w.write line).sheet.draft.SparesMasks) :
      (w.write line).Fits mask := by
    obtain ⟨hspares₁, ho₁, hk⟩ := hkeeps ho hspares
    exact (hfit ho hspares₁).of_keeps ho₁ hk (congrArg Prod.fst hopen.masks)
  have hknown : (w.write line).Furnished known := hbase.furnished.keep hw hbase.onward.next
  refine ends_redraft ((ends_withMask body hbase hknown hne hmask hfit').mono (fun _ w' h' => ?_)
    fun _ w' h' name hn => ?_)
  · obtain ⟨hdone', hon, hk⟩ := h'
    refine ⟨hdone', hopen.onward.trans hon, fun ho hspares => ?_⟩
    exact (hkeeps ho (hspares.of_subset hon.grows.everyLine)).2.2.trans (hk ho hspares)
  · obtain ⟨hleft, hsuffix, hk⟩ := h' name hn
    refine ⟨hleft, hbase.masks hne ▸ hsuffix, fun ho hspares => ?_⟩
    obtain ⟨hspares₂, hk⟩ := hk ho hspares
    obtain ⟨hspares₁, -, hk₁⟩ := hkeeps ho hspares₂
    exact ⟨hspares₁, hk₁.trans hk⟩

end Masks

section Branches

variable (cond : Expr) (body otherwise : Scripted Unit)

def takenBranch {ν : Type} (cond : Expr) (body : Build ν Unit) : Build ν Expr := do
  let m ← divide cond
  writeLine (.openMask (← nameOf m.1))
  withMask m.1 (inScope (some m.1) body)
  return m.2

def missedBranch {ν : Type} (otherwise : Build ν Unit) (missed : Expr) : Build ν Unit := do
  writeLine (.openElseMask (← nameOf missed))
  withMask missed (inScope (some missed) otherwise)

theorem maskedIf_eq {ν : Type} (cond : Expr) (body : Build ν Unit)
    (otherwise : Option (Build ν Unit)) :
    maskedIf cond body otherwise = (do
      let missed ← takenBranch cond body
      match otherwise with
      | some other => missedBranch other missed
      | none => pure ()
      writeLine .close) := by
  cases otherwise <;>
    simp only [maskedIf, takenBranch, missedBranch, divide, maskedBranch, withMask, bind_assoc,
      pure_bind]

variable {cond body otherwise}

theorem ends_takenBranch [h : Heeds .masked .masked known body] (hw : w.Furnished known)
    (hp : p.Holds w.sheet.draft) (hne : p ≠ .idle) :
    Ends (takenBranch cond body) w
      (fun missed w' => w.Done p p [missed] w' ∧ (w.Orderly → w'.sheet.draft.SparesMasks →
        w'.Fits missed ∧ (w.Legible p → ∃ taken, w.Branching cond taken missed w')))
      fun halt w' => ∀ name, halt = .unbound name → w.Left p w' ∧
        (w.Orderly → w'.sheet.draft.SparesMasks → w.Legible p →
          ∃ taken missed, w.Branching cond taken missed w' ∧
            taken :: w.sheet.draft.masks <:+ w'.sheet.draft.masks) := by
  have hdivide : Ends (divide cond) w
      (fun m w' => divide cond w = .ok m w' ∧ w.Divided p m.1 m.2 w')
      fun halt _ => ∀ name, halt ≠ .unbound name :=
    have h := Firm.ends_of (ends_divide cond hw hp)
    Ends.of_runs (fun _ _ hrun => ⟨hrun, h.of_ok hrun⟩) fun _ _ hrun => h.of_error hrun
  refine .bind (hdivide.mono (fun m w₁ h₁ => ?_) fun _ _ h' name hn => (h' name hn).elim)
  obtain ⟨taken, missed⟩ := m
  obtain ⟨hrun, h₁⟩ := h₁
  have hbranch := ends_underMask (.openMask (w₁.sheet.nodes.name taken)) rfl
    (inScope (some taken) body) hw hne h₁.done (h₁.done.furnished taken (by simp))
    fun ho hspares => (h₁.fits hp hne ho hspares).1
  change Ends (writeLine (.openMask (w₁.sheet.nodes.name taken)) >>= fun _ =>
    withMask taken (inScope (some taken) body) >>= fun _ => pure missed) w₁ _ _
  rw [← bind_assoc]
  refine .bind (hbranch.mono (fun _ w₂ h₂ => ?_) fun _ w₂ h₂ name hn => ?_)
  · obtain ⟨hdone, hon, hk⟩ := h₂
    refine ⟨{ hdone with furnished := ?_ }, fun ho hspares => ?_⟩
    · exact (hdone.furnished.keep h₁.done.furnished hon.next).mono (by simp)
    have hspares₁ := hspares.of_subset hon.grows.everyLine
    refine ⟨(h₁.fits hp hne ho hspares₁).2.of_keeps (h₁.done.safe ho hspares₁).1 (hk ho hspares)
      ((hdone.masks hne).trans (h₁.done.masks hne).symm), fun hl => ⟨taken, ?_⟩⟩
    exact (h₁.branching hrun hp hne ho hspares₁ hl).of_keeps (hk ho hspares)
  · obtain ⟨hleft, hsuffix, hk⟩ := h₂ name hn
    refine ⟨hleft, fun ho hspares hl => ⟨taken, missed, ?_, hsuffix⟩⟩
    obtain ⟨hspares₁, hk⟩ := hk ho hspares
    exact (h₁.branching hrun hp hne ho hspares₁ hl).of_keeps hk

theorem ends_missedBranch {w₁ : Workspace Notebook} {missed : Expr}
    [h : Heeds .masked .masked known otherwise] (hw : w.Furnished known) (hne : p ≠ .idle)
    (hdone : w.Done p p [missed] w₁)
    (hfit : w.Orderly → w₁.sheet.draft.SparesMasks → w₁.Fits missed) :
    Ends (missedBranch otherwise missed) w₁
      (fun _ w' => w.Done p p [] w' ∧ w₁.Onward w' ∧
        (w.Orderly → w'.sheet.draft.SparesMasks → w₁.Keeps w'))
      fun halt w' => ∀ name, halt = .unbound name → w.Left p w' ∧
        missed :: w.sheet.draft.masks <:+ w'.sheet.draft.masks ∧
        (w.Orderly → w'.sheet.draft.SparesMasks → w₁.sheet.draft.SparesMasks ∧ w₁.Keeps w') :=
  ends_underMask (.openElseMask (w₁.sheet.nodes.name missed)) rfl (inScope (some missed) otherwise) hw
    hne hdone (hdone.furnished missed (by simp)) hfit

theorem heeds_maskedIf (other : Option (Scripted Unit)) [h : Heeds .masked .masked known body]
    (hother : ∀ x ∈ other, Heeds .masked .masked known x) (hne : p ≠ .idle) :
    Heeds p p known (maskedIf cond body other) where
  ends w hw hp := by
    rw [maskedIf_eq]
    refine .bind ((ends_takenBranch hw hp hne).mono (fun missed w₁ h₁ => ?_)
      fun _ _ h' name hn => (h' name hn).1)
    obtain ⟨hdone, hsafe⟩ := h₁
    have hclose {w' : Workspace Notebook} (h' : w.Done p p [] w') : w.Done p p [] (w'.write .close) :=
      h'.trans ((calm_write rfl).done h'.furnished h'.phase (by simp))
    cases other with
    | none => exact hclose { hdone with furnished := hdone.furnished.mono (by simp) }
    | some other =>
      have hx := hother other rfl
      refine .bind ((ends_missedBranch hw hne hdone fun ho hspares => (hsafe ho hspares).1).mono
        (fun _ w₂ h₂ => ?_) fun _ _ h' name hn => (h' name hn).1)
      exact hclose h₂.1

end Branches

section Loops

variable {body : Scripted Unit}

def copiedLoop {ν : Type} (body : Build ν Unit) : Build ν Unit := do
  let mask ← copyMask
  writeLine .openWhile
  withMask mask (loopBody none body)

theorem maskedWhile_eq_copiedLoop {ν : Type} (body : Build ν Unit) :
    maskedWhile body = (do
      copiedLoop body
      writeLine .close) := by
  simp only [maskedWhile_eq, copiedLoop, copyMask, bind_assoc]

theorem ends_copiedLoop [h : Heeds .masked .masked known body] (hw : w.Furnished known)
    (hp : p.Holds w.sheet.draft) (hne : p ≠ .idle) :
    Ends (copiedLoop body) w
      (fun _ w' => w.Done p p [] w' ∧ (w.Orderly → w'.sheet.draft.SparesMasks → w.Legible p →
        ∃ mask, w.Looping mask w'))
      fun halt w' => ∀ name, halt = .unbound name → w.Left p w' ∧
        (w.Orderly → w'.sheet.draft.SparesMasks → w.Legible p → ∃ mask, w.Looping mask w' ∧
          mask :: w.sheet.draft.masks <:+ w'.sheet.draft.masks) := by
  refine .bind ((Firm.ends_of (ends_copyMask hw hp)).mono (fun mask w₁ h₁ => ?_)
    fun _ _ h' name hn => (h' name hn).elim)
  have hbranch := ends_underMask .openWhile rfl (loopBody none body) hw hne h₁.done
    (h₁.done.furnished mask (by simp)) fun ho hspares => h₁.fits hp hne ho hspares
  refine hbranch.mono (fun _ w₂ h₂ => ?_) fun _ w₂ h₂ name hn => ?_
  · obtain ⟨hdone, hon, hk⟩ := h₂
    refine ⟨hdone, fun ho hspares hl => ⟨mask, ?_⟩⟩
    have hspares₁ := hspares.of_subset hon.grows.everyLine
    exact (h₁.looping hp hne ho hspares₁ hl).of_keeps (hk ho hspares)
  · obtain ⟨hleft, hsuffix, hk⟩ := h₂ name hn
    refine ⟨hleft, fun ho hspares hl => ⟨mask, ?_, hsuffix⟩⟩
    obtain ⟨hspares₁, hk⟩ := hk ho hspares
    exact (h₁.looping hp hne ho hspares₁ hl).of_keeps hk

theorem heeds_maskedWhile [h : Heeds .masked .masked known body] (hne : p ≠ .idle) :
    Heeds p p known (maskedWhile body) where
  ends w hw hp := by
    rw [maskedWhile_eq_copiedLoop]
    refine .bind ((ends_copiedLoop hw hp hne).mono (fun _ w₁ h₁ => ?_)
      fun _ _ h' name hn => (h' name hn).1)
    exact h₁.1.trans ((calm_write rfl).done h₁.1.furnished h₁.1.phase fun _ he => by cases he)

end Loops

section Control

variable {p'' : Phase} (cond : Expr) {body otherwise : Scripted Unit}

theorem heeds_checkCondition : Heeds p p known (checkCondition cond : Scripted Unit) := by
  refine heeds_bind (heeds_typeOf cond) fun ty => ?_
  split
  · exact heeds_throw _
  · exact heeds_pure () (List.nil_subset _)

variable {x y : Scripted Unit}

theorem heeds_unlessWave32 (h : Heeds .idle p' known y) :
    Heeds .idle p' known (isWave32 >>= fun b => if b then x else y) where
  ends w hw hp := by
    change Ends (if w.sheet.draft.wave32 then x else y) w _ _
    rw [hp.2]
    exact h.ends w hw hp

theorem heeds_whenWave32 (hne : p ≠ .idle) (h : Heeds p p' known x) :
    Heeds p p' known (isWave32 >>= fun b => if b then x else y) where
  ends w hw hp := by
    change Ends (if w.sheet.draft.wave32 then x else y) w _ _
    rw [hp.enabled.mpr (hp.ne_nil hne)]
    exact h.ends w hw hp

theorem heeding_ifThen_idle (hcond : K.Has (items cond)) (h : Heeding .idle p' K _ body body) :
    Heeding .idle p' K _ (ifThen cond body) (ifThen cond body) := heeding_of fun known hK =>
  heeds_bind (heeds_checkCondition cond) fun _ =>
    heeds_unlessWave32 ((LaneControls.laneIf cond hcond h).1 known hK)

theorem heeding_ifElse_idle (hcond : K.Has (items cond)) (h : Heeding .idle p' K _ body body)
    (ho : Heeding p' p'' K _ otherwise otherwise) :
    Heeding .idle p'' K _ (ifElse cond body otherwise) (ifElse cond body otherwise) :=
  heeding_of fun known hK => heeds_bind (heeds_checkCondition cond) fun _ =>
    heeds_unlessWave32 ((LaneControls.laneIfElse cond hcond h ho).1 known hK)

theorem heeding_whileLoop_idle (h : Heeding .idle p' K _ body body) :
    Heeding .idle p' K _ (whileLoop body) (whileLoop body) := heeding_of fun known hK =>
  heeds_unlessWave32 ((LaneControls.laneWhile h).1 known hK)

theorem heeding_ifThen (hne : p ≠ .idle) (h : Heeding .masked .masked K _ body body) :
    Heeding p p K _ (ifThen cond body) (ifThen cond body) := heeding_of fun known hK =>
  have := h.1 known hK
  have hmasked : Heeds p p known (maskedIf cond body none) := heeds_maskedIf none (by simp) hne
  heeds_bind (heeds_checkCondition cond) fun _ => heeds_whenWave32 hne hmasked

theorem heeding_ifElse (hne : p ≠ .idle) (h : Heeding .masked .masked K _ body body)
    (ho : Heeding .masked .masked K _ otherwise otherwise) :
    Heeding p p K _ (ifElse cond body otherwise) (ifElse cond body otherwise) := heeding_of fun known hK =>
  have := h.1 known hK
  have hmasked : Heeds p p known (maskedIf cond body (some otherwise)) :=
    heeds_maskedIf (some otherwise) (fun _ hx => Option.mem_some_iff.mp hx ▸ ho.1 known hK) hne
  heeds_bind (heeds_checkCondition cond) fun _ => heeds_whenWave32 hne hmasked

theorem heeding_whileLoop (hne : p ≠ .idle) (h : Heeding .masked .masked K _ body body) :
    Heeding p p K _ (whileLoop body) (whileLoop body) := heeding_of fun known hK =>
  have := h.1 known hK
  heeds_whenWave32 hne (heeds_maskedWhile hne)

end Control

end Build

section Frames

variable {d d' : Draft} {frame : Frame} {frames : List Frame}

theorem Draft.enclosing_enterFunction (d : Draft) :
    d.enterFunction.enclosing = (d.scopes :: d.frames.map Frame.scopes, d.pages) := by
  simp [enterFunction, enclosing, pages]

theorem Draft.Grows.afterFunction (h : d.enterFunction.Grows d') (hf : d'.frames = frame :: frames) :
    d.Grows (d'.afterFunction frame frames) := by
  have henc := h.enclosing.trans d.enclosing_enterFunction
  simp only [Draft.enclosing, pages, hf, List.map_cons, List.cons_append, List.tail_cons,
    Prod.mk.injEq, List.cons.injEq] at henc
  obtain ⟨⟨hscopes, hframes⟩, hpages⟩ := henc
  have hsame : (d'.afterFunction frame frames).pages = d.pages := hpages
  have hlines : (d'.afterFunction frame frames).lines = d.lines := by
    rw [Draft.pages_eq, Draft.pages_eq d] at hsame
    exact (List.cons.inj hsame).1
  refine ⟨Prod.ext hframes (congrArg List.tail hsame), h.functions.trans (List.prefix_append _ _),
    hlines ▸ List.prefix_rfl, ⟨{}, congrArg Scopes.stack hscopes, by simp⟩, ?_⟩
  rw [show (d'.afterFunction frame frames).scopes = d.scopes from hscopes]
  exact fun _ h => h

theorem Draft.ids_enterFunction (d : Draft) : d.enterFunction.ids ⊆ d.ids := by
  rw [ids, ids, d.enclosing_enterFunction]
  simp [enterFunction, Scopes.ids, enclosing]

theorem Draft.everyLine_enterFunction (d : Draft) : d.everyLine ⊆ d.enterFunction.everyLine := by
  simp [everyLine, pages, enterFunction]

theorem Draft.ids_afterFunction (hf : d.frames = frame :: frames) :
    (d.afterFunction frame frames).ids ⊆ d.ids := by
  simp [ids, afterFunction, enclosing, hf]

theorem Draft.everyLine_afterFunction (hf : d.frames = frame :: frames) :
    d.everyLine ⊆ (d.afterFunction frame frames).everyLine := by
  simp [everyLine, pages, afterFunction, hf]

end Frames

namespace Build

section Functions

theorem ends_exitFunction {done : Unit → Workspace Notebook → Prop}
    {failed : Halt → Workspace Notebook → Prop}
    (h : ∀ frame frames, w.sheet.draft.frames = frame :: frames →
      done () (w.redraft (·.afterFunction frame frames)))
    (hf : ∀ fault w', failed (.fatal fault) w') : Ends (drafting .exitFunction) w done failed := by
  cases hframes : w.sheet.draft.frames with
  | nil =>
    simp only [Ends, drafting, emitting, attempt, Emit.drafting, Drafting.exitFunction, Bind.bind,
      EStateM.bind, run_get, hframes]
    exact hf _ _
  | cons frame frames =>
    by_cases hdepth : w.sheet.draft.scopes.depth = 0
    · refine ends_drafting (a := ()) ?_ (h frame frames hframes)
      simp only [Drafting.exitFunction, bind_get, set, hframes, hdepth]
      rfl
    · simp only [Ends, drafting, emitting, attempt, Emit.drafting, Drafting.exitFunction, Bind.bind,
        EStateM.bind, run_get, run_set, hframes, hdepth,
        ne_eq, not_false_eq_true, if_true]
      exact hf _ _

def writtenBody {ν : Type} (callee : Prototype) (header : String)
    (body : List Expr → Build ν (Option Expr)) : Build ν Unit := do
  writeLine (.openFunction callee header)
  functionBody callee body
  writeLine .close

variable {callee : Prototype} {header : String} {body : List Expr → Scripted (Option Expr)}

theorem heeds_writtenBody
    (h : ∀ params, Heeding p p' (K.adding params) _ (body params) (body params)) :
    Heeding p p' K _ (writtenBody callee header body) (writtenBody callee header body) := by
  have (params : List Expr) : Held Heeding p p' (K.adding params) (body params) (body params) :=
    ⟨h params⟩
  have (p : Phase) (K : Stock) : Meets Heeding p K (writeLine (.openFunction callee header)) :=
    ⟨heeding_of fun _ _ => heeds_writeLine rfl⟩
  unfold writtenBody functionBody; exact Tracked.holds

theorem orderly_enterFunction (hp : p.Holds w.sheet.draft) (hne : p ≠ .masked) (ho : w.Orderly) :
    (w.redraft Draft.enterFunction).Orderly := by
  refine ho.of_masks hp ?_ rfl fun h => (hne h).elim
  exact ho.labelled.of_same rfl (Nat.le_refl _) w.sheet.draft.ids_enterFunction

theorem done_afterFunction {frame : Frame} {frames : List Frame} (hp : p.Holds w.sheet.draft)
    (hne : p ≠ .masked) (h : (w.redraft Draft.enterFunction).Done p p' [] w')
    (hf : w'.sheet.draft.frames = frame :: frames) :
    w.Done p p' [] (w'.redraft (·.afterFunction frame frames)) := by
  have hgrows : w.sheet.draft.Grows (w'.sheet.draft.afterFunction frame frames) :=
    h.onward.grows.afterFunction hf
  refine ⟨⟨h.onward.labels, h.onward.next, hgrows⟩, h.furnished, h.leads, h.phase.of_eq rfl, h.masks,
    fun ho hspares => ⟨?_, fun hm => (hne hm).elim⟩⟩
  obtain ⟨ho', -⟩ := h.safe (orderly_enterFunction hp hne ho)
    (hspares.of_subset (Draft.everyLine_afterFunction hf))
  have hne' : p' ≠ .masked := by
    rcases h.leads with rfl | ⟨-, rfl⟩
    · exact hne
    · decide
  refine ho'.of_masks h.phase ?_ rfl fun h => (hne' h).elim
  exact ho'.labelled.of_same rfl (Nat.le_refl _) (Draft.ids_afterFunction hf)

theorem heeding_defineFunction (hne : p ≠ .masked)
    (h : ∀ params, Heeding p p' (K.adding params) _ (body params) (body params)) :
    Heeding p p' K _ (defineFunction callee body) (defineFunction callee body) := by
  refine heeding_of fun known hK => ?_
  have hdefine (header : String) : Heeds p p' known (do
      redraft Draft.enterFunction
      writtenBody callee header body
      drafting .exitFunction : Scripted Unit) := by
    refine ⟨fun w hw hp => ends_redraft (.bind ((((heeds_writtenBody h).1 known hK).ends
      (w.redraft Draft.enterFunction) hw (hp.of_eq rfl)).mono (fun _ w' h' => ?_)
        fun _ w' h' name hn => ?_))⟩
    · exact ends_exitFunction (fun frame frames hf => done_afterFunction hp hne h' hf)
        fun _ _ _ hn => by cases hn
    · have hleft := h' name hn
      refine ⟨fun l hl => hleft.written (Draft.everyLine_enterFunction _ hl), hleft.furnished,
        hleft.enabled, hleft.masks, fun ho hspares => ⟨?_, fun hm => (hne hm).elim⟩⟩
      exact (hleft.safe (orderly_enterFunction hp hne ho) hspares).1
  have hrest (header : String) : Heeds p p' known (do
      redraft Draft.enterFunction
      writeLine (.openFunction callee header)
      functionBody callee body
      writeLine .close
      drafting .exitFunction
      register callee : Scripted Prototype) := by
    have hbind := heeds_bind (hdefine header) fun _ => heeds_register callee
    simpa only [writtenBody, bind_assoc] using hbind
  rw [defineFunction_eq]
  exact heeds_bind (heeds_mustBare callee.header) hrest

end Functions

end Build

end ComputeKernel
