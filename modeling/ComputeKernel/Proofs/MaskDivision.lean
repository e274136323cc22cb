import ComputeKernel.Proofs.HeededMasks
import ComputeKernel.Proofs.MaskedBuild

namespace ComputeKernel

open Script

variable {z : Expr} {x : String} {w w' : Workspace Notebook} {p : Phase}

def Sheet.Settled (s : Sheet) (e : Expr) : Prop :=
  e.id ∈ s.draft.scopes.visible ∨ ∃ id v, e = .literal id v

section Emission

variable {s : Sheet} {id : Nat}

theorem emit_settled (hz : s.Settled z) :
    Ensures z.emit s (fun _ s' => s'.draft.lines = s.draft.lines ∧
      (∀ d, d ≠ z.id → s'.nodes.names.find? d = s.nodes.names.find? d) ∧
      (s'.nodes.name z = s.nodes.name z ∨ z.id ∉ s.draft.scopes.visible ∧
        ∃ d v text, z = .literal d v ∧ s'.nodes.name z = .constant v text)) fun _ => True := by
  by_cases hv : z.id ∈ s.draft.scopes.visible
  · exact ensures_ok (Expr.emit_of_visible hv) ⟨rfl, fun _ _ => rfl, .inl rfl⟩
  obtain ⟨d, v, rfl⟩ := hz.resolve_left hv
  rw [Expr.emit]
  refine Ensures.of_eq (once_of_hidden (by simpa [Scopes.isVisible] using hv)) ?_
  refine .bind (ensures_typing (ensures_any (fun _ _ => ?_) fun _ => trivial))
  refine .bind (.bind (ensures_orFault (fun text _ => ?_) fun _ _ => trivial))
  refine ensures_rename (ensures_redraft ⟨rfl, fun d' hne => ?_, .inr ⟨hv, d, v, text, rfl, ?_⟩⟩)
  · have hne : d' ≠ d := hne
    simp [Nodes.rename, hne]
  · simp [Nodes.name, Nodes.rename, Expr.id]

theorem emit_copy (hname : s.nodes.names.find? id = some (.word x)) (hz : s.Settled z)
    (hne : z.id ≠ id) :
    Ensures (Expr.unary id .assign z).emit s (fun _ s' =>
      id ∈ s'.draft.scopes.visible ∧
      (∀ d, d ≠ z.id → s'.nodes.names.find? d = s.nodes.names.find? d) ∧
      (id ∉ s.draft.scopes.visible → ∃ ty value,
        s'.draft.lines = s.draft.lines ++ [.declare ty (.word x) (.copy value)] ∧
        (value = s.nodes.name z ∨ z.id ∉ s.draft.scopes.visible ∧
          ∃ d v text, z = .literal d v ∧ value = .constant v text)))
      fun _ => True := by
  by_cases hv : id ∈ s.draft.scopes.visible
  · exact ensures_ok (Expr.emit_of_visible (e := .unary id .assign z) hv)
      ⟨hv, fun _ _ => rfl, fun h => (h hv).elim⟩
  rw [Expr.emit]
  refine Ensures.of_eq (once_of_hidden (by simpa [Scopes.isVisible, Expr.id] using hv)) ?_
  refine .bind (ensures_typing (ensures_any (fun ty types => ?_) fun _ => trivial))
  have hz' : Sheet.Settled { s with nodes := { s.nodes with types } } z := hz
  refine .bind (.bind ((emit_settled hz').mono (fun _ s' h => ?_) fun _ _ => trivial))
  obtain ⟨hlines, hnames, hvalue⟩ := h
  have hid : s'.nodes.name (.unary id .assign z) = .word x := by
    rw [Nodes.name, show (Expr.unary id .assign z).id = id from rfl, hnames id hne.symm]
    simp [hname]
  refine .bind (ensures_nameOf (.bind (ensures_nameOf (ensures_write ?_))))
  refine ensures_redraft ⟨Memo.mem_visible_mark.mpr (.inl rfl), hnames, fun _ =>
    ⟨ty, s'.nodes.name z, ?_, hvalue⟩⟩
  rw [hid, ← hlines]
  exact Draft.lines_write _ _

end Emission

structure Workspace.Adds (k : Nat) (w w' : Workspace Notebook) : Prop where
  labels : w'.labels = w.labels + k
  names : ∀ id < w.sheet.nodes.next, w'.sheet.nodes.names.find? id = w.sheet.nodes.names.find? id

def Workspace.Shown (w : Workspace Notebook) (e : Expr) (x : String) : Prop :=
  w.sheet.nodes.names.find? e.id = some (.word x) ∧ e.id ∈ w.sheet.draft.scopes.visible

variable {e : Expr}

theorem Workspace.Shown.name (h : w.Shown e x) : w.sheet.nodes.name e = .word x := by
  simp [Nodes.name, h.1]

theorem Workspace.Shown.laneMask (h : w.Shown e x)
    (o : Votes) : w.laneMask o e = (w.laneState o).store x := by
  rw [Workspace.laneMask, h.name, LaneState.value]

theorem Workspace.Adds.trans {w' w'' : Workspace Notebook} {k l : Nat} (h : w.Adds k w')
    (h' : w'.Adds l w'') (hnext : w.sheet.nodes.next ≤ w'.sheet.nodes.next) : w.Adds (k + l) w'' where
  labels := by rw [h'.labels, h.labels, Nat.add_assoc]
  names id hid := (h'.names id (Nat.lt_of_lt_of_le hid hnext)).trans (h.names id hid)

def Workspace.Reads (p : Phase) (w : Workspace Notebook) (mask : Expr) : Prop :=
  p = .masked ∧ w.Anchors mask ∨
    ∃ id n text, mask = .literal id (.u32 [n]) ∧
      w.sheet.nodes.names.find? mask.id = some (.constant (.u32 [n]) text)

section Reads

variable {mask : Expr} {out : List Expr} {k : Nat}

theorem Workspace.Reads.direct (h : w.Reads p mask) (ho : w.Orderly) :
    LaneState.Direct (w.sheet.nodes.name mask) ∧ ∀ stem ∈ ["m_if", "m_else", "m_loop"], ∀ n : Nat,
      w.labels ≤ n → w.sheet.nodes.name mask ≠ .word (stem ++ "_" ++ toString n) := by
  rcases h with ⟨-, x, hx, -⟩ | ⟨-, n, text, -, hname⟩
  · have hname : w.sheet.nodes.name mask = .word x := by simp [Nodes.name, hx.1]
    refine ⟨.inl ⟨x, hname⟩, fun stem hs n hn h => ?_⟩
    rw [hname] at h
    cases h
    exact Nat.not_lt.mpr hn (ho.labelled.issued mask.id stem hs n hx.1)
  · have hname : w.sheet.nodes.name mask = .constant (.u32 [n]) text := by simp [Nodes.name, hname]
    rw [hname]
    exact ⟨.inr ⟨n, text, rfl⟩, fun _ _ _ _ h => by cases h⟩

theorem Workspace.Reads.after (h : w.Reads p mask) (ho : w.Orderly) (hdone : w.Done p p out w')
    (hspares : w'.sheet.draft.SparesMasks) (hadds : w.Adds k w')
    (hlt : mask.id < w.sheet.nodes.next) (o : Votes) :
    w'.sheet.nodes.name mask = w.sheet.nodes.name mask ∧ w'.laneMask o mask = w.laneMask o mask := by
  have hname : w'.sheet.nodes.name mask = w.sheet.nodes.name mask := by
    rw [Nodes.name, Nodes.name, hadds.names mask.id hlt]
  refine ⟨hname, ?_⟩
  rcases h with ⟨hm, ha⟩ | ⟨-, n, text, -, hconstant⟩
  · exact laneMask_of_guards ha ((hdone.safe ho hspares).2 hm) o
  · have hvalue : w.sheet.nodes.name mask = .constant (.u32 [n]) text := by
      simp [Nodes.name, hconstant]
    simp only [laneMask, hname, hvalue, LaneState.value]

end Reads

structure Workspace.Divided (p : Phase) (w : Workspace Notebook) (taken missed : Expr)
    (w' : Workspace Notebook) : Prop where
  done : w.Done p p [taken, missed] w'
  shown : w'.Shown taken ("m_if" ++ "_" ++ toString w.labels) ∧
    w'.Shown missed ("m_else" ++ "_" ++ toString (w.labels + 1))
  parts : w.Orderly → w'.sheet.draft.SparesMasks → ∀ current ∈ w.sheet.draft.masks.head?,
    w.Reads p current → ∀ o, w'.laneMask o taken &&& w'.laneMask o missed = 0 ∧
      w'.laneMask o taken ||| w'.laneMask o missed = w.laneMask o current

structure Workspace.Copied (p : Phase) (w : Workspace Notebook) (mask : Expr)
    (w' : Workspace Notebook) : Prop where
  done : w.Done p p [mask] w'
  shown : w.Orderly → w'.Shown mask ("m_loop" ++ "_" ++ toString w.labels)
  same : w.Orderly → w'.sheet.draft.SparesMasks → ∀ current ∈ w.sheet.draft.masks.head?,
    w.Reads p current → ∀ o, w'.laneMask o mask = w.laneMask o current

namespace Build

variable {known : List Expr} {stem : String}

variable {done : Expr → Workspace Notebook → Prop} {failed : Halt → Workspace Notebook → Prop}
  {n : Nat} {current : Expr}

theorem ends_emit_of {Q : Sheet → Prop}
    (h : Ensures e.emit w.sheet (fun _ s => Q s) fun _ => True)
    (hdone : ∀ s modes roots, Q s →
      done e { w with sheet := { s with nodes := { s.nodes with modes } }, roots }) :
    Ensures (emit e) w done fun _ => True := by
  have hvalue : Ensures (emitValue e) w.sheet
      (fun _ s => ∀ roots, done e { w with sheet := s, roots })
      fun _ => True := by
    refine .bind (h.mono (fun _ s hs => ?_) fun _ _ => trivial)
    refine .bind (ensures_inDivergentRegion fun _ modes => ensures_ite (fun _ => ?_)
      fun _ => ?_)
    · exact ensures_diverging fun _ modes roots => hdone s modes roots hs
    · exact ensures_pure fun roots => hdone s modes roots hs
  refine .bind (.bind (ensures_attempt (fun _ s hs => ?_) fun fault s hs => ?_))
  · exact .bind (ensures_modify (ensures_pure (hvalue.of_ok hs _)))
  · exact ensures_pure trivial

theorem adds_constant (v : Literal) :
    Ensures (constant v) w (fun z w' => z = .literal w.sheet.nodes.next v ∧ w.Adds 0 w')
      fun _ => True := by
  refine .bind (ensures_making (.bind (ensures_orFault (fun _ _ => ?_)
    fun _ _ => trivial)))
  refine ensures_newNode (ends_emit_of (emit_settled (.inr ⟨_, _, rfl⟩)) fun s modes roots h => ?_)
  exact ⟨rfl, rfl, fun id hid => h.2.1 id (Nat.ne_of_lt hid)⟩

theorem adds_named (k : Nat) (x : String) (hz : w.sheet.Settled z)
    (hlt : z.id < w.sheet.nodes.next) :
    Ensures (named z x) { w with labels := w.labels + k } (fun e w' =>
      (∀ id, id ≠ z.id → id < w.sheet.nodes.next →
        w'.sheet.nodes.names.find? id = w.sheet.nodes.names.find? id) ∧
      w'.labels = w.labels + k ∧ w'.Shown e x ∧
      (w.sheet.nodes.next ∉ w.sheet.draft.scopes.visible → ∃ ty value,
        w'.sheet.draft.lines = w.sheet.draft.lines ++ [.declare ty (.word x) (.copy value)] ∧
        (value = w.sheet.nodes.name z ∨ z.id ∉ w.sheet.draft.scopes.visible ∧
          ∃ d v text, z = .literal d v ∧ value = .constant v text)))
      fun _ => True := by
  have hne : z.id ≠ w.sheet.nodes.next := Nat.ne_of_lt hlt
  have hname : ∀ id, id ≠ w.sheet.nodes.next →
      (w.titled x).sheet.nodes.names.find? id = w.sheet.nodes.names.find? id := fun id hid => by
    simp [Workspace.titled, Nodes.rename, hid]
  have hz' : (w.titled x).sheet.nodes.name z = w.sheet.nodes.name z := by
    rw [Nodes.name, Nodes.name, hname z.id hne]
  have htitle : (w.titled x).sheet.nodes.names.find? w.sheet.nodes.next = some (.word x) := by
    simp [Workspace.titled, Nodes.rename]
  change Ensures (emit (.unary w.sheet.nodes.next .assign z))
    (Workspace.titled { w with labels := w.labels + k } x) _ _
  refine ends_emit_of (emit_copy htitle hz hne) fun s modes roots h => ?_
  obtain ⟨hv, hnames, hlines⟩ := h
  refine ⟨fun id hid hlt => (hnames id hid).trans (hname id (Nat.ne_of_lt hlt)), rfl,
    ⟨(hnames _ hne.symm).trans htitle, hv⟩, fun hhidden => ?_⟩
  rw [← hz']
  exact hlines hhidden

theorem ends_freshName {α : Type} {f : String → Scripted α} {done : α → Workspace Notebook → Prop}
    (stem : String)
    (h : Ends (f (stem ++ "_" ++ toString w.labels)) { w with labels := w.labels + 1 } done failed) :
    Ends (freshName stem >>= f) w done failed := h

theorem fresh_maskName (hs : stem ∈ ["m_if", "m_else", "m_loop"]) :
    ∀ stem' ∈ ["m_if", "m_else", "m_loop"], ∀ n' : Nat,
      stem ++ "_" ++ toString n = stem' ++ "_" ++ toString n' → n ≤ n' ∧ n' < n + 1 := by
  intro stem' hs' n' h
  obtain ⟨-, rfl⟩ := maskName_injective hs hs' h
  exact ⟨Nat.le_refl _, Nat.lt_succ_self _⟩

theorem heeds_labelled (hs : stem ∈ ["m_if", "m_else", "m_loop"])
    (hw : w.Furnished known) (hp : p.Holds w.sheet.draft) (hz : z ∈ known) :
    Ends (named z (stem ++ "_" ++ toString w.labels)) { w with labels := w.labels + 1 }
      (fun e w' => w.Done p p (nodes e) w')
      fun halt w' => ∀ name, halt = .unbound name → w.Left p w' :=
  ends_emit (done_titled (e := z) (calm_titled 1 (fresh_maskName hs)) hw hp hz)

theorem ends_maskVariable (hs : stem ∈ ["m_if", "m_else", "m_loop"]) (hw : w.Furnished known)
    (hp : p.Holds w.sheet.draft) :
    Ends (maskVariable stem) w (fun e w' => w.Done p p (nodes e) w' ∧ w.Adds 1 w' ∧
        w'.Shown e (stem ++ "_" ++ toString w.labels))
      fun halt w' => ∀ name, halt = .unbound name → w.Left p w' := by
  have hconstant : Heeds p p known (constant (.u32 [0]) : Scripted Expr) :=
    heeds_of_tracked inferInstance
  have hzero := (hconstant.ends w hw hp).and (adds_constant (w := w) (.u32 [0]))
  refine .bind (hzero.mono (fun z w₁ h₁ => ?_) fun _ _ h => h.1)
  obtain ⟨h₁, rfl, hadds⟩ := h₁
  have hz := List.mem_singleton_self (Expr.literal w.sheet.nodes.next (.u32 [0]))
  have hlt := (h₁.furnished.proper hz).id_lt
  have hnamed := (heeds_labelled hs h₁.furnished h₁.phase hz).and (adds_named 1 _ (.inr ⟨_, _, rfl⟩) hlt)
  have hlabels : w₁.labels = w.labels := hadds.labels
  rw [hlabels] at hnamed
  refine ends_freshName stem ?_
  rw [hlabels]
  refine hnamed.mono (fun e w₂ h₂ => ?_) fun _ _ h₂ name hn => .after h₁ (h₂.1 name hn)
  obtain ⟨h₂, hnames, hl, hshown, -⟩ := h₂
  refine ⟨h₁.trans h₂, ⟨hl, fun id hid => ?_⟩, hshown⟩
  exact (hnames id (Nat.ne_of_lt hid) (Nat.lt_of_lt_of_le hid h₁.onward.next)).trans
    (hadds.names id hid)

theorem done_vote {out : List Expr} (h : w.Done p p out w') (hp : p.Holds w.sheet.draft)
    (hs : stem ∈ ["m_if", "m_else", "m_loop"]) (hn : w.labels ≤ n) (taken : Bool)
    (cond current : Spelling) :
    w.Done p p out (w'.write (.ballot (.word (stem ++ "_" ++ toString n)) taken cond current)) := by
  set line : Line := .ballot (.word (stem ++ "_" ++ toString n)) taken cond current
  have hgrows := w'.sheet.draft.grows_write line
  have hmasks : (w'.write line).sheet.draft.masks = w'.sheet.draft.masks := w'.masks_write line
  refine ⟨⟨h.onward.labels, h.onward.next, h.onward.grows.trans hgrows⟩, fun e he => ?_, .inl rfl,
    h.phase.of_eq (Draft.masks_write _ _), fun hne => hmasks.trans (h.masks hne),
    fun ho hspares => ?_⟩
  · exact h.furnished e (by rwa [hmasks] at he)
  obtain ⟨ho', hg'⟩ := h.safe ho (hspares.of_subset hgrows.everyLine)
  have hguards (hm : p = .masked) :
      w.sheet.Guards w.sheet.draft.scopes.visible (w'.write line).sheet := by
    refine ⟨(hg' hm).marks, fun id hid x hx => ?_⟩
    obtain ⟨more, hlines, hunset⟩ := (hg' hm).unset id hid x hx
    refine ⟨more ++ [line], ?_, fun l hl => ?_⟩
    · rw [← List.append_assoc, ← hlines]
      exact Draft.lines_write _ _
    rcases List.mem_append.mp hl with hl | hl
    · exact hunset l hl
    rw [List.mem_singleton.mp hl]
    intro hset
    obtain rfl : x = stem ++ "_" ++ toString n := by
      simpa [line, Line.sets, Line.declares, Line.assigns, Spelling.place?] using hset
    exact Nat.not_lt.mpr hn (ho.labelled.issued id stem hs n hx.1)
  have hlabelled : (w'.write line).sheet.Labelled (w'.write line).labels :=
    ho'.labelled.of_same rfl (Nat.le_refl _) fun _ hid => Draft.ids_write w'.sheet.draft line ▸ hid
  refine ⟨?_, hguards⟩
  by_cases hm : p = .masked
  · exact ho.of_masks hp hlabelled (hmasks.trans (h.masks (hm ▸ by decide))) fun _ =>
      ⟨hguards hm, (h.onward.grows.trans hgrows).visible⟩
  · exact ho'.of_masks h.phase hlabelled hmasks fun h => (hm h).elim

def divide {ν : Type} (cond : Expr) : Build ν (Expr × Expr) := do
  let current ← currentMask
  let taken ← maskVariable "m_if"
  let missed ← maskVariable "m_else"
  writeLine (.ballot (← nameOf taken) true (← nameOf cond) (← nameOf current))
  writeLine (.ballot (← nameOf missed) false (← nameOf cond) (← nameOf current))
  return (taken, missed)

theorem ends_currentMask (h : ∀ current ∈ w.sheet.draft.masks.head?, done current w)
    (hf : ∀ fault, failed (.fatal fault) w) : Ends currentMask w done failed := by
  cases hmasks : w.sheet.draft.masks with
  | nil =>
    simp only [Ends, currentMask, drafting, emitting, attempt, Emit.drafting, Drafting.currentMask,
      Bind.bind, EStateM.bind, run_get, hmasks]
    exact hf .noMask
  | cons current rest =>
    refine ends_drafting (a := current) (d := w.sheet.draft) ?_ (h current (by simp [hmasks]))
    simp only [Drafting.currentMask, Bind.bind, EStateM.bind, run_get, hmasks]
    rfl

theorem divided_ballots {taken missed : Expr} (cond : Spelling)
    (hcurrent : current ∈ w.sheet.draft.masks.head?) (hlt : current.id < w.sheet.nodes.next)
    (hp : p.Holds w.sheet.draft) (hdone : w.Done p p [taken, missed] w') (hadds : w.Adds 2 w')
    (htaken : w'.Shown taken ("m_if" ++ "_" ++ toString w.labels))
    (hmissed : w'.Shown missed ("m_else" ++ "_" ++ toString (w.labels + 1))) :
    w.Divided p taken missed ((w'.write (.ballot (.word ("m_if" ++ "_" ++ toString w.labels)) true cond
      (w'.sheet.nodes.name current))).write (.ballot
        (.word ("m_else" ++ "_" ++ toString (w.labels + 1))) false cond
        (w'.sheet.nodes.name current))) := by
  set x := "m_if" ++ "_" ++ toString w.labels
  set y := "m_else" ++ "_" ++ toString (w.labels + 1)
  set first : Line := .ballot (.word x) true cond (w'.sheet.nodes.name current)
  set second : Line := .ballot (.word y) false cond (w'.sheet.nodes.name current)
  have hlines : ((w'.write first).write second).sheet.draft.lines = w'.sheet.draft.lines ++
      LaneState.ballots x y cond (w'.sheet.nodes.name current) := by
    simp [Workspace.write, Draft.lines_write, LaneState.ballots, first, second]
  have hvisible : ((w'.write first).write second).sheet.draft.scopes = w'.sheet.draft.scopes := by
    simp [Workspace.write, Draft.scopes_write]
  have hne : x ≠ y := fun h => by
    have := (maskName_injective (by simp) (by simp) h).1
    simp at this
  have htaken' : ((w'.write first).write second).Shown taken x := ⟨htaken.1, hvisible ▸ htaken.2⟩
  have hmissed' : ((w'.write first).write second).Shown missed y := ⟨hmissed.1, hvisible ▸ hmissed.2⟩
  refine ⟨done_vote (done_vote hdone hp (by simp) (Nat.le_refl _) ..) hp (by simp) (Nat.le_succ _) ..,
    ⟨htaken', hmissed'⟩, ?_⟩
  intro ho hspares mask hmask hreads o
  obtain rfl : mask = current := Option.mem_unique hmask hcurrent
  obtain ⟨hname, hvalue⟩ := hreads.after ho hdone (hspares.of_subset fun l hl =>
    (Draft.grows_write _ _).everyLine ((Draft.grows_write _ _).everyLine hl)) hadds hlt o
  obtain ⟨hdirect, hfresh⟩ := hreads.direct ho
  have hdivide : let m := LaneState.after o (w'.sheet.draft.lines ++
        LaneState.ballots x y cond (w'.sheet.nodes.name mask))
      m.store x &&& m.store y = 0 ∧ m.store x ||| m.store y =
        (LaneState.after o w'.sheet.draft.lines).value o (w'.sheet.nodes.name mask) :=
    LaneState.ballots_divide hne (hname ▸ hdirect)
      (hname ▸ hfresh "m_if" (by simp) _ (Nat.le_refl _))
  rw [← hlines] at hdivide
  rw [← hvalue, htaken'.laneMask, hmissed'.laneMask]
  exact hdivide

theorem ends_divide (cond : Expr) (hw : w.Furnished known) (hp : p.Holds w.sheet.draft) :
    Ends (divide cond) w (fun m w' => w.Divided p m.1 m.2 w')
      fun halt w' => ∀ name, halt = .unbound name → w.Left p w' := by
  refine .bind (ends_currentMask (fun current hcurrent => ?_) fun _ _ hn => by cases hn)
  refine .bind ((ends_maskVariable (by simp) hw hp).mono (fun taken w₁ h₁ => ?_) fun _ _ h => h)
  obtain ⟨h₁, hadds₁, htaken⟩ := h₁
  refine .bind ((ends_maskVariable (by simp) h₁.furnished h₁.phase).mono (fun missed w₂ h₂ => ?_)
    fun _ _ h₂ name hn => .after h₁ (h₂ name hn))
  obtain ⟨h₂, hadds₂, hmissed⟩ := h₂
  have hlt : current.id < w.sheet.nodes.next :=
    (hw current (by simp [List.mem_of_mem_head? hcurrent])).id_lt
  have hid : taken.id < w₁.sheet.nodes.next := (h₁.furnished taken (by simp [nodes_expr])).id_lt
  have htaken₂ : w₂.Shown taken ("m_if" ++ "_" ++ toString w.labels) :=
    ⟨(hadds₂.names _ hid).trans htaken.1, h₂.onward.grows.visible htaken.2⟩
  rw [hadds₁.labels] at hmissed
  have hdone : w.Done p p [taken, missed] w₂ := { h₁.trans h₂ with
    furnished := (h₂.furnished.keep h₁.furnished h₂.onward.next).mono fun e he => by
      simpa [nodes_expr, or_comm] using he }
  have hdivided := divided_ballots (w₂.sheet.nodes.name cond) hcurrent hlt hp hdone
    (hadds₁.trans hadds₂ h₁.onward.next) htaken₂ hmissed
  rw [← htaken₂.name, ← hmissed.name] at hdivided
  exact hdivided

def copyMask {ν : Type} : Build ν Expr := do
  let current ← currentMask
  let name ← freshName "m_loop"
  named current name

theorem settled_current (ho : w.Orderly)
    (hcurrent : current ∈ w.sheet.draft.masks.head?) : w.sheet.Settled current := by
  rcases ho.tower with hmasks | ⟨pushed, seed, ht⟩
  · simp [hmasks] at hcurrent
  cases pushed with
  | nil =>
    obtain ⟨id, rfl⟩ := ht.seed
    simp only [ht.masks, List.nil_append, List.head?_cons, Option.mem_some_iff] at hcurrent
    exact .inr ⟨id, _, hcurrent.symm⟩
  | cons mask pushed =>
    simp only [ht.masks, List.cons_append, List.head?_cons, Option.mem_some_iff] at hcurrent
    obtain ⟨x, -, hv⟩ := ht.anchored mask (by simp)
    exact .inl (hcurrent ▸ hv)

theorem ends_copyMask (hw : w.Furnished known) (hp : p.Holds w.sheet.draft) :
    Ends copyMask w (fun mask w' => w.Copied p mask w')
      fun halt w' => ∀ name, halt = .unbound name → w.Left p w' := by
  refine .bind (ends_currentMask (fun current hcurrent => ?_) fun _ _ hn => by cases hn)
  have hproper := hw current (by simp [List.mem_of_mem_head? hcurrent])
  have hfurnished : w.Furnished [current] := fun e he => (List.mem_append.mp he).elim
    (fun he => List.mem_singleton.mp he ▸ hproper) fun he => hw e (List.mem_append_right _ he)
  have hstem : "m_loop" ∈ ["m_if", "m_else", "m_loop"] := by simp
  have hlabelled := heeds_labelled hstem hfurnished hp (List.mem_singleton_self current)
  have hnamed (hz : w.sheet.Settled current) := adds_named 1
    ("m_loop" ++ "_" ++ toString w.labels) hz hproper.id_lt
  refine ends_freshName "m_loop" (Ends.of_runs (fun mask w' hrun =>
    ⟨hlabelled.of_ok hrun, fun ho => ?_, ?_⟩) fun halt w' hrun => hlabelled.of_error hrun)
  · exact ((hnamed (settled_current ho hcurrent)).of_ok hrun).2.2.1
  intro ho hspares mask' hmask' hreads o
  obtain rfl : mask' = current := Option.mem_unique hmask' hcurrent
  obtain ⟨-, -, hshown, hlines⟩ := (hnamed (settled_current ho hcurrent)).of_ok hrun
  have hhidden : w.sheet.nodes.next ∉ w.sheet.draft.scopes.visible := fun hv =>
    Nat.lt_irrefl _ (ho.labelled.made _ (List.mem_append_left _ (List.mem_append_left _ hv)))
  obtain ⟨ty, value, hline, hvalue⟩ := hlines hhidden
  rw [hshown.laneMask, Workspace.laneState, hline, LaneState.after_snoc, LaneState.store_declare]
  rcases hvalue with rfl | ⟨hnot, d, v, text, rfl, rfl⟩
  · rfl
  rcases hreads with ⟨-, x, -, hv⟩ | ⟨id, n, text', hliteral, hname⟩
  · exact (hnot hv).elim
  · cases hliteral
    simp only [Workspace.laneMask, Nodes.name, hname, Option.getD_some, LaneState.value]

class Firm {α : Type} (x : Scripted α) : Prop where
  ends : ∀ w, Ends x w (fun _ _ => True) fun halt _ => ∀ name, halt ≠ .unbound name

section Firm

variable {α β : Type}

theorem Firm.ends_of {x : Scripted α} [hx : Firm x] {done : α → Workspace Notebook → Prop}
    (h : Ends x w done failed) :
    Ends x w done fun halt _ => ∀ name, halt ≠ .unbound name :=
  .of_runs (fun _ _ hr => h.of_ok hr) fun _ _ hr => (hx.ends w).of_error hr

instance (x : Scripted α) (f : α → Scripted β) [hx : Firm x] [hf : ∀ a, Firm (f a)] :
    Firm (x >>= f) :=
  ⟨fun w => .bind ((hx.ends w).mono (fun a w' _ => (hf a).ends w') fun _ _ h => h)⟩

instance firm_pure (a : α) : Firm (pure a : Scripted α) := ⟨fun _ => trivial⟩

instance firm_emitting (x : Emit α) : Firm (emitting x : Scripted α) := by
  refine ⟨fun w => Ends.of_runs (fun _ _ _ => trivial) fun halt w' hrun name => ?_⟩
  simp only [emitting, attempt, Bind.bind, EStateM.bind] at hrun
  cases hx : x w.sheet <;> rw [hx] at hrun <;> cases hrun
  exact Halt.noConfusion

instance (fault : Fault) : Firm (fatal fault : Scripted α) :=
  ⟨fun _ _ h => by cases h⟩

instance (c : Prop) [Decidable c] (x y : Scripted α) [Firm x] [Firm y] :
    Firm (if c then x else y) := by
  split <;> infer_instance

instance firm_making (x : Making α) : Firm (making x : Scripted α) := firm_emitting _

instance firm_drafting (x : Drafting α) : Firm (drafting x : Scripted α) := firm_emitting _

instance (f : Draft → Draft) : Firm (redraft f : Scripted Unit) := firm_emitting _

instance (line : Line) : Firm (writeLine line : Scripted Unit) := firm_emitting _

instance (mk : Nat → Expr) : Firm (node mk : Scripted Expr) := firm_making _

instance (e : Expr) : Firm (nameOf e : Scripted Spelling) := ⟨fun _ => trivial⟩

instance (stem : String) : Firm (freshName stem : Scripted String) := ⟨fun _ => trivial⟩

instance (r : Except Fault α) : Firm (must r : Scripted α) := by
  cases r with
  | ok a => exact firm_pure a
  | error fault => exact ⟨fun _ _ => Halt.noConfusion⟩

instance (e : Expr) : Firm (tryEmit e : Scripted (Except Fault Expr)) := by
  refine ⟨fun w => ?_⟩
  simp only [Ends, tryEmit, attempt, Bind.bind, EStateM.bind]
  cases emitValue e w.sheet <;> trivial

instance (e : Expr) : Firm (emit e : Scripted Expr) := by unfold emit; infer_instance

instance (l : Literal) : Firm (constant l : Scripted Expr) := by unfold constant; infer_instance

instance (e : Expr) (name : String) : Firm (named e name : Scripted Expr) := by
  unfold named; infer_instance

instance (stem : String) : Firm (maskVariable stem : Scripted Expr) := by
  unfold maskVariable zero; infer_instance

instance : Firm (currentMask : Scripted Expr) := firm_drafting _

instance (cond : Expr) : Firm (divide cond : Scripted (Expr × Expr)) := by
  unfold divide; infer_instance

instance : Firm (copyMask : Scripted Expr) := by unfold copyMask; infer_instance

end Firm

end Build

end ComputeKernel
