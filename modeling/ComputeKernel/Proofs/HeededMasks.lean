import ComputeKernel.Proofs.AssignedStorage
import ComputeKernel.Proofs.MaskTowers

namespace ComputeKernel

open Script
open Bears (items)

variable {p : Phase} {known : List Expr}

theorem Line.declares_simple (line : Line) [h : line.Simple] : line.declares = [] := by
  cases line with
  | ballot mask taken cond current => exact (h.noVote mask taken cond current rfl).elim
  | declare | reserve | array => cases h.types
  | _ => rfl

namespace Build

variable {K : Stock} {α γ : Type} [Bears α] [Bare γ]

section Making

theorem proper_of_assembled {mk : Nat → Expr} (h : Assembled K mk) (hK : Within K known)
    {w : Workspace Notebook} (hw : w.Furnished known) :
    (mk w.sheet.nodes.next).Proper (w.sheet.nodes.next + 1) := by
  refine .of_operands (Nat.lt_succ_of_le (h.id _).le) (fun x hx => hK.name x (h.name _ x hx))
    fun d hd => ?_
  exact (hw.proper (hK.value d (h.operand _ d hd))).mono (Nat.le_succ _)

variable {x : Making Expr}

theorem Crafted.emits (h : Crafted K x) (hx : Keeps Nodes.names x) (hK : Within K known)
    {w : Workspace Notebook} (hw : w.Furnished known) :
    Ensures (Emit.making x) w.sheet
      (fun e s => w.sheet.Spares w.labels w.sheet.draft.scopes.visible s ∧ e.Proper s.nodes.next)
      (w.sheet.Spares w.labels w.sheet.draft.scopes.visible) := by
  refine ComputeKernel.ensures_making (((h w.sheet.nodes).and (hx w.sheet.nodes)).mono
    (fun e n hn => ?_) fun n hn => .of_frame hn.2 hn.1.ge rfl)
  obtain ⟨⟨mk, hmk, rfl, hnext⟩, hnames⟩ := hn
  exact ⟨.of_frame hnames (hnext ▸ Nat.le_succ _) rfl, hnext ▸ proper_of_assembled hmk hK hw⟩

theorem Crafted.heeds (h : Crafted K x) (hx : Keeps Nodes.names x) :
    Heeding p p K _ (making x) (making x) := heeding_of fun _ hK =>
  heeds_emitting fun _ hw => (h.emits hx hK hw).mono
    (fun _ _ h => ⟨h.1, fun _ he => List.mem_singleton.mp he ▸ h.2⟩) fun _ _ => trivial

end Making

theorem heeds_of_emit {x : Emit γ}
    (h : ∀ labels n guarded, Emit.Heeds labels n guarded x) : Heeds p p known (emitting x) :=
  heeds_emitting fun w _ =>
    (h w.labels w.sheet.nodes.next _ w.sheet (Nat.le_refl _) fun _ h => h).mono
      (fun _ _ h => ⟨h, nofun⟩) fun _ _ => trivial

theorem heeds_typeOf (e : Expr) : Heeds p p known (typeOf e : Scripted Ty) :=
  heeds_of_emit fun _ _ _ => heeds_typing _

theorem heeds_divergingOf (x : Diverging γ) :
    Heeds p p known (emitting (.diverging x) : Scripted γ) :=
  heeds_of_emit fun _ _ _ => heeds_diverging x

theorem heeds_asking {x : Drafting γ} (h : Keeps Draft.frame x) : Heeds p p known (drafting x) :=
  heeds_of_emit fun _ _ _ => heeds_drafting h

theorem heeds_redraft {f : Draft → Draft} (h : ∀ d, (f d).frame = d.frame) :
    Heeds p p known (redraft f : Scripted Unit) :=
  heeds_of_emit fun _ _ _ _ _ _ =>
    ComputeKernel.ensures_redraft (.of_frame rfl (Nat.le_refl _) (h _))

theorem heeds_reading (f : Workspace Notebook → γ) :
    Heeds p p known (do return f (← get) : Scripted γ) :=
  heeds_of_calm fun w _ => ⟨.refl w, nofun⟩

theorem heeds_currentMask : Heeds p p known (currentMask : Scripted Expr) := by
  refine heeds_emitting fun w hw => ComputeKernel.ensures_drafting
    (.bind (ensures_get ?_))
  cases hm : w.sheet.draft.masks with
  | nil => exact ensures_throw trivial
  | cons mask masks =>
    refine ensures_pure ⟨.refl _ _ _, fun e he => ?_⟩
    rw [List.mem_singleton.mp he]
    exact hw mask (by simp [hm])

theorem heeds_writeLine {line : Line} (h : line.declares = []) :
    Heeds p p known (writeLine line : Scripted Unit) :=
  heeds_of_emit fun _ _ _ => heeds_write h

theorem heeds_freshName (stem : String) : Heeds p p known (freshName stem : Scripted String) :=
  heeds_of_calm fun _ _ =>
    ⟨.of_spares (Nat.le_succ _) (fun _ h => h) (.refl _ _ _), nofun⟩

theorem heeds_register (callee : Prototype) :
    Heeds p p known (register callee : Scripted Prototype) :=
  heeds_of_calm fun _ _ => ⟨.of_frame rfl (Nat.le_refl _) rfl rfl rfl, nofun⟩

theorem heeds_tryEmit {e : Expr} (he : e ∈ known) :
    Heeds p p known (tryEmit e : Scripted (Except Fault Expr)) := by
  refine heeds_of_calm fun w hw => ?_
  have hproper := hw.proper he
  have hemit : Emit.Heeds w.labels w.sheet.nodes.next w.sheet.draft.scopes.visible (emitValue e) :=
    (e.emit_heeds hproper).bind fun _ => heeds_inDivergentRegion.bind fun _ =>
      .ite (heeds_diverging _) (.pure _)
  have hrun := hemit w.sheet (Nat.le_refl _) fun _ h => h
  refine .bind (Ends.of_runs (fun r w' hr => ?_) fun _ _ hr => ?_)
  all_goals
    simp only [attempt] at hr
    cases hx : emitValue e w.sheet <;> rw [hx] at hr <;> cases hr
  · refine ⟨.of_spares (Nat.le_refl _) (fun _ h => h) (hrun.of_ok hx), fun d hd => ?_⟩
    rw [List.mem_singleton.mp hd]
    exact hproper.mono (hrun.of_ok hx).next
  · exact ⟨.of_spares (Nat.le_refl _) (fun _ h => h) (hrun.of_error hx), fun _ h => by cases h⟩

theorem heeds_setGroupSize (size : GroupSize) :
    Heeds p p known (setGroupSize size : Scripted (Except Fault Unit)) := by
  refine heeds_of_calm fun w _ => .bind (.bind (Ends.get (Ends.pure ?_)))
  cases hd : w.sheet.draft.setGroupSize size with
  | error failure =>
    cases failure with
    | fault fault => exact Ends.pure ⟨.refl w, nofun⟩
    | overflow overflow => exact Ends.throw nofun
  | ok d =>
    refine ends_redraft (Ends.pure ⟨.of_frame rfl (Nat.le_refl _) ?_ rfl rfl,
      nofun⟩)
    exact Draft.setGroupSize_eq_ok hd ▸ rfl

theorem heeding_tryEmit (e : Expr) : Heeding.Given (items e) (tryEmit e) := fun h =>
  heeding_of fun _ hK => heeds_tryEmit (hK.value e h.value)

theorem heeding_emit {x : Scripted Expr} (hx : Heeding p p K _ x x) :
    Heeding p p K _ (do emit (← x)) (do emit (← x)) :=
  Tracking.Chains.emitted hx (fun e => heeding_tryEmit e ⟨fun _ hi => .inl hi⟩)
    fun halt => heeding_of fun _ _ => heeds_throw halt

instance : Operations Heeding where
  throw halt := ⟨fun _ _ => heeds_throw halt, fun _ => trivial⟩
  place _ h := heeding_emit ((crafted_node h).heeds fun _ => rfl)
  array elem length init := heeding_emit ((crafted_array elem length init).heeds
    (keeps_guard (keeps_guard (.bind (keeps_orFault _) fun _ _ => rfl))))
  typeOf e := fun _ => heeding_of fun _ _ => heeds_typeOf e
  nameOf e := heeding_of fun _ _ => heeds_reading fun w => w.sheet.nodes.name e
  builtin _ := heeding_of fun _ _ => heeds_of_calm fun _ _ =>
    ⟨.of_frame rfl (Nat.le_refl _) rfl rfl rfl, nofun⟩
  draft := heeding_of fun _ _ => heeds_reading fun w => w.sheet.draft
  currentMask := heeding_of fun _ _ => heeds_currentMask
  addShared name ty := heeding_of fun _ _ =>
    heeds_asking (keeps_addShared (fun _ _ _ => rfl) (fun _ _ => rfl) name ty)
  setGroupSize size := heeding_of fun _ _ => heeds_setGroupSize size
  writeHeader _ := heeding_of fun _ _ => heeds_redraft fun _ => rfl
  node _ h _ := (crafted_node h).heeds fun _ => rfl
  literal l := (crafted_literal l).heeds (.bind (keeps_orFault _) fun _ _ => rfl)
  swizzle e lanes := fun h => heeding_of fun _ hK => heeds_attempt fun _ hw =>
    (crafted_swizzle e lanes h).emits (.bind (fun _ => ensures_makingTyping
      (ensures_any (fun _ _ => rfl) fun _ => rfl)) fun _ => keeps_guard
        (.bind (keeps_orFault _) fun _ _ => rfl)) hK hw
  tryEmit e := heeding_tryEmit e
  freshName stem := heeding_of fun _ _ => heeds_freshName stem
  writeLine line _ _ := heeding_of fun _ _ => heeds_writeLine line.declares_simple
  noteSync := heeding_of fun _ _ => heeds_redraft fun _ => rfl

end Build

def Workspace.titled {ν : Type} (w : Workspace ν) (name : String) : Workspace ν :=
  { w with sheet := { w.sheet with
    nodes := Nodes.rename { w.sheet.nodes with next := w.sheet.nodes.next + 1 }
      w.sheet.nodes.next (.word name) } }

namespace Build

section Naming

variable {w : Workspace Notebook} {name : String} {k : Nat}

theorem marks_titled {id : Nat} {x : String} (h : (w.titled name).sheet.nodes.Marks id x) :
    id = w.sheet.nodes.next ∧ x = name ∨ w.sheet.nodes.Marks id x := by
  obtain ⟨hf, hmask⟩ := h
  simp only [Workspace.titled, Nodes.rename, IdTable.find?_insert] at hf
  split at hf
  · cases hf
    exact .inl ⟨by assumption, rfl⟩
  · exact .inr ⟨hf, hmask⟩

theorem calm_titled (k : Nat)
    (hname : ∀ stem ∈ ["m_if", "m_else", "m_loop"], ∀ n : Nat, name = stem ++ "_" ++ toString n →
      w.labels ≤ n ∧ n < w.labels + k) :
    Calm w (Workspace.titled { w with labels := w.labels + k } name) where
  onward := ⟨Nat.le_add_right _ _, Nat.le_succ _, .refl _⟩
  held := fun _ h => h
  masks := rfl
  safe hl _ := by
    have hnew {id : Nat} {x : String} (hx : w.sheet.nodes.Marks id x) : x ≠ name := by
      rintro rfl
      obtain ⟨hf, stem, hs, n, rfl⟩ := hx
      exact Nat.not_lt.mpr (hname stem hs n rfl).1 (hl.issued id stem hs n hf)
    refine ⟨⟨fun id hid => Nat.lt_succ_of_lt (hl.made id hid), fun id x hx => ?_,
      fun id stem hs n hf => ?_, fun id id' x hx hx' => ?_⟩, ?_⟩
    · rcases marks_titled hx with ⟨rfl, -⟩ | hx
      · exact Nat.lt_succ_self _
      · exact Nat.lt_succ_of_lt (hl.known id x hx)
    · rcases marks_titled (w := w) ⟨hf, stem, hs, n, rfl⟩ with ⟨-, hx⟩ | hx
      · exact (hname stem hs n hx.symm).2
      · exact Nat.lt_add_right _ (hl.issued id stem hs n hx.1)
    · rcases marks_titled hx with ⟨hid, rfl⟩ | hx <;> rcases marks_titled hx' with ⟨hid', hx'⟩ | hx'
      · exact hid.trans hid'.symm
      · exact (hnew hx' rfl).elim
      · exact (hnew hx hx').elim
      · exact hl.unique id id' x hx hx'
    · have hmade : w.sheet.Guards w.sheet.draft.scopes.visible { w.sheet with
          nodes := { w.sheet.nodes with next := w.sheet.nodes.next + 1 } } := .of_same rfl rfl
      refine hmade.trans (.rename _ (fun hid => ?_) _)
      exact Nat.lt_irrefl _ (hl.made _ (List.mem_append_left _ (List.mem_append_left _ hid)))

theorem done_titled {e : Expr} (h : Calm w (Workspace.titled { w with labels := w.labels + k } name))
    (hw : w.Furnished known) (hp : p.Holds w.sheet.draft) (he : e ∈ known) :
    w.Done p p [.unary w.sheet.nodes.next .assign e]
      (Workspace.titled { w with labels := w.labels + k } name) := by
  refine h.done hw hp fun d hd => ?_
  rw [List.mem_singleton.mp hd]
  have : (listed known).Has (items e) := ⟨by simpa [items, listed] using he⟩
  exact proper_of_assembled (assembled_unary .assign e) (within_listed known) hw

theorem ends_emit {w' : Workspace Notebook} {e : Expr} (h : w.Done p p [e] w') :
    Ends (emit e) w' (fun e w'' => w.Done p p (nodes e) w'')
      fun halt w'' => ∀ name, halt = .unbound name → w.Left p w'' := by
  have hemit : Heeds p p [e] (emit e : Scripted Expr) :=
    have : (listed [e]).Has (items e) := ⟨by simp [items, listed]⟩
    heeds_of_tracked inferInstance
  exact (hemit.ends w' h.furnished h.phase).mono (fun _ _ h' => h.trans h')
    fun _ _ h' name hn => .after h (h' name hn)

instance : Naming Heeding where
  named e name := fun h => heeding_of fun _ hK => ⟨fun _ hw hp => ends_emit (done_titled (e := e) (calm_titled 0
    fun stem hs n hn => (hK.name name h.right.name ⟨stem, hs, n, hn⟩).elim) hw hp
      (hK.value e h.left.value))⟩

end Naming

end Build

end ComputeKernel
