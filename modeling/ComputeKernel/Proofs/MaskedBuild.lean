import ComputeKernel.Proofs.Building
import ComputeKernel.Proofs.KnownTypes
import ComputeKernel.Proofs.Memoisation

namespace ComputeKernel

structure Tidy {ν : Type} (w : Workspace ν) : Prop where
  visible : ∀ id ∈ w.sheet.draft.scopes.visible, id < w.sheet.nodes.next
  names : ∀ id, w.sheet.nodes.next ≤ id → w.sheet.nodes.names.find? id = none
  types : ∀ id, w.sheet.nodes.next ≤ id → w.sheet.nodes.types.find? id = none

def Workspace.made {ν : Type} (w : Workspace ν) : Workspace ν :=
  { w with sheet := { w.sheet with nodes := { w.sheet.nodes with next := w.sheet.nodes.next + 1 } } }

structure Added {ν : Type} (w : Workspace ν) (lines : List Line)
    (w' : Workspace ν) : Prop where
  tidy : Tidy w'
  visible : w.sheet.draft.scopes.visible ⊆ w'.sheet.draft.scopes.visible
  stack : w'.sheet.draft.scopes.stack = w.sheet.draft.scopes.stack
  names : ∀ id ∈ w.sheet.draft.scopes.visible,
    w'.sheet.nodes.names.find? id = w.sheet.nodes.names.find? id
  types : w.sheet.nodes.types.Extends w'.sheet.nodes.types
  next : w.sheet.nodes.next ≤ w'.sheet.nodes.next
  masks : w'.sheet.draft.masks = w.sheet.draft.masks
  wave32 : w'.sheet.draft.wave32 = w.sheet.draft.wave32
  labels : w.labels ≤ w'.labels
  text : w'.sheet.draft.lines = w.sheet.draft.lines ++ lines

section Steps

variable {ν : Type} {w w' w'' : Workspace ν} {lines rest : List Line}

theorem Added.refl (h : Tidy w) : Added w [] w where
  tidy := h
  visible := fun _ hm => hm
  stack := rfl
  names _ _ := rfl
  types := .refl _
  next := Nat.le_refl _
  masks := rfl
  wave32 := rfl
  labels := Nat.le_refl _
  text := (List.append_nil _).symm

theorem Added.trans (h : Added w lines w') (h' : Added w' rest w'') :
    Added w (lines ++ rest) w'' where
  tidy := h'.tidy
  visible := fun _ hm => h'.visible (h.visible hm)
  stack := h'.stack.trans h.stack
  names id hid := (h'.names id (h.visible hid)).trans (h.names id hid)
  types := h.types.trans h'.types
  next := Nat.le_trans h.next h'.next
  masks := h'.masks.trans h.masks
  wave32 := h'.wave32.trans h.wave32
  labels := Nat.le_trans h.labels h'.labels
  text := by rw [h'.text, h.text, List.append_assoc]

theorem Added.name (h : Added w lines w') {e : Expr}
    (he : e.id ∈ w.sheet.draft.scopes.visible) : w'.sheet.nodes.name e = w.sheet.nodes.name e := by
  rw [Nodes.name, Nodes.name, h.names e.id he]

theorem Tidy.hidden (h : Tidy w) :
    w.sheet.nodes.next ∉ w.sheet.draft.scopes.visible := fun hm =>
  Nat.lt_irrefl _ (h.visible _ hm)

theorem Added.line (h : Tidy w) (line : Line) :
    Added w [line] { w with sheet := { w.sheet with draft := w.sheet.draft.write line } } := by
  have hs := Draft.scopes_write w.sheet.draft line
  refine ⟨⟨?_, h.names, h.types⟩, ?_, ?_, fun _ _ => rfl, .refl _, Nat.le_refl _, ?_, ?_,
    Nat.le_refl _, Draft.lines_write _ _⟩
  · rw [hs]
    exact h.visible
  · rw [hs]
    exact fun _ hm => hm
  · rw [hs]
  · unfold Draft.write
    split <;> rfl
  · unfold Draft.write
    split <;> rfl

theorem Added.make (h : Tidy w) : Added w [] w.made where
  tidy := ⟨fun id hid => Nat.lt_succ_of_lt (h.visible id hid),
    fun id hid => h.names id (Nat.le_of_succ_le hid), fun id hid => h.types id (Nat.le_of_succ_le hid)⟩
  visible := fun _ hm => hm
  stack := rfl
  names _ _ := rfl
  types := .refl _
  next := Nat.le_succ _
  masks := rfl
  wave32 := rfl
  labels := Nat.le_refl _
  text := (List.append_nil _).symm

theorem Added.retype (h : Tidy w) {t : IdTable Ty} (ht : w.sheet.nodes.types.Extends t)
    (hnew : ∀ id, w.sheet.nodes.next ≤ id → t.find? id = none) :
    Added w [] { w with sheet := { w.sheet with nodes := { w.sheet.nodes with types := t } } } :=
  { Added.refl h with
    tidy := ⟨h.visible, h.names, hnew⟩
    types := ht }

theorem Added.rename (h : Tidy w) (id : Nat) (hid : id ∉ w.sheet.draft.scopes.visible)
    (hlt : id < w.sheet.nodes.next) (name : Spelling) :
    Added w [] { w with sheet := { w.sheet with nodes := w.sheet.nodes.rename id name } } :=
  { Added.refl h with
    tidy := ⟨h.visible, fun other (hle : w.sheet.nodes.next ≤ other) => by
      have hne : other ≠ id := by omega
      simpa [Nodes.rename, hne] using h.names other hle, h.types⟩
    names := fun other hother => by
      have hne : other ≠ id := by
        rintro rfl
        exact hid hother
      simp [Nodes.rename, hne] }

theorem Added.mark (h : Tidy w) {id : Nat} (hlt : id < w.sheet.nodes.next) :
    Added w [] { w with sheet := { w.sheet with draft := w.sheet.draft.mark id } } :=
  { Added.refl h with
    tidy := ⟨fun other hm => (Memo.mem_visible_mark.mp hm).elim (fun same => same ▸ hlt)
      (h.visible other), h.names, h.types⟩
    visible := fun _ hm => Memo.mem_visible_mark.mpr (.inr hm)
    stack := Memo.stack_mark id }

theorem Added.relabel (h : Tidy w) : Added w [] { w with labels := w.labels + 1 } :=
  { Added.refl h with
    tidy := ⟨h.visible, h.names, h.types⟩
    labels := Nat.le_succ _ }

theorem Added.aside (h : Tidy w) (modes : IdTable Divergence) (roots : List Expr)
    (callables : CallTable) :
    Added w [] { w with
      sheet := { w.sheet with nodes := { w.sheet.nodes with modes } }, roots, callables } :=
  { Added.refl h with tidy := ⟨h.visible, h.names, h.types⟩ }

theorem Added.leave {condition : Option Expr} (hw : Tidy w)
    (h : Added { w with sheet := { w.sheet with draft := w.sheet.draft.enterScope condition } }
      lines w') :
    Added w lines { w' with sheet := { w'.sheet with draft := { w'.sheet.draft with
      scopes := ⟨w.sheet.draft.scopes.visible, w.sheet.draft.scopes.stack⟩ } } } :=
  ⟨⟨fun id hid => Nat.lt_of_lt_of_le (hw.visible id hid) h.next, h.tidy.names, h.tidy.types⟩,
    fun _ hm => hm, rfl, h.names, h.types, h.next, h.masks, h.wave32, h.labels, h.text⟩

structure Shows (w : Workspace ν) (e : Expr) (ty : Ty) (name : Spelling) : Prop where
  visible : e.id ∈ w.sheet.draft.scopes.visible
  typed : w.sheet.nodes.types.find? e.id = some ty
  name : w.sheet.nodes.name e = name

theorem Shows.later {e : Expr} {ty : Ty} {name : Spelling} (h : Shows w e ty name)
    (h' : Added w lines w') : Shows w' e ty name where
  visible := h'.visible h.visible
  typed := h'.types _ _ h.typed
  name := (h'.name h.visible).trans h.name

end Steps

section Emission

variable {ν : Type} {w : Workspace ν} {t : IdTable Ty} {e z : Expr} {id : Nat}
  {ty : Ty} {name : Spelling}

theorem ensures_orFault_of_ok {α σ : Type} {r : Except Fault α} {a : α} {s : σ} {done : α → σ → Prop}
    {failed : σ → Prop} (hr : r = .ok a) (h : done a s) :
    Ensures (orFault r : EStateM Fault σ α) s done failed := by
  subst hr
  exact h

theorem Typing.remember_new {compute : Typing Ty} {t t' : IdTable Ty} (h : t.find? id = none)
    (hc : compute t = .ok ty t') : Typing.remember id compute t = .ok ty (t'.insert id ty) := by
  simp only [remember, Bind.bind, EStateM.bind, run_get, h, hc]
  rfl

theorem ensures_once {body : Ty → Emit Unit} {s : Sheet} {done : Unit → Sheet → Prop}
    {failed : Sheet → Prop} (hid : e.id ∉ s.draft.scopes.visible)
    (hty : e.inferType s.nodes.types = .ok ty t)
    (h : Ensures (body ty) { s with nodes := { s.nodes with types := t } }
      (fun _ s' => done () { s' with draft := s'.draft.mark e.id }) failed) :
    Ensures (Emit.once e body) s done failed := by
  refine Ensures.of_eq (once_of_hidden fun hv => hid (Scopes.isVisible_iff.mp hv)) ?_
  refine .bind (ensures_typing (ensures_ok hty (Ensures.bind ?_)))
  exact h.imp (fun _ _ hd => ensures_redraft hd)

theorem Added.insertType (h : Tidy w) (hlt : id < w.sheet.nodes.next)
    (hnew : w.sheet.nodes.types.find? id = none) (ty : Ty) :
    Added w [] { w with sheet := { w.sheet with nodes := { w.sheet.nodes with
      types := w.sheet.nodes.types.insert id ty } } } := by
  refine .retype h (fun key kind hk => ?_) fun other hle => ?_
  · have hne : key ≠ id := by
      rintro rfl
      rw [hnew] at hk
      cases hk
    simpa [hne] using hk
  · have hne : other ≠ id := by omega
    simpa [hne] using h.types other hle

theorem shows_declare {w' : Workspace ν} (ha : Added w [] w') (line : Line)
    (hlt : e.id < w'.sheet.nodes.next) (hty : w'.sheet.nodes.types.find? e.id = some ty) :
    let last := { w' with sheet := { w'.sheet with
      draft := (w'.sheet.draft.write line).mark e.id } }
    Added w [line] last ∧ Shows last e ty (w'.sheet.nodes.name e) :=
  ⟨(ha.trans (.line ha.tidy line)).trans (.mark (Added.line ha.tidy line).tidy hlt),
    Memo.mem_visible_mark.mpr (.inl rfl), hty, rfl⟩

theorem emit_literal_shows {v : Literal} {text : String}
    (hid : id ∉ w.sheet.draft.scopes.visible) (hlt : id < w.sheet.nodes.next)
    (hty : (Expr.literal id v).inferType w.sheet.nodes.types = .ok ty t)
    (ha : Added w [] { w with sheet := { w.sheet with nodes := { w.sheet.nodes with types := t } } })
    (htext : v.text = .ok text) :
    Ensures (Expr.literal id v).emit w.sheet
      (fun _ s => Added w [] { w with sheet := s } ∧
        Shows { w with sheet := s } (.literal id v) ty (.constant v text) ∧
        ∀ other, other ≠ id → s.nodes.names.find? other = w.sheet.nodes.names.find? other)
      fun _ => False := by
  rw [Expr.emit]
  refine ensures_once hid hty (.bind (ensures_orFault_of_ok htext (ensures_rename ?_)))
  have hr := Added.rename ha.tidy id hid hlt (.constant v text)
  refine ⟨(ha.trans hr).trans (.mark hr.tidy hlt), ⟨Memo.mem_visible_mark.mpr (.inl rfl),
    ((Expr.inferType_spec _ _).of_ok hty).2, ?_⟩, fun other hne => ?_⟩
  · simp [Nodes.name, Nodes.rename, Expr.id]
  · simp [Nodes.rename, hne]

theorem find?_insert_self {table : IdTable Ty} : (table.insert id ty).find? id = some ty := by
  simp

theorem emit_copy_shows (hw : Tidy w) (hid : id ∉ w.sheet.draft.scopes.visible)
    (hlt : id < w.sheet.nodes.next) (hnew : w.sheet.nodes.types.find? id = none)
    (hname : w.sheet.nodes.name (.unary id .assign z) = name) {value : Spelling} (hz : Shows w z ty value) :
    Ensures (Expr.unary id .assign z).emit w.sheet
      (fun _ s => Added w [.declare ty name (.copy value)] { w with sheet := s } ∧
        Shows { w with sheet := s } (.unary id .assign z) ty name) fun _ => False := by
  obtain ⟨hv, ht, rfl⟩ := hz
  subst hname
  have hty : (Expr.unary id .assign z).inferType w.sheet.nodes.types =
      .ok ty (w.sheet.nodes.types.insert id ty) := by
    rw [Expr.inferType]
    refine Typing.remember_new hnew ?_
    simp only [Bind.bind, EStateM.bind, Expr.inferType_known ht]
    rfl
  rw [Expr.emit]
  refine ensures_once hid hty (.bind (ensures_ok (Expr.emit_of_visible hv) ?_))
  refine .bind (ensures_nameOf (.bind (ensures_nameOf (ensures_write ?_))))
  exact shows_declare (e := .unary id .assign z) (Added.insertType hw hlt hnew ty) _ hlt
    find?_insert_self

theorem emit_binary_shows {op : Op} {lhs rhs : Expr} {left right : Spelling} {lty : Ty}
    (hop : op.isAssign = false) (hid : id ∉ w.sheet.draft.scopes.visible)
    (hlt : id < w.sheet.nodes.next) (hname : w.sheet.nodes.name (.binary id op lhs rhs) = name)
    (hty : (Expr.binary id op lhs rhs).inferType w.sheet.nodes.types = .ok ty t)
    (ha : Added w [] { w with sheet := { w.sheet with nodes := { w.sheet.nodes with types := t } } })
    (hl : Shows w lhs lty left)
    (hr : Ensures rhs.emit { w.sheet with nodes := { w.sheet.nodes with types := t } }
      (fun _ s => Added { w with
          sheet := { w.sheet with nodes := { w.sheet.nodes with types := t } } } [] { w with sheet := s } ∧
        s.nodes.name rhs = right ∧ s.nodes.names.find? id = w.sheet.nodes.names.find? id)
      fun _ => False) :
    Ensures (Expr.binary id op lhs rhs).emit w.sheet
      (fun _ s => Added w [.declare ty name (.binary op left right)] { w with sheet := s } ∧
        Shows { w with sheet := s } (.binary id op lhs rhs) ty name) fun _ => False := by
  rw [Expr.emit]
  have hl' := hl.later ha
  refine ensures_once hid hty (.bind (ensures_ok (Expr.emit_of_visible hl'.visible) ?_))
  refine .bind (hr.imp fun _ s h => ?_)
  obtain ⟨hadd, rfl, hsame⟩ := h
  have hl'' := hl'.later hadd
  refine .bind (ensures_nameOf (.bind (ensures_nameOf ?_)))
  refine ensures_ite (fun h => by rw [hop] at h; cases h) fun _ => .bind (ensures_nameOf
    (ensures_write ?_))
  have hn : s.nodes.name (.binary id op lhs rhs) = name := by
    rw [← hname]
    simp only [Nodes.name, Expr.id, hsame]
  have hall : Added w [] { w with sheet := s } := ha.trans hadd
  have h := shows_declare (e := .binary id op lhs rhs) hall
    (.declare ty (s.nodes.name (.binary id op lhs rhs)) (.binary op left (s.nodes.name rhs)))
    (Nat.lt_of_lt_of_le hlt hall.next) (hadd.types _ _ ((Expr.inferType_spec _ _).of_ok hty).2)
  rw [← hl''.name, ← hn]
  rw [← hl''.name] at h
  exact h

theorem Prototype.rule_of_isBuiltin {p : Prototype} {b : Builtin} (h : p.isBuiltin b = true) :
    p.rule = .builtin b := by
  unfold isBuiltin at h
  split at h
  · rename_i hr
    rw [hr, eq_of_beq h]
  · cases h

def ShowsAll (w : Workspace ν) (args : List Expr) (given : List (Spelling × Ty)) : Prop :=
  List.Forall₂ (fun e g => Shows w e g.2 g.1) args given

theorem ShowsAll.later {args : List Expr} {given : List (Spelling × Ty)} {w' : Workspace ν}
    {lines : List Line} (h : ShowsAll w args given) (h' : Added w lines w') : ShowsAll w' args given :=
  h.imp fun _ _ hs => hs.later h'

theorem inferTypes_shown {args : List Expr} {given : List (Spelling × Ty)} (h : ShowsAll w args given) :
    Expr.inferTypes args w.sheet.nodes.types = .ok (given.map Prod.snd) w.sheet.nodes.types := by
  induction h with
  | nil => rfl
  | cons he _ ih =>
    rw [Expr.inferTypes, run_bind_ok (Expr.inferType_known he.typed), run_bind_ok ih]
    rfl

theorem ensures_shownArgs {args : List Expr} {given : List (Spelling × Ty)}
    {done : List (Spelling × Ty) → Sheet → Prop} {failed : Sheet → Prop} (h : ShowsAll w args given)
    (hd : done given w.sheet) : Ensures (Expr.emitArgs args) w.sheet done failed := by
  induction h generalizing done with
  | nil => exact ensures_pure hd
  | cons he _ ih =>
    rw [Expr.emitArgs]
    refine .bind (ensures_ok (Expr.emit_of_visible he.visible) (.bind (ensures_nameOf
      (.bind (ensures_typing (ensures_ok (Expr.inferType_known he.typed)
        (.bind (ih (ensures_pure ?_)))))))))
    rwa [he.name]

theorem emit_call_shows {p : Prototype} {args : List Expr} {given : List (Spelling × Ty)}
    {text : String} (hw : Tidy w) (hid : id ∉ w.sheet.draft.scopes.visible)
    (hlt : id < w.sheet.nodes.next) (hnew : w.sheet.nodes.types.find? id = none)
    (hname : w.sheet.nodes.name (.call id p args) = name) (hargs : ShowsAll w args given)
    (hty : p.returnType (given.map Prod.snd) = .ok ty) (hvoid : ty.isVoid = false)
    (htext : p.callText (given.map fun g => ⟨g.1.text, g.2⟩) = .ok text) :
    Ensures (Expr.call id p args).emit w.sheet
      (fun _ s => Added w [.declare ty name (.call p (given.map Prod.fst) text)] { w with sheet := s } ∧
        Shows { w with sheet := s } (.call id p args) ty name) fun _ => False := by
  subst hname
  have hinfer : (Expr.call id p args).inferType w.sheet.nodes.types =
      .ok ty (w.sheet.nodes.types.insert id ty) := by
    rw [Expr.inferType]
    refine Typing.remember_new hnew ?_
    rw [run_bind_ok (inferTypes_shown hargs), hty]
    rfl
  have ha := Added.insertType hw hlt hnew ty
  rw [Expr.emit]
  refine ensures_once hid hinfer (.bind (ensures_shownArgs (hargs.later ha)
    (.bind (ensures_orFault_of_ok htext ?_))))
  refine ensures_ite (fun h => by rw [hvoid] at h; cases h) fun _ => Ensures.bind
    (ensures_nameOf (ensures_write ?_))
  exact shows_declare (e := .call id p args) ha _ hlt find?_insert_self

end Emission

namespace Build

variable {ν : Type} {w : Workspace ν} {e z : Expr} {lines : List Line} {ty : Ty}
  {name : Spelling} {done : Expr → Workspace ν → Prop} {failed : Workspace ν → Prop}

theorem ensures_addLine {line : Line} {done : Unit → Workspace ν → Prop} (hw : Tidy w)
    (h : ∀ w', Added w [line] w' → w'.labels = w.labels → done () w') :
    Ensures (writeLine line) w done failed :=
  ensures_writeLine (h _ (.line hw line) rfl)

theorem ensures_shownName {done : Spelling → Workspace ν → Prop} (hs : Shows w e ty name)
    (h : done name w) : Ensures (nameOf e) w done failed :=
  ensures_nameOf (hs.name ▸ h)

theorem ensures_emit
    (h : Ensures e.emit w.sheet (fun _ s => Added w lines { w with sheet := s } ∧
      Shows { w with sheet := s } e ty name) fun _ => False)
    (hdone : ∀ w', Added w lines w' → Shows w' e ty name → w'.labels = w.labels → done e w') :
    Ensures (emit e) w done failed := by
  have hvalue : Ensures (emitValue e) w.sheet (fun _ s => ∀ roots, done e { w with sheet := s, roots })
      fun _ => False := by
    refine .bind (h.imp fun _ s hs => ?_)
    have hend (modes : IdTable Divergence) (roots : List Expr) : done e { w with
        sheet := { s with nodes := { s.nodes with modes } }, roots } := by
      have ha := Added.aside hs.1.tidy modes roots w.callables
      exact hdone _ (by simpa using hs.1.trans ha) (hs.2.later ha) rfl
    refine .bind (ensures_inDivergentRegion fun _ modes => ensures_ite (fun _ => ?_)
      fun _ => ?_)
    · exact ensures_diverging fun _ modes roots => hend modes roots
    · exact ensures_pure fun roots => hend modes roots
  refine .bind (.bind (ensures_attempt (fun _ s hs => ?_) fun fault s hs => ?_))
  · exact .bind (ensures_modify (ensures_pure (hvalue.of_ok hs _)))
  · exact (hvalue.of_error hs).elim

theorem ensures_constant (hw : Tidy w) {v : Literal} {text : String} (hty : v.ty = .ok ty)
    (htext : v.text = .ok text)
    (hdone : ∀ e w', Added w [] w' → Shows w' e ty (.constant v text) →
      w'.labels = w.labels → done e w') : Ensures (constant v) w done failed := by
  refine .bind (ensures_making (.bind (ensures_orFault_of_ok htext (ensures_newNode ?_))))
  have hm := Added.make hw
  have hnew := hw.types _ (Nat.le_refl _)
  have hinfer : (Expr.literal w.sheet.nodes.next v).inferType w.sheet.nodes.types =
      .ok ty (w.sheet.nodes.types.insert w.sheet.nodes.next ty) := by
    rw [Expr.inferType]
    refine Typing.remember_new hnew ?_
    rw [hty]
    rfl
  refine ensures_emit ((emit_literal_shows (w := w.made) hw.hidden (Nat.lt_succ_self _) hinfer
    (.insertType hm.tidy (Nat.lt_succ_self _) hnew ty) htext).mono
      (fun _ s h => ⟨h.1, h.2.1⟩) fun _ h => h) fun w' ha hs hl => ?_
  exact hdone _ w' (hm.trans ha) hs hl

theorem ensures_named (hw : Tidy w) {value : Spelling} (hz : Shows w z ty value) (word : String)
    (hdone : ∀ e w', Added w [.declare ty (.word word) (.copy value)] w' →
      Shows w' e ty (.word word) → w'.labels = w.labels → done e w') :
    Ensures (named z word) w done failed := by
  have hm := Added.make hw
  have hr := Added.rename hm.tidy w.sheet.nodes.next hw.hidden (Nat.lt_succ_self _) (.word word)
  have hname : (w.made.sheet.nodes.rename w.sheet.nodes.next (.word word)).name
      (.unary w.sheet.nodes.next .assign z) = .word word := by
    simp [Nodes.name, Nodes.rename, Expr.id]
  refine .bind (ensures_node (.bind (ensures_emitting (ensures_rename ?_))))
  refine ensures_emit (emit_copy_shows hr.tidy hw.hidden (Nat.lt_succ_self _)
    (hw.types _ (Nat.le_refl _)) hname (hz.later (hm.trans hr))) fun w' ha hs hl => ?_
  exact hdone _ w' ((hm.trans hr).trans ha) hs hl

theorem made_name (hw : Tidy w) (hid : e.id = w.sheet.nodes.next)
    (hd : e.defaultName = .temp e.id) : w.made.sheet.nodes.name e = .temp w.sheet.nodes.next := by
  simp only [Nodes.name, Workspace.made, hid, hw.names _ (Nat.le_refl _), Option.getD_none, hd]

theorem ensures_builtin {b : Builtin} {done : Prototype → Workspace ν → Prop}
    (h : ∀ p callables, p.isBuiltin b = true → done p { w with callables }) :
    Ensures (builtin b) w done failed := by
  refine .bind (ensures_get (.bind (ensures_set (ensures_pure (h _ _ ?_)))))
  split
  · split
    · assumption
    · exact beq_self_eq_true b
  · exact beq_self_eq_true b

theorem ensures_apply {b : Builtin} {args : List Expr} (given : List (Spelling × Ty)) (hw : Tidy w)
    (hargs : ShowsAll w args given) (hty : b.returnType (given.map Prod.snd) = .ok ty)
    (hvoid : ty.isVoid = false)
    (htext : ∀ callee, ∃ text, b.callText callee (given.map fun g => ⟨g.1.text, g.2⟩) = .ok text)
    (hdone : ∀ e w' p text, p.isBuiltin b = true →
      b.callText p.name (given.map fun g => ⟨g.1.text, g.2⟩) = .ok text →
      Added w [.declare ty (.temp w.sheet.nodes.next) (.call p (given.map Prod.fst) text)] w' →
      Shows w' e ty (.temp w.sheet.nodes.next) → done e w') :
    Ensures (apply b args) w done failed := by
  refine .bind (ensures_builtin fun p callables hp => .bind (ensures_node ?_))
  have hc := Added.aside hw w.sheet.nodes.modes w.roots callables
  have hm := Added.make hc.tidy
  have hrule := Prototype.rule_of_isBuiltin hp
  obtain ⟨text, htext⟩ := htext p.name
  refine ensures_emit (emit_call_shows hm.tidy hw.hidden (Nat.lt_succ_self _)
    (hw.types _ (Nat.le_refl _)) (made_name hc.tidy rfl rfl) (hargs.later (hc.trans hm))
    (by simpa only [Prototype.returnType, hrule] using hty) hvoid
    (by simpa only [Prototype.callText, hrule] using htext)) fun w' ha hs _ => ?_
  exact hdone _ w' p text hp htext ((hc.trans hm).trans ha) hs

theorem ensures_laneBit (hw : Tidy w)
    (hdone : ∀ e w' p, p.isBuiltin .laneBit = true →
      Added w [.declare .u32 (.temp w.sheet.nodes.next) (.call p [] (plainCall p.name []))] w' →
      Shows w' e .u32 (.temp w.sheet.nodes.next) → done e w') :
    Ensures (apply .laneBit []) w done failed := by
  refine ensures_apply [] hw .nil rfl rfl (fun _ => ⟨_, rfl⟩) fun e w' p text hp ht => ?_
  cases ht
  exact hdone e w' p hp

theorem ensures_binary {op : Op} {a b : Expr} {lty rty : Ty} {left right : Spelling} (hw : Tidy w)
    (hop : op.isAssign = false) (hty : Expr.binaryType op lty rty = .ok ty) (ha : Shows w a lty left)
    (hb : Shows w b rty right)
    (hdone : ∀ e w',
      Added w [.declare ty (.temp w.sheet.nodes.next) (.binary op left right)] w' →
      Shows w' e ty (.temp w.sheet.nodes.next) → done e w') :
    Ensures (binary op a b) w done failed := by
  have hm := Added.make hw
  have hnew := hw.types _ (Nat.le_refl _)
  refine .bind (ensures_pure (.bind (ensures_pure (.bind (ensures_node ?_)))))
  have hinfer : (Expr.binary w.sheet.nodes.next op a b).inferType w.sheet.nodes.types =
      .ok ty (w.sheet.nodes.types.insert w.sheet.nodes.next ty) := by
    rw [Expr.inferType]
    refine Typing.remember_new hnew ?_
    simp only [Bind.bind, EStateM.bind, Expr.inferType_known ha.typed, Expr.inferType_known hb.typed, hty]
    rfl
  have ht := Added.insertType hm.tidy (Nat.lt_succ_self _) hnew ty
  have hb' := (hb.later hm).later ht
  refine ensures_emit (emit_binary_shows hop hw.hidden (Nat.lt_succ_self _) (made_name hw rfl rfl)
    hinfer ht (ha.later hm)
    (ensures_ok (Expr.emit_of_visible hb'.visible) ⟨.refl ht.tidy, hb'.name, rfl⟩)) fun w' hadd hs _ => ?_
  exact hdone _ w' (hm.trans hadd) hs

theorem ensures_binaryConstant {op : Op} {v : Literal} {a : Expr} {lty rty : Ty} {left : Spelling}
    {text : String} (hw : Tidy w) (hop : op.isAssign = false) (hv : v.ty = .ok rty)
    (htext : v.text = .ok text) (hty : Expr.binaryType op lty rty = .ok ty) (ha : Shows w a lty left)
    (hdone : ∀ e w',
      Added w [.declare ty (.temp (w.sheet.nodes.next + 1)) (.binary op left (.constant v text))] w' →
      Shows w' e ty (.temp (w.sheet.nodes.next + 1)) → done e w') :
    Ensures (binary op a v) w done failed := by
  have hm := Added.make hw
  have hm' := Added.make hm.tidy
  have hane : a.id ≠ w.sheet.nodes.next := fun h => hw.hidden (h ▸ ha.visible)
  refine .bind (ensures_pure (.bind (ensures_making (Ensures.bind
    (ensures_orFault_of_ok htext (ensures_newNode (.bind (ensures_node ?_))))))))
  let constant := Expr.literal w.sheet.nodes.next v
  have hz := Added.insertType hm'.tidy (Nat.lt_succ_of_lt (Nat.lt_succ_self _))
    (hw.types _ (Nat.le_refl _)) rty
  have hnew : (w.sheet.nodes.types.insert w.sheet.nodes.next rty).find? (w.sheet.nodes.next + 1) =
      none := by
    simpa using hw.types _ (Nat.le_succ _)
  have ht := Added.insertType hz.tidy (Nat.lt_succ_self _) hnew ty
  have hinfer : (Expr.binary (w.sheet.nodes.next + 1) op a constant).inferType w.sheet.nodes.types =
      .ok ty ((w.sheet.nodes.types.insert w.sheet.nodes.next rty).insert
        (w.sheet.nodes.next + 1) ty) := by
    have hconstant : constant.inferType w.sheet.nodes.types =
        .ok rty (w.sheet.nodes.types.insert w.sheet.nodes.next rty) := by
      rw [Expr.inferType]
      refine Typing.remember_new (hw.types _ (Nat.le_refl _)) ?_
      rw [hv]
      rfl
    have hleft : (w.sheet.nodes.types.insert w.sheet.nodes.next rty).find? a.id = some lty := by
      simpa [hane] using ha.typed
    rw [Expr.inferType]
    refine Typing.remember_new (hw.types _ (Nat.le_succ _)) ?_
    simp only [Bind.bind, EStateM.bind, hconstant, Expr.inferType_known hleft, hty]
    rfl
  let typed : Workspace ν := { w.made.made with sheet := { w.made.made.sheet with
    nodes := { w.made.made.sheet.nodes with
      types := (w.sheet.nodes.types.insert w.sheet.nodes.next rty).insert
        (w.sheet.nodes.next + 1) ty } } }
  have hknown : constant.inferType typed.sheet.nodes.types = .ok rty typed.sheet.nodes.types :=
    Expr.inferType_known (ht.types _ _ find?_insert_self)
  refine ensures_emit (emit_binary_shows hop (fun hv => hm.tidy.hidden hv) (Nat.lt_succ_self _)
    (made_name hm.tidy rfl rfl) hinfer (hz.trans ht) (ha.later (hm.trans hm')) ?_)
    fun w' hadd hs _ => hdone _ w' ((hm.trans hm').trans hadd) hs
  refine (emit_literal_shows (w := typed) hw.hidden (Nat.lt_succ_of_lt (Nat.lt_succ_self _)) hknown
    (.refl ht.tidy) htext).imp (fun _ s h => ?_)
  exact ⟨h.1, h.2.1.name, h.2.2 _ (Nat.succ_ne_self _)⟩

theorem ensures_nonzero {a : Expr} {left : Spelling} (hw : Tidy w) (ha : Shows w a .u32 left)
    (hdone : ∀ e w' n,
      Added w [.declare .bool (.temp n) (.binary .ne left (.constant (.u32 [0]) "u32(0)"))] w' →
      Shows w' e .bool (.temp n) → done e w') :
    Ensures (binary .ne a (Literal.u32 [0])) w done failed :=
  ensures_binaryConstant hw rfl rfl rfl rfl ha fun e w' => hdone e w' _

theorem ensures_maskVariable (hw : Tidy w) (stem : String)
    (hdone : ∀ e w',
      Added w [.declare .u32 (.word (stem ++ "_" ++ toString w.labels))
        (.copy (.constant (.u32 [0]) "u32(0)"))] w' →
      Shows w' e .u32 (.word (stem ++ "_" ++ toString w.labels)) → w'.labels = w.labels + 1 →
      done e w') : Ensures (maskVariable stem) w done failed := by
  have hzero : must (Literal.zero .u32) w = .ok (.u32 [0]) w := rfl
  refine .bind (.bind (ensures_ok hzero (ensures_constant hw rfl rfl
    fun z w₁ h₁ hz hl => .bind (ensures_freshName ?_))))
  have h₂ := Added.relabel h₁.tidy
  rw [← hl] at hdone
  refine ensures_named h₂.tidy (hz.later h₂) _ fun e w' h₃ he hl' => ?_
  exact hdone e w' ((h₁.trans h₂).trans h₃) he hl'

section Scopes

variable {body : Build ν Unit} {P : List Line → Prop} {done : Unit → Workspace ν → Prop}
  {fails : Prop}

theorem ensures_inScope_of {failed : Workspace ν → Prop} (condition : Option Expr)
    (hbody : Ensures body
      { w with sheet := { w.sheet with draft := w.sheet.draft.enterScope condition } }
      (fun _ w' => w'.sheet.draft.scopes.stack = (w.sheet.draft.enterScope condition).scopes.stack ∧
        done () { w' with sheet := { w'.sheet with draft := { w'.sheet.draft with
          scopes := ⟨w.sheet.draft.scopes.visible, w.sheet.draft.scopes.stack⟩ } } }) failed) :
    Ensures (inScope condition body) w done failed := by
  refine .bind (ensures_redraft (.bind (hbody.imp fun _ w' h => ?_)))
  have hleave : w'.sheet.draft.scopes.leave? = some w.sheet.draft.scopes := Memo.leave_of_push h.1
  refine ensures_drafting (.bind (ensures_get ?_))
  rw [hleave]
  exact ensures_set h.2

theorem ensures_inScope (condition : Option Expr)
    (hbody : Ensures body
      { w with sheet := { w.sheet with draft := w.sheet.draft.enterScope condition } }
      (fun _ w' => ∃ lines, P lines ∧ Added
        { w with sheet := { w.sheet with draft := w.sheet.draft.enterScope condition } } lines w')
      fun _ => fails)
    (hw : Tidy w) (hdone : ∀ lines w', P lines → Added w lines w' → done () w') :
    Ensures (inScope condition body) w done fun _ => fails := by
  refine ensures_inScope_of condition (hbody.imp fun _ w' h => ?_)
  obtain ⟨lines, hp, h⟩ := h
  exact ⟨h.stack, hdone lines _ hp (.leave hw h)⟩

def underMask (w : Workspace ν) (mask : Expr) : Workspace ν :=
  { w with sheet := { w.sheet with
    draft := (w.sheet.draft.pushMask mask).enterScope (some mask) } }

theorem ensures_maskedBranch {mask outer : Expr} {masks : List Expr}
    (hm : w.sheet.draft.masks = outer :: masks)
    (hbody : Ensures body (underMask w mask)
      (fun _ w' => ∃ lines, P lines ∧ Added (underMask w mask) lines w') fun _ => fails)
    (hw : Tidy w) (hdone : ∀ lines w', P lines → Added w lines w' → done () w') :
    Ensures (maskedBranch mask body) w done fun _ => fails := by
  refine .bind (ensures_redraft (.bind (ensures_inScope (some mask) hbody
    ⟨hw.visible, hw.names, hw.types⟩ fun lines w' hp h => Ensures.bind
      (ensures_drafting (.bind (ensures_get ?_))))))
  have hmasks : w'.sheet.draft.masks = mask :: outer :: masks := by
    rw [h.masks, Draft.pushMask, hm]
  rw [hmasks]
  refine .bind (ensures_set (ensures_pure (ensures_pure (hdone lines _ hp ?_))))
  exact ⟨⟨h.tidy.visible, h.tidy.names, h.tidy.types⟩, h.visible, h.stack, h.names,
    h.types, h.next, hm.symm, h.wave32, h.labels, h.text⟩

end Scopes

end Build

end ComputeKernel
