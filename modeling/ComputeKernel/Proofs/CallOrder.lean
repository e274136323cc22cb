import ComputeKernel.Proofs.GuardedMasks
import ComputeKernel.Proofs.LawfulScripts
import ComputeKernel.Proofs.LoopExits

namespace ComputeKernel

variable {vouched callees : Prototype → Prop} {α : Type} {D : Events}

section Text

def CallableAfter (vouched : Prototype → Prop) (lines : List Line) (p : Prototype) : Prop :=
  (∃ b, p.rule = .builtin b) ∨ vouched p ∨
    ∃ before definition after, lines = before ++ definition ++ after ∧ Draft.IsDefinition p definition

def CallsFollow (vouched : Prototype → Prop) (lines : List Line) : Prop :=
  ∀ before line after p, lines = before ++ line :: after → line.callee? = some p →
    CallableAfter vouched before p

variable {lines more : List Line} {p : Prototype}

theorem CallableAfter.append (h : CallableAfter vouched lines p) (more : List Line) :
    CallableAfter vouched (lines ++ more) p := by
  rcases h with hbuiltin | hvouched | ⟨before, definition, after, rfl, hdefinition⟩
  · exact .inl hbuiltin
  · exact .inr (.inl hvouched)
  · refine .inr (.inr ⟨before, definition, after ++ more, ?_, hdefinition⟩)
    rw [List.append_assoc]

theorem CallableAfter.extend (h : CallableAfter vouched lines p) (hmore : lines <+: more) :
    CallableAfter vouched more p := by
  obtain ⟨rest, rfl⟩ := hmore
  exact h.append rest

theorem CallsFollow.mono {vouched' : Prototype → Prop} (h : CallsFollow vouched lines)
    (hsub : ∀ p, vouched p → vouched' p) : CallsFollow vouched' lines := by
  intro before line after p heq hp
  rcases h before line after p heq hp with hbuiltin | hvouched | hdefined
  · exact .inl hbuiltin
  · exact .inr (.inl (hsub p hvouched))
  · exact .inr (.inr hdefined)

theorem callsFollow_nil : CallsFollow vouched [] := by
  intro before line after p h
  simp at h

theorem CallsFollow.append (h : CallsFollow vouched lines)
    (hmore : ∀ line ∈ more, ∀ p, line.callee? = some p → CallableAfter vouched lines p) :
    CallsFollow vouched (lines ++ more) := by
  intro before line after p heq hp
  rcases List.append_eq_append_iff.mp heq with ⟨mid, hbefore, hrest⟩ | ⟨mid, hlines, hrest⟩
  · rw [hbefore]
    exact (hmore line (by simp [hrest]) p hp).append mid
  · cases mid with
    | nil =>
      have hmem : line ∈ more := by
        rw [List.nil_append] at hrest
        exact hrest ▸ List.mem_cons_self ..
      rw [List.append_nil] at hlines
      exact hlines ▸ hmore line hmem p hp
    | cons first mid =>
      obtain ⟨rfl, -⟩ := List.cons.inj hrest
      exact h before line mid p hlines hp

end Text

namespace Draft

variable {d d' d'' : Draft} {line : Line}

def contents (d : Draft) : List Line × List (List Line) × List Expr := (d.functions, d.pages, d.masks)

structure Adds (callees : Prototype → Prop) (d d' : Draft) : Prop where
  functions : d'.functions = d.functions
  masks : d'.masks = d.masks
  lines : ∀ line ∈ d'.pages.flatten, line ∈ d.pages.flatten ∨ ∀ p, line.callee? = some p → callees p

theorem Adds.of_contents (h : d'.contents = d.contents) : d.Adds callees d' := by
  simp only [contents, Prod.mk.injEq] at h
  obtain ⟨hfunctions, hpages, hmasks⟩ := h
  exact ⟨hfunctions, hmasks, fun line hline => .inl (hpages ▸ hline)⟩

theorem Adds.trans (h : d.Adds callees d') (h' : d'.Adds callees d'') : d.Adds callees d'' :=
  ⟨h'.functions.trans h.functions, h'.masks.trans h.masks, fun line hline =>
    (h'.lines line hline).elim (h.lines line) .inr⟩

theorem mem_pages_write {other : Line} (h : other ∈ (d.write line).pages.flatten) :
    other ∈ d.pages.flatten ∨ other = line := by
  have henclosing : (d.write line).enclosing = d.enclosing := congrArg Prod.fst (d.context_write line)
  simp only [pages_eq, lines_write, henclosing, List.flatten_cons, List.mem_append,
    List.mem_singleton] at h ⊢
  tauto

theorem Adds.write (h : ∀ p, line.callee? = some p → callees p) : d.Adds callees (d.write line) := by
  have hcontext := d.context_write line
  refine ⟨congrArg (·.2.1) hcontext, congrArg (·.2.2) hcontext, fun other hother => ?_⟩
  rcases mem_pages_write hother with hold | rfl
  · exact .inl hold
  · exact .inr h

theorem Adds.of_noCall (h : line.callee? = none) : d.Adds callees (d.write line) :=
  .write fun _ hp => by rw [h] at hp; cases hp

structure Ordered (vouched : Prototype → Prop) (d : Draft) : Prop where
  functions : CallsFollow vouched d.functions
  pages : ∀ line ∈ d.pages.flatten, ∀ p, line.callee? = some p →
    CallableAfter vouched d.functions p
  masks : ∀ m ∈ d.masks, m.CallsOnly (CallableAfter vouched d.functions)

theorem Ordered.adds (h : d.Ordered vouched) (ha : d.Adds (CallableAfter vouched d.functions) d') :
    d'.Ordered vouched := by
  refine ⟨ha.functions ▸ h.functions, fun line hline p hp => ?_, fun m hm => ?_⟩
  · rw [ha.functions]
    exact (ha.lines line hline).elim (fun hold => h.pages line hold p hp) fun hnew => hnew p hp
  · rw [ha.functions]
    exact h.masks m (ha.masks ▸ hm)

theorem Ordered.enterFunction (h : d.Ordered vouched) : d.enterFunction.Ordered vouched :=
  ⟨h.functions, h.pages, h.masks⟩

theorem Ordered.exitFunction (h : d.Ordered vouched) : Ensures Drafting.exitFunction d
    (fun _ d' => d'.Ordered vouched ∧ d.functions <+: d'.functions) fun _ => True := by
  refine ensures_exitFunction (fun frame frames hframes _ => ?_) trivial fun _ _ _ => trivial
  refine ⟨⟨?_, fun line hline p hp => ?_, fun m hm => ?_⟩, List.prefix_append _ _⟩
  · exact h.functions.append fun line hline p hp =>
      h.pages line (by simp [Draft.pages, hframes, hline]) p hp
  · refine (h.pages line ?_ p hp).append _
    simp only [Draft.pages, hframes, List.map_cons, List.cons_append, List.flatten_cons] at hline ⊢
    exact List.mem_append_right _ hline
  · exact (h.masks m hm).mono fun p hp => hp.append _

end Draft

abbrev SheetCalls (callees : Prototype → Prop) : Judgement Emit := fun _ x _ =>
  Moves (fun s s' => s.draft.Adds callees s'.draft) x

variable {x : Emit α}

theorem calls_of_keeps (h : Keeps (fun s : Sheet => s.draft.contents) x) :
    SheetCalls callees _ x x := fun s =>
  (h s).mono (fun _ _ heq => .of_contents heq) fun _ heq => .of_contents heq

theorem calls_bind {β : Type} {f : α → Emit β} (hx : SheetCalls callees _ x x)
    (hf : ∀ a, SheetCalls callees _ (f a) (f a)) : SheetCalls callees _ (x >>= f) (x >>= f) :=
  Moves.bind (fun h h' => h.trans h') hx hf

theorem calls_making (x : Making α) : SheetCalls callees _ (Emit.making x) (Emit.making x) :=
  calls_of_keeps fun _ => ensures_making (ensures_any (fun _ _ => rfl) fun _ => rfl)

theorem calls_drafting {x : Drafting α} (h : Keeps Draft.contents x) :
    SheetCalls callees _ (Emit.drafting x) (Emit.drafting x) := calls_of_keeps (keeps_drafting h)

theorem calls_redraft {f : Draft → Draft} (h : ∀ d, (f d).contents = d.contents) :
    SheetCalls callees _ (Emit.redraft f) (Emit.redraft f) := calls_of_keeps fun s => h s.draft

theorem calls_write {line : Line} (h : ∀ p, line.callee? = some p → callees p) :
    SheetCalls callees _ (Emit.write line) (Emit.write line) := fun _ => .write h

theorem calls_branch {x : Emit Unit} (hx : SheetCalls callees _ x x) (cond target value : Expr) :
    SheetCalls callees _ (Emit.branch cond target value x) (Emit.branch cond target value x) :=
  calls_bind (calls_redraft fun _ => rfl) fun _ => calls_bind hx fun _ =>
    calls_bind (calls_of_keeps (keeps_nameOf _)) fun _ =>
      calls_bind (calls_of_keeps (keeps_nameOf _)) fun _ =>
        calls_bind (calls_write fun _ hp => by cases hp) fun _ =>
          calls_drafting (keeps_exitScope fun _ _ => rfl)

instance : (SheetCalls callees).Emission callees where
  pure _ := calls_of_keeps (keeps_pure _)
  bind hx hf := Moves.bind (fun h h' => h.trans h') hx hf
  orFault r := calls_of_keeps (keeps_orFault r)
  typing e := calls_making (.typing e.inferType)
  nameOf e := calls_of_keeps (keeps_nameOf e)
  rename id name := calls_of_keeps (keeps_rename id name)
  write line hs := fun _ => .of_noCall hs.callee
  writeCall line p hp hcallee := calls_write fun q hq => by
    rw [hp] at hq
    cases hq
    exact hcallee
  registerType ty := calls_drafting (keeps_registerType (fun _ _ _ => rfl) ty)
  registerResource res :=
    calls_drafting (keeps_registerResource (fun _ _ _ => rfl) (fun _ _ => rfl) res)
  noteWrite target := calls_of_keeps (keeps_noteWrite target)
  once e body body' h := by
    intro s
    by_cases hvisible : s.draft.scopes.isVisible e.id = true
    · exact ensures_ok (once_of_visible hvisible) (.of_contents rfl)
    · refine .of_eq (once_of_hidden hvisible) ?_
      exact calls_bind (calls_making (.typing e.inferType)) (fun ty => calls_bind (h ty) fun _ =>
        calls_redraft (f := (·.mark e.id)) fun _ => rfl) s
  choose cond target yes no x x' y y' hx hy :=
    calls_bind (calls_of_keeps (keeps_nameOf cond)) fun _ =>
      calls_bind (calls_write fun _ hp => by cases hp) fun _ =>
        calls_bind (calls_branch hx cond target yes) fun _ =>
          calls_bind (calls_write fun _ hp => by cases hp) fun _ =>
            calls_bind (calls_branch hy cond target no) fun _ =>
              calls_write fun _ hp => by cases hp

def Item.Usable (callees : Prototype → Prop) : Item → Prop
  | .value e => e.CallsOnly callees
  | .callee p => callees p
  | .name _ => True

theorem Item.Usable.mono {callees' : Prototype → Prop} {i : Item} (h : i.Usable callees)
    (hsub : ∀ p, callees p → callees' p) : i.Usable callees' := by
  cases i with
  | value e => exact Expr.CallsOnly.mono h hsub
  | callee p => exact hsub p h
  | name x => trivial

theorem Assembled.usable {K : Stock} {mk : Nat → Expr}
    (h : Assembled K mk) (hK : ∀ i, K i → i.Usable callees) (n : Nat) :
    (mk n).CallsOnly callees :=
  Expr.callsOnly_of_operands (fun d hd => hK _ (h.operand n d hd))
    fun p hp => hK _ (h.callee n p hp)

section Workspaces

open Script

variable {w w' : Workspace Notebook}

abbrev Workspace.callable (vouched : Prototype → Prop) (w : Workspace Notebook) : Prototype → Prop :=
  CallableAfter vouched w.sheet.draft.functions

structure Workspace.Ordered (vouched : Prototype → Prop) (D : Events)
    (w : Workspace Notebook) : Prop where
  draft : w.sheet.draft.Ordered vouched
  table : ∀ name p, w.callables.find? name = some p →
    p.name = name ∧ (w.callable vouched p ∨ .registers p ∈ D)
  returned : ∀ p, .returns p ∈ D → w.callable vouched p
  held : ∀ e ∈ w.notes.held, e.CallsOnly (w.callable vouched)

structure Workspace.Reached (vouched : Prototype → Prop) (D : Events)
    (out : List Item) (w w' : Workspace Notebook) : Prop where
  ordered : w'.Ordered vouched D
  functions : w.sheet.draft.functions <+: w'.sheet.draft.functions
  items : ∀ i ∈ out, i.Usable (w'.callable vouched)

structure Workspace.Writes (vouched : Prototype → Prop) (out : List Item)
    (w w' : Workspace Notebook) : Prop where
  draft : w.sheet.draft.Adds (w.callable vouched) w'.sheet.draft
  table : w'.callables = w.callables
  held : w'.notes.held = w.notes.held
  items : ∀ i ∈ out, i.Usable (w.callable vouched)

theorem Workspace.Writes.reached {out : List Item} (h : w.Writes vouched out w')
    (hw : w.Ordered vouched D) : w.Reached vouched D out w' := by
  have hcallable : w'.callable vouched = w.callable vouched := by
    unfold callable
    rw [h.draft.functions]
  refine ⟨⟨hw.draft.adds h.draft, fun name p hp => ?_, fun p hp => ?_, fun e he => ?_⟩, ?_, ?_⟩
  · rw [hcallable]
    exact hw.table name p (h.table ▸ hp)
  · rw [hcallable]
    exact hw.returned p hp
  · rw [hcallable]
    exact hw.held e (h.held ▸ he)
  · exact h.draft.functions ▸ List.prefix_rfl
  · exact hcallable ▸ h.items

theorem Workspace.Writes.of_sheet {sheet : Sheet}
    (h : sheet.draft.contents = w.sheet.draft.contents) :
    w.Writes vouched [] { w with sheet } :=
  ⟨.of_contents h, rfl, rfl, fun _ hi => by cases hi⟩

theorem Workspace.Writes.refl (w : Workspace Notebook) : w.Writes vouched [] w := .of_sheet rfl

theorem Workspace.Ordered.next (h : w.Ordered vouched D) {event : FunctionEvent}
    (hreturned : ∀ p, event = .returns p → w.callable vouched p) :
    w.Ordered vouched (D ++ [event]) where
  draft := h.draft
  table name p hp := (h.table name p hp).imp_right (.imp_right (List.mem_append_left _))
  returned p hp := (List.mem_append.mp hp).elim (h.returned p) fun hlast =>
    hreturned p (List.mem_singleton.mp hlast).symm
  held := h.held

theorem Workspace.Ordered.register {p : Prototype} (h : w.Ordered vouched D)
    (hp : w.callable vouched p ∨ .registers p ∈ D) :
    Workspace.Ordered vouched D { w with callables := w.callables.register p } := by
  refine ⟨h.draft, fun name q hq => ?_, h.returned, h.held⟩
  rw [CallTable.find?_register] at hq
  split at hq
  · rename_i hname
    cases hq
    exact ⟨hname.symm, hp⟩
  · exact h.table name q hq

theorem Workspace.Ordered.remask (masks : List Expr) (h : w.Ordered vouched D)
    (hmasks : ∀ m ∈ masks, m.CallsOnly (w.callable vouched)) : Workspace.Ordered vouched D
      { w with sheet := { w.sheet with draft := { w.sheet.draft with masks } } } :=
  ⟨⟨h.draft.functions, h.draft.pages, hmasks⟩, h.table, h.returned, h.held⟩

theorem Workspace.ordered_start (settings : Settings) (first : Nat) :
    (Workspace.start settings first {}).Ordered vouched [] where
  draft := ⟨callsFollow_nil, fun _ hline => (by cases hline), fun _ hm => by cases hm⟩
  table name p hp := by
    obtain ⟨rfl, b, rfl⟩ := CallTable.find?_standard hp
    exact ⟨rfl, .inl (.inl ⟨b, rfl⟩)⟩
  returned _ hp := by cases hp
  held _ he := by cases he

end Workspaces

namespace Build

open Bears (items)
open Script Scripted

variable {K : Stock} {β : Type}

def Orders (vouched : Prototype → Prop) : Tracking Events Notebook := fun D D' K _ _ x _ =>
  ∀ w, w.Ordered vouched D → (∀ i, K i → i.Usable (w.callable vouched)) →
    Ensures x w (fun a w' => w.Reached vouched D' (items a) w') fun _ => True

variable {x : Scripted α}

theorem orders_bind [Bears α] [Bears β] {D₁ D₂ : Events} {f : α → Scripted β}
    (hx : Orders vouched D D₁ K α x x) (hf : ∀ a, Orders vouched D₁ D₂ (K.adding a) β (f a) (f a)) :
    Orders vouched D D₂ K β (x >>= f) (x >>= f) := by
  intro w hw hK
  refine .bind ((hx w hw hK).imp fun a w₁ h₁ => ?_)
  have hK₁ : ∀ i, K.adding a i → i.Usable (w₁.callable vouched) := fun i hi =>
    hi.elim (h₁.items i) fun hi => (hK i hi).mono fun p hp => hp.extend h₁.functions
  refine (hf a w₁ h₁.ordered hK₁).imp (fun b w₂ h₂ => ?_)
  exact { h₂ with functions := h₁.functions.trans h₂.functions }

theorem orders_of_writes [Bears α]
    (h : ∀ w, w.Ordered vouched D → (∀ i, K i → i.Usable (w.callable vouched)) →
      Ensures x w (fun a w' => w.Writes vouched (items a) w') fun _ => True) :
    Orders vouched D D K α x x := fun w hw hK =>
  (h w hw hK).imp (fun _ _ ha => ha.reached hw)

theorem orders_of_keeps [Bare α]
    (h : ∀ w, Ensures x w (fun _ w' => w.Writes vouched [] w') fun _ => True) :
    Orders vouched D D K α x x := orders_of_writes fun w _ _ => h w

theorem orders_emitting [Bare α] {x : Emit α} (h : Keeps (fun s : Sheet => s.draft.contents) x) :
    Orders vouched D D K α (emitting x) (emitting x) :=
  orders_of_keeps fun w => ensures_emitting ((h w.sheet).mono (fun _ _ heq => .of_sheet heq)
    fun _ _ => trivial)

theorem orders_drafting [Bare α] {x : Drafting α} (h : Keeps Draft.contents x) :
    Orders vouched D D K α (drafting x) (drafting x) := orders_emitting (keeps_drafting h)

theorem orders_redraft {f : Draft → Draft} (h : ∀ d, (f d).contents = d.contents) :
    Orders vouched D D K _ (redraft f) (redraft f) := orders_emitting fun s => h s.draft

theorem Crafted.ensures {x : Making Expr} (h : Crafted K x) (w : Workspace Notebook)
    (hK : ∀ i, K i → i.Usable (w.callable vouched)) :
    Ensures (Emit.making x) w.sheet
      (fun e sheet => w.Writes vouched (items e) { w with sheet })
      fun sheet => w.Writes vouched [] { w with sheet } := by
  refine ComputeKernel.ensures_making ((h w.sheet.nodes).mono (fun e nodes he => ?_)
    fun _ _ => .of_sheet rfl)
  obtain ⟨mk, hmk, rfl, -⟩ := he
  refine { Workspace.Writes.of_sheet rfl with items := fun i hi => ?_ }
  exact List.mem_singleton.mp hi ▸ hmk.usable hK _

theorem orders_making {x : Making Expr} (h : Crafted K x) :
    Orders vouched D D K _ (making x) (making x) :=
  orders_of_writes fun w _ hK => ensures_emitting ((h.ensures w hK).mono (fun _ _ h => h)
    fun _ _ => trivial)

theorem orders_swizzle (e : Expr) (lanes : String) (h : K.Has (items e)) :
    Orders vouched D D K _ (attempt (.making (.swizzle e lanes)))
      (attempt (.making (.swizzle e lanes))) :=
  orders_of_writes fun w _ hK =>
    have hmake := (crafted_swizzle e lanes h).ensures w hK
    ensures_attempt (fun _ _ hrun => hmake.of_ok hrun) fun _ _ hrun => hmake.of_error hrun

theorem calls_emitValue {e : Expr} (h : e.CallsOnly callees) :
    SheetCalls callees _ (emitValue e) (emitValue e) := by
  refine calls_bind (e.judged_emit (J := SheetCalls callees) h).holds fun _ => calls_of_keeps ?_
  refine .bind (fun _ => ?_) fun _ => ?_
  · exact ensures_inDivergentRegion fun _ _ => rfl
  · exact keeps_ite (keeps_diverging _) (keeps_pure _)

theorem orders_tryEmit (e : Expr) (h : K.Has (items e)) :
    Orders vouched D D K _ (tryEmit e) (tryEmit e) := by
  refine orders_of_writes fun w _ hK => ?_
  have he : e.CallsOnly (w.callable vouched) := hK _ h.value
  have hemit := calls_emitValue he w.sheet
  refine .bind (ensures_attempt (fun _ sheet hrun => ?_) fun fault sheet hrun => ?_)
  · refine .bind (ensures_modify (ensures_pure ⟨hemit.of_ok hrun, rfl, rfl, fun i hi => ?_⟩))
    exact List.mem_singleton.mp hi ▸ he
  · exact ensures_pure ⟨hemit.of_error hrun, rfl, rfl, fun _ hi => by cases hi⟩

theorem builtin_cases (t : CallTable) (b : Builtin) :
    (∃ c, (t.builtin b).1.rule = .builtin c) ∧
      ((t.builtin b).2 = t ∨ (t.builtin b).2 = t.register (.ofBuiltin b)) := by
  unfold CallTable.builtin
  split
  · rename_i p _
    split
    · rename_i hp
      refine ⟨?_, .inl rfl⟩
      unfold Prototype.isBuiltin at hp
      split at hp
      · exact ⟨_, ‹_›⟩
      · cases hp
    · exact ⟨⟨b, rfl⟩, .inr rfl⟩
  · exact ⟨⟨b, rfl⟩, .inr rfl⟩

theorem orders_builtin (b : Builtin) : Orders vouched D D K _ (builtin b) (builtin b) := by
  intro w hw hK
  obtain ⟨hbuiltin, htable⟩ := builtin_cases w.callables b
  have hordered :
      Workspace.Ordered vouched D { w with callables := (w.callables.builtin b).2 } := by
    rcases htable with hsame | hnew
    · rw [hsame]
      exact hw
    · rw [hnew]
      exact hw.register (.inl (.inl ⟨b, rfl⟩))
  refine .bind (ensures_get (.bind (ensures_set (ensures_pure ?_))))
  exact ⟨hordered, List.prefix_rfl, fun i hi => List.mem_singleton.mp hi ▸ .inl hbuiltin⟩

theorem orders_function? (name : String)
    (h : ∀ p, p.name = name → .registers p ∈ D → .returns p ∈ D ∨ vouched p) :
    Orders vouched D D K _ (function? name) (function? name) := by
  refine orders_of_writes fun w hw _ => .bind (ensures_get (ensures_pure ?_))
  refine { Workspace.Writes.refl w with items := fun i hi => ?_ }
  cases hfind : w.callables.find? name with
  | none =>
    rw [hfind] at hi
    cases hi
  | some p =>
    rw [hfind] at hi
    rw [List.mem_singleton.mp hi]
    obtain ⟨hname, hcallable | hregistered⟩ := hw.table name p hfind
    · exact hcallable
    · exact (h p hname hregistered).elim (hw.returned p) fun hp => .inr (.inl hp)

theorem orders_currentMask : Orders vouched D D K _ currentMask currentMask := by
  refine orders_of_writes fun w hw _ => ensures_drafting (.bind (ensures_get ?_))
  cases hmasks : w.sheet.draft.masks with
  | nil => exact ensures_throw trivial
  | cons mask masks =>
    refine ensures_pure { Workspace.Writes.of_sheet rfl with items := fun i hi => ?_ }
    exact List.mem_singleton.mp hi ▸ hw.draft.masks mask (by simp [hmasks])

theorem orders_popMask : Orders vouched D D K _ (drafting .popMask) (drafting .popMask) := by
  intro w hw _
  refine ensures_drafting (.bind (ensures_get ?_))
  have hmasks := hw.draft.masks
  rcases hstack : w.sheet.draft.masks with _ | ⟨mask, _ | ⟨next, masks⟩⟩
  · exact ensures_throw trivial
  · exact ensures_throw trivial
  · rw [hstack] at hmasks
    refine .bind (ensures_set (ensures_pure ⟨?_, List.prefix_rfl, fun i hi => ?_⟩))
    · exact hw.remask (next :: masks) fun m hm => hmasks m (List.mem_cons_of_mem _ hm)
    · exact List.mem_singleton.mp hi ▸ hmasks mask (List.mem_cons_self ..)

theorem orders_pushMask (mask : Expr) (h : K.Has (items mask)) :
    Orders vouched D D K _ (redraft (·.pushMask mask)) (redraft (·.pushMask mask)) := by
  intro w hw hK
  refine ensures_redraft ⟨hw.remask (mask :: w.sheet.draft.masks) fun m hm => ?_,
    List.prefix_rfl, fun _ hi => by cases hi⟩
  rcases List.mem_cons.mp hm with rfl | hm
  · exact hK _ h.value
  · exact hw.draft.masks m hm

theorem orders_seedMask (seed : Expr) (h : K.Has (items seed)) :
    Orders vouched D D K _ (redraft (·.enableWave32 seed)) (redraft (·.enableWave32 seed)) := by
  intro w hw hK
  have hseed := hw.remask [seed] fun m hm => List.mem_singleton.mp hm ▸ hK _ h.value
  exact ensures_redraft ⟨⟨⟨hseed.draft.functions, hseed.draft.pages, hseed.draft.masks⟩,
    hseed.table, hseed.returned, hseed.held⟩, List.prefix_rfl, fun _ hi => by cases hi⟩

theorem orders_line {line : Line} (h : line.callee? = none) :
    Orders vouched D D K _ (writeLine line) (writeLine line) :=
  orders_of_writes fun _ _ _ => ensures_writeLine ⟨.of_noCall h, rfl, rfl, fun _ hi => by cases hi⟩

theorem orders_setGroupSize (size : GroupSize) :
    Orders vouched D D K _ (setGroupSize size) (setGroupSize size) :=
  orders_of_keeps fun w => ensures_setGroupSize (.of_sheet rfl) (fun _ => .refl w) trivial

theorem orders_exitFunction :
    Orders vouched D D K _ (drafting .exitFunction) (drafting .exitFunction) := by
  intro w hw _
  refine ensures_drafting (hw.draft.exitFunction.imp fun _ draft hd => ?_)
  obtain ⟨hdraft, hfunctions⟩ := hd
  refine ⟨⟨hdraft, fun name p hp => ?_, fun p hp => ?_, fun e he => ?_⟩, hfunctions,
    fun _ hi => by cases hi⟩
  · exact (hw.table name p hp).imp_right (.imp_left (·.extend hfunctions))
  · exact (hw.returned p hp).extend hfunctions
  · exact (hw.held e he).mono fun p hp => hp.extend hfunctions

theorem orders_spread (first last counter : Expr) :
    Orders vouched D D K _ (spread first last counter) (spread first last counter) := by
  refine orders_bind (orders_emitting (keeps_diverging _)) fun either => ?_
  split
  · exact orders_emitting (keeps_diverging _)
  · exact orders_of_keeps fun w => ensures_pure (.refl w)

instance : (Orders vouched).Chains where
  pure _ h := orders_of_writes fun w _ hK => ensures_pure
    { Workspace.Writes.refl w with items := fun i hi => hK i (h.each i hi) }
  bind hx hf := orders_bind hx hf
  grow hK hx := fun w hw hK' => hx w hw fun i hi => hK' i (hK.kept i hi)

instance : FunctionStatements (Orders vouched) where
  throw _ := fun _ _ _ => trivial
  node _ h _ := orders_making (crafted_node h)
  place _ h := Tracking.Chains.emitted (orders_making (crafted_node h))
    (fun e => orders_tryEmit e inferInstance) fun _ _ _ _ => trivial
  literal l := orders_making (crafted_literal l)
  array elem length init := Tracking.Chains.emitted
    (orders_making (crafted_array elem length init)) (fun e => orders_tryEmit e inferInstance)
    fun _ _ _ _ => trivial
  swizzle e lanes := fun h => orders_swizzle e lanes h
  typeOf e := fun _ => orders_emitting (keeps_typing e.inferType)
  nameOf _ := orders_of_keeps fun w => ensures_nameOf (.refl w)
  rename e name := orders_emitting (keeps_rename e.id (.word name))
  tryEmit e := fun h => orders_tryEmit e h
  builtin b := orders_builtin b
  freshName _ := orders_of_keeps fun _ =>
    ensures_freshName ⟨.of_contents rfl, rfl, rfl, fun _ hi => by cases hi⟩
  draft := orders_of_keeps fun w => .refl w
  currentMask := orders_currentMask
  addShared name ty :=
    orders_drafting (keeps_addShared (fun _ _ _ => rfl) (fun _ _ => rfl) name ty)
  setGroupSize size := orders_setGroupSize size
  writeHeader _ := orders_redraft fun _ => rfl
  writeLine _ hs _ := orders_line hs.callee
  ballot _ _ _ _ := orders_line rfl
  noteSync := orders_redraft fun _ => rfl
  seedMask seed := fun h => orders_seedMask seed h
  line _ hs := orders_line hs.callee
  enterScope _ := orders_redraft fun _ => rfl
  exitScope := orders_drafting (keeps_exitScope fun _ _ => rfl)
  pushTarget _ := orders_redraft fun _ => rfl
  popTarget := orders_drafting (keeps_popTarget fun _ _ => rfl)
  pushMask mask := fun h => orders_pushMask mask h
  popMask := orders_popMask
  enterFunction := fun _ hw _ => ensures_redraft
    ⟨⟨hw.draft.enterFunction, hw.table, hw.returned, hw.held⟩, List.prefix_rfl,
      fun _ hi => by cases hi⟩
  openFunction _ _ := orders_line rfl
  exitFunction := orders_exitFunction
  checkBreak what := orders_drafting (keeps_checkBreak what)
  checkContinue := orders_drafting keeps_checkContinue
  spread first last counter := orders_spread first last counter

end Build

end ComputeKernel
