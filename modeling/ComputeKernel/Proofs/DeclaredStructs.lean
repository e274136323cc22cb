import ComputeKernel.Proofs.DefinitionOrder
import ComputeKernel.Proofs.StructSources

namespace ComputeKernel

open Script

variable {known : Ty → Prop} {w : Workspace Notebook} {e : Expr}
  {vouched pending : Prototype → Prop} {D : Events}

def Foreign (vouched : Prototype → Prop) (roots : List Expr) (s : Ty) : Prop :=
  (∃ id name ty, .input id (.custom name ty) ∈ roots ∧ s ∈ ty.structs) ∨
    ∃ p, vouched p ∧ p.Introduces s

def Item.Grounded (known : Ty → Prop) (next : Nat) : Item → Prop
  | .value e => e.Grounded known next
  | .callee p => p.Yields known
  | .name _ => True

variable {known' : Ty → Prop}

theorem Item.Grounded.mono {next next' : Nat} {i : Item} (h : i.Grounded known next)
    (hsub : ∀ s, known s → known' s) (hnext : next ≤ next') : i.Grounded known' next' := by
  cases i with
  | value e => exact Expr.Grounded.mono h hsub hnext
  | callee p => exact Prototype.Yields.mono h hsub
  | name x => trivial

theorem Assembled.grounded {K : Stock} {mk : Nat → Expr} {next : Nat}
    (h : Assembled K mk) (hK : ∀ i, K i → i.Grounded known next) (hsub : ∀ s, known s → known' s)
    (htypes : ∀ ty ∈ (mk next).supplies, ty.MadeOf known') :
    (mk next).Grounded known' (next + 1) := by
  refine Expr.grounded_iff.mpr ⟨⟨htypes, fun p hp => ?_, ?_⟩, fun c hc => ?_⟩
  · exact Prototype.Yields.mono (hK _ (h.callee next p hp)) hsub
  · rw [h.id]
    exact Nat.lt_succ_self next
  · exact Expr.Grounded.mono (hK _ (h.operand next c hc)) hsub (Nat.le_succ next)

theorem Sheet.Accounted.mono {next : Nat} {s : Sheet} (h : s.Accounted known pending next)
    (hsub : ∀ st, known st → known' st) : s.Accounted known' pending next where
  numbered := h.numbered
  types id ty hty := (h.types id ty hty).mono hsub
  draft := h.draft.mono hsub (fun _ hp => hp) (Nat.le_refl _)

namespace Workspace

variable {w' w'' : Workspace Notebook}

def Knows (vouched : Prototype → Prop) (w : Workspace Notebook) (s : Ty) : Prop :=
  s ∈ w.sheet.draft.structs ∨ Foreign vouched w.roots s

structure Expands (w w' : Workspace Notebook) : Prop where
  structs : w.sheet.draft.structs ⊆ w'.sheet.draft.structs
  roots : w.roots ⊆ w'.roots
  next : w.sheet.nodes.next ≤ w'.sheet.nodes.next

theorem Expands.refl (w : Workspace Notebook) : w.Expands w :=
  ⟨List.Subset.refl _, List.Subset.refl _, Nat.le_refl _⟩

theorem Expands.trans (h : w.Expands w') (h' : w'.Expands w'') : w.Expands w'' :=
  ⟨List.Subset.trans h.structs h'.structs, List.Subset.trans h.roots h'.roots,
    Nat.le_trans h.next h'.next⟩

theorem Expands.knows (h : w.Expands w') (s : Ty) (hs : w.Knows vouched s) : w'.Knows vouched s :=
  hs.imp (fun hs => h.structs hs) (.imp_left fun ⟨id, name, ty, he, hs⟩ =>
    ⟨id, name, ty, h.roots he, hs⟩)

abbrev Supports (vouched : Prototype → Prop) (w : Workspace Notebook) (i : Item) : Prop :=
  i.Grounded (w.Knows vouched) w.sheet.nodes.next

theorem Expands.supports {i : Item} (h : w.Expands w') (hi : w.Supports vouched i) :
    w'.Supports vouched i := hi.mono h.knows h.next

variable {p : Prototype} {sheet : Sheet}

theorem supports_of_vouched (h : vouched p) : w.Supports vouched (.callee p) :=
  fun _ hs _ => .inr (.inr ⟨p, h, hs⟩)

structure Accounted (vouched : Prototype → Prop) (D : Events)
    (pending : Prototype → Prop) (w : Workspace Notebook) : Prop where
  sheet : w.sheet.Accounted (w.Knows vouched) pending w.sheet.nodes.next
  table : ∀ name p, w.callables.find? name = some p →
    p.name = name ∧ (w.Supports vouched (.callee p) ∨ .registers p ∈ D)
  returned : ∀ p, .returns p ∈ D → w.Supports vouched (.callee p)
  held : ∀ e ∈ w.notes.held, w.Supports vouched (.value e)

structure Furthers (vouched : Prototype → Prop) (D : Events) (pending : Prototype → Prop)
    (out : List Item) (w w' : Workspace Notebook) : Prop where
  accounted : w'.Accounted vouched D pending
  expands : w.Expands w'
  items : ∀ i ∈ out, w'.Supports vouched i

theorem Accounted.refl (h : w.Accounted vouched D pending) : w.Furthers vouched D pending [] w :=
  ⟨h, .refl w, fun _ hi => by cases hi⟩

theorem Accounted.advance {next : Nat} {roots : List Expr}
    (h : w.Accounted vouched D pending) (hexpands : w.Expands { w with sheet, roots })
    (hsheet : sheet.Accounted known pending next)
    (hknown : ∀ s, known s → Knows vouched { w with sheet, roots } s) :
    w.Furthers vouched D pending [] { w with sheet, roots } where
  accounted := {
    sheet := hsheet.numbered ▸ hsheet.mono hknown
    table := fun name p hp => (h.table name p hp).imp_right (.imp_left hexpands.supports)
    returned := fun p hp => hexpands.supports (h.returned p hp)
    held := fun e he => hexpands.supports (h.held e he) }
  expands := hexpands
  items _ hi := by cases hi

theorem Accounted.resheet (h : w.Accounted vouched D pending)
    (hsheet : sheet.Accounted (w.Knows vouched) pending w.sheet.nodes.next)
    (hstructs : w.sheet.draft.structs ⊆ sheet.draft.structs) :
    w.Furthers vouched D pending [] { w with sheet } :=
  have hexpands : w.Expands { w with sheet } :=
    ⟨hstructs, List.Subset.refl _, Nat.le_of_eq hsheet.numbered.symm⟩
  h.advance hexpands hsheet hexpands.knows

theorem Accounted.repend {pending' : Prototype → Prop} (h : w.Accounted vouched D pending)
    (hdraft : w.sheet.draft.Accounted (w.Knows vouched) pending' w.sheet.nodes.next) :
    w.Accounted vouched D pending' :=
  ⟨⟨rfl, h.sheet.types, hdraft⟩, h.table, h.returned, h.held⟩

theorem Accounted.redraft {draft : Draft} (h : w.Accounted vouched D pending)
    (hdraft : draft.Accounted (w.Knows vouched) pending w.sheet.nodes.next)
    (hstructs : w.sheet.draft.structs ⊆ draft.structs) :
    w.Furthers vouched D pending [] { w with sheet := { w.sheet with draft } } :=
  h.resheet ⟨rfl, h.sheet.types, hdraft⟩ hstructs

theorem Accounted.ensures {α : Type} {x : Emit α} {P : α → Prop} (h : w.Accounted vouched D pending)
    (hx : (accounting (w.Knows vouched) pending w.sheet.nodes.next).Obeys x P) :
    Ensures x w.sheet (fun a sheet => w.Furthers vouched D pending [] { w with sheet } ∧ P a)
      fun sheet => w.Furthers vouched D pending [] { w with sheet } := by
  refine ((hx w.sheet h.sheet).mono (fun a sheet hs => ?_) fun _ _ hs => hs).ensures
    fun _ sheet hs => h.resheet hs.2.1 hs.2.2
  exact ⟨h.resheet hs.1 hs.2.1, hs.2.2⟩

theorem Accounted.next (h : w.Accounted vouched D pending) {event : FunctionEvent}
    (hreturned : ∀ p, event = .returns p → w.Supports vouched (.callee p)) :
    w.Accounted vouched (D ++ [event]) pending where
  sheet := h.sheet
  table name p hp := (h.table name p hp).imp_right (.imp_right (List.mem_append_left _))
  returned p hp := (List.mem_append.mp hp).elim (h.returned p) fun hlast =>
    hreturned p (List.mem_singleton.mp hlast).symm
  held := h.held

theorem Accounted.register (h : w.Accounted vouched D pending)
    (hp : w.Supports vouched (.callee p) ∨ .registers p ∈ D) :
    Accounted vouched D pending { w with callables := w.callables.register p } := by
  refine ⟨h.sheet, fun name q hq => ?_, h.returned, h.held⟩
  rw [CallTable.find?_register] at hq
  split at hq
  · rename_i hname
    cases hq
    exact ⟨hname.symm, hp⟩
  · exact h.table name q hq

theorem accounted_start (settings : Settings) (first : Nat) :
    (Workspace.start settings first {}).Accounted vouched [] pending where
  sheet := {
    numbered := rfl
    types := fun _ _ hty => by cases hty
    draft := {
      made := fun _ hid => by cases hid
      declared := Draft.declared_start settings
      resources := fun _ he => by cases he
      masks := fun _ hm => by cases hm
      lines := fun _ hline => by cases hline } }
  table name p hp := by
    obtain ⟨rfl, b, rfl⟩ := CallTable.find?_standard hp
    exact ⟨rfl, .inl (Prototype.yields_of_builtin rfl)⟩
  returned _ hp := by cases hp
  held _ he := by cases he

end Workspace

namespace Build

open Bears (items)
open Scripted

variable {K : Stock} {α β : Type}

def Declares (vouched : Prototype → Prop) : Tracking Events Notebook := fun D D' K _ _ x _ =>
  ∀ pending w, w.Accounted vouched D pending → (∀ i, K i → w.Supports vouched i) →
    Ensures x w (fun a w' => w.Furthers vouched D' pending (items a) w') fun _ => True

variable {x : Scripted α}

theorem declares_bind [Bears α] [Bears β] {D₁ D₂ : Events}
    {f : α → Scripted β} (hx : Declares vouched D D₁ K α x x)
    (hf : ∀ a, Declares vouched D₁ D₂ (K.adding a) β (f a) (f a)) :
    Declares vouched D D₂ K β (x >>= f) (x >>= f) := by
  intro pending w hw hK
  refine .bind ((hx pending w hw hK).imp fun a w₁ h₁ => ?_)
  have hK₁ : ∀ i, K.adding a i → w₁.Supports vouched i := fun i hi =>
    hi.elim (h₁.items i) fun hi => h₁.expands.supports (hK i hi)
  refine (hf a pending w₁ h₁.accounted hK₁).imp (fun b w₂ h₂ => ?_)
  exact { h₂ with expands := h₁.expands.trans h₂.expands }

instance : (Declares vouched).Chains where
  pure _ h := fun _ _ hw hK => ensures_pure { hw.refl with items := fun i hi => hK i (h.each i hi) }
  bind hx hf := declares_bind hx hf
  grow hK hx := fun pending w hw hK' => hx pending w hw fun i hi => hK' i (hK.kept i hi)

theorem declares_of_keeps [Bare α] (h : ∀ w : Workspace Notebook, Ensures x w
    (fun _ w' => (w'.sheet, w'.roots, w'.callables, w'.notes.held) =
      (w.sheet, w.roots, w.callables, w.notes.held)) fun _ => True) :
    Declares vouched D D K α x x := by
  intro pending w hw _
  refine (h w).imp (fun _ w' heq => ?_)
  obtain ⟨name, sheet, callables, roots, labels, notes⟩ := w'
  simp only [Prod.mk.injEq] at heq
  obtain ⟨rfl, rfl, rfl, hheld⟩ := heq
  exact ⟨⟨hw.sheet, hw.table, hw.returned, hheld ▸ hw.held⟩,
    ⟨List.Subset.refl _, List.Subset.refl _, Nat.le_refl _⟩, fun _ hi => by cases hi⟩

theorem declares_emitting [Bare α] {x : Emit α}
    (h : ∀ known pending next, (∀ i, K i → i.Grounded known next) →
      (accounting known pending next).Upholds x) :
    Declares vouched D D K α (emitting x) (emitting x) := fun pending _ hw hK =>
  ensures_emitting ((hw.ensures (h _ pending _ hK)).mono (fun _ _ h => h.1) fun _ _ => trivial)

theorem declares_drafting [Bare α] {x : Drafting α} (h : Keeps Draft.accounts x) :
    Declares vouched D D K α (drafting x) (drafting x) :=
  declares_emitting fun _ _ _ _ => Emit.accounts_of_keeps h

theorem declares_redraft {f : Draft → Draft} (h : ∀ d, (f d).accounts = d.accounts) :
    Declares vouched D D K _ (redraft f) (redraft f) :=
  declares_emitting fun _ _ _ _ => Emit.accounts_redraft h

section Making

variable {x : Making Expr}

def TypesKnown (known : Ty → Prop) (x : Making Expr) : Prop :=
  ∀ n : Nodes, (∀ id ty, n.types.find? id = some ty → ty.MadeOf known) →
    Ensures x n (fun _ n' => ∀ id ty, n'.types.find? id = some ty → ty.MadeOf known)
      fun n' => ∀ id ty, n'.types.find? id = some ty → ty.MadeOf known

theorem typesKnown_of_keeps (h : Keeps Nodes.types x) : TypesKnown known x :=
  fun n hn => (h n).mono (fun _ _ heq => heq ▸ hn) fun _ heq => heq ▸ hn

theorem Crafted.makes (h : Crafted K x) (hx : TypesKnown (w.Knows vouched) x)
    (hw : w.Accounted vouched D pending) :
    Ensures (Emit.making x) w.sheet
      (fun e sheet => sheet.Accounted (w.Knows vouched) pending (w.sheet.nodes.next + 1) ∧
        sheet.draft = w.sheet.draft ∧ ∃ mk, Assembled K mk ∧ e = mk w.sheet.nodes.next)
      fun sheet => sheet.Accounted (w.Knows vouched) pending w.sheet.nodes.next ∧
        sheet.draft = w.sheet.draft := by
  refine ComputeKernel.ensures_making (((h w.sheet.nodes).and (hx w.sheet.nodes hw.sheet.types)).mono
    (fun e nodes hn => ?_) fun nodes hn => ?_)
  · obtain ⟨⟨mk, hmk, rfl, hnext⟩, htypes⟩ := hn
    exact ⟨⟨hnext, htypes, hw.sheet.draft.mono (fun _ h => h) (fun _ h => h) (Nat.le_succ _)⟩, rfl,
      mk, hmk, rfl⟩
  · exact ⟨⟨hn.1, hn.2, hw.sheet.draft⟩, rfl⟩

theorem Crafted.derives (h : Crafted K x) (hx : TypesKnown (w.Knows vouched) x)
    (hbare : ∀ n, Ensures x n (fun e _ => e.supplies = []) fun _ => True)
    (hw : w.Accounted vouched D pending) (hK : ∀ i, K i → w.Supports vouched i) :
    Ensures (Emit.making x) w.sheet
      (fun e sheet => w.Furthers vouched D pending (items e) { w with sheet })
      fun sheet => w.Furthers vouched D pending [] { w with sheet } := by
  have hsupplies : Ensures (Emit.making x) w.sheet (fun e _ => e.supplies = []) fun _ => True :=
    ComputeKernel.ensures_making (hbare w.sheet.nodes)
  refine ((h.makes hx hw).and hsupplies).mono (fun e sheet hs => ?_) fun sheet hs => ?_
  · obtain ⟨⟨hsheet, hdraft, mk, hmk, rfl⟩, hnone⟩ := hs
    have hexpands : w.Expands { w with sheet } :=
      ⟨hdraft ▸ List.Subset.refl _, List.Subset.refl _, hsheet.numbered ▸ Nat.le_succ _⟩
    refine { hw.advance hexpands hsheet hexpands.knows with items := fun i hi => ?_ }
    rw [List.mem_singleton.mp hi]
    have he := hmk.grounded hK hexpands.knows fun ty hty => by rw [hnone] at hty; cases hty
    exact he.mono (fun _ hs => hs) (Nat.le_of_eq hsheet.numbered.symm)
  · exact hw.resheet hs.1.1 (hs.1.2 ▸ List.Subset.refl _)

theorem declares_making (h : Crafted K x) (hx : Keeps Nodes.types x)
    (hbare : ∀ n, Ensures x n (fun e _ => e.supplies = []) fun _ => True) :
    Declares vouched D D K _ (making x) (making x) := fun _ _ hw hK =>
  ensures_emitting ((h.derives (typesKnown_of_keeps hx) hbare hw hK).mono (fun _ _ h => h)
    fun _ _ => trivial)

theorem supplies_of_derived (h : e.isDerived = true) : e.supplies = [] := by
  cases e <;> first | rfl | cases h

theorem declares_node (mk : Nat → Expr) (h : Assembled K mk) (hd : Derived mk) :
    Declares vouched D D K _ (node mk) (node mk) :=
  declares_making (crafted_node h) (fun _ => rfl) fun n =>
    ensures_newNode (supplies_of_derived (hd.derived n.next))

theorem declares_literal (l : Literal) :
    Declares vouched D D K _ (making (.literal l)) (making (.literal l)) :=
  declares_making (crafted_literal l) (.bind (keeps_orFault _) fun _ _ => rfl) fun _ =>
    .bind (ensures_orFault (fun _ _ => ensures_newNode rfl) fun _ _ => trivial)

theorem ensures_swizzle {lanes : String} {n : Nodes} {done : Expr → Nodes → Prop}
    {failed : Nodes → Prop} (h : Ensures e.inferType n.types
      (fun _ types => failed { n with types } ∧
        done (.swizzle n.next e lanes) { n with types, next := n.next + 1 })
      fun types => failed { n with types }) : Ensures (Making.swizzle e lanes) n done failed :=
  .bind (ensures_makingTyping (h.imp fun _ _ hn => ensures_ite
    (fun _ => .bind (ensures_throw hn.1)) fun _ => .bind (ensures_orFault
      (fun _ _ => ensures_newNode hn.2) fun _ _ => hn.1)))

theorem declares_swizzle (e : Expr) (lanes : String) (h : K.Has (items e)) :
    Declares vouched D D K _ (attempt (.making (.swizzle e lanes)))
      (attempt (.making (.swizzle e lanes))) := by
  intro pending w hw hK
  have he : e.Grounded (w.Knows vouched) w.sheet.nodes.next := hK _ h.value
  have htypes : TypesKnown (w.Knows vouched) (.swizzle e lanes) := fun n hn =>
    ensures_swizzle (((e.inferType_gives he.sourced n.types hn).mono
      (fun _ _ ht => ⟨ht.1, ht.1⟩) fun _ _ ht => ht).ensures fun _ _ ht => ht.2.1)
  have hmake := (crafted_swizzle e lanes h).derives htypes
    (fun n => ensures_swizzle (ensures_any (fun _ _ => ⟨trivial, rfl⟩) fun _ => trivial)) hw hK
  exact ensures_attempt (fun _ _ hrun => hmake.of_ok hrun) fun _ _ hrun => hmake.of_error hrun

end Making

theorem accounts_emitValue {next : Nat} (h : e.Grounded known next) :
    (accounting known pending next).Upholds (emitValue e) :=
  .bind (e.emit_accounts h) fun _ _ => .bind Emit.accounts_inDivergentRegion fun _ _ =>
    .ite (fun _ => Emit.accounts_diverging _) fun _ => .pure trivial

theorem declares_tryEmit (e : Expr) (h : K.Has (items e)) :
    Declares vouched D D K _ (tryEmit e) (tryEmit e) := by
  intro pending w hw hK
  have he : w.Supports vouched (.value e) := hK _ h.value
  have hemit := accounts_emitValue he w.sheet hw.sheet
  refine .bind (ensures_attempt (fun _ sheet hrun => ?_) fun fault sheet hrun => ?_)
  · obtain ⟨hsheet, hstructs, -⟩ := hemit.of_ok hrun
    have hexpands : w.Expands { w with sheet, roots := w.roots ++ [e] } :=
      ⟨hstructs, List.subset_append_left .., Nat.le_of_eq hsheet.numbered.symm⟩
    refine .bind (ensures_modify (ensures_pure { hw.advance hexpands hsheet hexpands.knows with
      items := fun i hi => ?_ }))
    exact List.mem_singleton.mp hi ▸ hexpands.supports he
  · obtain ⟨-, hsheet, hstructs⟩ := hemit.of_error hrun
    exact ensures_pure (hw.resheet hsheet hstructs)

theorem emitValue_records {next : Nat} {s : Sheet} (hs : s.draft.Accounted known pending next)
    (hhidden : ¬s.draft.scopes.isVisible e.id = true) : Ensures (emitValue e) s
    (fun _ s' => ∀ ty ∈ e.registers, ty.MadeOf fun st => known st ∨ st ∈ s'.draft.structs) fun _ =>
    True :=
  .bind ((Expr.emit_records hs hhidden).imp fun _ _ h => .bind
    (ensures_inDivergentRegion fun _ _ => ensures_ite (fun _ => ensures_diverging fun _ _ => h)
      fun _ => ensures_pure h))

theorem knows_of_carries {s : Ty} (hs : e.Carries s) (he : e ∈ w.roots)
    (h : ∀ ty ∈ e.registers, ty.MadeOf (w.Knows vouched)) : w.Knows vouched s := by
  obtain ⟨ty, hty, hs, hb⟩ := hs
  cases e with
  | input id i =>
    rw [List.mem_singleton.mp hty] at hs
    cases i with
    | custom name ty => exact .inr (.inl ⟨id, name, ty, he, hs⟩)
    | _ => cases hs
  | _ => exact h ty hty s hs hb

theorem declares_placed {x : Making Expr} (h : Crafted K x) (hx : Keeps Nodes.types x) :
    Declares vouched D D K _ (do emit (← making x)) (do emit (← making x)) := by
  intro pending w hw hK
  refine .bind (ensures_emitting ((h.makes (typesKnown_of_keeps hx) hw).mono (fun e sheet hs => ?_)
    fun _ _ => trivial))
  obtain ⟨hsheet, hdraft, mk, hmk, rfl⟩ := hs
  have hhidden := hw.sheet.draft.hidden (Nat.le_of_eq (hmk.id w.sheet.nodes.next).symm)
  -- The node is accounted for together with what it brings, which is registered on the way.
  have hgrounded := hmk.grounded hK (fun _ => .inl) fun ty hty s hs hb =>
    show w.Knows vouched s ∨ (mk w.sheet.nodes.next).Carries s from .inr ⟨ty, hty, hs, hb⟩
  generalize mk w.sheet.nodes.next = e at hhidden hgrounded
  have hemit := accounts_emitValue hgrounded sheet (hsheet.mono fun _ => .inl)
  rw [← hdraft] at hhidden
  refine .bind (.bind (ensures_attempt (fun _ sheet' hrun => ?_) fun _ _ _ => trivial))
  obtain ⟨hsheet', hstructs, -⟩ := hemit.of_ok hrun
  have hrecorded := (emitValue_records hsheet.draft hhidden).of_ok hrun
  have hexpands : w.Expands { w with sheet := sheet', roots := w.roots ++ [e] } :=
    ⟨hdraft ▸ hstructs, List.subset_append_left .., hsheet'.numbered ▸ Nat.le_succ _⟩
  have hknown (s : Ty) (hs : w.Knows vouched s ∨ e.Carries s) :
      Workspace.Knows vouched { w with sheet := sheet', roots := w.roots ++ [e] } s :=
    hs.elim (hexpands.knows s) fun hs => knows_of_carries hs (by simp) fun ty hty =>
      (hrecorded ty hty).mono fun s hs => hs.elim (hexpands.knows s) .inl
  refine .bind (ensures_modify (ensures_pure (ensures_pure { hw.advance hexpands hsheet' hknown with
    items := fun i hi => ?_ })))
  rw [List.mem_singleton.mp hi]
  exact hgrounded.mono hknown (Nat.le_of_eq hsheet'.numbered.symm)

theorem declares_array (elem : Ty) (length : UInt32) (init : List Literal) :
    Declares vouched D D K _ (do emit (← making (.array elem length init)))
      (do emit (← making (.array elem length init))) :=
  declares_placed (crafted_array elem length init)
    (keeps_guard (keeps_guard (.bind (keeps_orFault _) fun _ _ => rfl)))

theorem declares_currentMask : Declares vouched D D K _ currentMask currentMask := by
  intro pending w hw _
  refine ensures_drafting (.bind (ensures_get ?_))
  cases hmasks : w.sheet.draft.masks with
  | nil => exact ensures_throw trivial
  | cons mask masks =>
    refine ensures_pure { hw.refl with items := fun i hi => ?_ }
    exact List.mem_singleton.mp hi ▸ hw.sheet.draft.masks mask (by simp [hmasks])

theorem declares_popMask : Declares vouched D D K _ (drafting .popMask) (drafting .popMask) := by
  intro pending w hw _
  refine ensures_drafting (.bind (ensures_get ?_))
  have hmasks := hw.sheet.draft.masks
  rcases hstack : w.sheet.draft.masks with _ | ⟨mask, _ | ⟨next, masks⟩⟩
  · exact ensures_throw trivial
  · exact ensures_throw trivial
  · rw [hstack] at hmasks
    have hpopped := hw.redraft (hw.sheet.draft.remask fun m hm =>
      hmasks m (List.mem_cons_of_mem _ hm)) (List.Subset.refl _)
    refine .bind (ensures_set (ensures_pure { hpopped with items := fun i hi => ?_ }))
    exact List.mem_singleton.mp hi ▸ hmasks mask (List.mem_cons_self ..)

theorem declares_pushMask (mask : Expr) (h : K.Has (items mask)) :
    Declares vouched D D K _ (redraft (·.pushMask mask)) (redraft (·.pushMask mask)) := by
  intro pending w hw hK
  refine ensures_redraft (hw.redraft (hw.sheet.draft.remask fun m hm => ?_) (List.Subset.refl _))
  rcases List.mem_cons.mp hm with rfl | hm
  · exact hK _ h.value
  · exact hw.sheet.draft.masks m hm

theorem declares_seedMask (seed : Expr) (h : K.Has (items seed)) :
    Declares vouched D D K _ (redraft (·.enableWave32 seed)) (redraft (·.enableWave32 seed)) := by
  intro pending w hw hK
  have hseed := hw.sheet.draft.remask fun m hm => List.mem_singleton.mp hm ▸ hK _ h.value
  exact ensures_redraft (hw.redraft (And.left (hseed.of_eq rfl)) (List.Subset.refl _))

theorem declares_builtin (b : Builtin) : Declares vouched D D K _ (builtin b) (builtin b) := by
  intro pending w hw hK
  obtain ⟨⟨c, hbuiltin⟩, htable⟩ := builtin_cases w.callables b
  have haccounted :
      Workspace.Accounted vouched D pending { w with callables := (w.callables.builtin b).2 } := by
    rcases htable with hsame | hnew
    · rw [hsame]
      exact hw
    · rw [hnew]
      exact hw.register (.inl (Prototype.yields_of_builtin rfl))
  refine .bind (ensures_get (.bind (ensures_set (ensures_pure ⟨haccounted, ?_, fun i hi => ?_⟩))))
  · exact ⟨List.Subset.refl _, List.Subset.refl _, Nat.le_refl _⟩
  · exact List.mem_singleton.mp hi ▸ Prototype.yields_of_builtin hbuiltin

theorem declares_function? (name : String)
    (h : ∀ p, p.name = name → .registers p ∈ D → .returns p ∈ D ∨ vouched p) :
    Declares vouched D D K _ (function? name) (function? name) := by
  intro pending w hw _
  refine .bind (ensures_get (ensures_pure { hw.refl with items := fun i hi => ?_ }))
  cases hfind : w.callables.find? name with
  | none =>
    rw [hfind] at hi
    cases hi
  | some p =>
    rw [hfind] at hi
    rw [List.mem_singleton.mp hi]
    obtain ⟨hname, hsupported | hregistered⟩ := hw.table name p hfind
    · exact hsupported
    · exact (h p hname hregistered).elim (hw.returned p) Workspace.supports_of_vouched

theorem declares_line {line : Line} (h : line.types = []) :
    Declares vouched D D K _ (writeLine line) (writeLine line) :=
  declares_emitting fun _ _ _ _ => Emit.accounts_write fun _ hty => by rw [h] at hty; cases hty

theorem declares_setGroupSize (size : GroupSize) :
    Declares vouched D D K _ (setGroupSize size) (setGroupSize size) := fun _ _ hw _ =>
  ensures_setGroupSize (hw.redraft (And.left (hw.sheet.draft.of_eq rfl)) (List.Subset.refl _))
    (fun _ => hw.refl) trivial

theorem declares_spread (first last counter : Expr) :
    Declares vouched D D K _ (spread first last counter) (spread first last counter) := by
  refine declares_bind (declares_emitting fun _ _ _ _ => Emit.accounts_diverging _) fun either => ?_
  split
  · exact declares_emitting fun _ _ _ _ => Emit.accounts_diverging _
  · exact Tracking.Chains.pure () inferInstance

instance : Statements (Declares vouched) where
  throw _ := fun _ _ _ _ => trivial
  node mk h hd := declares_node mk h hd
  place _ h := declares_placed (crafted_node h) fun _ => rfl
  literal l := declares_literal l
  array elem length init := declares_array elem length init
  swizzle e lanes := fun h => declares_swizzle e lanes h
  typeOf e := fun h => declares_emitting fun _ _ _ hK => .mono (Emit.accounts_typing
    (e.inferType_gives (Expr.Grounded.sourced (hK _ h.value)))) fun _ _ => trivial
  nameOf _ := declares_of_keeps fun _ => ensures_nameOf rfl
  rename e name := declares_emitting fun _ _ _ _ => Emit.accounts_rename e.id (.word name)
  tryEmit e := fun h => declares_tryEmit e h
  builtin b := declares_builtin b
  freshName _ := declares_of_keeps fun _ => ensures_freshName rfl
  draft := declares_of_keeps fun _ => rfl
  currentMask := declares_currentMask
  addShared name ty := declares_emitting fun _ _ _ _ =>
    Emit.accounts_drafting fun _ hd => hd.addShared name ty
  setGroupSize size := declares_setGroupSize size
  writeHeader _ := declares_redraft fun _ => rfl
  writeLine _ _ hs := declares_line hs.types
  ballot _ _ _ _ := declares_line rfl
  noteSync := declares_redraft fun _ => rfl
  seedMask seed := fun h => declares_seedMask seed h
  line _ hs := declares_line hs.types
  enterScope condition := declares_emitting fun _ _ _ _ => Emit.accounts_enterScope condition
  exitScope := declares_emitting fun _ _ _ _ => Emit.accounts_exitScope
  pushTarget _ := declares_redraft fun _ => rfl
  popTarget := declares_drafting (keeps_popTarget fun _ _ => rfl)
  pushMask mask := fun h => declares_pushMask mask h
  popMask := declares_popMask
  checkBreak what := declares_drafting (keeps_checkBreak what)
  checkContinue := declares_drafting keeps_checkContinue
  spread first last counter := declares_spread first last counter

section Definitions

variable {D' : Events}

theorem ensures_emit_self (e : Expr) : Ensures (emit e) w (fun d _ => d = e) fun _ => True :=
  .bind (.bind (ensures_attempt (fun _ _ _ => .bind (ensures_modify (ensures_pure
    (ensures_pure rfl)))) fun _ _ _ => trivial))

theorem ensures_params (params : List Param) (w : Workspace Notebook) :
    Ensures (params.mapM fun q => do emit (← node fun id => .storage id q.name q.ty)) w
      (fun es _ => ∀ q ∈ params, ∃ id, .storage id q.name q.ty ∈ es) fun _ => True := by
  induction params generalizing w with
  | nil =>
    rw [List.mapM_nil]
    exact ensures_pure fun _ hq => by cases hq
  | cons first params ih =>
    rw [List.mapM_cons]
    refine .bind (.bind (ensures_node ((ensures_emit_self _).imp fun e w₁ he => .bind
      ((ih w₁).mono (fun es _ hes => ensures_pure fun q hq => ?_) fun _ h => h))))
    rcases List.mem_cons.mp hq with rfl | hq
    · exact ⟨w.sheet.nodes.next, by simp [he]⟩
    · exact (hes q hq).imp fun _ hmem => List.mem_cons_of_mem _ hmem

theorem ensures_returnResult (p : Prototype) (ret : Ty) {result : Option Expr}
    (hw : w.Accounted vouched D pending) (h : ∀ i ∈ items result, w.Supports vouched i) :
    Ensures (returnResult p ret result) w (fun _ _ => ret.MadeOf (w.Knows vouched))
      fun _ => True := by
  cases result with
  | some value =>
    have hvalue : w.Supports vouched (.value value) := h _ (List.mem_singleton_self _)
    have htyping := hw.ensures (Emit.accounts_typing (value.inferType_gives
      (Expr.Grounded.sourced hvalue)))
    refine .bind (ensures_emitting (htyping.mono (fun ty sheet hty => ensures_ite (fun heq => ?_)
      fun _ => ensures_throw trivial) fun _ _ => trivial))
    exact ensures_any (fun _ _ => heq ▸ hty.2) fun _ => trivial
  | none =>
    refine ensures_ite (fun hvoid => ensures_pure ?_) fun _ => ensures_throw trivial
    cases ret with
    | void => exact Ty.hereditary_madeOf.void
    | _ => cases hvoid

theorem declares_exitFunction :
    Declares vouched D D K _ (drafting .exitFunction) (drafting .exitFunction) := fun _ _ hw _ =>
  ensures_drafting (ensures_exitFunction (fun _ _ hframes _ =>
    hw.redraft (hw.sheet.draft.afterFunction hframes) (List.Subset.refl _)) trivial
      fun _ _ _ => trivial)

variable {body : List Expr → Scripted (Option Expr)}

theorem declares_functionBody (p : Prototype)
    (h : ∀ params, Declares vouched D D' (K.adding params) _ (body params) (body params))
    (hw : w.Accounted vouched D pending) (hK : ∀ i, K i → w.Supports vouched i) :
    Ensures (functionBody p body) w (fun _ w' => w.Furthers vouched D' pending [] w' ∧
      ∀ ty ∈ p.fixedReturn?.getD .void :: p.params.map Param.ty, ty.MadeOf (w'.Knows vouched))
      fun _ => True := by
  have hparams : Meets (Declares vouched) D K (p.params.mapM fun q => do
    emit (← node fun id => .storage id q.name q.ty)) := inferInstance
  refine .bind (((hparams.holds pending w hw hK).and (ensures_params p.params w)).mono
    (fun params w₁ h₁ => ?_) fun _ _ => trivial)
  obtain ⟨h₁, hstorage⟩ := h₁
  have hK₁ : ∀ i, K.adding params i → w₁.Supports vouched i := fun i hi =>
    hi.elim (h₁.items i) fun hi => h₁.expands.supports (hK i hi)
  refine .bind ((h params pending w₁ h₁.accounted hK₁).imp fun result w₂ h₂ => ?_)
  have hreturn : Meets (Declares vouched) D' ((K.adding params).adding result)
    (returnResult p (p.fixedReturn?.getD .void) result) := inferInstance
  have hK₂ : ∀ i, (K.adding params).adding result i → w₂.Supports vouched i := fun i hi =>
    hi.elim (h₂.items i) fun hi => h₂.expands.supports (hK₁ i hi)
  refine ((hreturn.holds pending w₂ h₂.accounted hK₂).and
    (ensures_returnResult p _ h₂.accounted h₂.items)).mono (fun _ w₃ h₃ => ?_) fun _ _ => trivial
  obtain ⟨h₃, hret⟩ := h₃
  refine ⟨{ h₃ with expands := (h₁.expands.trans h₂.expands).trans h₃.expands }, fun ty hty => ?_⟩
  rcases List.mem_cons.mp hty with rfl | hty
  · exact hret.mono h₃.expands.knows
  · obtain ⟨q, hq, rfl⟩ := List.mem_map.mp hty
    obtain ⟨id, hmem⟩ := hstorage q hq
    have hsupplied := h₁.items _ (List.mem_flatMap.mpr ⟨_, hmem, List.mem_singleton_self _⟩) _ .self
    exact (hsupplied.types q.ty (List.mem_singleton_self _)).mono
      (h₂.expands.trans h₃.expands).knows

theorem exists_fixedReturn {p : Prototype} {header : String} (h : p.header = .ok header) :
    ∃ ret, p.fixedReturn? = some ret := by
  unfold Prototype.header at h
  cases hret : p.fixedReturn? with
  | some ret => exact ⟨ret, rfl⟩
  | none =>
    rw [hret] at h
    cases h

theorem writeFunction_eq (p : Prototype) (body : List Expr → Scripted (Option Expr)) :
    writeFunction p body = (do
      let header ← must p.header
      redraft Draft.enterFunction
      writeLine (.openFunction p header)
      functionBody p body
      writeLine .close
      drafting .exitFunction) := by
  simp only [writeFunction, functionBody, bind_assoc]

theorem declares_writeFunction (p : Prototype)
    (h : ∀ params, Declares vouched D D' (K.adding params) _ (body params) (body params))
    (hw : w.Accounted vouched D pending) (hK : ∀ i, K i → w.Supports vouched i) : Ensures
    (writeFunction p body) w
    (fun _ w' => w.Furthers vouched D' pending [] w' ∧ w'.Supports vouched (.callee p)) fun _ =>
    True := by
  rw [writeFunction_eq]
  refine .bind (ensures_must (fun header hheader => ?_) trivial)
  obtain ⟨ret, hret⟩ := exists_fixedReturn hheader
  have hpending : w.Accounted vouched D fun q => pending q ∨ q = p :=
    hw.repend (hw.sheet.draft.mono (fun _ hs => hs) (fun _ => .inl) (Nat.le_refl _))
  have hheads : (Line.openFunction p header).Accounted (w.Knows vouched)
    fun q => pending q ∨ q = p := .inr ⟨p, header, rfl, .inr rfl⟩
  have hstructs := Draft.structs_write w.sheet.draft.enterFunction (.openFunction p header)
  have hopen := hpending.redraft (hpending.sheet.draft.enterFunction.write hheads)
    (hstructs ▸ List.Subset.refl _)
  refine .bind (ensures_redraft (.bind (ensures_writeLine ?_)))
  refine .bind ((declares_functionBody p h hopen.accounted fun i hi =>
    hopen.expands.supports (hK i hi)).imp fun _ w₁ h₁ => ?_)
  obtain ⟨h₁, htypes⟩ := h₁
  have hclose : Declares vouched D' D' (fun _ => False) _ _ _ :=
    declares_bind (declares_line (show Line.close.types = [] from rfl)) fun _ => declares_exitFunction
  refine (hclose _ w₁ h₁.accounted fun _ hi => hi.elim).imp (fun _ w₂ h₂ => ?_)
  have hheader : ∀ ty ∈ p.fixedReturn?.toList ++ p.params.map Param.ty,
      ty.MadeOf (w₂.Knows vouched) := fun ty hty => by
    rw [hret] at hty htypes
    exact (htypes ty hty).mono h₂.expands.knows
  refine ⟨⟨h₂.accounted.repend (h₂.accounted.sheet.draft.settle hheader), ?_, h₂.items⟩, ?_⟩
  · exact (hopen.expands.trans h₁.expands).trans h₂.expands
  · exact Prototype.yields_of_fixed hret (hheader ret (by simp [hret]))

instance declares_definitions : Definitions (Declares vouched) where
  defineFunction p _ _ h := by
    intro pending w hw hK
    rw [defineFunction_eq_writeFunction]
    refine .bind ((declares_writeFunction p h hw hK).imp fun _ w₁ h₁ => ?_)
    obtain ⟨h₁, hp⟩ := h₁
    have hnext := h₁.accounted.next fun q (hq : FunctionEvent.returns p = .returns q) => by
      cases hq
      exact hp
    exact .bind (ensures_modify (ensures_pure ⟨hnext.register (.inl hp),
      ⟨h₁.expands.structs, h₁.expands.roots, h₁.expands.next⟩,
      fun i hi => List.mem_singleton.mp hi ▸ hp⟩))

end Definitions

theorem declares_lookup (name : String) :
    Declares vouched D D K _ (lookup name) (lookup name) := fun _ _ hw _ =>
  ensures_lookup (fun e he =>
    { hw.refl with items := fun _ hi => List.mem_singleton.mp hi ▸ hw.held e he }) trivial

theorem declares_renote {f : Notebook → Notebook} (h : ∀ n, (f n).held = n.held) :
    Declares vouched D D K _ (renote f) (renote f) :=
  declares_of_keeps fun w => ensures_modify (by rw [h])

theorem declares_bindName (name : Option String) (e : Expr) (h : K.Has (items e)) :
    Declares vouched D D K _ (renote (·.bind name e)) (renote (·.bind name e)) := by
  intro pending w hw hK
  refine ensures_modify ⟨⟨hw.sheet, hw.table, hw.returned, fun d hd => ?_⟩,
    ⟨List.Subset.refl _, List.Subset.refl _, Nat.le_refl _⟩, fun _ hi => by cases hi⟩
  cases name with
  | none => exact hw.held d hd
  | some name =>
    rcases List.mem_cons.mp hd with rfl | hd
    · exact hK _ h.value
    · exact hw.held d hd

theorem declares_record (label : String) (outcome : Outcome) :
    Declares vouched D D K _ (record label outcome) (record label outcome) :=
  declares_bind Basics.draft fun _ => declares_renote fun _ => rfl

theorem declares_register (p : Prototype) :
    Declares vouched D (D ++ [.registers p]) K _ (Query.register (.ok p)).perform
      (Query.register (.ok p)).perform := by
  intro pending w hw _
  have hnext := hw.next fun q (hq : FunctionEvent.registers p = .returns q) => by cases hq
  refine .bind (ensures_pure (.bind (.bind (ensures_modify (ensures_pure (ensures_pure ?_))))))
  exact ⟨hnext.register (.inr (List.mem_append_right _ (List.mem_singleton_self _))),
    ⟨List.Subset.refl _, List.Subset.refl _, Nat.le_refl _⟩, fun _ hi => by cases hi⟩

instance : Noting (Declares vouched) where
  toDefinitions := declares_definitions
  lookup name := declares_lookup name
  bindName name e := fun h => declares_bindName name e h
  enterBody := declares_renote fun _ => rfl
  leaveBody := declares_renote fun _ => rfl
  record label outcome := declares_record label outcome
  askFunction _ := fun _ _ hw _ => .bind (.bind (ensures_get (ensures_pure (ensures_pure hw.refl))))
  register p := declares_register p
  describe _ := declares_of_keeps fun _ => rfl

instance : Scripting (Declares vouched) := scripting_of_answers
    (fun e => declares_emitting fun _ _ _ _ => Emit.accounts_diverging e.divergence)
    (declares_emitting fun _ _ _ _ => Emit.accounts_inDivergentRegion)
    (declares_of_keeps fun _ => rfl)

theorem declares_mayCall {past : Events} {step : Step}
    (h : Admits vouched past step.events) :
    MayCall (Declares vouched) (lasting past) step.ownEvents where
  calls p hp K := by
    refine ⟨fun pending w hw _ => ensures_pure { hw.refl with items := fun i hi => ?_ }⟩
    rw [List.mem_singleton.mp hi]
    exact (h.calls hp).elim (hw.returned p) Workspace.supports_of_vouched
  callsName name hname K :=
    ⟨declares_function? name fun _ heq => h.callsName (heq ▸ hname)⟩

end Build

theorem Draft.structSection_split {d : Draft} {s : Ty} (hs : s ∈ d.structs)
    (hb : s.isBuiltinStruct = false) :
    ∃ before after, d.structSection = before ++ structText s ++ after := by
  have hmem : s ∈ d.structs.filter fun ty => !ty.isBuiltinStruct :=
    List.mem_filter.mpr ⟨hs, by simp [hb]⟩
  obtain ⟨first, last, heq⟩ := List.append_of_mem hmem
  refine ⟨String.join (first.map structText), String.join (last.map structText), ?_⟩
  rw [structSection, heq, List.map_append, List.map_cons, String.join_append, String.join_cons,
    String.append_assoc]

namespace Script

open Build

/-- The lines of a kernel name only structs that are defined before them, built in, or from outside. -/
theorem structs_defined_or_foreign (settings : Settings) (first : Nat) (configured : Bool)
    (steps : List Step) (w : Workspace Notebook) (k : Kernel)
    (h : program settings configured steps (.start settings first {}) = .ok () w)
    (hk : w.finish = .ok k) :
    ∃ preamble size, k.text = preamble ++ Line.textOf w.sheet.draft.functions ++
        Draft.entryHeader size ++ Line.textOf w.sheet.draft.body ++ "\x7d\n" ∧
      ∀ line ∈ w.sheet.draft.functions ++ w.sheet.draft.body, ∀ ty ∈ line.types, ∀ s ∈ ty.structs,
        s.isBuiltinStruct = false →
          (∃ before after, preamble = before ++ Draft.structText s ++ after) ∨
            Foreign (CalledEarly (eventsOf steps)) w.roots s := by
  have hadmits : Admits (CalledEarly (eventsOf steps)) [] (eventsOf steps) :=
    fun before event after p heq hp => ⟨before, event, after, heq, hp⟩
  have hdeclares : Declares _ _ _ .names _ _ _ :=
    holds_program declares_mayCall settings configured hadmits
  have hnames (i : Item) (hi : Stock.names i) :
      (Workspace.start settings first {}).Supports (CalledEarly (eventsOf steps)) i := by
    cases i <;> trivial
  have hrun := (hdeclares (fun _ => False) _ (Workspace.accounted_start settings first)
    hnames).of_ok h
  have hlines := hrun.accounted.sheet.draft.lines
  obtain ⟨hframes, -⟩ := nothing_open_of_program h
  obtain ⟨-, -, resources, -, htext⟩ := Draft.finish_eq_ok (w.draft_finish hk)
  refine ⟨_, _, htext, fun line hline ty hty s hs hb => ?_⟩
  have hmem : line ∈ w.sheet.draft.everyLine := by
    simpa [Draft.everyLine, Draft.pages, hframes] using hline
  rcases hlines line hmem with htypes | ⟨_, _, -, hpending⟩
  · refine (htypes ty hty s hs hb).imp_left fun hrecorded => ?_
    obtain ⟨before, after, hsection⟩ := Draft.structSection_split hrecorded hb
    exact ⟨Prologue.text ++ before, after ++ w.sheet.draft.sharedSection ++ resources ++
      w.sheet.draft.header, by simp only [hsection, String.append_assoc]⟩
  · exact hpending.elim

def surface : Ty := .struct "Surface" [("albedo", .f32x3)] false

def paint : Prototype := .fixed "paint" surface [⟨"s", surface, .input⟩]

def painting : List Step :=
  [ .act ⟨"resource", some "g"⟩ (.value (.resource (.ok (.buffer "g_surfaces" surface)))),
    .act ⟨"load", some "s"⟩ (.value (.load "g" (.constant (.u32 [0])))),
    .define "define" "define_body" (.ok paint) ["p"] [] (some "p"),
    .act ⟨"call", some "t"⟩ (.value (.callNamed "paint" ["s"])),
    .act ⟨"copy", none⟩ (.value (.variableOf (.value "t"))) ]

theorem not_calledEarly_painting (p : Prototype) : ¬CalledEarly (eventsOf painting) p := by
  have hevents : eventsOf painting = [.returns paint, .callsName "paint"] := rfl
  rintro ⟨before, event, after, heq, hreturns, hcall⟩
  rw [hevents] at heq
  rcases before with _ | ⟨_, _ | ⟨_, before⟩⟩ <;>
    simp only [List.nil_append, List.cons_append, List.cons.injEq, List.nil_eq_append_iff,
      reduceCtorEq, and_false] at heq <;> grind

theorem painting_defines : ∃ w k before after size,
    program .default false painting (.start .default 1 {}) = .ok () w ∧ w.finish = .ok k ∧
      (w.sheet.draft.functions.filter (surface ∈ ·.types)).length = 1 ∧
      (w.sheet.draft.body.filter (surface ∈ ·.types)).length = 3 ∧
      k.text = before ++ Draft.structText surface ++ after ++ Line.textOf w.sheet.draft.functions ++
        Draft.entryHeader size ++ Line.textOf w.sheet.draft.body ++ "\x7d\n" := by
  obtain ⟨_, w, hrun, hdone, hfunctions, hbody, hinputs⟩ :=
    exists_ok_of_ensures (program .default false painting) (.start .default 1 {})
      (fun _ w => w.finish.isOk = true ∧
        (w.sheet.draft.functions.filter (surface ∈ ·.types)).length = 1 ∧
        (w.sheet.draft.body.filter (surface ∈ ·.types)).length = 3 ∧
        ∀ e ∈ w.roots, e.supplies = e.registers)
      (by decide +kernel)
  obtain ⟨k, hk⟩ := exists_of_isOk hdone
  obtain ⟨preamble, size, htext, hdefined⟩ :=
    structs_defined_or_foreign .default 1 false painting w k hrun hk
  obtain ⟨line, hline⟩ := List.exists_mem_of_length_pos (hfunctions.symm ▸ Nat.one_pos)
  obtain ⟨hmem, htypes⟩ := List.mem_filter.mp hline
  have hlocal : ¬Foreign (CalledEarly (eventsOf painting)) w.roots surface := by
    rintro (⟨id, name, ty, hroot, -⟩ | ⟨p, hearly, -⟩)
    · cases hinputs _ hroot
    · exact not_calledEarly_painting p hearly
  obtain ⟨before, after, rfl⟩ := (hdefined line (List.mem_append_left _ hmem) surface
    (of_decide_eq_true htypes) surface (by decide) rfl).resolve_right hlocal
  exact ⟨w, k, before, after, size, hrun, hk, hfunctions, hbody, htext⟩

def copiedInput : List Step :=
  [ .act ⟨"input", some "s"⟩ (.value (.input (.ok (.custom "v_surface" surface)))),
    .act ⟨"copy", none⟩ (.value (.variableOf (.value "s"))) ]

def calledUndefined : List Step :=
  [ .act ⟨"register", none⟩ (.query (.register (.ok (.fixed "bare" surface [])))),
    .act ⟨"call", none⟩ (.value (.callNamed "bare" [])) ]

theorem surfaces_undefined : surface.isBuiltinStruct = false ∧
    ∀ script ∈ [(copiedInput, "Surface tmp_2 = v_surface;\n"),
        (calledUndefined, "Surface tmp_1 = bare();\n")],
      ∃ w k, program .default false script.1 (.start .default 1 {}) = .ok () w ∧
        w.finish = .ok k ∧ (∃ line ∈ w.sheet.draft.body, surface ∈ line.types) ∧
        k.text = Prologue.text ++ (Draft.entryHeader .default ++ script.2 ++ "\x7d\n") := by
  refine ⟨rfl, fun script hscript => ?_⟩
  obtain ⟨_, w, hrun, hline, hdone, hsections, hsize, hbody⟩ :=
    exists_ok_of_ensures (program .default false script.1) (.start .default 1 {})
      (fun _ w => (∃ line ∈ w.sheet.draft.body, surface ∈ line.types) ∧ w.finish.isOk = true ∧
        (w.sheet.draft.structSection = "" ∧ w.sheet.draft.sharedSection = "" ∧
          w.sheet.draft.resourceSection.toOption = some "" ∧ w.sheet.draft.header = "" ∧
          Line.textOf w.sheet.draft.functions = "") ∧
        w.sheet.draft.groupSize = .default ∧ Line.textOf w.sheet.draft.body = script.2)
      (by revert script; decide +kernel)
  obtain ⟨hstructs, hshared, hresources, hheader, hfunctions⟩ := hsections
  obtain ⟨k, hk⟩ := exists_of_isOk hdone
  obtain ⟨-, -, resources, heq, htext⟩ := Draft.finish_eq_ok (w.draft_finish hk)
  rw [heq] at hresources
  cases hresources
  refine ⟨w, k, hrun, hk, hline, ?_⟩
  rw [htext, hstructs, hshared, hheader, hfunctions, hsize, hbody]
  simp only [String.append_empty, String.append_assoc]

end Script

end ComputeKernel
