import ComputeKernel.Proofs.CallOrder
import ComputeKernel.Proofs.HeededControl
import ComputeKernel.Proofs.StructOrder
import ComputeKernel.Proofs.TypedEmission

namespace ComputeKernel

open Discipline

variable {e : Expr} {d : Draft} {known known' : Ty → Prop} {pending : Prototype → Prop}
  {next next' : Nat}

namespace Ty

def MadeOf (known : Ty → Prop) (ty : Ty) : Prop :=
  ∀ s ∈ ty.structs, s.isBuiltinStruct = false → known s

variable {ty : Ty} {name : String}

theorem MadeOf.mono (h : ty.MadeOf known) (hsub : ∀ s, known s → known' s) :
    ty.MadeOf known' := fun s hs hb => hsub s (h s hs hb)

theorem MadeOf.of_subset {ty' : Ty} (h : ty.MadeOf known) (hsub : ty'.structs ⊆ ty.structs) :
    ty'.MadeOf known := fun s hs => h s (hsub hs)

theorem structs_elem? {elem : Ty} (h : ty.elem? = some elem) : elem.structs ⊆ ty.structs := by
  cases ty with
  | array =>
    cases h
    rw [structs]
    exact List.Subset.refl _
  | resource =>
    cases h
    rw [structs]
    exact List.Subset.refl _
  | _ => cases h

theorem structs_subset_fieldStructs {fields : List (String × Ty)}
    (h : (name, ty) ∈ fields) : ty.structs ⊆ fieldStructs fields := by
  induction fields with
  | nil => cases h
  | cons field fields ih =>
    rw [fieldStructs]
    rcases List.mem_cons.mp h with rfl | h
    · exact List.subset_append_left ..
    · exact List.Subset.trans (ih h) (List.subset_append_right ..)

theorem structs_field? {field : Ty} (h : ty.field? name = some field) :
    field.structs ⊆ ty.structs := by
  cases ty with
  | struct _ fields _ =>
    obtain ⟨before, after, heq, -⟩ := List.lookup_eq_some_iff.mp h
    have hmem : (name, field) ∈ fields := by
      rw [show fields = _ from heq]
      simp
    rw [structs]
    exact List.Subset.trans (structs_subset_fieldStructs hmem) (List.subset_append_left ..)
  | _ => cases h

instance hereditary_madeOf : Hereditary (MadeOf known) where
  void _ hs := by cases hs
  value _ _ _ _ hs := by cases hs
  elem h he := h.of_subset (structs_elem? he)
  field h hf := h.of_subset (structs_field? hf)
  hit s hs hb := by
    have : s = rayQueryResult := by simpa [rayQueryResult, structs, fieldStructs] using hs
    rw [this] at hb
    cases hb

end Ty

namespace Prototype

def Introduces (p : Prototype) (s : Ty) : Prop :=
  ∃ args ty, p.returnType args = .ok ty ∧ s ∈ ty.structs ∧ ∀ arg ∈ args, s ∉ arg.structs

def Yields (known : Ty → Prop) (p : Prototype) : Prop :=
  ∀ s, p.Introduces s → s.isBuiltinStruct = false → known s

variable {p : Prototype}

theorem Yields.mono (h : p.Yields known) (hsub : ∀ s, known s → known' s) : p.Yields known' :=
  fun s hs hb => hsub s (h s hs hb)

theorem Yields.returns (h : p.Yields known) : p.Returns .any (Ty.MadeOf known) := by
  intro args hargs
  cases hty : p.returnType args with
  | error fault => exact fun _ => trivial
  | ok ty =>
    intro s hs hb
    by_cases harg : ∃ arg ∈ args, s ∈ arg.structs
    · obtain ⟨arg, hmem, harg⟩ := harg
      exact hargs arg hmem s harg hb
    · exact h s ⟨args, ty, hty, hs, fun arg hmem hin => harg ⟨arg, hmem, hin⟩⟩ hb

theorem yields_of_builtin {b : Builtin} (h : p.rule = .builtin b) : p.Yields known := by
  rintro s ⟨args, ty, hty, hs, hargs⟩ hb
  have hgives : Vocabulary.any.Gives (Ty.MadeOf fun s => ∃ arg ∈ args, s ∈ arg.structs)
      (b.returnType args) :=
    Builtin.returnType_gives b fun arg hmem s hin _ => ⟨arg, hmem, hin⟩
  rw [returnType, h] at hty
  rw [show b.returnType args = .ok ty from hty] at hgives
  obtain ⟨arg, hmem, hin⟩ := hgives s hs hb
  exact absurd hin (hargs arg hmem)

theorem yields_of_fixed {ret : Ty} (h : p.fixedReturn? = some ret)
    (hret : ret.MadeOf known) : p.Yields known := by
  rintro s ⟨args, ty, hty, hs, -⟩ hb
  unfold fixedReturn? at h
  unfold returnType at hty
  split at h
  · rename_i hrule
    cases h
    rw [hrule] at hty
    dsimp only at hty
    split at hty
    · cases hty
    · obtain ⟨-, -, hty⟩ := exists_of_bind hty
      cases hty
      exact hret s hs hb
  · cases h

end Prototype

namespace Expr

def supplies : Expr → List Ty
  | .input _ i => [i.ty]
  | e => e.registers

def Carries (e : Expr) (s : Ty) : Prop :=
  ∃ ty ∈ e.supplies, s ∈ ty.structs ∧ s.isBuiltinStruct = false

structure Supplied (known : Ty → Prop) (next : Nat) (e : Expr) : Prop where
  types : ∀ ty ∈ e.supplies, ty.MadeOf known
  callee : ∀ p, e.callee? = some p → p.Yields known
  id : e.id < next

def Grounded (known : Ty → Prop) (next : Nat) (e : Expr) : Prop :=
  ∀ d, e.Uses d → d.Supplied known next

theorem grounded_iff : e.Grounded known next ↔
    e.Supplied known next ∧ ∀ c ∈ e.operands, c.Grounded known next := forall_uses_iff

theorem Grounded.mono (h : e.Grounded known next) (hsub : ∀ s, known s → known' s)
    (hnext : next ≤ next') : e.Grounded known' next' := fun d hd =>
  have hd := h d hd
  ⟨fun ty hty => (hd.types ty hty).mono hsub, fun p hp => (hd.callee p hp).mono hsub,
    Nat.lt_of_lt_of_le hd.id hnext⟩

theorem Supplied.brings {d : Expr} (h : d.Supplied known next) : d.Brings .any (Ty.MadeOf known) := by
  cases d with
  | call id callee args => exact (h.callee callee rfl).returns
  | array id elem length init =>
    exact (h.types elem (List.mem_singleton_self _)).of_subset (by rw [Ty.structs]; exact fun _ h => h)
  | resource | input | storage | zeroed => exact h.types _ (List.mem_singleton_self _)
  | _ => trivial

theorem Grounded.sourced (h : e.Grounded known next) : e.Sourced .any (Ty.MadeOf known) :=
  fun d hd => (h d hd).brings

end Expr

section Drafts

def Line.Accounted (known : Ty → Prop) (pending : Prototype → Prop) (line : Line) : Prop :=
  (∀ ty ∈ line.types, ty.MadeOf known) ∨ ∃ p header, line = .openFunction p header ∧ pending p

structure Draft.Accounted (known : Ty → Prop) (pending : Prototype → Prop) (next : Nat) (d : Draft) :
    Prop where
  made : ∀ id ∈ d.ids, id < next
  declared : d.Declared
  resources : ∀ entry ∈ d.resources.entries, entry.2.ty.MadeOf known
  masks : ∀ m ∈ d.masks, m.Grounded known next
  lines : ∀ line ∈ d.everyLine, line.Accounted known pending

variable {d' : Draft}

def Draft.accounts (d : Draft) := (d.ids, d.everyLine, d.masks, d.resources, d.types, d.structs)

theorem Draft.structs_write (d : Draft) (line : Line) : (d.write line).structs = d.structs :=
  congrArg (·.2.2.1) (d.registry_write line)

namespace Draft.Accounted

theorem mono {pending' : Prototype → Prop} (h : d.Accounted known pending next)
    (hsub : ∀ s, known s → known' s) (hpending : ∀ p, pending p → pending' p)
    (hnext : next ≤ next') : d.Accounted known' pending' next' where
  made id hid := Nat.lt_of_lt_of_le (h.made id hid) hnext
  declared := h.declared
  resources entry he := (h.resources entry he).mono hsub
  masks m hm := (h.masks m hm).mono hsub hnext
  lines line hline := (h.lines line hline).imp (fun hl ty hty => (hl ty hty).mono hsub)
    fun ⟨p, header, heq, hp⟩ => ⟨p, header, heq, hpending p hp⟩

theorem settle {p : Prototype} (h : d.Accounted known (fun q => pending q ∨ q = p) next)
    (hp : ∀ ty ∈ p.fixedReturn?.toList ++ p.params.map Param.ty, ty.MadeOf known) :
    d.Accounted known pending next := by
  refine { h with lines := fun line hline => ?_ }
  rcases h.lines line hline with htypes | ⟨q, header, rfl, hq | rfl⟩
  · exact .inl htypes
  · exact .inr ⟨q, header, rfl, hq⟩
  · exact .inl hp

theorem of_subset (h : d.Accounted known pending next) (hids : d'.ids ⊆ d.ids)
    (hlines : d'.everyLine ⊆ d.everyLine) (hregistry : d'.registry = d.registry)
    (hmasks : d'.masks ⊆ d.masks) : d'.Accounted known pending next := by
  simp only [Draft.registry, Prod.mk.injEq] at hregistry
  obtain ⟨hresources, htypes, hstructs, -⟩ := hregistry
  exact {
    made := fun id hid => h.made id (hids hid)
    declared := h.declared.of_eq htypes hstructs
    resources := hresources ▸ h.resources
    masks := fun m hm => h.masks m (hmasks hm)
    lines := fun line hline => h.lines line (hlines hline) }

theorem write (h : d.Accounted known pending next) {line : Line}
    (hline : line.Accounted known pending) : (d.write line).Accounted known pending next := by
  have hregistry := d.registry_write line
  simp only [Draft.registry, Prod.mk.injEq] at hregistry
  obtain ⟨hresources, htypes, hstructs, -⟩ := hregistry
  have hfunctions : (d.write line).functions = d.functions := congrArg (·.2.1) (d.context_write line)
  have hmasks : (d.write line).masks = d.masks := congrArg (·.2.2) (d.context_write line)
  refine ⟨d.ids_write line ▸ h.made, h.declared.of_eq htypes hstructs, hresources ▸ h.resources,
    hmasks ▸ h.masks, fun other hother => ?_⟩
  rw [Draft.everyLine, hfunctions] at hother
  rcases List.mem_append.mp hother with hold | hpage
  · exact h.lines other (List.mem_append_left _ hold)
  · rcases Draft.mem_pages_write hpage with hold | rfl
    · exact h.lines other (List.mem_append_right _ hold)
    · exact hline

variable {id : Nat}

theorem mark (h : d.Accounted known pending next) (hid : id < next) :
    (d.mark id).Accounted known pending next := by
  refine ⟨fun key hkey => ?_, h.declared.of_eq rfl rfl, h.resources, h.masks, h.lines⟩
  have hcases : key = id ∨ key ∈ d.ids := by
    simp only [Draft.ids, Draft.mark, Scopes.mark, Draft.enclosing] at hkey ⊢
    split at hkey
    · exact .inr hkey
    · simpa [Scopes.ids, or_assoc] using hkey
  rcases hcases with rfl | hold
  · exact hid
  · exact h.made key hold

theorem hidden (h : d.Accounted known pending next) (hid : next ≤ id) :
    ¬d.scopes.isVisible id = true := by
  intro hvisible
  have hmem : id ∈ d.ids :=
    List.mem_append_left _ (List.mem_append_left _ (Scopes.isVisible_iff.mp hvisible))
  exact Nat.not_lt.mpr hid (h.made id hmem)

theorem enterScope (h : d.Accounted known pending next) (condition : Option Expr) :
    (d.enterScope condition).Accounted known pending next := by
  refine h.of_subset (fun id hid => ?_) (fun _ hl => hl) rfl fun _ hm => hm
  simp only [Draft.ids, Draft.enterScope, Scopes.enter, ScopeStack.push, Scopes.ids, List.flatten_cons,
    List.mem_append, Draft.enclosing] at hid ⊢
  tauto

theorem leaveScope (h : d.Accounted known pending next) {scopes : Scopes}
    (hleave : d.scopes.leave? = some scopes) :
    Draft.Accounted known pending next { d with scopes } := by
  refine h.of_subset (fun id hid => ?_) (fun _ hl => hl) rfl fun _ hm => hm
  rcases List.mem_append.mp hid with hid | hid
  · exact List.mem_append_left _ (Scopes.ids_leave hleave hid)
  · exact List.mem_append_right _ hid

theorem remask (h : d.Accounted known pending next) {masks : List Expr}
    (hmasks : ∀ m ∈ masks, m.Grounded known next) :
    Draft.Accounted known pending next { d with masks } :=
  ⟨h.made, h.declared.of_eq rfl rfl, h.resources, hmasks, h.lines⟩

theorem enterFunction (h : d.Accounted known pending next) :
    d.enterFunction.Accounted known pending next := by
  refine h.of_subset d.ids_enterFunction ?_ rfl fun _ hm => hm
  simp [Draft.everyLine, Draft.pages, Draft.enterFunction]

theorem afterFunction (h : d.Accounted known pending next) {frame : Frame} {frames : List Frame}
    (hframes : d.frames = frame :: frames) :
    (d.afterFunction frame frames).Accounted known pending next := by
  refine h.of_subset (Draft.ids_afterFunction hframes) ?_ rfl fun _ hm => hm
  simp [Draft.everyLine, Draft.pages, Draft.afterFunction, hframes]

theorem register (h : d.Accounted known pending next) (hdeclared : d'.Declared)
    (hrest : (d'.ids, d'.resources, d'.masks, d'.everyLine) =
      (d.ids, d.resources, d.masks, d.everyLine)) : d'.Accounted known pending next := by
  simp only [Prod.mk.injEq] at hrest
  obtain ⟨hids, hresources, hmasks, hlines⟩ := hrest
  exact ⟨hids ▸ h.made, hdeclared, hresources ▸ h.resources, hmasks ▸ h.masks, hlines ▸ h.lines⟩

theorem of_eq (h : d.Accounted known pending next) (heq : d'.accounts = d.accounts) :
    d'.Accounted known pending next ∧ d.structs ⊆ d'.structs := by
  simp only [Draft.accounts, Prod.mk.injEq] at heq
  obtain ⟨hids, hlines, hmasks, hresources, htypes, hstructs⟩ := heq
  refine ⟨h.register (h.declared.of_eq htypes hstructs) ?_, hstructs ▸ List.Subset.refl _⟩
  rw [hids, hresources, hmasks, hlines]

end Draft.Accounted

end Drafts

structure Sheet.Accounted (known : Ty → Prop) (pending : Prototype → Prop) (next : Nat) (s : Sheet) :
    Prop where
  numbered : s.nodes.next = next
  types : ∀ id ty, s.nodes.types.find? id = some ty → ty.MadeOf known
  draft : s.draft.Accounted known pending next

def accounting (known : Ty → Prop) (pending : Prototype → Prop) (next : Nat) :
    Discipline Fault Sheet where
  good := Sheet.Accounted known pending next
  runs s s' := s.draft.structs ⊆ s'.draft.structs
  fails s s' := s.draft.structs ⊆ s'.draft.structs
  stops _ := True
  refl _ := List.Subset.refl _
  trans := List.Subset.trans
  abandon h := h
  trans_fails := List.Subset.trans

section Steps

variable {α : Type} {P : α → Prop}

theorem Sheet.Accounted.typing {s : Sheet} (hs : s.Accounted known pending next) {x : Typing α}
    (h : (Vocabulary.any.typingOf (Ty.MadeOf known)).Obeys x P) :
    Ensures (Emit.typing x) s
      (fun a s' => s'.Accounted known pending next ∧ s'.draft = s.draft ∧ P a)
      fun s' => s'.Accounted known pending next ∧ s'.draft = s.draft := by
  refine ensures_typing (((h s.nodes.types hs.types).mono (fun a types hx => ?_)
    fun _ types hx => hx).ensures fun _ types hx => ?_)
  · exact ⟨⟨hs.numbered, hx.1, hs.draft⟩, rfl, hx.2.2⟩
  · exact ⟨⟨hs.numbered, hx.2.1, hs.draft⟩, rfl⟩

namespace Emit

theorem accounts_of_ensures {x : Emit α} (h : ∀ s, s.Accounted known pending next →
    Ensures x s (fun a s' => s'.Accounted known pending next ∧
      s.draft.structs ⊆ s'.draft.structs ∧ P a)
      fun s' => s'.Accounted known pending next ∧ s.draft.structs ⊆ s'.draft.structs) :
    (accounting known pending next).Obeys x P := fun s hs =>
  .of_runs (fun _ _ hx => (h s hs).of_ok hx) fun _ _ hx => ⟨trivial, (h s hs).of_error hx⟩

theorem accounts_typing {x : Typing α}
    (h : (Vocabulary.any.typingOf (Ty.MadeOf known)).Obeys x P) :
    (accounting known pending next).Obeys (Emit.typing x) P :=
  accounts_of_ensures fun _ hs => (hs.typing h).mono
    (fun _ _ h' => ⟨h'.1, h'.2.1 ▸ List.Subset.refl _, h'.2.2⟩)
    fun _ h' => ⟨h'.1, h'.2 ▸ List.Subset.refl _⟩

theorem accounts_diverging (x : Diverging α) :
    (accounting known pending next).Upholds (Emit.diverging x) := fun _ hs =>
  ⟨⟨hs.numbered, hs.types, hs.draft⟩, List.Subset.refl _, trivial⟩

theorem accounts_nameOf (e : Expr) :
    (accounting known pending next).Upholds (Emit.nameOf e) := fun _ hs =>
  ⟨hs, List.Subset.refl _, trivial⟩

theorem accounts_rename (id : Nat) (name : Spelling) :
    (accounting known pending next).Upholds (Emit.rename id name) := fun _ hs =>
  ⟨⟨hs.numbered, hs.types, hs.draft⟩, List.Subset.refl _, trivial⟩

theorem accounts_orFault (r : Except Fault α) :
    (accounting known pending next).Upholds (orFault r) := by
  cases r with
  | ok a => exact .pure trivial
  | error fault => exact .throw trivial

theorem accounts_write {line : Line} (h : ∀ ty ∈ line.types, ty.MadeOf known) :
    (accounting known pending next).Upholds (Emit.write line) :=
  accounts_of_ensures fun s hs => ensures_write ⟨⟨hs.numbered, hs.types, hs.draft.write (.inl h)⟩,
    (s.draft.structs_write line).symm ▸ List.Subset.refl _, trivial⟩

theorem accounts_inDivergentRegion :
    (accounting known pending next).Upholds Emit.inDivergentRegion :=
  .bind .get fun _ _ => .bind (accounts_diverging _) fun _ _ => .pure trivial

theorem accounts_noteWrite (target : Expr) :
    (accounting known pending next).Upholds (Emit.noteWrite target) :=
  .bind accounts_inDivergentRegion fun _ _ => .ite
    (fun _ => .bind (accounts_diverging _) fun _ _ => accounts_diverging _) fun _ => .pure trivial

variable {x : Drafting α}

theorem accounts_drafting
    (h : ∀ d : Draft, d.Accounted known pending next →
      Ensures x d (fun _ d' => d'.Accounted known pending next ∧ d.structs ⊆ d'.structs)
        fun d' => d'.Accounted known pending next ∧ d.structs ⊆ d'.structs) :
    (accounting known pending next).Upholds (Emit.drafting x) :=
  accounts_of_ensures fun s hs => ensures_drafting ((h s.draft hs.draft).mono
    (fun _ _ hd => ⟨⟨hs.numbered, hs.types, hd.1⟩, hd.2, trivial⟩)
    fun _ hd => ⟨⟨hs.numbered, hs.types, hd.1⟩, hd.2⟩)

theorem accounts_of_keeps (h : Keeps Draft.accounts x) :
    (accounting known pending next).Upholds (Emit.drafting x) :=
  accounts_drafting fun d hd => (h d).mono (fun _ _ heq => hd.of_eq heq) fun _ heq => hd.of_eq heq

theorem accounts_redraft {f : Draft → Draft} (h : ∀ d, (f d).accounts = d.accounts) :
    (accounting known pending next).Upholds (Emit.redraft f) :=
  accounts_of_ensures fun s hs =>
    have hd := hs.draft.of_eq (h s.draft)
    ensures_redraft ⟨⟨hs.numbered, hs.types, hd.1⟩, hd.2, trivial⟩

end Emit

end Steps

theorem Draft.Accounted.registerType (h : d.Accounted known pending next) (ty : Ty) :
    Ensures (Drafting.registerType ty) d
      (fun _ d' => d'.Accounted known pending next ∧ d.structs ⊆ d'.structs ∧
        ty.structs ⊆ d'.structs)
      fun d' => d'.Accounted known pending next ∧ d.structs ⊆ d'.structs := by
  have hkeeps : Keeps (fun d : Draft => (d.ids, d.resources, d.masks, d.everyLine))
      (Drafting.registerType ty) := keeps_registerType (fun _ _ _ => rfl) ty
  have hrecords := (Draft.records_registerType ty d h.declared).and (hkeeps d)
  refine (hrecords.mono (fun _ d' hd => ?_) fun _ _ hd => hd).ensures fun _ d' hd => ?_
  · obtain ⟨⟨hgained, hall⟩, hrest⟩ := hd
    exact ⟨h.register hgained.declared hrest, hgained.kept, hall⟩
  · obtain ⟨⟨-, hgained⟩, hrest⟩ := hd
    exact ⟨h.register hgained.declared hrest, hgained.kept⟩

theorem Draft.Accounted.registerResource (h : d.Accounted known pending next) {res : Resource}
    (hres : res.ty.MadeOf known') (hsub : ∀ s, known s → known' s) :
    Ensures (Drafting.registerResource res) d
      (fun _ d' => d'.Accounted known' pending next ∧ d.structs ⊆ d'.structs ∧
        res.ty.MadeOf fun s => known s ∨ s ∈ d'.structs)
      fun d' => d'.Accounted known' pending next ∧ d.structs ⊆ d'.structs := by
  have hmono {d : Draft} (hd : d.Accounted known pending next) : d.Accounted known' pending next :=
    hd.mono hsub (fun _ hp => hp) (Nat.le_refl _)
  refine .bind (ensures_get ?_)
  cases hfind : d.resources.find? res.name with
  | some existing =>
    refine ensures_ite (fun _ => ensures_throw ⟨hmono h, List.Subset.refl _⟩) fun hsame =>
      ensures_pure ⟨hmono h, List.Subset.refl _, ?_⟩
    obtain ⟨before, after, hentries, -⟩ := List.lookup_eq_some_iff.mp hfind
    have hty : existing.ty = res.ty := by
      by_contra hne
      exact hsame (.inl hne)
    have hexisting := h.resources (res.name, existing) (by simp [hentries])
    rw [hty] at hexisting
    exact hexisting.mono fun _ => .inl
  | none =>
    refine .bind ((h.registerType res.ty).mono (fun _ d' hd => ?_)
      fun d' hd => ⟨hmono hd.1, hd.2⟩)
    obtain ⟨haccounted, hkept, hall⟩ := hd
    have haccounted' := hmono haccounted
    refine ensures_modify ⟨?_, hkept, fun s hs _ => .inr (hall hs)⟩
    refine { haccounted' with
      declared := haccounted'.declared.of_eq rfl rfl
      resources := fun entry he => ?_ }
    rcases NameTable.mem_insertEntry he with rfl | he
    · exact hres
    · exact haccounted'.resources entry he

theorem Draft.Accounted.addShared (h : d.Accounted known pending next) (name : String) (ty : Ty) :
    Ensures (Drafting.addShared name ty) d
      (fun _ d' => d'.Accounted known pending next ∧ d.structs ⊆ d'.structs)
      fun d' => d'.Accounted known pending next ∧ d.structs ⊆ d'.structs := by
  refine .bind (ensures_get ?_)
  cases d.shared.find? name with
  | some existing =>
    exact ensures_ite (fun _ => ensures_throw ⟨h, List.Subset.refl _⟩) fun _ =>
      ensures_pure ⟨h, List.Subset.refl _⟩
  | none =>
    exact .bind ((h.registerType ty).imp fun _ _ hd => ensures_modify
      ⟨And.left (hd.1.of_eq rfl), hd.2.1⟩)

namespace Emit

theorem accounts_registerType (ty : Ty) :
    (accounting known pending next).Upholds (Emit.drafting (.registerType ty)) :=
  accounts_drafting fun _ hd => (hd.registerType ty).imp (fun _ _ h => ⟨h.1, h.2.1⟩)

theorem accounts_registerResource {res : Resource} (h : res.ty.MadeOf known) :
    (accounting known pending next).Upholds (Emit.drafting (.registerResource res)) :=
  accounts_drafting fun _ hd => (hd.registerResource h fun _ hs => hs).mono
    (fun _ _ h => ⟨h.1, h.2.1⟩) fun _ h => h

theorem accounts_enterScope (condition : Option Expr) :
    (accounting known pending next).Upholds (Emit.redraft (·.enterScope condition)) :=
  accounts_of_ensures fun _ hs => ensures_redraft
    ⟨⟨hs.numbered, hs.types, hs.draft.enterScope condition⟩, List.Subset.refl _, trivial⟩

theorem accounts_exitScope :
    (accounting known pending next).Upholds (Emit.drafting .exitScope) := by
  refine accounts_drafting fun d hd => .bind (ensures_get ?_)
  cases hleave : d.scopes.leave? with
  | some scopes => exact ensures_set ⟨hd.leaveScope hleave, List.Subset.refl _⟩
  | none => exact ensures_throw ⟨hd, List.Subset.refl _⟩

theorem accounts_branch {cond target value : Expr} {body : Emit Unit}
    (h : (accounting known pending next).Upholds body) :
    (accounting known pending next).Upholds (Emit.branch cond target value body) :=
  .bind (accounts_enterScope _) fun _ _ => .bind h fun _ _ => .bind (accounts_nameOf _) fun _ _ =>
    .bind (accounts_nameOf _) fun _ _ => .bind (accounts_write fun _ hty => by cases hty) fun _ _ =>
      accounts_exitScope

theorem accounts_once {body : Ty → Emit Unit} (he : e.Grounded known next)
    (hb : ∀ ty, ty.MadeOf known → (accounting known pending next).Upholds (body ty)) :
    (accounting known pending next).Upholds (Emit.once e body) :=
  .bind .get fun _ _ => .ite (fun _ => .pure trivial) fun _ =>
    .bind (accounts_typing (e.inferType_gives he.sourced)) fun ty hty => .bind (hb ty hty) fun _ _ =>
      accounts_of_ensures fun _ hs => ensures_redraft
        ⟨⟨hs.numbered, hs.types, hs.draft.mark (he e .self).id⟩, List.Subset.refl _, trivial⟩

end Emit

theorem Line.madeOf_declare {ty : Ty} (h : ty.MadeOf known) (target : Spelling) (value : Initial) :
    ∀ t ∈ (Line.declare ty target value).types, t.MadeOf known :=
  fun _ ht => List.mem_singleton.mp ht ▸ h

namespace Expr

open Emit

mutual

theorem emit_accounts (e : Expr) (h : e.Grounded known next) :
    (accounting known pending next).Upholds e.emit := by
  obtain ⟨hown, hops⟩ := grounded_iff.mp h
  unfold emit
  cases e with
  | literal id value =>
    exact accounts_once h fun _ _ => .bind (accounts_orFault _) fun _ _ => accounts_rename _ _
  | unary id op operand =>
    have ho := emit_accounts operand (hops operand (by simp))
    exact accounts_once h fun _ hty => .bind ho fun _ _ => .bind (accounts_nameOf _) fun _ _ =>
      .bind (accounts_nameOf _) fun _ _ => accounts_write (Line.madeOf_declare hty _ _)
  | binary id op lhs rhs =>
    have hl := emit_accounts lhs (hops lhs (by simp))
    have hr := emit_accounts rhs (hops rhs (by simp))
    exact accounts_once h fun _ hty => .bind hl fun _ _ => .bind hr fun _ _ =>
      .bind (accounts_nameOf _) fun _ _ => .bind (accounts_nameOf _) fun _ _ => .ite
        (fun _ => .bind (accounts_write fun _ ht => by cases ht) fun _ _ =>
          .bind (accounts_rename _ _) fun _ _ => accounts_noteWrite lhs)
        fun _ => .bind (accounts_nameOf _) fun _ _ => accounts_write (Line.madeOf_declare hty _ _)
  | call id callee args =>
    rw [operands_call] at hops
    exact accounts_once h fun _ hty => .bind (emitArgs_accounts args hops) fun _ _ =>
      .bind (accounts_orFault _) fun _ _ => .ite (fun _ => accounts_write fun _ ht => by cases ht)
        fun _ => .bind (accounts_nameOf _) fun _ _ => accounts_write (Line.madeOf_declare hty _ _)
  | resource id res =>
    have hres : res.ty.MadeOf known := hown.types _ (List.mem_singleton_self _)
    exact accounts_once h fun _ _ => .bind (accounts_registerResource hres) fun _ _ =>
      accounts_rename _ _
  | input id i =>
    exact accounts_once h fun _ _ => accounts_rename _ _
  | array id elem length init =>
    have helem : elem.MadeOf known := hown.types _ (List.mem_singleton_self _)
    exact accounts_once h fun _ _ => .bind (accounts_registerType elem) fun _ _ =>
      .bind (accounts_orFault _) fun _ _ => .bind (accounts_nameOf _) fun _ _ =>
        accounts_write fun _ ht => List.mem_singleton.mp ht ▸ helem
  | swizzle id base _ | field id base _ | element id base _ =>
    have hb := emit_accounts base (hops base (by simp))
    exact accounts_once h fun _ _ => .bind hb fun _ _ => .bind (accounts_nameOf _) fun _ _ =>
      accounts_rename _ _
  | elementAt id base index =>
    have hb := emit_accounts base (hops base (by simp))
    have hi := emit_accounts index (hops index (by simp))
    exact accounts_once h fun _ _ => .bind hb fun _ _ => .bind hi fun _ _ =>
      .bind (accounts_nameOf _) fun _ _ => .bind (accounts_nameOf _) fun _ _ => accounts_rename _ _
  | storage id name ty =>
    exact accounts_once h fun _ _ => accounts_registerType ty
  | zeroed id ty =>
    have hzero : ty.MadeOf known := hown.types _ (List.mem_singleton_self _)
    exact accounts_once h fun _ _ => .bind (accounts_registerType ty) fun _ _ =>
      .bind (accounts_nameOf _) fun _ _ => accounts_write (Line.madeOf_declare hzero _ _)
  | select id cond yes no =>
    have hc := emit_accounts cond (hops cond (by simp))
    have hy := emit_accounts yes (hops yes (by simp))
    have hn := emit_accounts no (hops no (by simp))
    exact accounts_once h fun _ hty => .bind hc fun _ _ => .bind (accounts_nameOf _) fun _ _ =>
      .bind (accounts_write fun _ ht => List.mem_singleton.mp ht ▸ hty) fun _ _ =>
        .bind (accounts_nameOf _) fun _ _ => .bind (accounts_write fun _ ht => by cases ht)
          fun _ _ => .bind (accounts_branch hy) fun _ _ =>
            .bind (accounts_write fun _ ht => by cases ht) fun _ _ =>
              .bind (accounts_branch hn) fun _ _ => accounts_write fun _ ht => by cases ht

theorem emitArgs_accounts (es : List Expr) (h : ∀ e ∈ es, e.Grounded known next) :
    (accounting known pending next).Upholds (emitArgs es) := by
  cases es with
  | nil =>
    rw [emitArgs]
    exact .pure trivial
  | cons e rest =>
    rw [emitArgs]
    have he := h e (by simp)
    exact .bind (emit_accounts e he) fun _ _ => .bind (accounts_nameOf _) fun _ _ =>
      .bind (accounts_typing (e.inferType_gives he.sourced)) fun _ _ =>
        .bind (emitArgs_accounts rest fun d hd => h d (by simp [hd])) fun _ _ => .pure trivial

end

end Expr

section Records

variable {s : Sheet}

theorem ensures_once_hidden {body : Ty → Emit Unit} {done : Sheet → Prop}
    (hhidden : ¬s.draft.scopes.isVisible e.id = true)
    (hmark : ∀ s : Sheet, done s → done { s with draft := s.draft.mark e.id })
    (h : ∀ ty nodes, Ensures (body ty) { s with nodes } (fun _ => done) fun _ => True) :
    Ensures (Emit.once e body) s (fun _ => done) fun _ => True :=
  .of_eq (once_of_hidden hhidden) <| .bind <| ensures_making <| ensures_any
    (fun ty nodes => .bind ((h ty nodes).imp fun _ s' hs => ensures_redraft (hmark s' hs))) fun _ => trivial

theorem Expr.emit_records (hs : s.draft.Accounted known pending next)
    (hhidden : ¬s.draft.scopes.isVisible e.id = true) :
    Ensures e.emit s (fun _ s' => ∀ ty ∈ e.registers,
      ty.MadeOf fun st => known st ∨ st ∈ s'.draft.structs) fun _ => True := by
  have hall {ty : Ty} {structs : List Ty} (h : ty.structs ⊆ structs) :
      ∀ t ∈ [ty], t.MadeOf fun st => known st ∨ st ∈ structs :=
    fun t ht => List.mem_singleton.mp ht ▸ fun st hst _ => .inr (h hst)
  have hwrite {line : Line} {s : Sheet} {ty : Ty} (h : ty.structs ⊆ s.draft.structs) :
      Ensures (Emit.write line) s (fun _ s' => ∀ t ∈ [ty],
        t.MadeOf fun st => known st ∨ st ∈ s'.draft.structs) fun _ => True :=
    ensures_write (hall (by rwa [s.draft.structs_write]))
  unfold emit
  cases e with
  | resource id res =>
    have hany : res.ty.MadeOf fun _ => True := fun _ _ _ => trivial
    exact ensures_once_hidden hhidden (fun _ h => h) fun _ nodes => .bind <| ensures_drafting <|
      (hs.registerResource hany fun _ _ => trivial).mono (fun _ d' hd => ensures_rename fun ty hty =>
        List.mem_singleton.mp hty ▸ hd.2.2) fun _ _ => trivial
  | array id elem length init =>
    exact ensures_once_hidden hhidden (fun _ h => h) fun _ nodes => .bind <| ensures_drafting <|
      (hs.registerType elem).mono (fun _ d' hd => .bind (ensures_orFault
        (fun _ _ => .bind (ensures_nameOf (hwrite hd.2.2))) fun _ _ => trivial)) fun _ _ => trivial
  | storage id name ty =>
    exact ensures_once_hidden hhidden (fun _ h => h) fun _ nodes => ensures_drafting <|
      (hs.registerType ty).mono (fun _ d' hd => hall hd.2.2) fun _ _ => trivial
  | zeroed id ty =>
    exact ensures_once_hidden hhidden (fun _ h => h) fun _ nodes => .bind <| ensures_drafting <|
      (hs.registerType ty).mono (fun _ d' hd => .bind (ensures_nameOf (hwrite hd.2.2)))
        fun _ _ => trivial
  | _ => exact ensures_any (fun _ _ _ hty => by cases hty) fun _ => trivial

end Records

end ComputeKernel
