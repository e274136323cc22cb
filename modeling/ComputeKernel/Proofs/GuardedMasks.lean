import ComputeKernel.Proofs.MaskValues

namespace ComputeKernel

variable {line : Line} {labels id n : Nat} {guarded : List Nat} {e : Expr}

def Nodes.Marks (n : Nodes) (id : Nat) (x : String) : Prop :=
  n.names.find? id = some (.word x) ∧ IsMaskName x

def Scopes.ids (s : Scopes) : List Nat := s.visible ++ s.stack.visible.flatten

def Draft.ids (d : Draft) : List Nat := d.scopes.ids ++ d.enclosing.1.flatMap Scopes.ids

structure Sheet.Labelled (labels : Nat) (s : Sheet) : Prop where
  made : ∀ id ∈ s.draft.ids, id < s.nodes.next
  known : ∀ id x, s.nodes.Marks id x → id < s.nodes.next
  issued : ∀ id, ∀ stem ∈ ["m_if", "m_else", "m_loop"], ∀ n : Nat,
    s.nodes.names.find? id = some (.word (stem ++ "_" ++ toString n)) → n < labels
  unique : ∀ id id' x, s.nodes.Marks id x → s.nodes.Marks id' x → id = id'

structure Draft.Grows (d d' : Draft) : Prop where
  enclosing : d'.enclosing = d.enclosing
  functions : d.functions <+: d'.functions
  lines : d.lines <+: d'.lines
  stack : ∃ opened : ScopeStack, d'.scopes.stack = opened ++ d.scopes.stack ∧
    ∀ visible ∈ opened.visible, d.scopes.visible ⊆ visible
  visible : d.scopes.visible ⊆ d'.scopes.visible

structure Sheet.Guards (guarded : List Nat) (s s' : Sheet) : Prop where
  marks : ∀ id ∈ guarded, ∀ x, s.nodes.Marks id x → s'.nodes.Marks id x
  unset : ∀ id ∈ guarded, ∀ x, s.nodes.Marks id x →
    ∃ more, s'.draft.lines = s.draft.lines ++ more ∧ ∀ line ∈ more, x ∉ line.sets

structure Sheet.Spares (labels : Nat) (guarded : List Nat) (s s' : Sheet) : Prop where
  next : s.nodes.next ≤ s'.nodes.next
  grows : s.draft.Grows s'.draft
  masks : (s'.draft.masks, s'.draft.wave32) = (s.draft.masks, s.draft.wave32)
  safe : s.Labelled labels → s'.draft.SparesMasks → s'.Labelled labels ∧ s.Guards guarded s'

section Growth

variable {d d' d'' : Draft}

theorem Draft.pages_eq (d : Draft) : d.pages = d.lines :: d.enclosing.2 := by
  unfold pages lines enclosing pages
  cases d.frames <;> rfl

theorem Draft.mem_everyLine :
    line ∈ d.everyLine ↔
      line ∈ d.functions ∨ line ∈ d.lines ∨ ∃ page ∈ d.enclosing.2, line ∈ page := by
  simp [everyLine, pages_eq]

def Draft.frame (d : Draft) := (d.context, d.scopes, d.lines, d.wave32)

theorem Draft.Grows.of_frame (h : d'.frame = d.frame) : d.Grows d' := by
  simp only [frame, context, Prod.mk.injEq] at h
  obtain ⟨⟨henc, hfun, -⟩, hscopes, hlines, -⟩ := h
  exact ⟨henc, hfun ▸ List.prefix_rfl, hlines ▸ List.prefix_rfl, ⟨{}, by rw [hscopes]; rfl, by simp⟩,
    hscopes ▸ fun _ h => h⟩

theorem Draft.Grows.refl (d : Draft) : d.Grows d := .of_frame rfl

theorem Draft.Grows.trans (h : d.Grows d') (h' : d'.Grows d'') : d.Grows d'' where
  enclosing := h'.enclosing.trans h.enclosing
  functions := h.functions.trans h'.functions
  lines := h.lines.trans h'.lines
  stack := by
    obtain ⟨opened, hstack, hopened⟩ := h.stack
    obtain ⟨opened', hstack', hopened'⟩ := h'.stack
    refine ⟨opened' ++ opened, by rw [hstack', hstack, ScopeStack.append_assoc], fun scope hm => ?_⟩
    rcases List.mem_append.mp hm with hm | hm
    · exact fun _ hid => hopened' scope hm (h.visible hid)
    · exact hopened scope hm
  visible := fun _ hid => h'.visible (h.visible hid)

theorem Draft.Grows.everyLine (h : d.Grows d') : d.everyLine ⊆ d'.everyLine := by
  intro line hl
  rw [mem_everyLine] at hl ⊢
  rw [h.enclosing]
  exact hl.imp (fun hl => h.functions.subset hl) fun hl => hl.imp_left fun hl => h.lines.subset hl

theorem Draft.grows_write (d : Draft) (line : Line) : d.Grows (d.write line) where
  enclosing := congrArg Prod.fst (d.context_write line)
  functions := by
    have hsame : (d.write line).functions = d.functions := congrArg (·.2.1) (d.context_write line)
    simp [hsame]
  lines := d.lines_write line ▸ List.prefix_append _ _
  stack := ⟨{}, by rw [d.scopes_write]; rfl, by simp⟩
  visible := d.scopes_write line ▸ fun _ h => h

theorem Draft.masks_write (d : Draft) (line : Line) :
    ((d.write line).masks, (d.write line).wave32) = (d.masks, d.wave32) := by
  unfold write
  split <;> rfl

theorem Draft.ids_write (d : Draft) (line : Line) : (d.write line).ids = d.ids := by
  rw [ids, ids, d.scopes_write, show (d.write line).enclosing = d.enclosing from
    (d.grows_write line).enclosing]

theorem Draft.grows_mark (d : Draft) (id : Nat) : d.Grows (d.mark id) where
  enclosing := rfl
  functions := List.prefix_rfl
  lines := List.prefix_rfl
  stack := ⟨{}, by unfold mark Scopes.mark; split <;> rfl, by simp⟩
  visible := by
    unfold mark Scopes.mark
    split
    · exact fun _ h => h
    · exact List.subset_cons_self _ _

theorem Draft.grows_enterScope (d : Draft) (condition : Option Expr) :
    d.Grows (d.enterScope condition) where
  enclosing := rfl
  functions := List.prefix_rfl
  lines := List.prefix_rfl
  stack := ⟨⟨[d.scopes.visible], [condition]⟩, rfl, by simp⟩
  visible := fun _ h => h

variable {condition : Option Expr} {scopes : Scopes}

theorem Draft.Grows.leave (h : (d.enterScope condition).Grows d')
    (hl : d'.scopes.leave? = some scopes) : d.Grows { d' with scopes } := by
  obtain ⟨⟨visible, conditions⟩, hstack, hopened⟩ := h.stack
  obtain ⟨inner, hleft⟩ := Memo.leave_eq hl
  have hlines : Draft.lines { d' with scopes } = d'.lines := rfl
  have hboth := hleft.symm.trans hstack
  -- What is below the scope that ends are the scopes opened since then, and the one entered first.
  have hvisible : scopes.visible :: scopes.stack.visible =
      (visible ++ [d.scopes.visible]) ++ d.scopes.stack.visible :=
    (congrArg ScopeStack.visible hboth).trans (List.append_cons ..)
  have hconditions : inner :: scopes.stack.conditions =
      (conditions ++ [condition]) ++ d.scopes.stack.conditions :=
    (congrArg ScopeStack.conditions hboth).trans (List.append_cons ..)
  have hall : ∀ seen ∈ visible ++ [d.scopes.visible], d.scopes.visible ⊆ seen :=
    List.forall_mem_append.mpr ⟨hopened, by simp⟩
  obtain ⟨seen, outer, hseen⟩ := List.exists_cons_of_ne_nil (l := visible ++ [d.scopes.visible]) (by simp)
  obtain ⟨c, others, hothers⟩ := List.exists_cons_of_ne_nil (l := conditions ++ [condition]) (by simp)
  rw [hseen, List.cons_append, List.cons.injEq] at hvisible
  rw [hothers, List.cons_append, List.cons.injEq] at hconditions
  rw [hseen] at hall
  refine ⟨h.enclosing, h.functions, hlines ▸ h.lines, ⟨⟨outer, others⟩,
    congrArg₂ ScopeStack.mk hvisible.2 hconditions.2, fun seen hm => hall seen (by simp [hm])⟩, ?_⟩
  exact hvisible.1 ▸ hall seen (by simp)

theorem Draft.Grows.leave_isSome
    (h : (d.enterScope condition).Grows d') : ∃ scopes, d'.scopes.leave? = some scopes := by
  obtain ⟨⟨visible, conditions⟩, hstack, -⟩ := h.stack
  rw [Scopes.leave?, hstack]
  cases visible <;> cases conditions <;> exact ⟨_, rfl⟩

theorem Scopes.ids_leave {s : Scopes} (h : s.leave? = some scopes) : scopes.ids ⊆ s.ids := by
  obtain ⟨_, hstack⟩ := Memo.leave_eq h
  intro id hid
  rw [ids, hstack, ScopeStack.push, List.flatten_cons]
  exact List.mem_append_right _ hid

end Growth

namespace Sheet

variable {s s' s'' : Sheet} {name : Spelling}

theorem Guards.refl (guarded : List Nat) (s : Sheet) : s.Guards guarded s :=
  ⟨fun _ _ _ h => h, fun _ _ _ _ => ⟨[], (List.append_nil _).symm, by simp⟩⟩

theorem Guards.trans (h : s.Guards guarded s') (h' : s'.Guards guarded s'') :
    s.Guards guarded s'' where
  marks id hid x hx := h'.marks id hid x (h.marks id hid x hx)
  unset id hid x hx := by
    obtain ⟨more, hlines, hunset⟩ := h.unset id hid x hx
    obtain ⟨more', hlines', hunset'⟩ := h'.unset id hid x (h.marks id hid x hx)
    refine ⟨more ++ more', by rw [hlines', hlines, List.append_assoc], fun line hl => ?_⟩
    exact (List.mem_append.mp hl).elim (hunset line) (hunset' line)

theorem Guards.mono {fewer : List Nat} (h : s.Guards guarded s') (hsub : fewer ⊆ guarded) :
    s.Guards fewer s' :=
  ⟨fun id hid => h.marks id (hsub hid), fun id hid => h.unset id (hsub hid)⟩

theorem Guards.of_same (hn : s'.nodes.names = s.nodes.names)
    (hl : s'.draft.lines = s.draft.lines) : s.Guards guarded s' where
  marks id _ x hx := by rwa [Nodes.Marks, hn]
  unset _ _ _ _ := ⟨[], by rw [hl, List.append_nil], by simp⟩

theorem Spares.refl (labels : Nat) (guarded : List Nat) (s : Sheet) : s.Spares labels guarded s :=
  ⟨Nat.le_refl _, .refl _, rfl, fun hs _ => ⟨hs, .refl _ _⟩⟩

theorem Spares.trans (h : s.Spares labels guarded s') (h' : s'.Spares labels guarded s'') :
    s.Spares labels guarded s'' where
  next := Nat.le_trans h.next h'.next
  grows := h.grows.trans h'.grows
  masks := h'.masks.trans h.masks
  safe hs hspares := by
    obtain ⟨hs', hg⟩ := h.safe hs (hspares.of_subset h'.grows.everyLine)
    obtain ⟨hs'', hg'⟩ := h'.safe hs' hspares
    exact ⟨hs'', hg.trans hg'⟩

theorem Labelled.of_same (h : s.Labelled labels) (hn : s'.nodes.names = s.nodes.names)
    (hnext : s.nodes.next ≤ s'.nodes.next) (hids : s'.draft.ids ⊆ s.draft.ids) :
    s'.Labelled labels where
  made id hid := Nat.lt_of_lt_of_le (h.made id (hids hid)) hnext
  known id x hx := Nat.lt_of_lt_of_le (h.known id x (by rwa [Nodes.Marks, hn] at hx)) hnext
  issued id stem hs n hx := h.issued id stem hs n (hn ▸ hx)
  unique id id' x hx hx' := h.unique id id' x (by rwa [Nodes.Marks, hn] at hx)
    (by rwa [Nodes.Marks, hn] at hx')

theorem Spares.of_frame (hn : s'.nodes.names = s.nodes.names) (hnext : s.nodes.next ≤ s'.nodes.next)
    (hd : s'.draft.frame = s.draft.frame) : s.Spares labels guarded s' := by
  have hg : s.draft.Grows s'.draft := .of_frame hd
  have hids : s'.draft.ids = s.draft.ids := by
    rw [Draft.ids, Draft.ids, hg.enclosing, show s'.draft.scopes = s.draft.scopes from
      congrArg (·.2.1) hd]
  have hmasks : (s'.draft.masks, s'.draft.wave32) = (s.draft.masks, s.draft.wave32) :=
    congrArg (fun f => (f.1.2.2, f.2.2.2)) hd
  exact ⟨hnext, hg, hmasks, fun hs _ => ⟨hs.of_same hn hnext (hids ▸ fun _ h => h),
    .of_same hn (congrArg (·.2.2.1) hd)⟩⟩

theorem Spares.write (s : Sheet)
    (h : s.Labelled labels → line.SparesMasks →
      ∀ id ∈ guarded, ∀ x, s.nodes.Marks id x → x ∉ line.sets) :
    s.Spares labels guarded { s with draft := s.draft.write line } where
  next := Nat.le_refl _
  grows := s.draft.grows_write line
  masks := s.draft.masks_write line
  safe hs hspares := by
    refine ⟨hs.of_same rfl (Nat.le_refl _) (s.draft.ids_write line ▸ fun _ h => h),
      fun _ _ _ h => h, fun id hid x hx => ⟨[line], s.draft.lines_write line, fun l hl => ?_⟩⟩
    rw [List.mem_singleton.mp hl]
    refine h hs (hspares line (Draft.mem_everyLine.mpr (.inr (.inl ?_)))) id hid x hx
    simp [Draft.lines_write]

theorem Spares.write_plain (s : Sheet) (h : line.declares = []) :
    s.Spares labels guarded { s with draft := s.draft.write line } :=
  .write s fun _ hline id _ x hx hm => by
    rw [Line.sets, h, List.nil_append] at hm
    exact hline x hm hx.2

theorem Labelled.rename (h : s.Labelled labels) (hname : ∀ x, name = .word x → ¬IsMaskName x) :
    Labelled labels { s with nodes := s.nodes.rename id name } := by
  have hold {id' : Nat} {x : String}
      (hx : Nodes.Marks (s.nodes.rename id name) id' x) : s.nodes.Marks id' x := by
    obtain ⟨hf, hmask⟩ := hx
    by_cases same : id' = id
    · simp only [Nodes.rename, IdTable.find?_insert, same, if_true, Option.some.injEq] at hf
      exact (hname x hf hmask).elim
    · simp only [Nodes.rename, IdTable.find?_insert, same, if_false] at hf
      exact ⟨hf, hmask⟩
  exact {
    made := h.made
    known := fun id' x hx => h.known id' x (hold hx)
    issued := fun id' stem hs n hf => h.issued id' stem hs n (hold ⟨hf, stem, hs, n, rfl⟩).1
    unique := fun id' id'' x hx hx' => h.unique id' id'' x (hold hx) (hold hx') }

theorem Guards.rename (s : Sheet) (hid : id ∉ guarded) (name : Spelling) :
    s.Guards guarded { s with nodes := s.nodes.rename id name } where
  marks id' hid' x hx := by
    have hne : id' ≠ id := fun h => hid (h ▸ hid')
    refine ⟨?_, hx.2⟩
    simpa only [Nodes.rename, IdTable.find?_insert, hne, if_false] using hx.1
  unset _ _ _ _ := ⟨[], (List.append_nil _).symm, by simp⟩

theorem Spares.rename (s : Sheet) (hid : id ∉ guarded)
    (hname : ∀ x, name = .word x → ¬IsMaskName x) :
    s.Spares labels guarded { s with nodes := s.nodes.rename id name } :=
  ⟨Nat.le_refl _, .refl _, rfl, fun hs _ => ⟨hs.rename hname, .rename s hid name⟩⟩

theorem Spares.mark (s : Sheet) (hid : id < s.nodes.next) :
    s.Spares labels guarded { s with draft := s.draft.mark id } := by
  refine ⟨Nat.le_refl _, s.draft.grows_mark id, rfl, fun hs _ =>
    ⟨{ hs with made := ?_ }, .of_same rfl rfl⟩⟩
  intro id' hid'
  have hmem : id' = id ∨ id' ∈ s.draft.ids := by
    simp only [Draft.ids, Scopes.ids, Draft.mark, Scopes.mark, Draft.enclosing, Draft.pages] at hid' ⊢
    split at hid'
    · exact .inr hid'
    · simpa [or_assoc] using hid'
  rcases hmem with rfl | hmem
  · exact hid
  · exact hs.made id' hmem

theorem Spares.enterScope (s : Sheet) (condition : Option Expr) :
    s.Spares labels guarded { s with draft := s.draft.enterScope condition } := by
  refine ⟨Nat.le_refl _, s.draft.grows_enterScope condition, rfl,
    fun hs _ => ⟨{ hs with made := fun id hid => hs.made id ?_ }, .of_same rfl rfl⟩⟩
  simpa [Draft.ids, Scopes.ids, Draft.enterScope, Scopes.enter, ScopeStack.push, Draft.enclosing, Draft.pages,
    or_assoc] using hid

theorem Spares.leave {condition : Option Expr} {scopes : Scopes}
    (h : Spares labels guarded { s with draft := s.draft.enterScope condition } s')
    (hl : s'.draft.scopes.leave? = some scopes) :
    s.Spares labels guarded { s' with draft := { s'.draft with scopes } } where
  next := h.next
  grows := h.grows.leave hl
  masks := h.masks
  safe hs hspares := by
    have henter : s.Spares labels guarded { s with draft := s.draft.enterScope condition } :=
      .enterScope s condition
    obtain ⟨hentered, -⟩ := henter.safe hs (hspares.of_subset (h.grows.leave hl).everyLine)
    obtain ⟨hs', hg⟩ := h.safe hentered hspares
    refine ⟨hs'.of_same rfl (Nat.le_refl _) fun id hid => ?_, hg.marks, hg.unset⟩
    rcases List.mem_append.mp hid with hid | hid
    · exact List.mem_append_left _ (Scopes.ids_leave hl hid)
    · exact List.mem_append_right _ hid

end Sheet

namespace Expr

def Proper (n : Nat) (e : Expr) : Prop :=
  ∀ d, e.Uses d → d.id < n ∧ ∀ x, d.givenName? = some x → ¬IsMaskName x

variable {m : Nat} {d : Expr}

theorem Proper.mono (h : e.Proper n) (hn : n ≤ m) : e.Proper m := fun d hd =>
  ⟨Nat.lt_of_lt_of_le (h d hd).1 hn, (h d hd).2⟩

theorem Proper.operand (h : e.Proper n) (hd : d ∈ e.operands) : d.Proper n := fun c hc =>
  h c (.of_operand hd hc)

theorem Proper.id_lt (h : e.Proper n) : e.id < n := (h e .self).1

theorem Proper.of_operands (hid : e.id < n) (hname : ∀ x, e.givenName? = some x → ¬IsMaskName x)
    (h : ∀ d ∈ e.operands, d.Proper n) : e.Proper n := by
  intro d hd
  rcases hd.cases with rfl | ⟨c, hc, hd⟩
  · exact ⟨hid, hname⟩
  · exact h c hc d hd

end Expr

def Emit.Heeds {α : Type} (labels n : Nat) (guarded : List Nat) (x : Emit α) : Prop :=
  ∀ s : Sheet, n ≤ s.nodes.next → guarded ⊆ s.draft.scopes.visible →
    Ensures x s (fun _ s' => s.Spares labels guarded s') (s.Spares labels guarded)

section Emission

open Emit

variable {α β : Type}

namespace Emit.Heeds

variable {x : Emit α}

theorem bind {f : α → Emit β} (hx : Heeds labels n guarded x)
    (hf : ∀ a, Heeds labels n guarded (f a)) : Heeds labels n guarded (x >>= f) := by
  intro s hn hg
  refine .bind ((hx s hn hg).imp fun a s' h => ?_)
  exact (hf a s' (Nat.le_trans hn h.next) fun _ hid => h.grows.visible (hg hid)).mono
    (fun _ _ h' => h.trans h') fun _ h' => h.trans h'

theorem pure (a : α) : Heeds labels n guarded (Pure.pure a) := fun s _ _ =>
  ensures_pure (.refl labels guarded s)

theorem ite {p : Prop} [Decidable p] {y : Emit α} (hx : Heeds labels n guarded x)
    (hy : Heeds labels n guarded y) : Heeds labels n guarded (if p then x else y) := by
  split
  · exact hx
  · exact hy

end Emit.Heeds

theorem heeds_orFault (r : Except Fault α) : Heeds labels n guarded (orFault r) := fun s _ _ =>
  ensures_orFault (fun _ _ => .refl labels guarded s) fun _ _ => .refl labels guarded s

theorem heeds_nameOf (e : Expr) : Heeds labels n guarded (nameOf e) := fun s _ _ =>
  ensures_nameOf (.refl labels guarded s)

theorem heeds_typing (x : Typing α) : Heeds labels n guarded (typing x) := fun _ _ _ =>
  ensures_typing (ensures_any (fun _ _ => .of_frame rfl (Nat.le_refl _) rfl)
    fun _ => .of_frame rfl (Nat.le_refl _) rfl)

theorem heeds_diverging (x : Diverging α) : Heeds labels n guarded (diverging x) := fun _ _ _ =>
  ensures_diverging fun _ _ => .of_frame rfl (Nat.le_refl _) rfl

theorem heeds_inDivergentRegion : Heeds labels n guarded inDivergentRegion := fun _ _ _ =>
  ensures_inDivergentRegion fun _ _ => .of_frame rfl (Nat.le_refl _) rfl

theorem heeds_noteWrite (target : Expr) : Heeds labels n guarded (noteWrite target) := fun _ _ _ =>
  ensures_noteWrite fun _ => .of_frame rfl (Nat.le_refl _) rfl

theorem heeds_drafting {x : Drafting α} (h : Keeps Draft.frame x) :
    Heeds labels n guarded (drafting x) := fun s _ _ =>
  ensures_drafting ((h s.draft).mono (fun _ _ hd => .of_frame rfl (Nat.le_refl _) hd)
    fun _ hd => .of_frame rfl (Nat.le_refl _) hd)

theorem heeds_registerType (ty : Ty) : Heeds labels n guarded (drafting (.registerType ty)) :=
  heeds_drafting (keeps_registerType (fun _ _ _ => rfl) ty)

theorem heeds_registerResource (res : Resource) :
    Heeds labels n guarded (drafting (.registerResource res)) :=
  heeds_drafting (keeps_registerResource (fun _ _ _ => rfl) (fun _ _ => rfl) res)

theorem heeds_write (h : line.declares = []) : Heeds labels n guarded (write line) := fun s _ _ =>
  ensures_write (.write_plain s h)

theorem heeds_rename {name : Spelling} (hid : id ∉ guarded)
    (hname : ∀ x, name = .word x → ¬IsMaskName x) : Heeds labels n guarded (rename id name) :=
  fun s _ _ => ensures_rename (.rename s hid hname)

theorem spares_declare {s : Sheet} (hid : e.id ∉ guarded)
    (hdefault : e.defaultName = .temp e.id)
    (hline : line.declares = (s.nodes.name e).place?.toList) :
    s.Spares labels guarded { s with draft := s.draft.write line } := by
  refine .write s fun hs hspares id hmem x hx hset => ?_
  rcases List.mem_append.mp hset with hset | hset
  · rw [hline] at hset
    have hname : (s.nodes.name e).place? = some x := Option.mem_toList.mp hset
    rw [Nodes.name, hdefault] at hname
    cases hf : s.nodes.names.find? e.id with
    | none =>
      rw [hf] at hname
      cases hname
      exact not_isMaskName_temp e.id hx.2
    | some name =>
      rw [hf] at hname
      cases name with
      | word y =>
        cases hname
        exact hid (hs.unique id e.id x hx ⟨hf, hx.2⟩ ▸ hmem)
      | temp id' =>
        cases hname
        exact not_isMaskName_temp id' hx.2
      | _ => cases hname
  · exact hspares x hset hx.2

theorem heeds_declare {line : Spelling → Line} (hid : e.id ∉ guarded)
    (hdefault : e.defaultName = .temp e.id)
    (hline : ∀ name, (line name).declares = name.place?.toList) :
    Heeds labels n guarded (nameOf e >>= fun name => write (line name)) := fun s _ _ =>
  spares_declare hid hdefault (hline (s.nodes.name e))

theorem heeds_declare_bind {line : Spelling → Line} {x : Emit α} (hid : e.id ∉ guarded)
    (hdefault : e.defaultName = .temp e.id)
    (hline : ∀ name, (line name).declares = name.place?.toList)
    (hx : Heeds labels n guarded x) :
    Heeds labels n guarded (nameOf e >>= fun name => write (line name) >>= fun _ => x) := by
  simpa only [bind_assoc] using Heeds.bind (heeds_declare hid hdefault hline) fun _ => hx

theorem heeds_assign {op : Op} {target value : Spelling} (hid : id ∉ guarded) :
    Heeds labels n guarded (do
      write (.assign target op value)
      rename id target) := by
  intro s _ _
  have hwrite : s.Spares labels guarded { s with draft := s.draft.write (.assign target op value) } :=
    .write_plain s rfl
  refine .bind (ensures_write (ensures_rename
    ⟨Nat.le_refl _, hwrite.grows, hwrite.masks, fun hs hspares => ?_⟩))
  obtain ⟨hs', hg⟩ := hwrite.safe hs hspares
  refine ⟨hs'.rename fun x hx hmask => ?_, hg.trans (.rename _ hid target)⟩
  refine hspares (.assign target op value) (Draft.mem_everyLine.mpr (.inr (.inl ?_))) x ?_ hmask
  · simp [Draft.lines_write]
  · simp [Line.assigns, hx, Spelling.root?]

theorem heeds_once {body : Ty → Emit Unit} (hid : e.id < n)
    (hbody : e.id ∉ guarded → ∀ ty, Heeds labels n guarded (body ty)) :
    Heeds labels n guarded (once e body) := by
  intro s hn hg
  by_cases hv : s.draft.scopes.isVisible e.id = true
  · rw [Ensures, once_of_visible hv]
    exact .refl labels guarded s
  · refine Ensures.of_eq (once_of_hidden hv) ?_
    have hnot : e.id ∉ guarded := fun h => hv (by simpa [Scopes.isVisible] using hg h)
    refine (heeds_typing e.inferType).bind (fun ty => (hbody hnot ty).bind fun _ s' hn' _ => ?_) s hn
      hg
    exact ensures_redraft (.mark s' (Nat.lt_of_lt_of_le hid hn'))

theorem heeds_branch {cond target value : Expr} {body : Emit Unit}
    (h : Heeds labels n guarded body) :
    Heeds labels n guarded (branch cond target value body) := by
  intro s hn hg
  have henter : s.Spares labels guarded { s with draft := s.draft.enterScope (some cond) } :=
    .enterScope s (some cond)
  refine .bind (ensures_redraft (Ensures.bind ?_))
  refine (h { s with draft := s.draft.enterScope (some cond) } hn hg).mono (fun _ s' h' => ?_)
    fun _ h' => henter.trans h'
  let line : Line := .assign (s'.nodes.name target) .assign (s'.nodes.name value)
  have hwrite : s'.Spares labels guarded { s' with draft := s'.draft.write line } :=
    .write_plain s' rfl
  have hw := h'.trans hwrite
  refine .bind (ensures_nameOf (.bind (ensures_nameOf (Ensures.bind
    (ensures_write (ensures_drafting (.bind (ensures_get ?_))))))))
  obtain ⟨scopes, hl⟩ := hw.grows.leave_isSome
  rw [hl]
  exact ensures_set (hw.leave hl)

mutual

theorem Expr.emit_heeds (e : Expr) (he : e.Proper n) : Heeds labels n guarded e.emit := by
  have below {c : Expr} (hc : c ∈ e.operands) : c.Proper n := he.operand hc
  unfold emit
  cases e with
  | literal id value =>
    exact heeds_once he.id_lt fun hid _ => .bind (heeds_orFault _) fun _ =>
      heeds_rename hid nofun
  | unary id op operand =>
    refine heeds_once he.id_lt fun hid _ => .bind (operand.emit_heeds (below ?_)) fun _ =>
      .bind (heeds_nameOf _) fun _ => heeds_declare hid rfl fun _ => rfl
    simp
  | binary id op lhs rhs =>
    refine heeds_once he.id_lt fun hid _ => .bind (lhs.emit_heeds (below ?_)) fun _ =>
      .bind (rhs.emit_heeds (below ?_)) fun _ => .bind (heeds_nameOf _) fun _ =>
        .bind (heeds_nameOf _) fun l => .ite ?_ (heeds_declare hid rfl fun _ => rfl)
    · simp
    · simp
    · have hid : id ∉ guarded := hid
      simpa only [bind_assoc] using (heeds_assign hid).bind fun _ => heeds_noteWrite lhs
  | call id callee args =>
    refine heeds_once he.id_lt fun hid _ => .bind (Expr.emitArgs_heeds args fun c hc => below ?_)
      fun _ => .bind (heeds_orFault _) fun _ => .ite (heeds_write rfl)
        (heeds_declare hid rfl fun _ => rfl)
    rwa [operands_call]
  | resource id res =>
    exact heeds_once he.id_lt fun hid _ => .bind (heeds_registerResource res) fun _ =>
      heeds_rename hid fun x hx => (he _ .self).2 x (by cases hx; rfl)
  | input id i =>
    exact heeds_once he.id_lt fun hid _ =>
      heeds_rename hid fun x hx => (he _ .self).2 x (by cases hx; rfl)
  | array id elem length init =>
    exact heeds_once he.id_lt fun hid _ => .bind (heeds_registerType _) fun _ =>
      .bind (heeds_orFault _) fun _ => heeds_declare hid rfl fun _ => rfl
  | swizzle id base _ | field id base _ | element id base _ =>
    refine heeds_once he.id_lt fun hid _ => .bind (base.emit_heeds (below ?_)) fun _ =>
      .bind (heeds_nameOf _) fun _ => heeds_rename hid nofun
    simp
  | elementAt id base index =>
    refine heeds_once he.id_lt fun hid _ => .bind (base.emit_heeds (below ?_)) fun _ =>
      .bind (index.emit_heeds (below ?_)) fun _ => .bind (heeds_nameOf _) fun _ =>
        .bind (heeds_nameOf _) fun _ => heeds_rename hid nofun
    · simp
    · simp
  | storage id name ty =>
    exact heeds_once he.id_lt fun _ _ => heeds_registerType _
  | zeroed id ty =>
    exact heeds_once he.id_lt fun hid _ => .bind (heeds_registerType _) fun _ =>
      heeds_declare hid rfl fun _ => rfl
  | select id cond yes no =>
    refine heeds_once he.id_lt fun hid _ => .bind (cond.emit_heeds (below ?_)) fun _ =>
      heeds_declare_bind hid rfl (fun _ => rfl) <| .bind (heeds_nameOf _) fun _ =>
        .bind (heeds_write rfl) fun _ => .bind (heeds_branch (yes.emit_heeds (below ?_))) fun _ =>
          .bind (heeds_write rfl) fun _ => .bind (heeds_branch (no.emit_heeds (below ?_))) fun _ =>
            heeds_write rfl
    · simp
    · simp
    · simp

theorem Expr.emitArgs_heeds (es : List Expr) (he : ∀ e ∈ es, e.Proper n) :
    Heeds labels n guarded (emitArgs es) := by
  cases es with
  | nil =>
    rw [emitArgs]
    exact .pure _
  | cons e rest =>
    rw [emitArgs]
    exact .bind (e.emit_heeds (he e (by simp))) fun _ => .bind (heeds_nameOf _) fun _ =>
      .bind (heeds_typing _) fun _ =>
        .bind (Expr.emitArgs_heeds rest fun d hd => he d (by simp [hd])) fun _ => .pure _

end

end Emission

end ComputeKernel
