import ComputeKernel.Proofs.Judgements

namespace ComputeKernel

variable {dag : Dag} {e : Expr} {es fs : List Expr}

def Expr.isSource : Expr → Bool
  | .input .. => true
  | .call _ callee _ => callee.divergent
  | _ => false

inductive Differs (modes : IdTable Divergence) : Expr → Prop where
  | marked {e : Expr} : modes.find? e.id = some .divergent → Differs modes e
  | source {e : Expr} : modes.find? e.id = none → e.isSource = true → Differs modes e
  | operand {e c : Expr} :
    modes.find? e.id = none → c ∈ e.operands → Differs modes c → Differs modes e

def AnyDiffers (modes : IdTable Divergence) (es : List Expr) : Prop := ∃ e ∈ es, Differs modes e

section Tables

variable {modes modes' modes'' : IdTable Divergence} {d : Expr}

theorem anyDiffers_append :
    AnyDiffers modes (es ++ fs) ↔ AnyDiffers modes es ∨ AnyDiffers modes fs := by
  simp only [AnyDiffers, List.mem_append, or_and_right, exists_or]

theorem anyDiffers_singleton : AnyDiffers modes [e] ↔ Differs modes e := by
  simp only [AnyDiffers, List.mem_singleton, exists_eq_left]

variable {mode : Divergence}

theorem differs_iff_of_known (h : modes.find? e.id = some mode) :
    Differs modes e ↔ mode = .divergent := by
  constructor
  · intro hd
    cases hd with
    | marked hm =>
      rw [hm] at h
      exact (Option.some.inj h).symm
    | source hn _ =>
      rw [hn] at h
      cases h
    | operand hn _ _ =>
      rw [hn] at h
      cases h
  · intro hmode
    exact .marked (hmode ▸ h)

theorem differs_iff_of_unknown (h : modes.find? e.id = none) :
    Differs modes e ↔ e.isSource = true ∨ AnyDiffers modes e.operands := by
  constructor
  · intro hd
    cases hd with
    | marked hm =>
      rw [hm] at h
      cases h
    | source _ hs => exact .inl hs
    | operand _ hc hd => exact .inr ⟨_, hc, hd⟩
  · rintro (hs | ⟨c, hc, hd⟩)
    · exact .source h hs
    · exact .operand h hc hd

def SameAnswers (dag : Dag) (modes modes' : IdTable Divergence) : Prop :=
  ∀ e, dag.contains e → (Differs modes' e ↔ Differs modes e)

theorem SameAnswers.refl (modes : IdTable Divergence) : SameAnswers dag modes modes :=
  fun _ _ => .rfl

theorem SameAnswers.trans (h : SameAnswers dag modes modes')
    (h' : SameAnswers dag modes' modes'') : SameAnswers dag modes modes'' :=
  fun e he => (h' e he).trans (h e he)

theorem SameAnswers.any (h : SameAnswers dag modes modes') (hes : ∀ e ∈ es, dag.contains e) :
    AnyDiffers modes' es ↔ AnyDiffers modes es :=
  exists_congr fun e => and_congr_right fun he => h e (hes e he)

def Rises (dag : Dag) (modes modes' : IdTable Divergence) : Prop :=
  ∀ e, dag.contains e → Differs modes e → Differs modes' e

theorem SameAnswers.rises (h : SameAnswers dag modes modes') : Rises dag modes modes' :=
  fun e he => (h e he).mpr

theorem Rises.refl (modes : IdTable Divergence) : Rises dag modes modes := fun _ _ h => h

theorem Rises.trans (h : Rises dag modes modes') (h' : Rises dag modes' modes'') :
    Rises dag modes modes'' :=
  fun e he hd => h' e he (h e he hd)

theorem rises_insert {id : Nat}
    (h : ∀ d, dag.contains d → Differs modes d → d.id = id → mode = .divergent) :
    Rises dag modes (modes.insert id mode) := by
  intro d hd hdiff
  have here {d : Expr} (hd : dag.contains d) (hdiff : Differs modes d) (hid : d.id = id) :
      Differs (modes.insert id mode) d :=
    .marked (by rw [IdTable.find?_insert, if_pos hid, h d hd hdiff hid])
  have there {d : Expr} (hid : ¬d.id = id) :
      (modes.insert id mode).find? d.id = modes.find? d.id := by
    rw [IdTable.find?_insert, if_neg hid]
  induction hdiff with
  | @marked d hm =>
    by_cases hid : d.id = id
    · exact here hd (.marked hm) hid
    · exact .marked ((there hid).trans hm)
  | @source d hn hs =>
    by_cases hid : d.id = id
    · exact here hd (.source hn hs) hid
    · exact .source ((there hid).trans hn) hs
  | @operand d c hn hc hcd ih =>
    by_cases hid : d.id = id
    · exact here hd (.operand hn hc hcd) hid
    · exact .operand ((there hid).trans hn) hc (ih (dag.operands hd hc))

theorem rises_force (id : Nat) : Rises dag modes (modes.insert id .divergent) :=
  rises_insert fun _ _ _ _ => rfl

theorem sameAnswers_insert (he : dag.contains e) (h : mode = .divergent ↔ Differs modes e) :
    SameAnswers dag modes (modes.insert e.id mode) := by
  intro d hd
  constructor
  · intro hdiff
    induction hdiff with
    | @marked d hm =>
      rw [IdTable.find?_insert] at hm
      split at hm
      · rename_i hid
        rw [dag.numbered hd he hid]
        exact h.mp (Option.some.inj hm)
      · exact .marked hm
    | @source d hn hs =>
      rw [IdTable.find?_insert] at hn
      split at hn
      · cases hn
      · exact .source hn hs
    | @operand d c hn hc _ ih =>
      rw [IdTable.find?_insert] at hn
      split at hn
      · cases hn
      · exact .operand hn hc (ih (dag.operands hd hc))
  · exact rises_insert (fun d hd hdiff hid => h.mpr (dag.numbered hd he hid ▸ hdiff)) d hd

end Tables

theorem Diverging.either_run (x y : Diverging Divergence) (modes : IdTable Divergence) :
    either x y modes =
      match (x modes).1 with
      | .divergent => (.divergent, (x modes).2)
      | .uniform => y (x modes).2 := by
  simp only [either, bind, StateT.bind]
  obtain ⟨mode, modes'⟩ := x modes
  cases mode <;> rfl

theorem Diverging.remember_run (id : Nat) (x : Diverging Divergence)
    (modes : IdTable Divergence) :
    remember id x modes =
      match modes.find? id with
      | some mode => (mode, modes)
      | none => ((x modes).1, (x modes).2.insert id (x modes).1) := by
  simp only [remember, bind, StateT.bind, get, getThe, MonadStateOf.get, StateT.get, pure]
  cases modes.find? id <;> rfl

def Tells (dag : Dag) (x : Diverging Divergence) (p : IdTable Divergence → Prop) : Prop :=
  ∀ modes, ((x modes).1 = .divergent ↔ p modes) ∧ SameAnswers dag modes (x modes).2

section Queries

variable {p : IdTable Divergence → Prop} {x : Diverging Divergence}

theorem tells_uniform (h : ∀ modes, ¬p modes) : Tells dag (pure .uniform) p := by
  intro modes
  refine ⟨?_, .refl modes⟩
  constructor
  · intro hmode
    cases hmode
  · intro hp
    exact (h modes hp).elim

theorem tells_divergent (h : ∀ modes, p modes) : Tells dag (pure .divergent) p :=
  fun modes => ⟨iff_of_true rfl (h modes), .refl modes⟩

theorem Tells.either {y : Diverging Divergence} (hx : Tells dag x fun modes => AnyDiffers modes es)
    (hy : Tells dag y fun modes => AnyDiffers modes fs) (hfs : ∀ e ∈ fs, dag.contains e) :
    Tells dag (.either x y) fun modes => AnyDiffers modes (es ++ fs) := by
  intro modes
  obtain ⟨hx, hsame⟩ := hx modes
  obtain ⟨hy, hsame'⟩ := hy (x modes).2
  beta_reduce at hx hy ⊢
  rw [anyDiffers_append, ← hx, Diverging.either_run]
  cases hmode : (x modes).1 with
  | divergent => exact ⟨by simp, hsame⟩
  | uniform =>
    rw [hsame.any hfs] at hy
    exact ⟨by simpa using hy, hsame.trans hsame'⟩

theorem tells_remember (he : dag.contains e)
    (hx : Tells dag x fun modes => e.isSource = true ∨ AnyDiffers modes e.operands) :
    Tells dag (.remember e.id x) fun modes => AnyDiffers modes [e] := by
  intro modes
  beta_reduce
  rw [anyDiffers_singleton, Diverging.remember_run]
  cases hfind : modes.find? e.id with
  | some mode => exact ⟨(differs_iff_of_known hfind).symm, .refl modes⟩
  | none =>
    obtain ⟨hmode, hsame⟩ := hx modes
    have hright : (x modes).1 = .divergent ↔ Differs modes e :=
      hmode.trans (differs_iff_of_unknown hfind).symm
    exact ⟨hright, hsame.trans (sameAnswers_insert he (hright.trans (hsame e he).symm))⟩

theorem tells_operands (hs : e.isSource = false)
    (hx : Tells dag x fun modes => AnyDiffers modes e.operands) :
    Tells dag x fun modes => e.isSource = true ∨ AnyDiffers modes e.operands := by
  simpa only [hs, Bool.false_eq_true, false_or] using hx

mutual

theorem Expr.divergence_tells (e : Expr) (he : dag.contains e) :
    Tells dag e.divergence fun modes => AnyDiffers modes [e] := by
  have operand {c : Expr} (hc : c ∈ e.operands) : dag.contains c := dag.operands he hc
  cases e with
  | literal id _ | resource id _ | zeroed id _ | storage id _ _ | array id _ _ _ =>
    rw [divergence]
    exact tells_remember he (tells_uniform (by simp [isSource, AnyDiffers]))
  | input id _ =>
    rw [divergence]
    exact tells_remember he (tells_divergent fun _ => .inl rfl)
  | unary id _ c | swizzle id c _ | field id c _ | element id c _ =>
    rw [divergence]
    have hc := c.divergence_tells (operand (by simp))
    exact tells_remember he (tells_operands rfl hc)
  | binary id _ c d | elementAt id c d =>
    rw [divergence]
    have hd := operand (c := d) (by simp)
    have hx := (c.divergence_tells (operand (by simp))).either
      (d.divergence_tells hd) (by simpa using hd)
    exact tells_remember he (tells_operands rfl hx)
  | call id callee args =>
    rw [divergence]
    by_cases hc : callee.divergent = true
    · rw [if_pos hc]
      exact tells_remember he (tells_divergent fun _ => .inl hc)
    · rw [if_neg hc]
      have hargs := anyDivergent_tells args fun d hd => operand (by rwa [operands_call])
      refine tells_remember he (tells_operands (by simpa [isSource] using hc) ?_)
      rw [operands_call]
      exact hargs
  | select id c d f =>
    rw [divergence]
    have hd := operand (c := d) (by simp)
    have hf := operand (c := f) (by simp)
    have hx := (c.divergence_tells (operand (by simp))).either
      ((d.divergence_tells hd).either (f.divergence_tells hf) (by simpa using hf))
      (by simp [hd, hf])
    exact tells_remember he (tells_operands rfl hx)

theorem Expr.anyDivergent_tells (es : List Expr) (hes : ∀ e ∈ es, dag.contains e) :
    Tells dag (anyDivergent es) fun modes => AnyDiffers modes es := by
  cases es with
  | nil =>
    rw [anyDivergent]
    exact tells_uniform (by simp [AnyDiffers])
  | cons e rest =>
    rw [anyDivergent]
    have hrest : ∀ d ∈ rest, dag.contains d := fun d hd => hes d (List.mem_cons_of_mem e hd)
    exact (e.divergence_tells (hes e List.mem_cons_self)).either (anyDivergent_tells rest hrest) hrest

end

end Queries

namespace Sheet

def reports (s : Sheet) (e : Expr) : Divergence := (e.divergence s.nodes.modes).1

def region (s : Sheet) : Divergence :=
  (Expr.anyDivergent s.draft.scopes.conditions s.nodes.modes).1

end Sheet

def Draft.Rooted (dag : Dag) (d : Draft) : Prop :=
  ∀ b ∈ d.bodies, ∀ condition ∈ b.stack.conditions, ∀ c ∈ condition, dag.contains c

structure Onward (dag : Dag) (s s' : Sheet) : Prop where
  next : s'.nodes.next = s.nodes.next
  rooted : s.draft.Rooted dag → s'.draft.Rooted dag
  rises : s.draft.Rooted dag → Rises dag s.nodes.modes s'.nodes.modes

section Emission

variable {α : Type} {s s' s'' : Sheet}

variable {d : Draft}

theorem Draft.Rooted.conditions (h : d.Rooted dag) : ∀ c ∈ d.scopes.conditions, dag.contains c := by
  intro c hc
  obtain ⟨scope, hscope, hcond⟩ := List.mem_filterMap.mp hc
  exact h d.scopes List.mem_cons_self scope (List.mem_reverse.mp hscope) c hcond

theorem Sheet.reports_eq_divergent_iff (he : dag.contains e) :
    s.reports e = .divergent ↔ Differs s.nodes.modes e :=
  (e.divergence_tells he s.nodes.modes).1.trans anyDiffers_singleton

theorem Onward.refl (s : Sheet) : Onward dag s s := ⟨rfl, id, fun _ => .refl _⟩

theorem Onward.trans (h : Onward dag s s') (h' : Onward dag s' s'') : Onward dag s s'' where
  next := h'.next.trans h.next
  rooted hs := h'.rooted (h.rooted hs)
  rises hs := (h.rises hs).trans (h'.rises (h.rooted hs))

def Sheet.stillness (s : Sheet) : List Scopes × IdTable Divergence × Nat :=
  (s.draft.bodies, s.nodes.modes, s.nodes.next)

def Still (x : Emit α) : Prop := Keeps Sheet.stillness x

class Abiding (R : Sheet → Sheet → Prop) : Prop where
  still {s s' : Sheet} : s'.stillness = s.stillness → R s s'
  trans {s s' s'' : Sheet} : R s s' → R s' s'' → R s s''

instance : Abiding (Onward dag) where
  trans := Onward.trans
  still h := by
    simp only [Sheet.stillness, Prod.mk.injEq] at h
    obtain ⟨hbodies, hmodes, hnext⟩ := h
    refine ⟨hnext, fun hs => ?_, fun _ => ?_⟩
    · rwa [Draft.Rooted, hbodies]
    · rw [hmodes]
      exact .refl _

section Abiding

variable {R : Sheet → Sheet → Prop} [Abiding R]

variable {x : Emit α}

theorem Still.moves (h : Still x) : Moves R x := fun s =>
  (h s).mono (fun _ _ => Abiding.still) fun _ => Abiding.still

theorem Moves.onward {β : Type} {g : α → Emit β} (hx : Moves R x)
    (hg : ∀ a, Moves R (g a)) : Moves R (x >>= g) := .bind Abiding.trans hx hg

end Abiding

theorem still_typing (x : Typing α) : Still (Emit.typing x) := fun _ =>
  ensures_typing (ensures_any (fun _ _ => rfl) fun _ => rfl)

theorem still_write (line : Line) : Still (Emit.write line) := fun s =>
  congrArg (·, s.nodes.modes, s.nodes.next) (bodies_write s.draft line)

theorem still_drafting {x : Drafting α} (h : Keeps Draft.bodies x) : Still (Emit.drafting x) := by
  intro s
  have still {d : Draft} (hd : d.bodies = s.draft.bodies) :
      Sheet.stillness { s with draft := d } = s.stillness :=
    congrArg (·, s.nodes.modes, s.nodes.next) hd
  exact ensures_drafting ((h s.draft).mono (fun _ _ => still) fun _ => still)

theorem still_registerType (ty : Ty) : Still (Emit.drafting (.registerType ty)) :=
  still_drafting (keeps_registerType (fun _ _ _ => rfl) ty)

theorem still_registerResource (res : Resource) : Still (Emit.drafting (.registerResource res)) :=
  still_drafting (keeps_registerResource (fun _ _ _ => rfl) (fun _ _ => rfl) res)

theorem still_rename (id : Nat) (name : Spelling) : Still (Emit.rename id name) := fun _ => rfl

theorem still_nameOf (e : Expr) : Still (Emit.nameOf e) := fun _ => rfl

theorem Draft.rooted_mark (id : Nat) (h : d.Rooted dag) : (d.mark id).Rooted dag := by
  intro b hb
  rcases List.mem_cons.mp hb with rfl | hb
  · rw [Draft.mark, Memo.stack_mark]
    exact h d.scopes List.mem_cons_self
  · exact h b (List.mem_cons_of_mem _ hb)

theorem Draft.rooted_enterScope {condition : Option Expr} (h : d.Rooted dag)
    (hc : ∀ c ∈ condition, dag.contains c) : (d.enterScope condition).Rooted dag := by
  intro b hb
  rcases List.mem_cons.mp hb with rfl | hb
  · intro scope hscope
    rcases List.mem_cons.mp hscope with rfl | hscope
    · exact hc
    · exact h d.scopes List.mem_cons_self scope hscope
  · exact h b (List.mem_cons_of_mem _ hb)

theorem moves_redraft {f : Draft → Draft} (h : ∀ d, d.Rooted dag → (f d).Rooted dag) :
    Moves (Onward dag) (Emit.redraft f) :=
  fun s => ⟨rfl, h s.draft, fun _ => .refl _⟩

theorem moves_exitScope : Moves (Onward dag) (Emit.drafting .exitScope) := by
  intro s
  refine ensures_drafting ?_
  cases hs : s.draft.scopes.leave? with
  | none => exact ensures_error (exitScope_of_bottom hs) (Onward.refl s)
  | some scopes =>
    obtain ⟨condition, hstack⟩ := Memo.leave_eq hs
    refine ensures_ok (exitScope_of_leave hs) ⟨rfl, fun hrooted => ?_, fun _ => .refl _⟩
    intro b hb
    rcases List.mem_cons.mp hb with rfl | hb
    · intro scope hscope
      exact hrooted s.draft.scopes List.mem_cons_self scope
        (by simp [hstack, ScopeStack.push, hscope])
    · exact hrooted b (List.mem_cons_of_mem _ hb)

theorem moves_diverging {x : Diverging α} (h : ∀ modes, Rises dag modes (x modes).2) :
    Moves (Onward dag) (Emit.diverging x) :=
  fun s => ⟨rfl, id, fun _ => h s.nodes.modes⟩

theorem moves_force (id : Nat) : Moves (Onward dag) (Emit.diverging (.force id)) :=
  moves_diverging fun _ => rises_force id

theorem moves_inDivergentRegion : Moves (Onward dag) Emit.inDivergentRegion := fun s =>
  ⟨rfl, id, fun hs => (Expr.anyDivergent_tells _ hs.conditions s.nodes.modes).2.rises⟩

theorem moves_noteWrite (target : Expr) : Moves (Onward dag) (Emit.noteWrite target) := by
  refine moves_inDivergentRegion.onward fun divergent => ?_
  cases divergent with
  | false => exact Still.moves (keeps_pure _)
  | true => exact (moves_force _).onward fun _ => moves_force _

theorem moves_branch {cond target value : Expr} {body : Emit Unit} (hc : dag.contains cond)
    (h : Moves (Onward dag) body) : Moves (Onward dag) (Emit.branch cond target value body) := by
  refine (moves_redraft fun d hd => Draft.rooted_enterScope hd (by simpa using hc)).onward
    fun _ => h.onward fun _ => ?_
  refine (still_nameOf target).moves.onward fun _ => (still_nameOf value).moves.onward fun _ => ?_
  exact (still_write _).moves.onward fun _ => moves_exitScope

theorem strokes_of_abiding {R : Sheet → Sheet → Prop} [Abiding R] {nodes : Expr → Prop}
    (hoperand : ∀ {e d : Expr}, nodes e → d ∈ e.operands → nodes d)
    (hmark : ∀ id, Moves R (Emit.redraft (·.mark id)))
    (hbranch : ∀ {cond target value : Expr} {body : Emit Unit}, nodes cond → Moves R body →
      Moves R (Emit.branch cond target value body)) : (Judgement.moving R).Strokes nodes where
  pure a := Still.moves (keeps_pure a)
  bind hx hf := hx.onward hf
  operand := hoperand
  orFault r := Still.moves (keeps_orFault r)
  typing e _ := (still_typing e.inferType).moves
  nameOf e := (still_nameOf e).moves
  rename id name := (still_rename id name).moves
  write line := (still_write line).moves
  writeCall line _ _ _ _ _ := (still_write line).moves
  registerType ty := (still_registerType ty).moves
  registerResource res := (still_registerResource res).moves
  once e _ _ _ h s := by
    by_cases hv : s.draft.scopes.isVisible e.id = true
    · exact ensures_ok (once_of_visible hv) (Abiding.still rfl)
    · exact Ensures.of_eq (once_of_hidden hv)
        (((still_typing _).moves.onward fun ty => (h ty).onward fun _ => hmark e.id) s)
  choose cond _ _ _ _ _ _ _ hc hx hy :=
    (still_nameOf cond).moves.onward fun _ => (still_write _).moves.onward fun _ =>
      (hbranch hc hx).onward fun _ => (still_write _).moves.onward fun _ =>
        (hbranch hc hy).onward fun _ => (still_write _).moves

instance : (Judgement.moving (Onward dag)).Strokes dag.contains :=
  strokes_of_abiding dag.operands (fun _ => moves_redraft fun _ hd => Draft.rooted_mark _ hd)
    moves_branch

theorem Expr.emit_moves (e : Expr) (he : dag.contains e) : Moves (Onward dag) e.emit :=
  have : (Judgement.moving (Onward dag)).Emitting dag.contains :=
    emitting_of_noteWrite moves_noteWrite
  (e.judged_emit_of (J := .moving (Onward dag)) he).holds

end Emission

end ComputeKernel
