import ComputeKernel.Proofs.Discipline
import ComputeKernel.Proofs.RememberedAnswers

namespace ComputeKernel

variable {dag : Dag} {marked : Nat → Prop} {conds : List Expr} {s s' : Sheet} {e : Expr}

namespace Expr

inductive Encloses : Expr → List Expr → Expr → Prop
  | self {e : Expr} : Encloses e [] e
  | operand {e c d : Expr} {conds : List Expr} :
    c ∈ e.prerequisites → Encloses c conds d → Encloses e conds d
  | yes {id : Nat} {cond yes no d : Expr} {conds : List Expr} :
    Encloses yes conds d → Encloses (.select id cond yes no) (cond :: conds) d
  | no {id : Nat} {cond yes no d : Expr} {conds : List Expr} :
    Encloses no conds d → Encloses (.select id cond yes no) (cond :: conds) d

inductive Stops : Expr → Fault → Sheet → Prop
  | untyped {e : Expr} {fault : Fault} {s s' : Sheet} :
    Emit.typing e.inferType s = .error fault s' → Stops e fault s'
  | literal {id : Nat} {value : Literal} {fault : Fault} {s : Sheet} :
    value.text = .error fault → Stops (.literal id value) fault s
  | call {id : Nat} {callee : Prototype} {args : List Expr} {given : List (Spelling × Ty)}
    {fault : Fault} {s s' : Sheet} : emitArgs args s = .ok given s' →
    callee.callText (given.map fun (name, ty) => ⟨name.text, ty⟩) = .error fault →
    Stops (.call id callee args) fault s'
  | resource {id : Nat} {res : Resource} {fault : Fault} {s s' : Sheet} :
    Emit.drafting (.registerResource res) s = .error fault s' → Stops (.resource id res) fault s'
  | elem {id : Nat} {elem : Ty} {length : UInt32} {init : List Literal} {fault : Fault}
    {s s' : Sheet} : Emit.drafting (.registerType elem) s = .error fault s' →
    Stops (.array id elem length init) fault s'
  | init {id : Nat} {elem : Ty} {length : UInt32} {init : List Literal} {fault : Fault}
    {s : Sheet} : init.mapM Literal.text = .error fault →
    Stops (.array id elem length init) fault s
  | storage {id : Nat} {name : String} {ty : Ty} {fault : Fault} {s s' : Sheet} :
    Emit.drafting (.registerType ty) s = .error fault s' → Stops (.storage id name ty) fault s'
  | zeroed {id : Nat} {ty : Ty} {fault : Fault} {s s' : Sheet} :
    Emit.drafting (.registerType ty) s = .error fault s' → Stops (.zeroed id ty) fault s'

def Writes (e c : Expr) : Prop :=
  ∃ id op target value, e.Uses (.binary id op target value) ∧ op.isAssign = true ∧
    (c = target ∨ c = target.lvalueRoot)

end Expr

structure LeftOpen (dag : Dag) (marked : Nat → Prop) (conds : List Expr) (s s' : Sheet) : Prop where
  stack : ∃ visible : List (List Nat), visible.length = conds.length ∧
    s'.draft.scopes.stack = ⟨visible, (conds.map some).reverse⟩ ++ s.draft.scopes.stack
  rooted : s.draft.Rooted dag → s'.draft.Rooted dag
  settled : ∀ outer first, outer <+: s.draft.scopes.conditions → s.draft.Rooted dag →
    Settled dag marked outer first s.nodes.modes → Settled dag marked outer first s'.nodes.modes

def Abandons (dag : Dag) (marked : Nat → Prop) (e : Expr) (s : Sheet) (fault : Fault)
    (s' : Sheet) : Prop :=
  ∃ conds d, e.Encloses conds d ∧ d.Stops fault s' ∧ LeftOpen dag marked conds s s'

def Shuts {α : Type} (dag : Dag) (marked : Nat → Prop) (e : Expr) (x : Emit α) : Prop :=
  ∀ s, Ends x s (fun _ s' => LeftOpen dag marked [] s s') (Abandons dag marked e s)

section Scopes

variable {conds' : List Expr} {s'' : Sheet} {c : Expr} {fault : Fault} {α β : Type}

theorem LeftOpen.refl (s : Sheet) : LeftOpen dag marked [] s s :=
  ⟨⟨[], rfl, rfl⟩, id, fun _ _ _ _ h => h⟩

theorem LeftOpen.conditions (h : LeftOpen dag marked conds s s') :
    s'.draft.scopes.conditions = s.draft.scopes.conditions ++ conds := by
  obtain ⟨visible, -, hstack⟩ := h.stack
  have hconds : s'.draft.scopes.stack.conditions =
      (conds.map some).reverse ++ s.draft.scopes.stack.conditions := congrArg (·.conditions) hstack
  rw [Scopes.conditions, hconds, List.reverse_append, List.filterMap_append, List.reverse_reverse]
  simp [Scopes.conditions]

theorem LeftOpen.trans (h : LeftOpen dag marked conds s s') (h' : LeftOpen dag marked conds' s' s'') :
    LeftOpen dag marked (conds ++ conds') s s'' where
  stack := by
    obtain ⟨visible, hlength, hstack⟩ := h.stack
    obtain ⟨visible', hlength', hstack'⟩ := h'.stack
    refine ⟨visible' ++ visible, by simp [hlength, hlength', Nat.add_comm], ?_⟩
    rw [hstack', hstack, ← ScopeStack.append_assoc, List.map_append, List.reverse_append]
    rfl
  rooted hs := h'.rooted (h.rooted hs)
  settled outer first houter hs hsettled := by
    have hprefix : outer <+: s'.draft.scopes.conditions := by
      rw [h.conditions]
      exact houter.trans (List.prefix_append ..)
    exact h'.settled outer first hprefix (h.rooted hs) (h.settled outer first houter hs hsettled)

theorem LeftOpen.of_stillness (h : s'.stillness = s.stillness) : LeftOpen dag marked [] s s' := by
  have honward : Onward dag s s' := Abiding.still h
  simp only [Sheet.stillness, Draft.bodies, Prod.mk.injEq, List.cons.injEq] at h
  obtain ⟨⟨hscopes, -⟩, hmodes, -⟩ := h
  refine ⟨⟨[], rfl, by rw [hscopes]; rfl⟩, honward.rooted, fun _ _ _ _ hsettled => ?_⟩
  rwa [hmodes]

theorem LeftOpen.write (h : LeftOpen dag marked conds s s') (line : Line) :
    LeftOpen dag marked conds s { s' with draft := s'.draft.write line } := by
  simpa using h.trans (.of_stillness (still_write line s'))

theorem Abandons.of_opened (h : LeftOpen dag marked [] s s')
    (h' : Abandons dag marked e s' fault s'') : Abandons dag marked e s fault s'' := by
  obtain ⟨conds, d, hencloses, hstops, hopened⟩ := h'
  exact ⟨conds, d, hencloses, hstops, h.trans hopened⟩

variable {x : Emit α} {r : Except Fault α} {target : Expr}

theorem Shuts.bind {f : α → Emit β} (hx : Shuts dag marked e x)
    (hf : ∀ a, Shuts dag marked e (f a)) : Shuts dag marked e (x >>= f) := fun s =>
  .bind ((hx s).mono (fun a s' h => (hf a s').mono (fun _ _ h' => h.trans h')
    fun _ _ h' => h'.of_opened h) fun _ _ h => h)

theorem Still.shuts (h : Still x)
    (hstops : ∀ {s fault s'}, x s = .error fault s' → e.Stops fault s') : Shuts dag marked e x :=
  fun s => Ends.of_runs (fun _ _ hrun => .of_stillness ((h s).of_ok hrun)) fun _ _ hrun =>
    ⟨[], e, .self, hstops hrun, .of_stillness ((h s).of_error hrun)⟩

theorem Ensures.ends {ε σ : Type} {x : EStateM ε σ α} {s : σ} {done : α → σ → Prop}
    {failed : ε → σ → Prop} (h : Ensures x s done fun _ => False) : Ends x s done failed :=
  Ends.of_runs (fun _ _ hrun => h.of_ok hrun) fun _ _ hrun => (h.of_error hrun).elim

theorem shuts_nameOf (d : Expr) : Shuts dag marked e (Emit.nameOf d) :=
  (still_nameOf d).shuts fun h => by cases h

theorem shuts_write (line : Line) : Shuts dag marked e (Emit.write line) :=
  (still_write line).shuts fun h => by cases h

theorem shuts_rename (id : Nat) (name : Spelling) : Shuts dag marked e (Emit.rename id name) :=
  (still_rename id name).shuts fun h => by cases h

theorem ends_orFault {done : α → Sheet → Prop} {failed : Fault → Sheet → Prop}
    (ok : ∀ a, r = .ok a → done a s) (fail : ∀ fault, r = .error fault → failed fault s) :
    Ends (orFault r) s done failed := by
  cases r with
  | ok a => exact ok a rfl
  | error fault => exact fail fault rfl

theorem shuts_orFault (h : ∀ {s fault}, r = .error fault → e.Stops fault s) :
    Shuts dag marked e (orFault r) := fun s =>
  ends_orFault (fun _ _ => .refl s) fun _ hr => ⟨[], e, .self, h hr, .refl s⟩

theorem shuts_typing : Shuts dag marked e (Emit.typing e.inferType) :=
  (still_typing _).shuts .untyped

theorem Shuts.operand (h : Shuts dag marked c x) (hc : c ∈ e.prerequisites) :
    Shuts dag marked e x := fun s =>
  (h s).mono (fun _ _ h => h) fun _ _ ⟨conds, d, hencloses, hrest⟩ =>
    ⟨conds, d, .operand hc hencloses, hrest⟩

theorem shuts_mark (id : Nat) : Shuts dag marked e (Emit.redraft (·.mark id)) := fun _ =>
  ⟨⟨[], rfl, Memo.stack_mark id⟩, Draft.rooted_mark id, fun _ _ _ _ h => h⟩

theorem shuts_once {body : Ty → Emit Unit} (h : ∀ ty, Shuts dag marked e (body ty)) :
    Shuts dag marked e (Emit.once e body) := by
  intro s
  by_cases hv : s.draft.scopes.isVisible e.id = true
  · exact (ensures_ok (once_of_visible hv) (.refl s)).ends
  · have hwritten : Shuts dag marked e (do
        let ty ← Emit.typing e.inferType
        body ty
        Emit.redraft (·.mark e.id)) :=
      shuts_typing.bind fun ty => (h ty).bind fun _ => shuts_mark e.id
    have hrun := hwritten s
    rwa [Ends, ← once_of_hidden hv] at hrun

theorem shuts_noteWrite (ht : marked target.id) (hr : marked target.lvalueRoot.id) :
    Shuts dag marked e (Emit.noteWrite target) := fun s =>
  (ensures_ok (noteWrite_run s target) ⟨⟨[], rfl, rfl⟩, id, fun _ _ houter hs h =>
    h.write hs houter ht hr⟩).ends

theorem LeftOpen.enter (s : Sheet) (hc : dag.contains c) :
    LeftOpen dag marked [c] s { s with draft := s.draft.enterScope (some c) } where
  stack := ⟨[s.draft.scopes.visible], rfl, rfl⟩
  rooted hs := Draft.rooted_enterScope hs (by simpa using hc)
  settled _ _ _ _ h := h

theorem LeftOpen.exit (h : LeftOpen dag marked [c] s s') :
    Ensures (Emit.drafting .exitScope) s' (fun _ s'' => LeftOpen dag marked [] s s'')
      fun _ => False := by
  obtain ⟨opened, hlength, hstack⟩ := h.stack
  obtain ⟨visible, rfl⟩ : ∃ visible, opened = [visible] := List.length_eq_one_iff.mp hlength
  have hleave : s'.draft.scopes.leave? = some ⟨visible, s.draft.scopes.stack⟩ := by
    rw [Scopes.leave?, hstack]
    rfl
  have hexit := exitScope_of_leave hleave
  have honward : Onward dag s' _ := (moves_exitScope s').of_ok (by
    rw [Emit.drafting, hexit])
  exact ensures_drafting (ensures_ok hexit
    ⟨⟨[], rfl, rfl⟩, fun hs => honward.rooted (h.rooted hs), h.settled⟩)

theorem shuts_branch {cond value : Expr} {body : Emit Unit} (hcond : dag.contains cond)
    (h : Shuts dag marked value body)
    (hbranch : ∀ {conds d}, value.Encloses conds d → e.Encloses (cond :: conds) d) :
    Shuts dag marked e (Emit.branch cond target value body) := by
  intro s
  have henter : LeftOpen dag marked [cond] s { s with draft := s.draft.enterScope (some cond) } :=
    .enter s hcond
  refine .bind (Ensures.ends (ensures_redraft (.bind ((h _).mono (fun _ s1 h1 => ?_)
    fun fault s1 h1 => ?_))))
  · refine Ensures.ends (.bind (ensures_nameOf (.bind (ensures_nameOf (.bind (ensures_write ?_))))))
    exact ((henter.trans h1).write _).exit
  · obtain ⟨conds, d, hencloses, hstops, hopened⟩ := h1
    exact ⟨cond :: conds, d, hbranch hencloses, hstops, henter.trans hopened⟩

end Scopes

mutual

theorem Expr.emit_shuts (e : Expr) (he : dag.contains e) (hw : ∀ c, e.Writes c → marked c.id) :
    Shuts dag marked e e.emit := by
  have node {c : Expr} (hc : c ∈ e.operands) : dag.contains c := dag.operands he hc
  have writes {c : Expr} (hc : c ∈ e.operands) : ∀ d, c.Writes d → marked d.id :=
    fun d ⟨id, op, target, value, huses, hd⟩ =>
      hw d ⟨id, op, target, value, .of_operand hc huses, hd⟩
  have operand {c : Expr} (hc : c ∈ e.prerequisites)
      (h : dag.contains c → (∀ d, c.Writes d → marked d.id) → Shuts dag marked c c.emit) :
      Shuts dag marked e c.emit :=
    (h (node (e.prerequisites_subset hc)) (writes (e.prerequisites_subset hc))).operand hc
  unfold emit
  cases e with
  | literal id value =>
    exact shuts_once fun _ => (shuts_orFault .literal).bind fun _ => shuts_rename _ _
  | unary id op c =>
    exact shuts_once fun _ => (operand (by simp [prerequisites])
      c.emit_shuts).bind fun _ => (shuts_nameOf _).bind fun _ => (shuts_nameOf _).bind fun _ =>
        shuts_write _
  | binary id op lhs rhs =>
    refine shuts_once fun _ => (operand (by simp [prerequisites])
      lhs.emit_shuts).bind fun _ => (operand (by simp [prerequisites])
        rhs.emit_shuts).bind fun _ => (shuts_nameOf _).bind fun _ => (shuts_nameOf _).bind fun _ => ?_
    split
    · rename_i hassign
      have hmarked {d : Expr} (hd : d = lhs ∨ d = lhs.lvalueRoot) : marked d.id :=
        hw d ⟨id, op, lhs, rhs, .self, hassign, hd⟩
      exact (shuts_write _).bind fun _ => (shuts_rename _ _).bind fun _ =>
        shuts_noteWrite (hmarked (.inl rfl)) (hmarked (.inr rfl))
    · exact (shuts_nameOf _).bind fun _ => shuts_write _
  | call id callee args =>
    refine shuts_once fun ty s => ?_
    have hargs : Shuts dag marked (.call id callee args) (emitArgs args) :=
      emitArgs_shuts args (fun c hc => node (by rwa [operands_call]))
        (fun c hc => writes (by rwa [operands_call])) fun c hc => by
          show c ∈ operands _
          rwa [operands_call]
    refine .bind (Ends.of_runs (fun given s1 hgiven => ?_) fun _ _ hrun =>
      (hargs s).of_error hrun)
    have hopened := (hargs s).of_ok hgiven
    refine .bind (ends_orFault (fun text _ => ?_) fun fault htext => ?_)
    · exact Ensures.ends (ensures_ite (fun _ => hopened.write _) fun _ =>
        .bind (ensures_nameOf (hopened.write _)))
    · exact ⟨[], _, .self, .call hgiven htext, hopened⟩
  | resource id res =>
    exact shuts_once fun _ => ((still_registerResource res).shuts .resource).bind fun _ =>
      shuts_rename _ _
  | input id i =>
    exact shuts_once fun _ => shuts_rename _ _
  | array id elem length init =>
    exact shuts_once fun _ => ((still_registerType elem).shuts .elem).bind fun _ =>
      (shuts_orFault .init).bind fun _ => (shuts_nameOf _).bind fun _ => shuts_write _
  | swizzle id base lanes | field id base name | element id base index =>
    exact shuts_once fun _ => (operand (by simp [prerequisites])
      base.emit_shuts).bind fun _ => (shuts_nameOf _).bind fun _ => shuts_rename _ _
  | elementAt id base index =>
    exact shuts_once fun _ => (operand (by simp [prerequisites])
      base.emit_shuts).bind fun _ => (operand (by simp [prerequisites])
        index.emit_shuts).bind fun _ => (shuts_nameOf _).bind fun _ => (shuts_nameOf _).bind fun _ =>
          shuts_rename _ _
  | storage id name ty =>
    exact shuts_once fun _ => (still_registerType ty).shuts .storage
  | zeroed id ty =>
    exact shuts_once fun _ => ((still_registerType ty).shuts .zeroed).bind fun _ =>
      (shuts_nameOf _).bind fun _ => shuts_write _
  | select id cond yes no =>
    have hcond : dag.contains cond := node (by simp)
    have hyes : yes ∈ operands (.select id cond yes no) := by simp
    have hno : no ∈ operands (.select id cond yes no) := by simp
    refine shuts_once fun _ => (operand (by simp [prerequisites]) cond.emit_shuts).bind fun _ =>
      (shuts_nameOf _).bind fun _ => (shuts_write _).bind fun _ => (shuts_nameOf _).bind fun _ =>
        (shuts_write _).bind fun _ => ?_
    exact (shuts_branch hcond (yes.emit_shuts (node hyes) (writes hyes)) .yes).bind fun _ =>
      (shuts_write _).bind fun _ =>
        (shuts_branch hcond (no.emit_shuts (node hno) (writes hno)) .no).bind fun _ => shuts_write _

theorem Expr.emitArgs_shuts {e : Expr} (es : List Expr) (hes : ∀ c ∈ es, dag.contains c)
    (hw : ∀ c ∈ es, ∀ d, c.Writes d → marked d.id) (hargs : ∀ c ∈ es, c ∈ e.prerequisites) :
    Shuts dag marked e (emitArgs es) := by
  cases es with
  | nil =>
    rw [emitArgs]
    exact fun s => .refl s
  | cons c rest =>
    rw [emitArgs]
    have hc := hargs c List.mem_cons_self
    exact ((c.emit_shuts (hes c List.mem_cons_self) (hw c List.mem_cons_self)).operand hc).bind
      fun _ => (shuts_nameOf _).bind fun _ => (shuts_typing.operand hc).bind fun _ =>
        (Expr.emitArgs_shuts rest (fun d hd => hes d (List.mem_cons_of_mem c hd))
          (fun d hd => hw d (List.mem_cons_of_mem c hd))
          fun d hd => hargs d (List.mem_cons_of_mem c hd)).bind fun _ s => .refl s

end

theorem Sheet.region_eq_divergent_iff (hs : s.draft.Rooted dag) :
    s.region = .divergent ↔ AnyDiffers s.nodes.modes s.draft.scopes.conditions :=
  (Expr.anyDivergent_tells _ hs.conditions s.nodes.modes).1

theorem Dag.writes {c : Expr} (he : dag.contains e) (hw : e.Writes c) : dag.contains c := by
  obtain ⟨id, op, target, value, huses, -, hc⟩ := hw
  have htarget : dag.contains target :=
    dag.operands (dag.uses he huses) (by simp)
  rcases hc with rfl | rfl
  · exact htarget
  · exact dag.uses htarget target.uses_lvalueRoot

theorem LeftOpen.region_iff (h : LeftOpen dag (fun id => ∃ c, e.Writes c ∧ c.id = id) conds s s')
    (he : dag.contains e) (hs : s.draft.Rooted dag) (hrises : Rises dag s.nodes.modes s'.nodes.modes) :
    s'.region = .divergent ↔ s.region = .divergent ∨ (∃ c ∈ conds, s'.reports c = .divergent) ∨
      ∃ c ∈ s.draft.scopes.conditions, e.Writes c ∧ s'.reports c = .divergent := by
  have hnodes := (h.rooted hs).conditions
  have hsettled := h.settled _ s.nodes.modes (List.prefix_refl _) hs (.unmarked (.refl _))
  have hreports {c : Expr} (hc : c ∈ s.draft.scopes.conditions ++ conds) :
      s'.reports c = .divergent ↔ Differs s'.nodes.modes c :=
    Sheet.reports_eq_divergent_iff (hnodes c (h.conditions ▸ hc))
  rw [Sheet.region_eq_divergent_iff hs, Sheet.region_eq_divergent_iff (h.rooted hs), h.conditions,
    anyDiffers_append]
  constructor
  · rintro (hd | ⟨c, hc, hd⟩)
    · rcases hsettled.differs hs.conditions hd with hfirst | ⟨c, hc, ⟨d, hwrites, hid⟩, hd⟩
      · exact .inl hfirst
      · have hsame : d = c := dag.numbered (dag.writes he hwrites) (hs.conditions c hc) hid
        exact .inr (.inr ⟨c, hc, hsame ▸ hwrites, (hreports (by simp [hc])).mpr hd⟩)
    · exact .inr (.inl ⟨c, hc, (hreports (by simp [hc])).mpr hd⟩)
  · rintro (⟨c, hc, hd⟩ | ⟨c, hc, hd⟩ | ⟨c, hc, -, hd⟩)
    · exact .inl ⟨c, hc, hrises c (hs.conditions c hc) hd⟩
    · exact .inr ⟨c, hc, (hreports (by simp [hc])).mp hd⟩
    · exact .inl ⟨c, hc, (hreports (by simp [hc])).mp hd⟩

theorem Draft.finish_of_depth {d : Draft} (h : d.scopes.depth ≠ 0) :
    ∃ failure, d.finish = .error failure := by
  unfold Draft.finish
  by_cases hf : d.inFunction = true
  · exact ⟨_, by rw [if_pos hf]; rfl⟩
  · exact ⟨_, by rw [if_neg hf, if_pos h]; rfl⟩

/-- A node that cannot be written leaves open the scopes of the branches around the node at which it
stopped, and no others. -/
theorem failed_emission_leaves_branches_open {fault : Fault} (he : dag.contains e)
    (hs : s.draft.Rooted dag) (h : e.emit s = .error fault s') :
    ∃ conds d, e.Encloses conds d ∧ d.Stops fault s' ∧
      s.draft.scopes.stack.visible <:+ s'.draft.scopes.stack.visible ∧
      s.draft.scopes.stack.conditions <:+ s'.draft.scopes.stack.conditions ∧
      s'.draft.scopes.depth = s.draft.scopes.depth + conds.length ∧
      s'.draft.scopes.conditions = s.draft.scopes.conditions ++ conds ∧
      (s'.region = .divergent ↔ s.region = .divergent ∨ (∃ c ∈ conds, s'.reports c = .divergent) ∨
        ∃ c ∈ s.draft.scopes.conditions, e.Writes c ∧ s'.reports c = .divergent) ∧
      (conds ≠ [] → ∃ failure, s'.draft.finish = .error failure) := by
  have hshuts : Shuts dag (fun id => ∃ c, e.Writes c ∧ c.id = id) e e.emit :=
    e.emit_shuts he fun c hc => ⟨c, hc, rfl⟩
  obtain ⟨conds, d, hencloses, hstops, hopened⟩ := (hshuts s).of_error h
  have honward : Onward dag s s' := (e.emit_moves he s).of_error h
  obtain ⟨visible, hlength, hstack⟩ := hopened.stack
  have hvisible : s'.draft.scopes.stack.visible = visible ++ s.draft.scopes.stack.visible :=
    congrArg (·.visible) hstack
  have hdepth : s'.draft.scopes.depth = s.draft.scopes.depth + conds.length := by
    rw [Scopes.depth, hvisible, List.length_append, hlength, Nat.add_comm]
    rfl
  refine ⟨conds, d, hencloses, hstops, ⟨visible, hvisible.symm⟩,
    ⟨_, (congrArg (·.conditions) hstack).symm⟩, hdepth, hopened.conditions,
    hopened.region_iff he hs (honward.rises hs), fun hne => Draft.finish_of_depth ?_⟩
  have hpos := List.length_pos_iff.mpr hne
  omega

def firstSample : Expr := .element 1 (.resource 0 (.buffer "g_input" .f32)) 0

def litLane : Expr := .input 2 (.custom "v_lit" .bool)

def litSample : Expr := .select 4 litLane firstSample (.literal 3 (.f32 [1]))

def taken : Sheet where
  nodes := .start 5
  draft := { Draft.start {} with resources := NameTable.insert {} "g_input" (.buffer "g_input" .u32) }

def litNodes : Dag :=
  .ofList [.resource 0 (.buffer "g_input" .f32), firstSample, litLane, .literal 3 (.f32 [1]), litSample]
    (by simp [firstSample, litLane, litSample]) (by decide)

theorem emit_litSample : ∃ s', litSample.emit taken = .error (.resourceConflict "g_input"
    (.buffer .u32) (.buffer .f32)) s' ∧ s'.draft.scopes.depth = 1 ∧ s'.region = .divergent := by
  obtain ⟨_, s', hrun, rfl, h⟩ := Ends.exists_error litSample.emit taken
    (fun fault s' => fault = .resourceConflict "g_input" (.buffer .u32) (.buffer .f32) ∧
      s'.draft.scopes.depth = 1 ∧ s'.region = .divergent) (by decide +kernel)
  exact ⟨s', hrun, h⟩

theorem litSample_leaves_branch_open : litNodes.contains litSample ∧ taken.draft.Rooted litNodes ∧
    ∃ fault s' conds d, litSample.emit taken = .error fault s' ∧ litSample.Encloses conds d ∧
      d.Stops fault s' ∧ s'.draft.scopes.conditions = conds ∧ conds.length = 1 := by
  have he : litNodes.contains litSample := by simp [litNodes, Dag.ofList]
  have hs : taken.draft.Rooted litNodes := by
    simp [Draft.Rooted, Draft.bodies, taken, Draft.start]
  obtain ⟨s', hrun, hdepth, -⟩ := emit_litSample
  obtain ⟨conds, d, hencloses, hstops, -, -, hlength, hconditions, -⟩ :=
    failed_emission_leaves_branches_open he hs hrun
  exact ⟨he, hs, _, s', conds, d, hrun, hencloses, hstops, hconditions, by
    rw [hdepth] at hlength
    exact (hlength.trans (Nat.zero_add _)).symm⟩

theorem refused_branch_stays_open : taken.draft.scopes.depth = 0 ∧ taken.region = .uniform ∧
    ∃ s', litSample.emit taken = .error (.resourceConflict "g_input" (.buffer .u32) (.buffer .f32)) s' ∧
      s'.draft.scopes.depth = 1 ∧ s'.region = .divergent ∧
      ∃ failure, s'.draft.finish = .error failure := by
  obtain ⟨s', hrun, hdepth, hregion⟩ := emit_litSample
  exact ⟨rfl, rfl, s', hrun, hdepth, hregion, Draft.finish_of_depth (by omega)⟩

end ComputeKernel
