import ComputeKernel.Proofs.LawfulBuild

namespace ComputeKernel

def Operand.Made (env : List Fact) : Operand → Prop
  | .value e => ComputeKernel.Made env e
  | .constant _ => True

theorem Operand.Made.mono {o : Operand} {env env' : List Fact} (h : o.Made env) (he : env ⊆ env') :
    o.Made env' := by
  cases o with
  | value e => exact List.map_subset _ he h
  | constant l => trivial

namespace Build

variable {ν : Type} {held : ν → List Expr} {k : Scoping} {env : List Fact} {e : Expr}

theorem lawful_emitNode {mk : Nat → Expr} (hid : ∀ id, (mk id).id = id)
    (hops : ∀ id, ∀ d ∈ (mk id).operands, Made env d) :
    Lawful held .growing env (do emit (← node mk)) fun e => [.visible e] :=
  .bind (lawful_node hid hops) fun e => lawful_emit (by simp)

theorem lawful_making {x : Making Expr}
    (h : ∀ n, Ensures x n (fun e n' => (e.id = n.next ∧ e.operands = []) ∧
      n' = { n with next := n.next + 1 }) fun _ => True) :
    Lawful held k env (making x) fun e => [.made e] := by
  refine .emitting fun dag s hs _ => ComputeKernel.ensures_making
    ((h s.nodes).imp fun e n' hn => ?_)
  obtain ⟨⟨hid, hops⟩, rfl⟩ := hn
  obtain ⟨dag', hc, ha⟩ := Advance.make Line.computed hs e hid (by simp [hops])
  exact ⟨dag', ha, k.allows_refl _, by simpa [Fact.Holds] using hc⟩

theorem ensures_literal (l : Literal) (n : Nodes) :
    Ensures (Making.literal l) n (fun e n' => e = .literal n.next l ∧
      n' = { n with next := n.next + 1 }) fun _ => True :=
  .bind (ensures_orFault (fun _ _ => ensures_newNode ⟨rfl, rfl⟩) fun _ _ => trivial)

theorem lawful_literal (l : Literal) :
    Lawful held k env (making (.literal l)) fun e => [.made e] := by
  refine lawful_making fun n => (ensures_literal l n).imp (fun e n' h => ?_)
  obtain ⟨rfl, hn⟩ := h
  exact ⟨⟨rfl, rfl⟩, hn⟩

theorem lawful_array (elem : Ty) (length : UInt32) (init : List Literal) :
    Lawful held k env (making (.array elem length init)) fun e => [.made e] := by
  refine lawful_making fun n => ?_
  refine ensures_ite (fun _ => .bind (ensures_throw trivial)) fun _ => ?_
  refine ensures_ite (fun _ => .bind (ensures_throw trivial)) fun _ => ?_
  refine .bind (ensures_orFault (fun _ _ => ?_) fun _ _ => trivial)
  exact ensures_newNode ⟨⟨rfl, rfl⟩, rfl⟩

variable {o : Operand} {op : Op} {args : List Expr}

theorem lawful_operand (h : o.Made env) : Lawful held k env (operand o) fun e => [.made e] := by
  cases o with
  | value e => exact .result fun _ _ _ henv => by simpa [Fact.Holds] using Made.contains h henv
  | constant l => exact lawful_literal l

theorem lawful_emitOperand (h : o.Made env) :
    Lawful held .growing env (emitOperand o) fun e => [.visible e] :=
  .bind (lawful_operand h) fun e => lawful_emit (by simp)

theorem lawful_constant (l : Literal) :
    Lawful held .growing env (constant l) fun e => [.visible e, .plain e] := by
  intro dag w hs henv
  refine .bind (ensures_making ((ensures_literal l _).imp fun e n' h => ?_))
  obtain ⟨rfl, rfl⟩ := h
  obtain ⟨dag', hc, ha⟩ := Advance.make Line.computed hs (.literal w.sheet.nodes.next l) rfl
    (by simp)
  refine (emit_shows hc ha.sound).imp (fun r w' h => ?_)
  obtain ⟨hn, rfl, hsh⟩ := h
  rw [hn]
  refine Goes.keep ⟨dag', ha.andThen (hsh.wrote.sparing fun _ => List.subset_append_left _ _),
    trivial, ?_⟩ fun f hm => henv f (List.mem_append_right _ hm)
  obtain ⟨text, -, hname⟩ := hsh.established.noted
  have htemps : (w'.sheet.nodes.name (.literal w.sheet.nodes.next l)).temps = [] := by
    simp only [Nodes.name, Expr.id, hname, Option.getD_some, Spelling.temps]
  simpa [Fact.Holds] using ⟨⟨hc, hsh.visible⟩, hc, hsh.established, htemps⟩

theorem lawful_zero (ty : Ty) :
    Lawful held .growing env (zero ty) fun e => [.visible e, .plain e] :=
  .bind (lawful_must _) fun l => lawful_constant l

theorem lawful_named (he : Made env e) (name : String) :
    Lawful held .growing env (named e name) fun e => [.visible e, .plain e] := by
  intro dag w hs henv
  have hc0 : dag.contains e := he.contains fun f hf => henv f (List.mem_append_left _ hf)
  let copied : Expr := .unary w.sheet.nodes.next .assign e
  let table := w.sheet.nodes.names.insert copied.id (.word name)
  have hfind : table.find? copied.id = some (.word name) := by simp [table]
  obtain ⟨dag', hc, ha⟩ := Advance.insert Line.computed hs copied rfl
    (by simpa [copied] using hc0) table
    (fun id hid => by simp [table, hid]) (.inr ⟨name, hfind⟩)
  refine .bind (ensures_node (.bind (ensures_emitting (ensures_rename ?_))))
  refine (emit_shows (e := copied) hc ha.sound).imp (fun r w' h => ?_)
  obtain ⟨hn, rfl, hsh⟩ := h
  rw [hn]
  refine Goes.keep ⟨dag', ha.andThen (hsh.wrote.sparing fun _ => List.subset_append_left _ _),
    trivial, ?_⟩ fun f hm => henv f (List.mem_append_right _ hm)
  have hname : w'.sheet.nodes.names.find? copied.id = some (.word name) :=
    (hsh.wrote.stays.own copied hc rfl).trans hfind
  have htemps : (w'.sheet.nodes.name copied).temps = [] := by
    simp only [Nodes.name, hname, Option.getD_some, Spelling.temps]
  simpa [Fact.Holds] using ⟨⟨hc, hsh.visible⟩, hc, hsh.established, htemps⟩

theorem lawful_variableOf (h : o.Made env) :
    Lawful held .growing env (variableOf o) fun e => [.visible e] :=
  .bind (lawful_operand h) fun e => lawful_emitNode (fun _ => rfl)
    (by simp)

theorem lawful_copy (he : Made env e) : Lawful held .growing env (copy e) fun e => [.visible e] :=
  lawful_variableOf he

theorem lawful_zeroed (ty : Ty) : Lawful held .growing env (zeroed ty) fun e => [.visible e] :=
  lawful_emitNode (fun _ => rfl) (by simp)

theorem lawful_select {cond : Expr} {yes no : Operand} (hc : Made env cond) (hy : yes.Made env)
    (hn : no.Made env) :
    Lawful held .growing env (select cond yes no) fun e => [.visible e] := by
  refine .bind (lawful_operand hy) fun a => .bind (lawful_operand (hn.mono (by simp))) fun b => ?_
  exact lawful_emitNode (fun _ => rfl) (by simp [hc])

theorem lawful_binary {lhs rhs : Operand} (hl : lhs.Made env) (hr : rhs.Made env) :
    Lawful held .growing env (binary op lhs rhs) fun e => [.visible e] := by
  refine .bind (lawful_operand hl) fun a => .bind (lawful_operand (hr.mono (by simp))) fun b => ?_
  exact lawful_emitNode (fun _ => rfl) (by simp)

theorem lawful_unary (he : Made env e) :
    Lawful held .growing env (unary op e) fun e => [.visible e] :=
  lawful_emitNode (fun _ => rfl) (by simpa using he)

theorem lawful_assign (he : Made env e) (ho : o.Made env) :
    Lawful held .growing env (assign e o) fun e => [.visible e] :=
  lawful_binary he ho

theorem lawful_elementAt {index : Operand} (he : Made env e) (hi : index.Made env) :
    Lawful held .growing env (elementAt e index) fun e => [.visible e] :=
  .bind (lawful_operand hi) fun i => lawful_emitNode (fun _ => rfl)
    (by simp [he])

theorem lawful_tryField (he : Known env e) (name : String) :
    Lawful held .growing env (tryField e name) emitted :=
  .bind (lawful_node_ready (fun _ => rfl) (by simpa using he))
    fun _ => lawful_tryEmit (by simp)

theorem lawful_makeSwizzle (he : Known env e) (lanes : String) :
    Lawful held k env (attempt (.making (.swizzle e lanes)))
      fun r => r.toOption.elim [] fun part => [.ready part] := by
  refine .attempt fun dag s hs henv => ComputeKernel.ensures_making ?_
  obtain ⟨hc, hest⟩ := he.established hs henv
  refine .bind (ensures_makingTyping ((e.inferType_finds hc hs.typed).mono (fun ty t ht => ?_)
    fun t ht => ⟨dag, .retype hs ht.1 ht.2, k.allows_refl _, by simp⟩))
  have h1 : Advance Line.computed dag s s.blocks dag
      { s with nodes := { s.nodes with types := t } } := .retype hs ht.1.1 ht.1.2
  have hfault : Goes k dag s [] { s with nodes := { s.nodes with types := t } } :=
    ⟨dag, h1, k.allows_refl _, by simp⟩
  refine ensures_ite (fun _ => .bind (ensures_throw hfault)) fun _ => ?_
  refine .bind (ensures_orFault (fun _ _ => ensures_newNode ?_) fun _ _ => hfault)
  obtain ⟨dag', hc', ha⟩ := Advance.make Line.computed h1.sound (.swizzle s.nodes.next e lanes) rfl
    (by simpa using hc)
  have h2 := h1.andThen ha
  refine ⟨dag', h2, k.allows_refl _, ?_⟩
  simpa [Fact.Holds] using ⟨hc', h2.stays.established hc hest⟩

theorem lawful_trySwizzle (he : Known env e) (lanes : String) :
    Lawful held .growing env (trySwizzle e lanes) emitted := by
  refine .bind (lawful_makeSwizzle he lanes) fun r => ?_
  cases r with
  | ok part => exact lawful_tryEmit (by simp [Except.toOption])
  | error fault => exact .pure (by simp [emitted])

theorem lawful_swizzle (he : Known env e) (lanes : String) :
    Lawful held .growing env (swizzle e lanes) fun e => [.visible e] :=
  .bind (lawful_trySwizzle he lanes) fun _ =>
    lawful_must_emitted (List.subset_append_left _ _)

theorem lawful_addShared (name : String) (ty : Ty) :
    Lawful held k env (drafting (.addShared name ty)) fun _ => [] := by
  refine .emitting fun dag s hs _ => ComputeKernel.ensures_drafting (.bind (ensures_get ?_))
  cases hf : s.draft.shared.find? name with
  | some existing =>
    exact ensures_ite (fun _ => ensures_throw trivial) fun _ => ensures_pure (.refl hs (by simp))
  | none =>
    refine .bind ((registerType_frame ty s.draft).mono (fun _ d h => ensures_modify ?_)
      fun _ _ => trivial)
    obtain ⟨ht, hr, hk⟩ := h
    refine ⟨dag, .register hs ht (hr ▸ .refl _) hk, ?_, by simp⟩
    rw [show d.scopes = s.draft.scopes from congrArg (·.2.1) hk]
    exact k.allows_refl _

theorem lawful_tryCall {p : Prototype} (ha : ∀ a ∈ args, Known env a) :
    Lawful held .growing env (tryCall p args) emitted :=
  .bind (lawful_node_ready (fun _ => rfl) (by simpa [Expr.operands_call] using ha))
    fun _ => lawful_tryEmit (by simp)

theorem lawful_apply {b : Builtin} (ha : ∀ a ∈ args, Made env a) :
    Lawful held .growing env (apply b args) fun e => [.visible e] :=
  .bind (lawful_builtin b) fun p => lawful_emitNode (fun _ => rfl)
    (by simpa [Expr.operands_call] using ha)

theorem lawful_read {index : Expr} (he : Made env e) (hi : Made env index) :
    Lawful held .growing env (read e index) fun e => [.visible e] :=
  lawful_apply (by simp [he, hi])

end Build

end ComputeKernel
