import ComputeKernel.Draft.Session
import ComputeKernel.Proofs.Divergence
import ComputeKernel.Proofs.DraftHistory

namespace ComputeKernel

variable {dag : Dag} {s : Session} {given : List Expr}

def Expr.Formed : Expr → Prop
  | .literal _ value => ∃ text, value.text = .ok text
  | .array _ elem _ init => Making.checkElements elem init = .ok ()
  | _ => True

def Answer.made : Answer → List Expr
  | .node e _ => [e]
  | _ => []

namespace Session

def after (s : Session) (step : Step) : Session :=
  match perform step.operation s with
  | .ok answer t => t.bindNode step.bind answer
  | .error _ t => t

def draft (s : Session) : Draft := s.sheet.draft

inductive Move : Dag × Session → Dag × Session → Prop
  | sheet {dag : Dag} {s : Session} {sheet : Sheet} (h : s.sheet.Step dag.contains sheet) :
    Move (dag, s) (dag, { s with sheet })
  | make {dag : Dag} {s : Session} {e : Expr} (hops : ∀ d ∈ e.operands, dag.contains d)
    (hnew : ∀ d, dag.contains d → d.id ≠ e.id) (hid : e.id = s.sheet.nodes.next)
    (hformed : e.Formed) :
    Move (dag, s) (dag.insert e hops hnew, { s with
      sheet := { s.sheet with nodes := { s.sheet.nodes with next := s.sheet.nodes.next + 1 } } })
  | bind {dag : Dag} {s : Session} {e : Expr} (he : dag.contains e) (name : String) :
    Move (dag, s) (dag, { s with bound := (name, e) :: s.bound })

abbrev Comes : Dag × Session → Dag × Session → Prop := Relation.ReflTransGen Move

structure Placed (dag : Dag) (s : Session) : Prop where
  bound : ∀ binding ∈ s.bound, dag.contains binding.2
  below : ∀ e, dag.contains e → e.id < s.sheet.nodes.next

section Comes

variable {dag' : Dag} {s' : Session}

theorem Move.placed (h : Move (dag, s) (dag', s')) (hs : s.Placed dag) : s'.Placed dag' := by
  cases h with
  | sheet h =>
    refine ⟨hs.bound, fun e he => ?_⟩
    rw [Sheet.Comes.next (.single h)]
    exact hs.below e he
  | @make _ _ e hops hnew hid hformed =>
    refine ⟨fun binding hb => .inl (hs.bound binding hb), ?_⟩
    rintro d (hd | rfl)
    · exact Nat.lt_succ_of_lt (hs.below d hd)
    · exact Nat.lt_succ_of_le (Nat.le_of_eq hid)
  | bind he name =>
    refine ⟨fun binding hb => ?_, hs.below⟩
    rcases List.mem_cons.mp hb with rfl | hb
    · exact he
    · exact hs.bound binding hb

theorem Comes.keeps {P : Dag → Session → Prop}
    (hP : ∀ dag s dag' s', Move (dag, s) (dag', s') → P dag s → P dag' s')
    (h : Comes (dag, s) (dag', s')) (hs : P dag s) : P dag' s' := by
  suffices ∀ t, Comes (dag, s) t → P t.1 t.2 from this _ h
  intro t ht
  induction ht with
  | refl => exact hs
  | tail _ hmove ih => exact hP _ _ _ _ hmove ih

theorem Comes.placed (h : Comes (dag, s) (dag', s')) (hs : s.Placed dag) : s'.Placed dag' :=
  h.keeps (P := fun dag s => s.Placed dag) (fun _ _ _ _ => Move.placed) hs

theorem comes_sheet {sheet : Sheet} (h : s.sheet.Comes dag.contains sheet) :
    Comes (dag, s) (dag, { s with sheet }) := by
  induction h with
  | refl => exact .refl
  | tail _ hstep ih => exact ih.tail (.sheet hstep)

theorem Comes.drafts (h : Comes (dag, s) (dag', s')) : s.draft.Leads s'.draft := by
  refine h.keeps (P := fun _ t => s.draft.Leads t.draft) (fun _ _ _ _ hmove hd => ?_) (.refl _)
  cases hmove with
  | sheet h => exact hd.trans (Sheet.Comes.draft (.single h))
  | _ => exact hd

theorem Comes.contains (h : Comes (dag, s) (dag', s')) {e : Expr} (he : dag.contains e) :
    dag'.contains e := by
  refine h.keeps (P := fun dag _ => dag.contains e) (fun _ _ _ _ hmove he => ?_) he
  cases hmove with
  | make => exact .inl he
  | _ => exact he

end Comes

structure Guides (t t' : Dag × Session) : Prop where
  comes : Comes t t'
  rooted : t.2.sheet.draft.Rooted t.1 → t'.2.sheet.draft.Rooted t'.1
  rises : t.2.sheet.draft.Rooted t.1 → Rises t.1 t.2.sheet.nodes.modes t'.2.sheet.nodes.modes

theorem Guides.refl (t : Dag × Session) : Guides t t := ⟨.refl, id, fun _ => .refl _⟩

theorem Guides.trans {t t' t'' : Dag × Session} (h : Guides t t') (h' : Guides t' t'') :
    Guides t t'' where
  comes := h.comes.trans h'.comes
  rooted ht := h'.rooted (h.rooted ht)
  rises ht e he hd := h'.rises (h.rooted ht) e (h.comes.contains he) (h.rises ht e he hd)

theorem guides_sheet {sheet : Sheet}
    (h : s.sheet.Comes dag.contains sheet) (ho : Onward dag s.sheet sheet) :
    Guides (dag, s) (dag, { s with sheet }) := ⟨comes_sheet h, ho.rooted, ho.rises⟩

def Run.Guided {α : Type} (given : List Expr) (x : Run α) (made : α → List Expr) : Prop :=
  ∀ dag s, s.Placed dag → (∀ e ∈ given, dag.contains e) →
    Ensures x s
      (fun a s' => ∃ dag', Guides (dag, s) (dag', s') ∧ ∀ e ∈ made a ++ given, dag'.contains e)
      fun s' => ∃ dag', Guides (dag, s) (dag', s')

section Making

def Asked (given : List Expr) (n n' : Nodes) : Prop :=
  n' = n ∨ ∃ b ∈ given, n' = { n with types := final (b.inferType n.types) }

def Forms (given : List Expr) (x : Making Expr) : Prop :=
  ∀ n, Ensures x n
    (fun e n' => ∃ n₁, Asked given n n₁ ∧ e.id = n₁.next ∧ e.operands ⊆ given ∧ e.Formed ∧
      n' = { n₁ with next := n₁.next + 1 })
    (Asked given n)

variable {mk : Nat → Expr}

theorem forms_node (hid : ∀ id, (mk id).id = id) (hops : ∀ id, (mk id).operands ⊆ given)
    (hformed : ∀ id, (mk id).Formed) : Forms given (.node mk) :=
  fun n => ensures_newNode ⟨n, .inl rfl, hid n.next, hops n.next, hformed n.next, rfl⟩

theorem forms_leaf (hid : ∀ id, (mk id).id = id) (hops : ∀ id, (mk id).operands = [])
    (hformed : ∀ id, (mk id).Formed) : Forms given (.node mk) :=
  forms_node hid (fun id => by simp [hops id]) hformed

theorem Forms.keeps_modes {x : Making Expr} (h : Forms given x) : Keeps Nodes.modes x := by
  have hasked {n n' : Nodes} (h : Asked given n n') : n'.modes = n.modes := by
    rcases h with rfl | ⟨b, -, rfl⟩ <;> rfl
  refine fun n => (h n).mono (fun _ n' h => ?_) fun _ => hasked
  obtain ⟨n₁, h, -, -, -, rfl⟩ := h
  exact (hasked h : n₁.modes = n.modes)

theorem forms_literal (value : Literal) : Forms given (.literal value) := by
  intro n
  refine .bind (ensures_orFault (fun text h => ?_) fun _ _ => .inl rfl)
  have hformed : ∀ id, (Expr.literal id value).Formed := fun _ => ⟨text, h⟩
  exact forms_leaf (fun _ => rfl) (fun _ => rfl) hformed n

theorem forms_array (elem : Ty) (length : UInt32) (init : List Literal) :
    Forms given (.array elem length init) := by
  intro n
  refine ensures_ite (fun _ => .bind (ensures_throw (.inl rfl))) fun _ => ?_
  refine ensures_ite (fun _ => .bind (ensures_throw (.inl rfl))) fun _ => ?_
  refine .bind (ensures_orFault (fun _ h => ?_) fun _ _ => .inl rfl)
  have hformed : ∀ id, (Expr.array id elem length init).Formed := fun _ => h
  exact forms_leaf (fun _ => rfl) (fun _ => rfl) hformed n

theorem forms_swizzle {base : Expr} (lanes : String) (h : base ∈ given) :
    Forms given (.swizzle base lanes) := by
  intro n
  have hasked : ∀ types, types = final (base.inferType n.types) →
      Asked given n { n with types } := fun types htypes => .inr ⟨base, h, htypes ▸ rfl⟩
  refine .bind (ensures_makingTyping ?_)
  unfold Ensures
  cases hrun : base.inferType n.types with
  | error fault types => exact hasked types (by rw [hrun]; rfl)
  | ok ty types =>
    have hn := hasked types (by rw [hrun]; rfl)
    refine ensures_ite (fun _ => .bind (ensures_throw hn)) fun _ => ?_
    refine .bind (ensures_orFault (fun _ _ => ?_) fun _ _ => hn)
    exact ensures_newNode ⟨_, hn, rfl, by simpa using h, trivial, rfl⟩

end Making

namespace Run.Guided

variable {α β : Type}

variable {x : Run α} {f : Draft → Draft}

theorem bind {k : α → Run β} {made : α → List Expr} {made' : β → List Expr}
    (hx : Guided given x made) (hk : ∀ a, Guided (made a ++ given) (k a) made') :
    Guided given (x >>= k) made' := by
  intro dag s hs hgiven
  refine .bind ((hx dag s hs hgiven).imp fun a s' h => ?_)
  obtain ⟨dag', hguides, hmade⟩ := h
  refine (hk a dag' s' (hguides.comes.placed hs) hmade).mono (fun b s'' h' => ?_) fun s'' h' => ?_
  · obtain ⟨dag'', hguides', hmade'⟩ := h'
    refine ⟨dag'', hguides.trans hguides', fun e he => hmade' e ?_⟩
    rcases List.mem_append.mp he with he | he
    · exact List.mem_append_left _ he
    · exact List.mem_append_right _ (List.mem_append_right _ he)
  · obtain ⟨dag'', hguides'⟩ := h'
    exact ⟨dag'', hguides.trans hguides'⟩

theorem pure {made : α → List Expr} {a : α} (h : made a ⊆ given) :
    Guided given (Pure.pure a) made := fun dag _ _ hgiven =>
  ensures_pure ⟨dag, .refl _, fun e he =>
    hgiven e ((List.mem_append.mp he).elim (fun he => h he) id)⟩

theorem throw {made : α → List Expr} (stop : Stop) : Guided given (throw stop) made :=
  fun dag _ _ _ => ensures_throw ⟨dag, .refl _⟩

theorem get : Guided given (MonadState.get : Run Session) fun _ => [] :=
  fun dag _ _ hgiven => ensures_get ⟨dag, .refl _, hgiven⟩

theorem value (name : String) : Guided given (Run.value name) fun e => [e] := by
  intro dag s hs hgiven
  refine .bind (ensures_get ?_)
  cases hfind : s.bound.lookup name with
  | none => exact ensures_throw ⟨dag, .refl _⟩
  | some e =>
    obtain ⟨_, _, hbound, -⟩ := List.lookup_eq_some_iff.mp hfind
    have he : dag.contains e := hs.bound (name, e) (by simp [hbound])
    exact ensures_pure ⟨dag, .refl _, by simpa [he] using hgiven⟩

theorem values (names : List String) : Guided given (names.mapM Run.value) id := by
  induction names generalizing given with
  | nil =>
    rw [List.mapM_nil]
    exact .pure (List.nil_subset _)
  | cons name names ih =>
    rw [List.mapM_cons]
    exact .bind (.value name) fun e => .bind ih fun es => .pure (by simp)

theorem optional (name : Option String) : Guided given (name.mapM Run.value) Option.toList := by
  cases name with
  | none => exact .pure (List.nil_subset _)
  | some name => exact .bind (.value name) fun e => .pure (by simp)

theorem described {r : Described α} : Guided given (Run.given r) fun _ => [] := by
  cases r with
  | ok a => exact .pure (List.nil_subset _)
  | error fault => exact .throw _

theorem settled {r : Except Failure α} : Guided given (Run.settled r) fun _ => [] := by
  cases r with
  | ok a => exact .pure (List.nil_subset _)
  | error failure => exact .throw _

theorem emitting {x : Emit α}
    (hx : ∀ dag : Dag, (∀ e ∈ given, dag.contains e) → Emit.Steps dag.contains x)
    (ho : ∀ dag : Dag, (∀ e ∈ given, dag.contains e) → Moves (Onward dag) x) :
    Guided given (Run.emitting x) fun _ => [] := by
  intro dag s hs hgiven
  have h := hx dag hgiven s.sheet
  have ho := ho dag hgiven s.sheet
  simp only [Ensures, Run.emitting] at h ho ⊢
  cases hrun : x s.sheet with
  | ok a sheet =>
    simp only [hrun] at h ho ⊢
    exact ⟨dag, guides_sheet h ho, hgiven⟩
  | error fault sheet =>
    simp only [hrun] at h ho ⊢
    exact ⟨dag, guides_sheet h ho⟩

theorem changing {x : Drafting α} (c : Draft.Change) (h : ∀ d, c.apply d = final (x d))
    (hb : Keeps Draft.bodies x) : Guided given (Run.drafting x) fun _ => [] :=
  .emitting (fun _ _ => steps_drafting c h) fun _ _ => (still_drafting hb).moves

theorem asking {x : Drafting α} (h : Keeps (fun d => d) x) :
    Guided given (Run.drafting x) fun _ => [] :=
  .emitting (fun _ _ => steps_asking h) fun _ _ => (still_drafting fun d =>
    (h d).mono (fun _ _ hd => congrArg Draft.bodies hd) fun _ hd => congrArg Draft.bodies hd).moves

theorem redraft (c : Draft.Change) (h : ∀ d, c.apply d = f d)
    (hf : ∀ dag : Dag, (∀ e ∈ given, dag.contains e) → ∀ d, d.Rooted dag → (f d).Rooted dag) :
    Guided given (Run.redraft f) fun _ => [] :=
  .emitting (fun _ _ => steps_redraft c h) fun dag hgiven => moves_redraft (hf dag hgiven)

theorem redraft_of_bodies (c : Draft.Change) (h : ∀ d, c.apply d = f d)
    (hf : ∀ d, (f d).bodies = d.bodies) : Guided given (Run.redraft f) fun _ => [] :=
  .redraft c h fun dag _ d hd => by rwa [Draft.Rooted, hf d]

theorem answer {f : α → Answer} (hx : Guided given x fun _ => [])
    (hf : ∀ a, (f a).made = []) :
    Guided given (do let a ← x; Pure.pure (f a)) Answer.made :=
  .bind hx fun a => .pure (by simp [hf a])

theorem guides_asked {n : Nodes} (hgiven : ∀ e ∈ given, dag.contains e)
    (h : Asked given s.sheet.nodes n) :
    Guides (dag, s) (dag, { s with sheet := { s.sheet with nodes := n } }) := by
  rcases h with rfl | ⟨b, hb, rfl⟩
  · exact .refl _
  · exact guides_sheet (.single (.typed (hgiven b hb))) (Abiding.still rfl)

theorem node {x : Making Expr} (hx : Forms given x) : Guided given (Run.node x) Answer.made := by
  have hmake : Guided given (Run.making x) fun e => [e] := by
    intro dag s hs hgiven
    have h := hx s.sheet.nodes
    simp only [Ensures, Run.making, Run.emitting, Emit.making] at h ⊢
    cases hrun : x s.sheet.nodes with
    | error fault n =>
      simp only [hrun] at h ⊢
      exact ⟨dag, guides_asked hgiven h⟩
    | ok e n =>
      simp only [hrun] at h ⊢
      obtain ⟨n₁, hasked, hid, hoperands, hformed, rfl⟩ := h
      have hguides := guides_asked hgiven hasked
      have hnew : ∀ d, dag.contains d → d.id ≠ e.id := by
        intro d hd
        rw [hid]
        exact Nat.ne_of_lt ((hguides.comes.placed hs).below d hd)
      refine ⟨_, hguides.trans ⟨.single
        (.make (fun d hd => hgiven d (hoperands hd)) hnew hid hformed),
        fun hs b hb scope hscope c hc => .inl (hs b hb scope hscope c hc), fun _ => .refl _⟩, ?_⟩
      intro d hd
      rcases List.mem_cons.mp hd with rfl | hd
      · exact .inr rfl
      · exact .inl (hgiven d hd)
  exact .bind hmake fun e => .bind .get fun _ => .pure (by simp [Answer.made])

end Run.Guided

theorem moves_exitFunction : Moves (Onward dag) (Emit.drafting .exitFunction) := by
  intro s
  refine ensures_drafting ((exitFunction_spec s.draft).mono (fun _ d h => ?_) fun d h => ?_)
  · refine ⟨rfl, fun hs b hb => hs b ?_, fun _ => .refl _⟩
    rw [h]
    exact List.mem_cons_of_mem _ hb
  · exact ⟨rfl, fun hs b hb => hs b (h hb), fun _ => .refl _⟩

theorem guided_setGroupSize (size : GroupSize) :
    Run.Guided [] (perform (.setGroupSize size)) Answer.made := by
  intro dag s hs _
  refine .bind (ensures_get ?_)
  have hcomes : s.sheet.Comes dag.contains { s.sheet with draft := _ } :=
    .single (.changed (.setGroupSize size))
  rw [Draft.Change.apply] at hcomes
  cases hset : s.sheet.draft.setGroupSize size with
  | error failure => exact .bind (ensures_throw ⟨dag, .refl _⟩)
  | ok d =>
    rw [hset] at hcomes
    change s.sheet.Comes _ { s.sheet with draft := d } at hcomes
    have hstill : d.bodies = s.sheet.draft.bodies := by
      unfold Draft.setGroupSize at hset
      cases hsize : size.check <;> rw [hsize] at hset <;> cases hset
      rfl
    have hguides := guides_sheet hcomes (Abiding.still (by simp only [Sheet.stillness, hstill]))
    exact .bind (ensures_pure (.bind (ensures_ok rfl (ensures_pure
      ⟨dag, hguides, by simp [Answer.made]⟩))))

open Run.Guided in
theorem guided_perform (operation : Operation) : Run.Guided [] (perform operation) Answer.made := by
  cases operation with
  | literal v => exact .node (forms_literal v)
  | unary op operand =>
    exact .bind (.value operand) fun b =>
      .node (forms_node (fun _ => rfl) (by simp) fun _ => trivial)
  | binary op lhs rhs =>
    exact .bind (.value lhs) fun a => .bind (.value rhs) fun b =>
      .node (forms_node (fun _ => rfl) (by simp) fun _ => trivial)
  | call callee args =>
    exact .bind described fun p => .bind (.values args) fun es =>
      .node (forms_node (fun _ => rfl) (by simp [Expr.operands_call]) fun _ => trivial)
  | resource res | input i | storage name ty | zeroed ty =>
    exact .bind described fun _ =>
      .node (forms_leaf (fun _ => rfl) (fun _ => rfl) fun _ => trivial)
  | array elem length init => exact .bind described fun ty => .node (forms_array ty length init)
  | swizzle base lanes =>
    exact .bind (.value base) fun b => .node (forms_swizzle lanes (by simp))
  | field base name | element base index =>
    exact .bind (.value base) fun b =>
      .node (forms_node (fun _ => rfl) (by simp) fun _ => trivial)
  | elementAt base index =>
    exact .bind (.value base) fun b => .bind (.value index) fun i =>
      .node (forms_node (fun _ => rfl) (by simp) fun _ => trivial)
  | select cond yes no =>
    exact .bind (.value cond) fun c => .bind (.value yes) fun a => .bind (.value no) fun b =>
      .node (forms_node (fun _ => rfl) (by simp) fun _ => trivial)
  | typeOf name =>
    exact .bind (.value name) fun e => .answer (.emitting (fun dag hd => steps_typing (hd e (by simp)))
      fun _ _ => (still_typing _).moves) fun _ => rfl
  | divergence name | isUniform name =>
    refine .bind (.value name) fun e => .answer (.emitting (fun _ _ => steps_diverging _)
      fun dag hgiven => ?_) fun _ => rfl
    exact moves_diverging fun modes => (e.divergence_tells (hgiven e (by simp)) modes).2.rises
  | force name =>
    exact .bind (.value name) fun e => .answer (.emitting (fun _ _ => steps_diverging _)
      fun _ _ => moves_force _) fun _ => rfl
  | describe name =>
    exact .bind (.value name) fun e => .bind .get fun _ => .pure (by simp [Answer.made])
  | rename node name =>
    exact .bind (.value node) fun e => .answer (.emitting (fun _ _ => steps_rename _ _)
      fun _ _ => (still_rename _ _).moves) fun _ => rfl
  | emit name =>
    refine .bind (.value name) fun e => .bind (.emitting (fun dag hd => ?_) fun dag hd => ?_) fun _ =>
      .bind .get fun _ => .pure (by simp [Answer.made])
    · exact e.emit_steps fun d hu => dag.uses (hd e (by simp)) hu
    · exact e.emit_moves (hd e (by simp))
  | graph roots sought =>
    refine .bind (.values roots) fun es => .bind .get fun _ => ?_
    cases sought with
    | none => exact .pure (by simp [Answer.made])
    | some name => exact .bind (.value name) fun _ => .pure (by simp [Answer.made])
  | write text =>
    exact .answer (.redraft_of_bodies (.write _) (fun _ => rfl) fun d => bodies_write d _) fun _ => rfl
  | writeHeader text =>
    exact .answer (.redraft_of_bodies (.writeHeader text) (fun _ => rfl) fun _ => rfl) fun _ => rfl
  | enterFunction =>
    refine .answer (.redraft .enterFunction (fun _ => rfl) fun dag _ d hd b hb => ?_) fun _ => rfl
    rcases List.mem_cons.mp hb with rfl | hb
    · exact fun _ hscope => (List.not_mem_nil hscope).elim
    · exact hd b hb
  | exitFunction =>
    exact .answer (.emitting (fun _ _ => steps_drafting .exitFunction fun _ => rfl)
      fun _ _ => moves_exitFunction) fun _ => rfl
  | enterScope condition =>
    refine .bind (.optional condition) fun cond => .answer (.redraft (.enterScope cond) (fun _ => rfl)
      fun dag hgiven d hd => Draft.rooted_enterScope hd fun c hc => hgiven c ?_) fun _ => rfl
    simpa using hc
  | exitScope =>
    exact .answer (.emitting (fun _ _ => steps_drafting .exitScope fun _ => rfl)
      fun _ _ => moves_exitScope) fun _ => rfl
  | isVisible name =>
    exact .bind (.value name) fun e => .bind .get fun _ => .pure (by simp [Answer.made])
  | mark name =>
    exact .bind (.value name) fun e => .answer (.redraft (.mark e.id) (fun _ => rfl)
      fun _ _ _ hd => Draft.rooted_mark _ hd) fun _ => rfl
  | state =>
    exact .bind (.emitting (fun _ _ => steps_inDivergentRegion) fun _ _ => moves_inDivergentRegion)
      fun _ => .bind .get fun _ => .pure (by simp [Answer.made])
  | pushTarget target =>
    exact .answer (.redraft_of_bodies (.pushTarget target) (fun _ => rfl) fun _ => rfl) fun _ => rfl
  | popTarget =>
    exact .answer (.changing .popTarget (fun _ => rfl) (keeps_popTarget fun _ _ => rfl)) fun _ => rfl
  | checkBreak what => exact .answer (.asking (keeps_checkBreak what)) fun _ => rfl
  | checkContinue => exact .answer (.asking keeps_checkContinue) fun _ => rfl
  | setGroupSize size => exact guided_setGroupSize size
  | enableWave32 seed =>
    exact .bind (.value seed) fun e =>
      .answer (.redraft_of_bodies (.enableWave32 e) (fun _ => rfl) fun _ => rfl) fun _ => rfl
  | pushMask mask =>
    exact .bind (.value mask) fun e =>
      .answer (.redraft_of_bodies (.pushMask e) (fun _ => rfl) fun _ => rfl) fun _ => rfl
  | popMask =>
    exact .answer (.changing .popMask (fun _ => rfl) (keeps_popMask fun _ _ => rfl)) fun _ => rfl
  | currentMask => exact .answer (.asking keeps_currentMask) fun _ => rfl
  | registerType ty =>
    exact .bind described fun ty => .answer (.changing (.registerType ty) (fun _ => rfl)
      (keeps_registerType (fun _ _ _ => rfl) ty)) fun _ => rfl
  | registerResource res =>
    exact .bind described fun res => .answer (.changing (.registerResource res) (fun _ => rfl)
      (keeps_registerResource (fun _ _ _ => rfl) (fun _ _ => rfl) res)) fun _ => rfl
  | addShared name ty =>
    exact .bind described fun ty => .answer (.changing (.addShared name ty) (fun _ => rfl)
      (keeps_addShared (fun _ _ _ => rfl) (fun _ _ => rfl) name ty)) fun _ => rfl
  | declarations | manifest sought | finish =>
    exact .bind .get fun _ => .answer .settled fun _ => rfl

theorem after_comes (hs : s.Placed dag) (step : Step) :
    ∃ dag', Comes (dag, s) (dag', s.after step) := by
  have h := guided_perform step.operation dag s hs (by simp)
  unfold after
  cases hrun : perform step.operation s with
  | error stop t =>
    obtain ⟨dag', hguides⟩ := h.of_error hrun
    exact ⟨dag', hguides.comes⟩
  | ok answer t =>
    obtain ⟨dag', ⟨hcomes, -, -⟩, hmade⟩ := h.of_ok hrun
    cases answer with
    | node e name =>
      cases hbind : step.bind with
      | none => exact ⟨dag', hcomes⟩
      | some word => exact ⟨dag', hcomes.tail (.bind (hmade e (by simp [Answer.made])) word)⟩
    | _ => exact ⟨dag', hcomes⟩

theorem run_comes (hs : s.Placed dag) (steps : List Step) :
    ∃ dag', Comes (dag, s) (dag', steps.foldl after s) := by
  induction steps generalizing dag s with
  | nil => exact ⟨dag, .refl⟩
  | cons step steps ih =>
    obtain ⟨dag₁, hfirst⟩ := after_comes hs step
    obtain ⟨dag₂, hrest⟩ := ih (hfirst.placed hs)
    exact ⟨dag₂, hfirst.trans hrest⟩

theorem placed_start (settings : Settings) (first : Nat) :
    (start settings first).Placed (.ofList [] (by simp) (by simp)) where
  bound _ h := by cases h
  below _ h := by cases h

end Session

end ComputeKernel
