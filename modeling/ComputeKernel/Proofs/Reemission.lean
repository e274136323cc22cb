import ComputeKernel.Proofs.Advance

namespace ComputeKernel

abbrev Wrote (dag : Dag) (s : Sheet) (b : Blocks) (s' : Sheet) : Prop :=
  Advance Line.mentioned dag s b dag s'

structure Shown (dag : Dag) (e : Expr) (s s' : Sheet) : Prop where
  wrote : Wrote dag s s.blocks s'
  established : e.Established s'
  visible : e.id ∈ s'.draft.scopes.visible

structure Failed (dag : Dag) (e : Expr) (s s' : Sheet) : Prop where
  new : ¬e.Established s
  wrote : (∀ d ∈ e.operands, d.Established s) → Wrote dag s s.blocks s'

structure Prepared (dag : Dag) (e : Expr) (s s' : Sheet) : Prop where
  wrote : Wrote dag s s.blocks s'
  operands : ∀ d ∈ e.operands, d.Established s'
  noted : e.Noted s'
  inScope : InScope s'.nodes.types s'.blocks (s'.nodes.name e)

section Emission

variable {dag : Dag} {s s' s1 s2 : Sheet} {b : Blocks} {e d : Expr} {line : Line}

theorem Shown.inScope (h : Shown dag e s s') (he : dag.contains e) :
    InScope s'.nodes.types s'.blocks (s'.nodes.name e) :=
  h.wrote.sound.inScope e he h.visible

theorem Failed.of_wrote (h : Failed dag e s1 s') (h1 : Wrote dag s s.blocks s1)
    (he : dag.contains e) : Failed dag e s s' where
  new hest := h.new (h1.stays.established he hest)
  wrote hops := h1.andThen (h.wrote fun d hd =>
    h1.stays.established (dag.operands he hd) (hops d hd))

theorem Failed.of_operand (h : Failed dag d s1 s') (h1 : Wrote dag s s.blocks s1)
    (he : dag.contains e) (hd : d ∈ e.operands) : Failed dag e s s' where
  new hest := h.new (h1.stays.established (dag.operands he hd) (hest.operand hd))
  wrote hops := (h.new (h1.stays.established (dag.operands he hd) (hops d hd))).elim

theorem once_shows {body : Ty → Emit Unit} (he : dag.contains e) (hs : Sound dag s)
    (hbody : ∀ ty s1, Sound dag s1 → s1.nodes.types.find? e.id = some ty →
      Ensures (body ty) s1 (fun _ s2 => Prepared dag e s1 s2) (Failed dag e s1)) :
    Ensures (Emit.once e body) s (fun _ s' => Shown dag e s s') (Failed dag e s) := by
  by_cases hv : s.draft.scopes.isVisible e.id = true
  · have hid := Scopes.isVisible_iff.mp hv
    exact Ensures.of_eq (once_of_visible hv) ⟨.refl hs, hs.established e he hid, hid⟩
  · refine Ensures.of_eq (once_of_hidden hv) (.bind (ensures_typing ?_))
    cases hx : e.inferType s.nodes.types with
    | error fault t =>
      refine ensures_error hx ⟨fun hest => ?_, fun _ => ?_⟩
      · obtain ⟨ty, hty⟩ := hest.typed
        rw [Expr.inferType_known hty] at hx
        cases hx
      · have hfind := (e.inferType_finds he hs.typed).of_error hx
        exact .retype hs hfind.1 hfind.2
    | ok ty t =>
      obtain ⟨hgrows, hfound, -⟩ := (e.inferType_finds he hs.typed).of_ok hx
      have h1 : Wrote dag s s.blocks { s with nodes := { s.nodes with types := t } } :=
        .retype hs hgrows.1 hgrows.2
      refine ensures_ok hx (.bind ((hbody ty _ h1.sound hfound).mono ?_ fun s2 h2 =>
        h2.of_wrote h1 he))
      intro _ s2 h2
      have hest : e.Established s2 :=
        .of_operands h2.operands (h2.wrote.stays.types _ _ hfound) h2.noted
      refine ensures_redraft ⟨(h1.andThen h2.wrote).mark he hest h2.inScope, ?_, ?_⟩
      · exact fun c hc => hest c hc
      · exact Memo.mem_visible_mark.mpr (.inl rfl)

theorem inScope_declared (hs : Sound dag s) (he : dag.contains e) (hk : e.keepsName = true)
    (hd : e.defaultName = .temp e.id)
    (hb : s.nodes.name e = .temp e.id → s.nodes.types.find? e.id ≠ some .void → e.id ∈ b.all) :
    InScope s.nodes.types b (s.nodes.name e) := by
  intro id hid hv
  rcases hs.own e he hk with hn | ⟨word, hn⟩
  · have hname : s.nodes.name e = .temp e.id := by simp only [Nodes.name, hn, hd, Option.getD_none]
    rw [hname] at hid
    rw [List.mem_singleton.mp hid] at hv ⊢
    exact hb hname hv
  · have hname : s.nodes.name e = .word word := by simp only [Nodes.name, hn, Option.getD_some]
    rw [hname] at hid
    cases hid

theorem mem_declared_write {id : Nat} (hid : id ∈ line.declared)
    (hstep : s.blocks.step line = s.blocks.declare line.declared) :
    id ∈ (Sheet.blocks { s with draft := s.draft.write line }).all := by
  rw [Sheet.blocks_write, hstep, Blocks.all_declare]
  exact List.mem_append_left _ hid

theorem Prepared.declare (h : Wrote dag s s.blocks s1) (he : dag.contains e)
    (hops : ∀ d ∈ e.operands, d.Established s1) (hn : e.Noted s1) (hk : e.keepsName = true)
    (hd : e.defaultName = .temp e.id)
    (hm : ∀ name ∈ line.mentioned, InScope s1.nodes.types s1.blocks name)
    (hstep : s1.blocks.step line = s1.blocks.declare line.declared)
    (hline : s1.nodes.name e = .temp e.id → e.id ∈ line.declared) :
    Prepared dag e s { s1 with draft := s1.draft.write line } := by
  have hw : Wrote dag s1 s1.blocks { s1 with draft := s1.draft.write line } :=
    .statement h.sound hm hstep
  refine ⟨h.andThen hw, fun d hmem => ?_, ?_, ?_⟩
  · exact hw.stays.established (dag.operands he hmem) (hops d hmem)
  · exact hn.of_tables rfl rfl (Draft.types_write _ _) (Draft.resources_write _ _)
  · exact inScope_declared hw.sound he hk hd fun hname _ => mem_declared_write (hline hname) hstep

theorem Advance.register {names : Line → List Spelling} (hs : Sound dag s) {draft : Draft}
    (ht : s.draft.types.Extends draft.types) (hr : s.draft.resources.Extends draft.resources)
    (hk : (draft.context, draft.scopes, draft.lines) =
      (s.draft.context, s.draft.scopes, s.draft.lines)) :
    Advance names dag s s.blocks dag { s with draft } := by
  simp only [Prod.mk.injEq] at hk
  exact .redraft hs ht hr hk.1 hk.2.1 hk.2.2

theorem registerType_frame (ty : Ty) (draft : Draft) :
    Ensures (Drafting.registerType ty) draft
      (fun _ d => draft.types.Extends d.types ∧ d.resources = draft.resources ∧
        (d.context, d.scopes, d.lines) = (draft.context, draft.scopes, draft.lines))
      fun d => draft.types.Extends d.types ∧ d.resources = draft.resources ∧
        (d.context, d.scopes, d.lines) = (draft.context, draft.scopes, draft.lines) := by
  have hframe : Keeps (fun d : Draft => (d.context, d.scopes, d.lines))
      (Drafting.registerType ty) := keeps_registerType (fun _ _ _ => rfl) ty
  have hres : Keeps Draft.resources (Drafting.registerType ty) :=
    keeps_registerType (fun _ _ _ => rfl) ty
  refine ((registerType_spec ty draft).and ((hres draft).and (hframe draft))).mono ?_ ?_
  · exact fun _ _ h => ⟨h.1.1, h.2⟩
  · exact fun _ h => h

theorem registerType_wrote (ty : Ty) (hs : Sound dag s) :
    Ensures (Emit.drafting (.registerType ty)) s
      (fun _ s' => Wrote dag s s.blocks s' ∧ ty.Registered s'.draft.types)
      fun s' => Wrote dag s s.blocks s' ∧ ¬ty.Registered s.draft.types := by
  have hnew : Ensures (Drafting.registerType ty) s.draft (fun _ _ => True)
      fun _ => ¬ty.Registered s.draft.types := .not_of_failed fun h => registerType_again ty h
  refine ensures_drafting ((((registerType_spec ty s.draft).and hnew).and
    (registerType_frame ty s.draft)).mono ?_ ?_)
  · rintro _ d ⟨⟨⟨-, hreg⟩, -⟩, ht, hr, hk⟩
    exact ⟨.register hs ht (hr ▸ .refl _) hk, hreg⟩
  · rintro d ⟨⟨-, hnot⟩, ht, hr, hk⟩
    exact ⟨.register hs ht (hr ▸ .refl _) hk, hnot⟩

theorem registerResource_wrote (res : Resource) (hs : Sound dag s) :
    Ensures (Emit.drafting (.registerResource res)) s
      (fun _ s' => Wrote dag s s.blocks s' ∧ res.Registered s'.draft.resources)
      fun s' => Wrote dag s s.blocks s' ∧ ¬res.Registered s.draft.resources := by
  have hframe : Keeps (fun d : Draft => (d.context, d.scopes, d.lines))
      (Drafting.registerResource res) :=
    keeps_registerResource (fun _ _ _ => rfl) (fun _ _ => rfl) res
  have hnew : Ensures (Drafting.registerResource res) s.draft (fun _ _ => True)
      fun _ => ¬res.Registered s.draft.resources := .not_of_failed fun h => registerResource_again h
  refine ensures_drafting ((((registerResource_spec res s.draft).and hnew).and
    (hframe s.draft)).mono ?_ ?_)
  · rintro _ d ⟨⟨⟨⟨ht, hr⟩, hreg⟩, -⟩, hk⟩
    exact ⟨.register hs ht hr hk, hreg⟩
  · rintro d ⟨⟨⟨ht, hr⟩, hnot⟩, hk⟩
    exact ⟨.register hs ht hr hk, hnot⟩

theorem branch_wrote {cond target value : Expr} {body : Emit Unit} (hs : Sound dag s)
    (hv : dag.contains value) (ht : dag.contains target) (hk : target.keepsName = true)
    (hin : InScope s.nodes.types s.blocks (s.nodes.name target))
    (hbody : ∀ s1, Sound dag s1 →
      Ensures body s1 (fun _ s2 => Shown dag value s1 s2) (Failed dag value s1)) :
    Ensures (Emit.branch cond target value body) s
      (fun _ s' => Wrote dag s s.blocks s' ∧ s'.draft.scopes = s.draft.scopes ∧
        value.Established s')
      fun _ => ¬value.Established s := by
  have hst1 : Stays dag s { s with draft := s.draft.enterScope (some cond) } :=
    .of_nodes rfl rfl rfl
  refine .bind (ensures_redraft (.bind ((hbody _ (hs.enterScope _)).mono ?_
    fun _ h2 hest => h2.new (hst1.established hv hest))))
  intro _ s2 h2
  refine .bind (ensures_nameOf (.bind (ensures_nameOf ?_)))
  have hname : s2.nodes.name target = s.nodes.name target := by
    simp only [Nodes.name, h2.wrote.stays.own target ht hk]
  have h3 : Wrote dag s2 s2.blocks { s2 with
      draft := s2.draft.write (.assign (s2.nodes.name target) .assign (s2.nodes.name value)) } := by
    refine .statement h2.wrote.sound (fun name hmem => ?_) rfl
    simp only [Line.mentioned, Line.computed, Line.borrowed, List.append_nil, List.mem_cons,
      List.not_mem_nil, or_false] at hmem
    rcases hmem with rfl | rfl
    · rw [hname]
      exact hin.mono h2.wrote.stays.types h2.wrote.within.all_subset
    · exact h2.inScope hv
  refine .bind (ensures_write (ensures_drafting ?_))
  obtain ⟨hleave, h4⟩ := (h2.wrote.andThen h3).leave hs (.refl _)
  refine ensures_ok (exitScope_of_leave hleave) ⟨h4, rfl, fun d hd => ?_⟩
  exact (h3.stays.established hv h2.established) d hd

theorem branches_wrote {cond target yes no : Expr} (hs : Sound dag s)
    (hcond : InScope s.nodes.types s.blocks (s.nodes.name cond)) (ht : dag.contains target)
    (hk : target.keepsName = true) (hin : InScope s.nodes.types s.blocks (s.nodes.name target))
    (hy : dag.contains yes) (hn : dag.contains no)
    (hyes : ∀ s1, Sound dag s1 →
      Ensures yes.emit s1 (fun _ s2 => Shown dag yes s1 s2) (Failed dag yes s1))
    (hno : ∀ s1, Sound dag s1 →
      Ensures no.emit s1 (fun _ s2 => Shown dag no s1 s2) (Failed dag no s1)) :
    Ensures (do
        Emit.write (.openIf (← Emit.nameOf cond))
        Emit.branch cond target yes yes.emit
        Emit.write .openElse
        Emit.branch cond target no no.emit
        Emit.write .close) s
      (fun _ s' => Wrote dag s s.blocks s' ∧ yes.Established s' ∧ no.Established s')
      fun _ => ¬(yes.Established s ∧ no.Established s) := by
  have henter : s.blocks.all ⊆ s.blocks.enter.all := by simp [Blocks.all_enter]
  -- From here on all is seen from the start, where the block of a branch is open on top of the rest.
  have target_inScope {s1 : Sheet} (h : Wrote dag s s.blocks.enter s1) :
      InScope s1.nodes.types s1.blocks (s1.nodes.name target) := by
    have hname : s1.nodes.name target = s.nodes.name target := by
      simp only [Nodes.name, h.stays.own target ht hk]
    rw [hname]
    exact hin.mono h.stays.types fun _ hm => h.within.all_subset (henter hm)
  have h1 : Wrote dag s s.blocks.enter
      { s with draft := s.draft.write (.openIf (s.nodes.name cond)) } :=
    (Advance.refl hs).write hs rfl (.openIf (s.nodes.name cond))
      (by simpa [Line.mentioned, Line.borrowed] using hcond) henter
  refine .bind (ensures_nameOf (.bind (ensures_write (Ensures.bind
    ((branch_wrote h1.sound hy ht hk (target_inScope h1) hyes).mono ?_ fun _ hnew hest =>
      hnew (h1.stays.established hy hest.1))))))
  rintro _ s2 ⟨h2, hs2, hyest⟩
  have h2' := h1.andThen h2
  have h3 : Wrote dag s s.blocks.enter { s2 with draft := s2.draft.write .openElse } :=
    h2'.write hs (hs2.trans (Draft.scopes_write _ _)) .openElse
      (by simp [Line.mentioned, Line.borrowed]) henter
  refine .bind (ensures_write (Ensures.bind
    ((branch_wrote h3.sound hn ht hk (target_inScope h3) hno).mono ?_ fun _ hnew hest =>
      hnew (h3.stays.established hn hest.2))))
  rintro _ s4 ⟨h4, hs4, hnest⟩
  have hw := (Draft.scopes_write s2.draft .openElse).trans (hs2.trans (Draft.scopes_write _ _))
  have h5 : Wrote dag s s.blocks { s4 with draft := s4.draft.write .close } :=
    (h3.andThen h4).write hs (hs4.trans hw) .close
      (by simp [Line.mentioned, Line.borrowed]) fun _ hm => hm
  have hclose : Stays dag s4 { s4 with draft := s4.draft.write .close } :=
    .of_nodes rfl (Draft.types_write _ _) (Draft.resources_write _ _)
  have helse : Stays dag s2 { s2 with draft := s2.draft.write .openElse } :=
    .of_nodes rfl (Draft.types_write _ _) (Draft.resources_write _ _)
  refine ensures_write ⟨h5, ?_, hclose.established hn hnest⟩
  exact ((helse.trans h4.stays).trans hclose).established hy hyest

theorem Prepared.rename (h : Wrote dag s s.blocks s1) (he : dag.contains e)
    (hops : ∀ d ∈ e.operands, d.Established s1) (hk : e.keepsName = false) {name : Spelling}
    (hold : e.Established s1 → s1.nodes.names.find? e.id = some name)
    (hnew : ∀ s2, Stays dag s1 s2 → s2.draft = s1.draft →
      s2.nodes.names.find? e.id = some name → e.Noted s2)
    (hin : InScope s1.nodes.types s1.blocks name) :
    Prepared dag e s { s1 with nodes := s1.nodes.rename e.id name } := by
  have hw : Wrote dag s1 s1.blocks { s1 with nodes := s1.nodes.rename e.id name } :=
    .rename h.sound he hk hold
  have hfind : (s1.nodes.rename e.id name).names.find? e.id = some name := by simp [Nodes.rename]
  refine ⟨h.andThen hw, fun d hd => ?_, hnew _ hw.stays rfl hfind, ?_⟩
  · exact hw.stays.established (dag.operands he hd) (hops d hd)
  · have hname : (s1.nodes.rename e.id name).name e = name := by
      simp only [Nodes.name, hfind, Option.getD_some]
    rw [hname]
    exact hin

theorem Prepared.remode (h : Prepared dag e s s1) (he : dag.contains e)
    (modes : IdTable Divergence) :
    Prepared dag e s { s1 with nodes := { s1.nodes with modes } } := by
  have hw : Wrote dag s1 s1.blocks { s1 with nodes := { s1.nodes with modes } } :=
    .remode h.wrote.sound modes
  refine ⟨h.wrote.andThen hw, fun d hd => ?_, h.noted.of_tables rfl rfl rfl rfl, h.inScope⟩
  exact hw.stays.established (dag.operands he hd) (h.operands d hd)

theorem operand_shows (he : dag.contains e) (hd : d ∈ e.operands) (h : Wrote dag s s.blocks s1)
    (ih : Ensures d.emit s1 (fun _ s2 => Shown dag d s1 s2) (Failed dag d s1)) :
    Ensures d.emit s1 (fun _ s2 => Wrote dag s s.blocks s2 ∧ Shown dag d s1 s2)
      (Failed dag e s) :=
  ih.mono (fun _ _ h2 => ⟨h.andThen h2.wrote, h2⟩) fun _ h2 => h2.of_operand h he hd

end Emission

namespace Expr

variable {dag : Dag}

/-- From a sound sheet the emission of `e` ends with `e` shown, or leaves what was shown before. -/
def Showing (dag : Dag) (e : Expr) : Prop := ∀ s, Sound dag s →
  Ensures e.emit s (fun _ s' => Shown dag e s s') (Failed dag e s)

def ShownAll (dag : Dag) (es : List Expr) : Prop := ∀ s, Sound dag s → Ensures (emitArgs es) s
  (fun given s' => Wrote dag s s.blocks s' ∧
    (∀ e ∈ es, e.Established s' ∧ e.id ∈ s'.draft.scopes.visible) ∧
    given = es.map fun e => (s'.nodes.name e, s'.nodes.knownType e))
  fun _ => ¬∀ e ∈ es, e.Established s

theorem showing_literal {id : Nat} {value : Literal}
    (he : dag.contains (.literal id value)) :
    Showing dag (.literal id value) := by
  intro s hs
  unfold emit
  refine once_shows he hs fun _ s1 hs1 _ => ?_
  refine .bind (ensures_orFault (fun text ht => ensures_rename ?_) fun fault hf =>
    ⟨fun hest => ?_, fun _ => .refl hs1⟩)
  · refine Prepared.rename (e := .literal id value) (.refl hs1) he (by simp)
      rfl (fun hest => ?_) (fun s2 _ _ hfind => ⟨text, ht, hfind⟩) (by simp [InScope, Spelling.temps])
    obtain ⟨text', ht', hfind⟩ := hest.noted
    rw [ht] at ht'
    cases ht'
    exact hfind
  · obtain ⟨text', ht', -⟩ := hest.noted
    rw [hf] at ht'
    cases ht'

theorem showing_unary {id : Nat} {op : Op} {operand : Expr}
    (he : dag.contains (.unary id op operand)) (ih : Showing dag operand) :
    Showing dag (.unary id op operand) := by
  intro s hs
  have ops {d : Expr} := dag.operands (d := d) he
  unfold emit
  refine once_shows he hs fun ty s1 hs1 _ => ?_
  have ho : operand ∈ (unary id op operand).operands := by simp
  refine .bind ((operand_shows he ho (.refl hs1) (ih s1 hs1)).imp ?_)
  rintro _ s2 ⟨h2, hshown⟩
  refine .bind (ensures_nameOf (.bind (ensures_nameOf (ensures_write ?_))))
  refine .declare h2 he (by simpa using hshown.established) trivial rfl rfl
    ?_ rfl ?_
  · have hnames : (if op = .assign then Initial.copy (s2.nodes.name operand)
        else .unary op (s2.nodes.name operand)).names = [s2.nodes.name operand] := by
      split <;> rfl
    simpa [Line.mentioned, Line.borrowed, hnames] using hshown.inScope (ops ho)
  · intro hname
    simp [hname, Line.declared]

theorem showing_binary {id : Nat} {op : Op} {lhs rhs : Expr}
    (he : dag.contains (.binary id op lhs rhs)) (ihl : Showing dag lhs) (ihr : Showing dag rhs) :
    Showing dag (.binary id op lhs rhs) := by
  intro s hs
  have ops {d : Expr} := dag.operands (d := d) he
  unfold emit
  refine once_shows he hs fun ty s1 hs1 _ => ?_
  have hl : lhs ∈ (binary id op lhs rhs).operands := by simp
  have hr : rhs ∈ (binary id op lhs rhs).operands := by simp
  refine .bind ((operand_shows he hl (.refl hs1) (ihl s1 hs1)).imp ?_)
  rintro _ s2 ⟨h2, hshown⟩
  refine .bind ((operand_shows he hr h2 (ihr s2 h2.sound)).imp ?_)
  rintro _ s3 ⟨h3, hshown'⟩
  have hest : lhs.Established s3 := hshown'.wrote.stays.established (ops hl) hshown.established
  have hops : ∀ d ∈ (binary id op lhs rhs).operands, d.Established s3 := by
    simpa using ⟨hest, hshown'.established⟩
  have hin : InScope s3.nodes.types s3.blocks (s3.nodes.name lhs) ∧
      InScope s3.nodes.types s3.blocks (s3.nodes.name rhs) :=
    ⟨h3.sound.inScope lhs (ops hl) (hshown'.wrote.visible hshown.visible),
      hshown'.inScope (ops hr)⟩
  refine .bind (ensures_nameOf (.bind (ensures_nameOf
    (ensures_ite (fun ha => ?_) fun ha => ?_))))
  · refine .bind (ensures_write (.bind (ensures_rename
      (ensures_noteWrite fun modes => Prepared.remode ?_ he modes))))
    have hw : Wrote dag s3 s3.blocks { s3 with
        draft := s3.draft.write (.assign (s3.nodes.name lhs) op (s3.nodes.name rhs)) } :=
      .statement h3.sound (by simpa [Line.mentioned, Line.borrowed] using hin) rfl
    refine .rename (e := .binary id op lhs rhs) (h3.andThen hw) he (fun d hd => ?_) ?_ ?_ ?_ ?_
    · exact hw.stays.established (ops hd) (hops d hd)
    · simp [keepsName, ha]
    · exact fun h => h.noted ha
    · intro s4 hst _ hfind _
      rw [hst.name (ops hl) (hw.stays.established (ops hl) hest)]
      exact hfind
    · exact hin.1.mono hw.stays.types hw.within.all_subset
  · refine .bind (ensures_nameOf (ensures_write ?_))
    refine .declare h3 he hops (fun h => absurd h ha) (by simp [keepsName, ha]) rfl ?_ rfl ?_
    · simpa [Line.mentioned, Line.borrowed, Initial.names] using hin
    · intro hname
      simp [hname, Line.declared]

theorem showing_call {id : Nat} {callee : Prototype} {args : List Expr}
    (he : dag.contains (.call id callee args)) (ih : ShownAll dag args) :
    Showing dag (.call id callee args) := by
  intro s hs
  have ops {d : Expr} := dag.operands (d := d) he
  unfold emit
  refine once_shows he hs fun ty s1 hs1 hty => ?_
  have ha : ∀ d ∈ args, d ∈ (call id callee args).operands := by simp [operands_call]
  refine .bind ((ih s1 hs1).mono ?_ ?_)
  · rintro _ s2 ⟨h2, hargs, rfl⟩
    have hops : ∀ d ∈ (call id callee args).operands, d.Established s2 := by
      rw [operands_call]
      exact fun d hd => (hargs d hd).1
    have hin : ∀ d ∈ args, InScope s2.nodes.types s2.blocks (s2.nodes.name d) := fun d hd =>
      h2.sound.inScope d (ops (ha d hd)) (hargs d hd).2
    refine .bind (ensures_orFault (fun text ht => ?_) fun fault hf =>
      ⟨fun hest => ?_, fun _ => h2⟩)
    · rw [List.map_map] at ht
      have hnoted : (call id callee args).Noted s2 := ⟨text, ht⟩
      have hnames : (args.map fun d => (s2.nodes.name d, s2.nodes.knownType d)).map Prod.fst =
          args.map s2.nodes.name := by
        simp [Function.comp_def]
      rw [hnames]
      refine ensures_ite (fun hvoid => ensures_write ?_) fun _ => Ensures.bind
        (ensures_nameOf (ensures_write ?_))
      · have hw : Wrote dag s2 s2.blocks { s2 with
            draft := s2.draft.write (.perform callee (args.map s2.nodes.name) text) } :=
          .statement h2.sound
            (by simpa [Line.mentioned, Line.borrowed] using hin) rfl
        refine ⟨h2.andThen hw, fun d hd => hw.stays.established (ops hd) (hops d hd), ?_, ?_⟩
        · exact hnoted.of_tables rfl rfl (Draft.types_write _ _) (Draft.resources_write _ _)
        · refine inScope_declared hw.sound he rfl rfl fun _ hv => absurd (h2.stays.types _ _ hty) ?_
          rwa [Ty.eq_void_of_isVoid hvoid]
      · refine .declare h2 he hops hnoted rfl rfl ?_ rfl fun hname => by simp [hname, Line.declared]
        simpa [Line.mentioned, Line.borrowed, Initial.names] using hin
    · obtain ⟨text, ht⟩ := (h2.stays.established he hest).noted
      rw [List.map_map] at hf
      cases ht.symm.trans hf
  · exact fun s2 hnot => ⟨fun hest => hnot fun d hd => hest.operand (ha d hd),
      fun hops => (hnot fun d hd => hops d (ha d hd)).elim⟩

theorem showing_array {id : Nat} {elem : Ty} {length : UInt32} {init : List Literal}
    (he : dag.contains (.array id elem length init)) :
    Showing dag (.array id elem length init) := by
  intro s hs
  unfold emit
  refine once_shows he hs fun _ s1 hs1 _ => ?_
  refine .bind ((registerType_wrote elem hs1).mono ?_ ?_)
  · rintro _ s2 ⟨h2, hreg⟩
    refine .bind (ensures_orFault (fun texts ht => ?_) fun fault hf =>
      ⟨fun hest => ?_, fun _ => h2⟩)
    · refine .bind (ensures_nameOf (ensures_write ?_))
      refine .declare h2 he (by simp) ⟨hreg, texts, ht⟩ rfl rfl
        (by simp [Line.mentioned, Line.borrowed]) rfl ?_
      intro hname
      simp [hname, Line.declared]
    · obtain ⟨texts, ht⟩ := hest.noted.2
      rw [hf] at ht
      cases ht
  · rintro s2 ⟨h2, hnot⟩
    exact ⟨fun hest => hnot hest.noted.1, fun _ => h2⟩

theorem showing_elementAt {id : Nat} {base index : Expr}
    (he : dag.contains (.elementAt id base index)) (ihb : Showing dag base) (ihi : Showing dag index) :
    Showing dag (.elementAt id base index) := by
  intro s hs
  have ops {d : Expr} := dag.operands (d := d) he
  unfold emit
  refine once_shows he hs fun _ s1 hs1 _ => ?_
  have hb : base ∈ (elementAt id base index).operands := by simp
  have hi : index ∈ (elementAt id base index).operands := by simp
  refine .bind ((operand_shows he hb (.refl hs1) (ihb s1 hs1)).imp ?_)
  rintro _ s2 ⟨h2, hshown⟩
  refine .bind ((operand_shows he hi h2 (ihi s2 h2.sound)).imp ?_)
  rintro _ s3 ⟨h3, hshown'⟩
  have hest : base.Established s3 := hshown'.wrote.stays.established (ops hb) hshown.established
  refine .bind (ensures_nameOf (.bind (ensures_nameOf (ensures_rename
    (.rename (e := .elementAt id base index) h3 he ?_ rfl ?_ ?_ ?_)))))
  · simpa using ⟨hest, hshown'.established⟩
  · exact fun hest => hest.noted
  · intro s4 hst _ hfind
    rw [Noted, hst.name (ops hb) hest, hst.name (ops hi) hshown'.established]
    exact hfind
  · intro key hkey hv
    rcases List.mem_append.mp hkey with hk | hk
    · exact h3.sound.inScope base (ops hb) (hshown'.wrote.visible hshown.visible) key hk hv
    · exact hshown'.inScope (ops hi) key hk hv

theorem showing_select {id : Nat} {cond yes no : Expr}
    (he : dag.contains (.select id cond yes no)) (ihc : Showing dag cond) (ihy : Showing dag yes) (ihn : Showing dag no) :
    Showing dag (.select id cond yes no) := by
  intro s hs
  have ops {d : Expr} := dag.operands (d := d) he
  unfold emit
  refine once_shows he hs fun ty s1 hs1 _ => ?_
  have hc : cond ∈ (select id cond yes no).operands := by simp
  have hy : yes ∈ (select id cond yes no).operands := by simp
  have hn : no ∈ (select id cond yes no).operands := by simp
  refine .bind ((operand_shows he hc (.refl hs1) (ihc s1 hs1)).imp ?_)
  rintro _ s2 ⟨h2, hshown⟩
  refine .bind (ensures_nameOf (.bind (ensures_write ?_)))
  have hw : Wrote dag s2 s2.blocks { s2 with
      draft := s2.draft.write (.reserve ty (s2.nodes.name (select id cond yes no))) } :=
    .statement h2.sound (by simp [Line.mentioned, Line.borrowed]) rfl
  have hin : InScope s2.nodes.types (Sheet.blocks { s2 with
      draft := s2.draft.write (.reserve ty (s2.nodes.name (select id cond yes no))) })
      (s2.nodes.name (select id cond yes no)) :=
    inScope_declared h2.sound he rfl rfl fun hname _ =>
      mem_declared_write (by simp [hname, Line.declared]) rfl
  refine (branches_wrote hw.sound ((hshown.inScope (ops hc)).mono hw.stays.types
    hw.within.all_subset) he rfl hin (ops hy) (ops hn) ihy ihn).mono ?_ ?_
  · rintro _ s3 ⟨h3, hyest, hnest⟩
    have hcest := (hw.stays.trans h3.stays).established (ops hc) hshown.established
    refine ⟨h2.andThen (hw.andThen h3), ?_, trivial, ?_⟩
    · simpa using ⟨hcest, hyest, hnest⟩
    · have hname : s3.nodes.name (select id cond yes no) =
          s2.nodes.name (select id cond yes no) := by
        simp only [Nodes.name, h3.stays.own _ he rfl]
      rw [hname]
      exact hin.mono h3.stays.types h3.within.all_subset
  · intro s3 hnot
    have hst := h2.stays.trans hw.stays
    exact ⟨fun hest => hnot ⟨hst.established (ops hy) (hest.operand hy),
      hst.established (ops hn) (hest.operand hn)⟩, fun hops => (hnot
        ⟨hst.established (ops hy) (hops yes hy), hst.established (ops hn) (hops no hn)⟩).elim⟩

mutual

theorem emit_shows (e : Expr) (he : dag.contains e) (s : Sheet) (hs : Sound dag s) :
    Ensures e.emit s (fun _ s' => Shown dag e s s') (Failed dag e s) := by
  have ops {d : Expr} := dag.operands (d := d) he
  cases e with
  | literal id value =>
    exact showing_literal he s hs
  | unary id op operand =>
    exact showing_unary he (emit_shows operand (ops (by simp))) s hs
  | binary id op lhs rhs =>
    exact showing_binary he (emit_shows lhs (ops (by simp))) (emit_shows rhs (ops (by simp))) s hs
  | call id callee args =>
    exact showing_call he (emitArgs_shows args fun d hd => ops (by rwa [operands_call])) s hs
  | resource id res =>
    unfold emit
    refine once_shows he hs fun _ s1 hs1 _ => ?_
    refine .bind ((registerResource_wrote res hs1).mono ?_ ?_)
    · rintro _ s2 ⟨h2, hreg⟩
      refine ensures_rename (.rename (e := .resource id res) h2 he (by simp) rfl
        (fun hest => hest.noted.1) (fun s3 _ hd hfind => ⟨hfind, ?_⟩)
        (by simp [InScope, Spelling.temps]))
      rwa [hd]
    · rintro s2 ⟨h2, hnot⟩
      exact ⟨fun hest => hnot hest.noted.2, fun _ => h2⟩
  | input id i =>
    unfold emit
    refine once_shows he hs fun _ s1 hs1 _ => ?_
    exact ensures_rename (.rename (e := .input id i) (.refl hs1) he (by simp) rfl
      (fun hest => hest.noted) (fun _ _ _ hfind => hfind) (by simp [InScope, Spelling.temps]))
  | array id elem length init =>
    exact showing_array he s hs
  | swizzle _ base _ | field _ base _ | element _ base _ =>
    unfold emit
    refine once_shows he hs fun _ s1 hs1 _ => ?_
    have hb := List.mem_singleton_self base
    refine .bind ((operand_shows he hb (.refl hs1) (emit_shows base (ops hb) s1 hs1)).imp ?_)
    rintro _ s2 ⟨h2, hshown⟩
    refine .bind (ensures_nameOf (ensures_rename (.rename h2 he ?_ rfl ?_ ?_ ?_)))
    · simpa using hshown.established
    · exact fun hest => hest.noted
    · intro s3 hst _ hfind
      rw [Noted, hst.name (ops hb) hshown.established]
      exact hfind
    · exact hshown.inScope (ops hb)
  | elementAt id base index =>
    exact showing_elementAt he (emit_shows base (ops (by simp))) (emit_shows index (ops (by simp))) s hs
  | storage id name ty =>
    unfold emit
    refine once_shows he hs fun _ s1 hs1 _ => ?_
    refine (registerType_wrote ty hs1).mono ?_ ?_
    · rintro _ s2 ⟨h2, hreg⟩
      refine ⟨h2, by simp, hreg, ?_⟩
      rcases h2.sound.own _ he rfl with hn | ⟨word, hn⟩ <;>
        simp [Nodes.name, hn, defaultName, InScope, Spelling.temps]
    · rintro s2 ⟨h2, hnot⟩
      exact ⟨fun hest => hnot hest.noted, fun _ => h2⟩
  | zeroed id ty =>
    unfold emit
    refine once_shows he hs fun _ s1 hs1 _ => ?_
    refine .bind ((registerType_wrote ty hs1).mono ?_ ?_)
    · rintro _ s2 ⟨h2, hreg⟩
      refine .bind (ensures_nameOf (ensures_write ?_))
      refine .declare h2 he (by simp) hreg rfl rfl
        (by simp [Line.mentioned, Line.borrowed, Initial.names]) rfl ?_
      intro hname
      simp [hname, Line.declared]
    · rintro s2 ⟨h2, hnot⟩
      exact ⟨fun hest => hnot hest.noted, fun _ => h2⟩
  | select id cond yes no =>
    exact showing_select he (emit_shows cond (ops (by simp))) (emit_shows yes (ops (by simp))) (emit_shows no (ops (by simp))) s hs

theorem emitArgs_shows (es : List Expr) (he : ∀ e ∈ es, dag.contains e) : ShownAll dag es := by
  intro s hs
  cases es with
  | nil =>
    rw [emitArgs]
    exact ensures_pure ⟨.refl hs, by simp, rfl⟩
  | cons e rest =>
    rw [emitArgs]
    have hc : dag.contains e := he e (by simp)
    refine .bind ((emit_shows e hc s hs).mono ?_ fun _ h hall => h.new (hall e (by simp)))
    intro _ s1 h1
    obtain ⟨ty, hty⟩ := h1.established.typed
    refine .bind (ensures_nameOf (.bind (ensures_typing
      (ensures_ok (inferType_known hty) (Ensures.bind ?_)))))
    refine (emitArgs_shows rest (fun d hd => he d (by simp [hd])) s1 h1.wrote.sound).mono ?_ ?_
    · rintro _ s2 ⟨h2, hrest, rfl⟩
      refine ensures_pure ⟨h1.wrote.andThen h2, fun d hd => ?_, ?_⟩
      · rcases List.mem_cons.mp hd with rfl | hd
        · exact ⟨h2.stays.established hc h1.established, h2.visible h1.visible⟩
        · exact hrest d hd
      · rw [List.map_cons, h2.stays.name hc h1.established, h2.stays.knownType h1.established]
        simp only [Nodes.knownType, hty, Option.getD_some]
    · intro s2 hnot hall
      exact hnot fun d hd => h1.wrote.stays.established (he d (by simp [hd])) (hall d (by simp [hd]))

end

end Expr

end ComputeKernel
