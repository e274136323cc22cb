import ComputeKernel.Proofs.LawfulValues

namespace ComputeKernel

variable {ν : Type} {env : List Fact} {dag : Dag} {s : Sheet} {p : Prototype}

structure Opened (dag₀ : Dag) (s₀ : Sheet) (dag : Dag) (s : Sheet) : Prop where
  advance : Advance Line.computed dag₀ s₀ s₀.blocks.enter dag s
  scopes : s.draft.scopes = s₀.draft.scopes

def Closing {ν : Type} (held : ν → List Expr) (env : List Fact) (x : Build ν Unit) : Prop :=
  ∀ dag₀ s₀ dag w, Sound dag₀ s₀ → Opened dag₀ s₀ dag w.sheet →
    (∀ f ∈ env ++ (held w.notes).map .known, f.Holds dag w.sheet) →
    Ensures x w (fun _ w' => Goes .same dag₀ s₀ ((held w'.notes).map .known) w'.sheet)
      fun _ => True

section Blocks

variable {α : Type} {held : ν → List Expr} {k : Scoping} {line : Line} {dag₀ : Dag} {s₀ : Sheet}

theorem all_subset_enter (b : Blocks) : b.all ⊆ b.enter.all := by
  simp [Blocks.all_enter]

theorem Closing.bind {x : Build ν α} {f : α → Build ν Unit} {res : α → List Fact}
    (hx : Lawful held .same env x res) (hf : ∀ a, Closing held (res a ++ env) (f a)) :
    Closing held env (x >>= f) := by
  intro dag₀ s₀ dag w hs₀ ho henv
  refine .bind ((hx dag w ho.advance.sound henv).imp fun a w1 h1 => ?_)
  obtain ⟨dag1, ha1, hk1, hf1⟩ := h1
  exact hf a dag₀ s₀ dag1 w1 hs₀ ⟨ho.advance.andThen ha1, Eq.trans hk1 ho.scopes⟩
    (facts_after henv ha1 hf1)

theorem closing_line (hstep : ∀ b, Blocks.step b line = b.leave) (hc : line.computed = []) :
    Closing held env (Build.writeLine line) := by
  intro dag₀ s₀ dag w hs₀ ho henv
  have ha := ho.advance.write hs₀ ho.scopes line (fun _ hn => by rw [hc] at hn; cases hn)
    (by simp [hstep, Blocks.enter_leave])
  rw [hstep, Blocks.enter_leave] at ha
  refine Build.ensures_writeLine ⟨dag, ha, (Draft.scopes_write _ _).trans ho.scopes, ?_⟩
  exact known_of_stays (fun f hf => henv f (List.mem_append_right _ hf))
    (.of_nodes rfl (Draft.types_write _ _) (Draft.resources_write _ _))

variable {x : Build ν Unit} {es : List Expr}

theorem Opened.start (hstep : ∀ b, Blocks.step b line = b.enter)
    (hc : ∀ name ∈ line.computed, .inScope name ∈ env) (hs : Sound dag s)
    (henv : ∀ f ∈ env ++ es.map .known, f.Holds dag s) :
    Opened dag s dag { s with draft := s.draft.write line } ∧
      ∀ f ∈ env ++ es.map .known, f.Holds dag { s with draft := s.draft.write line } := by
  have ha := (Advance.refl hs).write hs rfl line
    (fun name hn => henv _ (List.mem_append_left _ (hc name hn)))
    (by simp [hstep, Blocks.all_enter])
  rw [hstep] at ha
  exact ⟨⟨ha, Draft.scopes_write _ _⟩, fun f hf => (henv f hf).advance ha (all_subset_enter _)⟩

theorem Opened.turn (ho : Opened dag₀ s₀ dag s) (hstep : ∀ b, Blocks.step b line = b.leave.enter)
    (hc : ∀ name ∈ line.computed, .inScope name ∈ env) (hs₀ : Sound dag₀ s₀)
    (henv : ∀ f ∈ env ++ es.map .known, f.Holds dag s) :
    Opened dag₀ s₀ dag { s with draft := s.draft.write line } ∧
      ∀ f ∈ env.filter Fact.isLasting ++ es.map .known,
        f.Holds dag { s with draft := s.draft.write line } := by
  have ha := ho.advance.write hs₀ ho.scopes line
    (fun name hn => henv _ (List.mem_append_left _ (hc name hn)))
    (by simp [hstep, Blocks.enter_leave, Blocks.all_enter])
  rw [hstep, Blocks.enter_leave] at ha
  refine ⟨⟨ha, (Draft.scopes_write _ _).trans ho.scopes⟩, fun f hf => ?_⟩
  have hlast : f ∈ env ++ es.map .known ∧ f.isLasting = true := by
    rcases List.mem_append.mp hf with hf | hf
    · exact ⟨List.mem_append_left _ (List.mem_filter.mp hf).1, (List.mem_filter.mp hf).2⟩
    · obtain ⟨e, he, rfl⟩ := List.mem_map.mp hf
      exact ⟨List.mem_append_right _ hf, rfl⟩
  refine (henv f hlast.1).of_stays (.of_nodes rfl (Draft.types_write _ _)
    (Draft.resources_write _ _)) (fun _ h => h) ?_ (.inl hlast.2)
  exact fun _ hm => (Draft.scopes_write _ _).symm ▸ hm

theorem Closing.turn (hstep : ∀ b, Blocks.step b line = b.leave.enter)
    (hc : ∀ name ∈ line.computed, .inScope name ∈ env)
    (hx : Closing held (env.filter Fact.isLasting) x) :
    Closing held env (Build.writeLine line >>= fun _ => x) := by
  intro dag₀ s₀ dag w hs₀ ho henv
  obtain ⟨ho₁, henv₁⟩ := ho.turn hstep hc hs₀ henv
  exact .bind (Build.ensures_writeLine (hx dag₀ s₀ dag _ hs₀ ho₁ henv₁))

theorem Lawful.open (hstep : ∀ b, Blocks.step b line = b.enter)
    (hc : ∀ name ∈ line.computed, .inScope name ∈ env) (hx : Closing held env x) :
    Lawful held k env (Build.writeLine line >>= fun _ => x) fun _ => [] := by
  refine Lawful.growing fun dag w hs henv => ?_
  obtain ⟨ho, henv₁⟩ := Opened.start hstep hc hs henv
  exact .bind (Build.ensures_writeLine (hx dag w.sheet dag _ hs ho henv₁))

theorem lawful_inScope {condition : Option Expr} {body : Build ν Unit}
    (h : Lawful held .growing env body fun _ => []) :
    Lawful held k env (Build.inScope condition body) fun _ => [] := by
  refine Lawful.growing fun dag w hs henv => ?_
  refine .bind (Build.ensures_redraft (Ensures.bind
    ((h dag _ (hs.enterScope condition) fun f hf => ?_).imp fun _ w1 h1 => ?_)))
  · exact (henv f hf).of_stays (.of_nodes rfl rfl rfl) (fun _ h => h) (fun _ hm => hm)
      (.inr fun _ hm => hm)
  · obtain ⟨dag1, ha1, -, hf1⟩ := h1
    obtain ⟨hleave, ha⟩ := ha1.leave hs (.refl _)
    refine Build.ensures_drafting (ensures_ok (exitScope_of_leave hleave) ⟨dag1, ha, rfl, ?_⟩)
    exact known_of_stays hf1 (.of_nodes rfl rfl rfl)

theorem Lawful.forM {γ : Type} {f : γ → Build ν Unit} {xs : List γ}
    (h : ∀ x ∈ xs, Lawful held k env (f x) fun _ => []) :
    Lawful held k env (xs.forM f) fun _ => [] := by
  induction xs with
  | nil => exact .pure (by simp)
  | cons x xs ih =>
    exact .bind (h x (by simp)) fun _ => ih fun y hy => h y (by simp [hy])

end Blocks

section Functions

theorem Draft.lines_eq_head (d : Draft) : d.lines = d.pages.headD [] := by
  unfold lines pages
  cases d.frames <;> rfl

variable {d : Draft} {header : String}

theorem exitFunction_ends {scopes : Scopes} {around : List Scopes}
    {pages : List (List Line)} (h : d.enclosing = (scopes :: around, pages)) :
    Ensures Drafting.exitFunction d
      (fun _ d' => d'.scopes = scopes ∧ d'.enclosing = (around, pages.tail) ∧
        d'.lines = pages.headD [] ∧ d'.functions = d.functions ++ d.lines ∧
        (d'.types, d'.resources, d'.masks) = (d.types, d.resources, d.masks))
      fun _ => True := by
  refine ensures_exitFunction (fun frame frames hf _ => ?_) trivial fun _ _ _ => trivial
  simp only [Draft.enclosing, Draft.pages, hf, List.map_cons, List.cons_append, List.tail_cons,
    Prod.mk.injEq, List.cons.injEq] at h
  obtain ⟨⟨hsc, har⟩, hpages⟩ := h
  refine ⟨hsc, ?_, ?_, ?_, rfl⟩
  · simp [Draft.enclosing, Draft.pages, Draft.afterFunction, har, hpages]
  · rw [Draft.lines_eq_head]
    simp [Draft.pages, Draft.afterFunction, hpages]
  · simp [Draft.lines, Draft.afterFunction, hf]

theorem Sound.enterFunction (hs : Sound dag s) :
    Sound dag { s with draft := s.draft.enterFunction } where
  numbered := hs.numbered
  beyond := hs.beyond
  own := hs.own
  typed := hs.typed
  node := by simp [Draft.enterFunction]
  established := by simp [Draft.enterFunction]
  inScope := by simp [Draft.enterFunction]
  masks m hm := hs.masks m hm

def Sheet.openFunction (s : Sheet) (p : Prototype) (header : String) : Sheet :=
  { s with draft := s.draft.enterFunction.write (.openFunction p header) }

theorem Sheet.enclosing_openFunction (s : Sheet) (p : Prototype) (header : String) :
    (s.openFunction p header).draft.enclosing =
      (s.draft.scopes :: s.draft.frames.map Frame.scopes, s.draft.pages) := by
  have h := Draft.context_write s.draft.enterFunction (.openFunction p header)
  simp only [Draft.context, Prod.mk.injEq] at h
  exact h.1

theorem Sound.openFunction (hs : Sound dag s) (p : Prototype) (header : String) :
    Sound dag (s.openFunction p header) := by
  have h : Wrote dag { s with draft := s.draft.enterFunction } {} { s with
      draft := s.draft.enterFunction } := .refl hs.enterFunction
  refine (h.write hs.enterFunction rfl (.openFunction p header) ?_ ?_).sound
  · simp [Line.mentioned, Line.borrowed]
  · simp [Sheet.blocks, Draft.lines, Draft.enterFunction, Blocks.after, Blocks.all]

theorem scoped_function {types : IdTable Ty} {lines : List Line}
    (h : Scoped Line.computed types {} lines) (b : Blocks) :
    Scoped Line.computed types b (.openFunction p header :: lines ++ [.close]) :=
  scoped_append.mpr ⟨⟨by simp, h⟩, by simp, trivial⟩

theorem Advance.function {dag' : Dag} {s' : Sheet}
    (hs : Sound dag s)
    (h : Advance Line.computed dag (s.openFunction p header) (s.openFunction p header).blocks dag' s')
    (hsc : d.scopes = s.draft.scopes) (henc : d.enclosing = s.draft.enclosing)
    (hl : d.lines = s.draft.lines)
    (hfun : d.functions = s'.draft.functions ++ (s'.draft.lines ++ [.close]))
    (hsame : (d.types, d.resources, d.masks) =
      (s'.draft.types, s'.draft.resources, s'.draft.masks)) :
    Advance Line.computed dag s s.blocks dag' { s' with draft := d } := by
  simp only [Prod.mk.injEq] at hsame
  obtain ⟨ht, hr, hm⟩ := hsame
  have hopen : Stays dag s (s.openFunction p header) :=
    .of_nodes rfl (Draft.types_write _ _) (Draft.resources_write _ _)
  have hst := hopen.trans h.stays
  have hb : Sheet.blocks { s' with draft := d } = s.blocks := by rw [Sheet.blocks, hl, Sheet.blocks]
  exact {
    grows := h.grows
    sound := hs.rejoin h.sound h.grows hst rfl ht hr hm (congrArg Scopes.visible hsc)
      (hb ▸ fun _ hm => hm)
    stays := hst.trans (.of_nodes rfl ht hr)
    enclosing := henc
    stack := congrArg Scopes.stack hsc
    visible := hsc ▸ fun _ hm => hm
    within := hb ▸ .refl _
    text := ⟨[], by rw [hl, List.append_nil], trivial⟩
    functions := by
      obtain ⟨more, hmore, hmsc⟩ := h.functions
      obtain ⟨lines, hlines, hlsc⟩ := h.text
      have hstart : (s.openFunction p header).draft.lines = [.openFunction p header] := by
        rw [Sheet.openFunction, Draft.lines_write]
        rfl
      have hf : (s.openFunction p header).draft.functions = s.draft.functions := by
        have hctx := Draft.context_write s.draft.enterFunction (.openFunction p header)
        simp only [Draft.context, Prod.mk.injEq] at hctx
        exact hctx.2.1
      refine ⟨more ++ (.openFunction p header :: lines ++ [.close]), ?_, fun b =>
        scoped_append.mpr ⟨hmsc b, scoped_function ?_ _⟩⟩
      · rw [hfun, hmore, hlines, hstart, hf]
        simp
      · rwa [Sheet.blocks, hstart] at hlsc }

end Functions

namespace Build

variable {held : ν → List Expr} {k : Scoping} {e cond : Expr} {body otherwise : Build ν Unit}
  {otherwise? : Option (Build ν Unit)}

theorem lawful_loopBody {condition : Option Expr} (h : Lawful held .growing env body fun _ => []) :
    Lawful held k env (loopBody condition body) fun _ => [] :=
  .bind (lawful_redraft fun _ => rfl) fun _ => .bind (lawful_inScope h) fun _ =>
    .bind lawful_popTarget fun _ => .pure (by simp)

theorem lawful_checkCondition (hc : Made env cond) :
    Lawful held k env (checkCondition cond) fun _ => [] :=
  .bind (lawful_typeOf hc) fun _ => .ite (lawful_fatal _) (.pure (by simp))

theorem lawful_laneIf (hc : Made env cond) (h : Lawful held .growing env body fun _ => []) :
    Lawful held k env (laneIf cond body) fun _ => [] := by
  refine .bind (lawful_checkCondition hc) fun _ => .bind (lawful_nameOf cond) fun _ => ?_
  exact .open (fun _ => rfl) (by simp) (.bind (lawful_inScope h) fun _ =>
    closing_line (fun _ => rfl) rfl)

theorem lawful_laneIfElse (hc : Made env cond) (h : Lawful held .growing env body fun _ => [])
    (h' : Lawful held .growing (env.filter Fact.isLasting) otherwise fun _ => []) :
    Lawful held k env (laneIfElse cond body otherwise) fun _ => [] := by
  refine .bind (lawful_checkCondition hc) fun _ => .bind (lawful_nameOf cond) fun _ => ?_
  refine .open (fun _ => rfl) (by simp) (.bind (lawful_inScope h) fun _ => ?_)
  refine .turn (fun _ => rfl) (by simp) (.bind (lawful_inScope ?_) fun _ =>
    closing_line (fun _ => rfl) rfl)
  exact h'.mono (by simp) fun _ => by simp

theorem lawful_maskVariable (stem : String) :
    Lawful held .growing env (maskVariable stem) fun e => [.visible e, .plain e] :=
  .bind (lawful_zero _) fun _ => .bind (lawful_freshName stem) fun _ =>
    lawful_named (by simp) _

variable {mask value : Expr}

theorem lawful_maskedBranch (hm : .plain mask ∈ env) (h : Lawful held .growing env body fun _ => [])
    : Lawful held k env (maskedBranch mask body) fun _ => [] :=
  .bind (lawful_pushMask hm) fun _ => .bind (lawful_inScope h) fun _ =>
    .bind lawful_popMask fun _ => .pure (by simp)

theorem lawful_ballot {current : Expr} (taken : Bool)
    (hm : .visible mask ∈ env) (hc : .plain current ∈ env) {x : Build ν Unit}
    (h : Lawful held .growing env x fun _ => []) :
    Lawful held .growing env (do
      writeLine (.ballot (← nameOf mask) taken (← nameOf cond) (← nameOf current))
      x) fun _ => [] := by
  refine .bind (lawful_nameOf_inScope (.inl hm)) fun _ => .bind (lawful_nameOf cond) fun _ =>
    .bind (lawful_nameOf_inScope (e := current) (by simp [hc])) fun _ =>
      .bind (lawful_writeLine (fun _ => rfl) (by simp)) fun _ => ?_
  exact h.mono (fun _ hf => by simp [hf]) fun _ => by simp

theorem lawful_maskedIf (h : Lawful held .growing env body fun _ => [])
    (h' : ∀ other, otherwise? = some other →
      Lawful held .growing (env.filter Fact.isLasting) other fun _ => []) :
    Lawful held .growing env (maskedIf cond body otherwise?) fun _ => [] := by
  refine .bind lawful_currentMask fun current => .bind (lawful_maskVariable _) fun taken =>
    .bind (lawful_maskVariable _) fun missed => ?_
  refine lawful_ballot true (by simp) (by simp) (lawful_ballot false (by simp) (by simp) ?_)
  refine .bind (lawful_nameOf_inScope (e := taken) (by simp)) fun _ =>
    .open (fun _ => rfl) (by simp) (.bind (lawful_maskedBranch (by simp) ?_) fun _ => ?_)
  · exact h.mono (fun _ hf => by simp [hf]) fun _ => by simp
  · cases otherwise? with
    | none => exact closing_line (fun _ => rfl) rfl
    | some other =>
      refine .bind (lawful_nameOf_inScope (e := missed) (by simp)) fun _ =>
        .turn (fun _ => rfl) (by simp)
          (.bind (lawful_maskedBranch (by simp [Fact.isLasting]) ?_) fun _ =>
            closing_line (fun _ => rfl) rfl)
      refine (h' other rfl).mono (fun f hf => ?_) fun _ => by simp
      have hf' := List.mem_filter.mp hf
      exact List.mem_filter.mpr ⟨by simp [hf'.1], hf'.2⟩

theorem lawful_ifThen (hc : Made env cond) (h : Lawful held .growing env body fun _ => []) :
    Lawful held .growing env (ifThen cond body) fun _ => [] :=
  .bind (lawful_checkCondition hc) fun _ => .bind lawful_isWave32 fun _ =>
    .ite (lawful_maskedIf h nofun) (lawful_laneIf hc h)

theorem lawful_ifElse (hc : Made env cond) (h : Lawful held .growing env body fun _ => [])
    (h' : Lawful held .growing (env.filter Fact.isLasting) otherwise fun _ => []) :
    Lawful held .growing env (ifElse cond body otherwise) fun _ => [] :=
  .bind (lawful_checkCondition hc) fun _ => .bind lawful_isWave32 fun _ =>
    .ite (lawful_maskedIf h fun _ hn => by cases hn; exact h') (lawful_laneIfElse hc h h')

theorem lawful_ifLaneActive (h : Lawful held .growing env body fun _ => []) :
    Lawful held .growing env (ifLaneActive body) fun _ => [] := by
  refine .bind lawful_currentMask fun current => .bind (lawful_apply (by simp)) fun bit =>
    .bind (lawful_binary (by simp [Operand.Made]) (by simp [Operand.Made]))
      fun own => .bind (lawful_binary (by simp [Operand.Made]) trivial) fun active => ?_
  refine .bind (lawful_nameOf active) fun _ => .open (fun _ => rfl) (by simp)
    (.bind (lawful_inScope ?_) fun _ => closing_line (fun _ => rfl) rfl)
  exact h.mono (fun _ hf => by simp [hf]) fun _ => by simp

theorem lawful_laneWhile (h : Lawful held .growing env body fun _ => []) :
    Lawful held k env (laneWhile body) fun _ => [] :=
  .open (fun _ => rfl) (by simp) (.bind (lawful_loopBody h) fun _ =>
    closing_line (fun _ => rfl) rfl)

theorem lawful_maskedWhile (h : Lawful held .growing env body fun _ => []) :
    Lawful held .growing env (maskedWhile body) fun _ => [] := by
  refine .bind lawful_currentMask fun current => .bind (lawful_freshName _) fun _ =>
    .bind (lawful_named (by simp) _) fun mask => ?_
  refine .open (fun _ => rfl) (by simp) (.bind (lawful_pushMask (by simp)) fun _ =>
    .bind (lawful_loopBody ?_) fun _ => .bind lawful_popMask fun _ => closing_line (fun _ => rfl) rfl)
  exact h.mono (fun _ hf => by simp [hf]) fun _ => by simp

theorem lawful_whileLoop (h : Lawful held .growing env body fun _ => []) :
    Lawful held .growing env (whileLoop body) fun _ => [] :=
  .bind lawful_isWave32 fun _ => .ite (lawful_maskedWhile h) (lawful_laneWhile h)

theorem lawful_switchCase (label : UInt32) (h : Lawful held .growing env body fun _ => []) :
    Lawful held k env (switchCase value label body) fun _ => [] :=
  .open (fun _ => rfl) (by simp) (.bind (lawful_inScope h) fun _ =>
    closing_line (fun _ => rfl) rfl)

theorem lawful_switchOn {cases : List (UInt32 × Build ν Unit)}
    (hv : Made env value) (h : ∀ c ∈ cases, Lawful held .growing env c.2 fun _ => []) :
    Lawful held k env (switchOn value cases) fun _ => [] := by
  refine .bind (lawful_typeOf hv) fun _ => .ite (lawful_fatal_bind _) ?_
  refine .bind (lawful_nameOf value) fun _ => .open (fun _ => rfl) (by simp) ?_
  refine .bind (lawful_redraft fun _ => rfl) fun _ => .bind (.forM fun c hc => ?_) fun _ =>
    .bind lawful_popTarget fun _ => closing_line (fun _ => rfl) rfl
  exact lawful_switchCase c.1 ((h c hc).mono (fun _ hf => by simp [hf]) fun _ => by simp)

theorem lawful_breakLoop : Lawful held k env breakLoop fun _ => [] := by
  refine .bind (lawful_drafting fun d => .bind (ensures_get ?_)) fun _ =>
    lawful_writeLine (fun _ => rfl) (by simp)
  match d.targets with
  | [] | .switch :: _ => exact ensures_throw trivial
  | .loop :: _ => exact ensures_pure rfl

theorem lawful_continueLoop : Lawful held k env continueLoop fun _ => [] := by
  refine .bind (lawful_drafting fun d => .bind (ensures_get ?_)) fun _ =>
    lawful_writeLine (fun _ => rfl) (by simp)
  exact ensures_ite (fun _ => ensures_throw trivial) fun _ => ensures_pure rfl

theorem lawful_returnVoid : Lawful held k env returnVoid fun _ => [] :=
  lawful_writeLine (fun _ => rfl) (by simp)

theorem lawful_returnValue (e : Expr) : Lawful held k env (returnValue e) fun _ => [] :=
  .bind (lawful_nameOf e) fun _ => lawful_writeLine (fun _ => rfl) (by simp)

theorem lawful_groupSync : Lawful held k env groupSync fun _ => [] :=
  .bind (lawful_writeLine (fun _ => rfl) (by simp)) fun _ =>
    lawful_redraft fun _ => rfl

theorem lawful_enableWave32 : Lawful held .growing env enableWave32 fun _ => [] := by
  refine .bind (lawful_constant _) fun seed => .emitting fun dag s hs henv =>
    ComputeKernel.ensures_redraft ⟨dag, .remask hs fun m hm => ?_, trivial, by simp⟩
  rw [List.mem_singleton.mp hm]
  exact henv _ (by simp)

theorem lawful_configure (settings : Settings) :
    Lawful held .growing env (configure settings) fun _ => [] := by
  refine .bind (lawful_setGroupSize _) fun r => ?_
  cases r with
  | error fault => exact .throw
  | ok _ => exact .ite lawful_enableWave32 (.pure (by simp))

theorem lawful_forRange {first last : Operand} {body : Expr → Build ν Unit} (hf : first.Made env)
    (hl : last.Made env)
    (h : ∀ i, Lawful held .growing (.visible i :: env) (body i) fun _ => []) :
    Lawful held .growing env (forRange first last body) fun _ => [] := by
  refine .bind (lawful_emitOperand hf) fun a => .bind (lawful_emitOperand (hl.mono (by simp)))
    fun b => .bind (lawful_typeOf (by simp)) fun ty =>
      .bind (lawful_typeOf (by simp)) fun ty' => .ite (lawful_fatal_bind _) ?_
  refine .bind (lawful_zero ty) fun z => .bind (lawful_copy (by simp)) fun counter =>
    .bind (lawful_diverging _) fun either => ?_
  have hloop : Lawful held .growing
      ([.visible counter] ++ ([.visible z, .plain z] ++ ([.visible b] ++ ([.visible a] ++ env)))) (do
        writeLine (.openFor (← nameOf counter) (← nameOf a) (← nameOf b))
        let running ← node fun id => .binary id .le counter b
        loopBody (some running) (body counter)
        writeLine .close) fun _ => [] := by
    refine .bind (lawful_nameOf_inScope (e := counter) (by simp)) fun _ =>
      .bind (lawful_nameOf_inScope (e := a) (by simp)) fun _ =>
        .bind (lawful_nameOf_inScope (e := b) (by simp)) fun _ =>
          .open (fun _ => rfl) (by simp) ?_
    refine .bind (lawful_node (fun _ => rfl)
      (by simp)) fun _ =>
        .bind (lawful_loopBody ((h counter).mono (fun f hf => ?_) fun _ => by simp)) fun _ =>
          closing_line (fun _ => rfl) rfl
    rcases List.mem_cons.mp hf with rfl | hf
    · simp
    · simp [hf]
  exact .ite (.bind (lawful_diverging _) fun _ => hloop) hloop

def returned (result : Option Expr) : List Fact := result.toList.map .made

theorem lawful_returnResult (p : Prototype) (ret : Ty) {result : Option Expr}
    (hr : returned result ⊆ env) : Lawful held k env (returnResult p ret result) fun _ => [] := by
  cases result with
  | some value =>
    have hmade : Made env value := List.mem_map.mpr ⟨.made value, hr (by simp [returned]), rfl⟩
    exact .bind (lawful_typeOf hmade) fun _ => .ite (lawful_returnValue value) (lawful_fatal _)
  | none => exact .ite (.pure (by simp)) (lawful_fatal _)

def functionBody (p : Prototype) (body : List Expr → Build ν (Option Expr)) : Build ν Unit := do
  let params ← p.params.mapM fun q => do
    emit (← node fun id => .storage id q.name q.ty)
  let result ← body params
  returnResult p (p.fixedReturn?.getD .void) result

theorem defineFunction_eq (p : Prototype) (body : List Expr → Build ν (Option Expr)) :
    defineFunction p body = (do
      let header ← must p.header
      redraft Draft.enterFunction
      writeLine (.openFunction p header)
      functionBody p body
      writeLine .close
      drafting .exitFunction
      register p) := by
  simp only [defineFunction, functionBody, bind_assoc]

theorem lawful_functionBody {body : List Expr → Build ν (Option Expr)}
    (h : ∀ params : List Expr, Lawful held .growing ((params.flatMap fun e => [.visible e]) ++ env)
      (body params) returned) :
    Lawful held .growing env (functionBody p body) fun _ => [] := by
  refine .bind (.mapM fun _ _ _ _ => lawful_emitNode (fun _ => rfl)
    (by simp)) fun params => ?_
  exact .bind (h params) fun result => lawful_returnResult p _ (List.subset_append_left _ _)

theorem lawful_defineFunction {body : List Expr → Build ν (Option Expr)}
    (h : ∀ params : List Expr, Lawful held .growing ((params.flatMap fun e => [.visible e]) ++
      (env.filterMap Fact.written?).map .known) (body params) returned) :
    Lawful held k env (defineFunction p body) fun _ => [] := by
  rw [defineFunction_eq]
  refine .bind (lawful_must _) fun header => Lawful.growing fun dag w hs henv => ?_
  rw [List.nil_append] at henv
  refine .bind (ensures_redraft (.bind (ensures_writeLine ?_)))
  have hopen : Stays dag w.sheet (w.sheet.openFunction p header) :=
    .of_nodes rfl (Draft.types_write _ _) (Draft.resources_write _ _)
  have hheld : ∀ f ∈ (env.filterMap Fact.written? ++ held w.notes).map Fact.known,
      f.Holds dag (w.sheet.openFunction p header) := by
    refine known_of_stays (fun f hf => ?_) hopen
    rw [List.map_append] at hf
    rcases List.mem_append.mp hf with hf | hf
    · obtain ⟨e, he, rfl⟩ := List.mem_map.mp hf
      obtain ⟨g, hg, hw⟩ := List.mem_filterMap.mp he
      exact Known.established (List.mem_map.mpr ⟨g, hg, hw⟩) hs fun f hf =>
        henv f (List.mem_append_left _ hf)
    · exact henv f (List.mem_append_right _ hf)
  rw [List.map_append] at hheld
  have hbody := lawful_functionBody (p := p) h dag { w with sheet := w.sheet.openFunction p header }
    (hs.openFunction p header) hheld
  refine .bind (hbody.imp fun _ w1 h1 => ?_)
  obtain ⟨dag1, ha1, -, hf1⟩ := h1
  have hctx := Draft.context_write w1.sheet.draft .close
  simp only [Draft.context, Prod.mk.injEq] at hctx
  obtain ⟨henc, hfun, hmasks⟩ := hctx
  have henc1 := henc.trans (ha1.enclosing.trans (w.sheet.enclosing_openFunction p header))
  refine .bind (ensures_writeLine (.bind (ensures_drafting
    ((exitFunction_ends henc1).imp fun _ d hd => ?_))))
  obtain ⟨hsc, hdenc, hl, hdfun, hsame⟩ := hd
  have ha : Advance Line.computed dag w.sheet w.sheet.blocks dag1 { w1.sheet with draft := d } := by
    refine .function hs ha1 hsc hdenc (hl.trans (Draft.lines_eq_head _).symm) ?_ ?_
    · rw [hdfun, hfun, Draft.lines_write]
    · rw [hsame, Draft.types_write, Draft.resources_write, hmasks]
  refine .bind (ensures_modify (ensures_pure ⟨dag1, ha, hsc, ?_⟩))
  · simp only [Prod.mk.injEq] at hsame
    exact known_of_stays hf1 (.of_nodes rfl (hsame.1.trans (Draft.types_write _ _))
      (hsame.2.1.trans (Draft.resources_write _ _)))

end Build

end ComputeKernel
