import ComputeKernel.Proofs.Bracketing
import ComputeKernel.Proofs.LawfulSnippets

namespace ComputeKernel

namespace Build

variable {ν α : Type} {v : Vocabulary} {held : ν → List Expr} {calm masked : Bool} {k : Nat}
  {env : List Fact} {e cond : Expr} {body otherwise : Build ν Unit}
  {otherwise? : Option (Build ν Unit)}

theorem obeys_currentMask : (v.building held).Obeys currentMask (Expr.Within v) := by
  refine obeys_drafting (.bind .get fun d hd => ?_)
  cases hm : d.masks with
  | nil => exact .throw (v.admits_of rfl)
  | cons mask masks => exact .pure (hd.masks mask (by simp [hm]))

theorem obeys_checkCondition (hc : cond.Within v) :
    (v.building held).Upholds (checkCondition cond) :=
  .bind (obeys_typeOf hc) fun _ _ => .ite (fun _ => obeys_fatal rfl) fun _ => .pure trivial

theorem obeys_bareLine {line : Line} (hparts : line.parts = []) (hflat : line.bracing = .flat) :
    (v.building held).Upholds (writeLine line) :=
  obeys_writeLine (by simp [Line.Within, hparts]) hflat

theorem obeys_breakLoop : (v.building held).Upholds breakLoop := by
  refine .bind (p := fun _ => True) (obeys_drafting (.bind .get fun d _ => ?_)) fun _ _ =>
    obeys_bareLine rfl rfl
  match d.targets with
  | [] | .switch :: _ => exact .throw (v.admits_of rfl)
  | .loop :: _ => exact .pure trivial

theorem obeys_continueLoop : (v.building held).Upholds continueLoop :=
  .bind (p := fun _ => True) (obeys_drafting (.bind .get fun _ _ => .ite
    (fun _ => .throw (v.admits_of rfl)) fun _ => .pure trivial)) fun _ _ => obeys_bareLine rfl rfl

theorem obeys_returnValue (he : e.Within v) : (v.building held).Upholds (returnValue e) :=
  .bind (obeys_nameOf he) fun _ hn =>
    obeys_writeLine (by simpa [Line.Within, Line.parts] using hn) rfl

theorem obeys_groupSync : (v.building held).Upholds groupSync :=
  .bind (obeys_bareLine rfl rfl) fun _ _ => obeys_redraft fun _ hd =>
    ⟨{ hd with }, rfl, fun _ hk => hk.of_nesting rfl rfl rfl⟩

theorem obeys_writeHeader {text : String} (h : v.text text) :
    (v.building held).Upholds (writeHeader text) :=
  obeys_redraft fun _ hd => ⟨{ hd with header := v.append _ _ hd.header h }, rfl,
    fun _ hk => hk.of_nesting rfl rfl rfl⟩

theorem isInternal_of_check {size : GroupSize} {fault : Fault}
    (h : size.check = .error (.fault fault)) : fault.isInternal = false := by
  unfold GroupSize.check at h
  split at h
  · cases h
    rfl
  · split at h
    · cases h
    · split at h <;> cases h
      rfl

theorem obeys_setGroupSize (size : GroupSize) :
    (v.building held).Obeys (setGroupSize size) (v.Gives fun _ => True) := by
  intro w hw
  refine .bind (.bind (Ends.get (Ends.pure ?_)))
  generalize hd : w.sheet.draft.setGroupSize size = result
  unfold Draft.setGroupSize at hd
  cases hc : size.check with
  | error failure =>
    rw [hc] at hd
    cases hd
    cases failure with
    | fault fault => exact ⟨hw, .refl _, v.admits_of (isInternal_of_check hc)⟩
    | overflow overflow => exact ⟨trivial, hw, trivial⟩
  | ok _ =>
    rw [hc] at hd
    cases hd
    exact ⟨{ hw with sheet := ⟨hw.sheet.1, { hw.sheet.2 with }⟩ },
      ⟨rfl, fun _ hk => hk.of_nesting rfl rfl rfl⟩, trivial⟩

theorem obeys_maskVariable {stem : String} (h : BraceFree stem) :
    (v.building held).Obeys (maskVariable stem) (Expr.Within v) :=
  .bind (obeys_zero _) fun _ hz => .bind (obeys_freshName (v.plain stem h)) fun _ hn =>
    obeys_named hz hn

theorem obeys_returnResult {p : Prototype} {ret : Ty} {result : Option Expr}
    (h : ∀ e, result = some e → e.Within v) :
    (v.building held).Upholds (returnResult p ret result) := by
  cases result with
  | some value =>
    exact .bind (obeys_typeOf (h value rfl)) fun _ _ =>
      .ite (fun _ => obeys_returnValue (h value rfl)) fun _ => obeys_fatal rfl
  | none => exact .ite (fun _ => .pure trivial) fun _ => obeys_fatal rfl

structure Sturdy (v : Vocabulary) (calm : Bool) (held : ν → List Expr) (k : Nat) (masked : Bool)
    (env : List Fact) (x : Build ν Unit) : Prop where
  lawful : Lawful held .growing env x fun _ => []
  steady : Steady v calm held k masked env x fun _ => True

section Rules

theorem Sturdy.mono {env' : List Fact} (h : Sturdy v calm held k masked env body) (he : env ⊆ env') :
    Sturdy v calm held k masked env' body :=
  ⟨h.lawful.mono he fun _ => by simp, h.steady.mono he fun _ h => h⟩

theorem Sturdy.later (h : Sturdy v calm held k masked env body) {more : List Fact} :
    Sturdy v calm held k masked (more ++ env) body := h.mono fun _ hf => by simp [hf]

theorem Sturdy.anyhow (h : Sturdy v calm held k false env body) :
    Sturdy v calm held k masked env body := ⟨h.lawful, h.steady.anyhow⟩

theorem within_bare {line : Line} (h : line.parts = []) : line.Within v := by
  simp [Line.Within, h]

theorem within_openIf {name : Spelling} (h : v.text name.text) : (Line.openIf name).Within v := by
  simpa [Line.Within, Line.parts] using h

theorem ending_close : Ending v calm held k masked env (writeLine .close) :=
  ending_line rfl (within_bare rfl)

theorem ending_inScope {condition : Option Expr} {x : Build ν Unit}
    (h : Sturdy v calm held k masked env body) (hx : Ending v calm held k masked env x) :
    Ending v calm held k masked env (do inScope condition body; x) :=
  .bind (lawful_inScope h.lawful) (steady_inScope h.lawful h.steady) fun _ _ => hx

variable {f : Spelling → Build ν α} {post : α → Prop}

theorem steady_nameOf (h : e.Within v)
    (hf : ∀ name, v.text name.text → Steady v calm held k masked env (f name) post) :
    Steady v calm held k masked env (nameOf e >>= f) post :=
  .next (lawful_nameOf e) (obeys_nameOf h) hf

theorem steady_nameOf_inScope (hscope : .visible e ∈ env ∨ .plain e ∈ env) (h : e.Within v)
    (hf : ∀ name, v.text name.text →
      Steady v calm held k masked ([.inScope name] ++ env) (f name) post) :
    Steady v calm held k masked env (nameOf e >>= f) post :=
  .next (lawful_nameOf_inScope hscope) (obeys_nameOf h) hf

end Rules

theorem sturdy_laneIf (hm : Made env cond) (hc : cond.Within v)
    (h : Sturdy v calm held k masked env body) :
    Sturdy v calm held k masked env (laneIf cond body) where
  lawful := lawful_laneIf hm h.lawful
  steady := .next (lawful_checkCondition hm) (obeys_checkCondition hc) fun _ _ =>
    steady_nameOf hc fun _ hn => .open (fun _ => rfl) (by simp) rfl (within_openIf hn)
      (ending_inScope h ending_close)

theorem sturdy_laneIfElse (hm : Made env cond) (hc : cond.Within v)
    (h : Sturdy v calm held k masked env body)
    (h' : Sturdy v calm held k masked (env.filter Fact.isLasting) otherwise) :
    Sturdy v calm held k masked env (laneIfElse cond body otherwise) where
  lawful := lawful_laneIfElse hm h.lawful h'.lawful
  steady := .next (lawful_checkCondition hm) (obeys_checkCondition hc) fun _ _ =>
    steady_nameOf hc fun _ hn => .open (fun _ => rfl) (by simp) rfl (within_openIf hn)
      (ending_inScope h (.turn (fun _ => rfl) (by simp) rfl (within_bare rfl)
        (ending_inScope h' ending_close)))

theorem steady_currentMask_bind {f : Expr → Build ν α} {post : α → Prop}
    (hf : ∀ mask, mask.Within v → Steady v calm held k true ([.plain mask] ++ env) (f mask) post) :
    Steady v calm held k masked env (currentMask >>= f) post := by
  intro dag w hs henv hw hl hm
  cases hmasks : w.sheet.draft.masks with
  | nil =>
    simp only [Ends, currentMask, drafting, emitting, attempt, Emit.drafting, Drafting.currentMask,
      Bind.bind, EStateM.bind, run_get, hmasks]
    exact ⟨.inl (v.admits_of rfl), fun name hn => by cases hn⟩
  | cons mask masks =>
    have hmem : mask ∈ w.sheet.draft.masks := by simp [hmasks]
    have henv' : ∀ f ∈ [.plain mask] ++ env ++ (held w.notes).map .known, f.Holds dag w.sheet := by
      intro g hg
      rcases List.mem_cons.mp (show g ∈ .plain mask :: (env ++ (held w.notes).map .known) from hg)
        with rfl | hg
      · exact hs.masks mask hmem
      · exact henv g hg
    have hrest := hf mask (hw.sheet.2.masks mask hmem) dag w hs henv' hw hl (by simp [hmasks])
    refine .bind (ends_drafting (a := mask) (d := w.sheet.draft) ?_ hrest)
    simp only [Drafting.currentMask, Bind.bind, EStateM.bind, run_get, hmasks]
    rfl

theorem steady_ballot {mask current : Expr} (taken : Bool) (hm : .visible mask ∈ env)
    (hc : .plain current ∈ env) (wm : mask.Within v) (wc : cond.Within v) (wcur : current.Within v)
    {x : Build ν Unit} (h : Steady v calm held k masked env x fun _ => True) :
    Steady v calm held k masked env (do
      writeLine (.ballot (← nameOf mask) taken (← nameOf cond) (← nameOf current))
      x) fun _ => True := by
  refine steady_nameOf_inScope (.inl hm) wm fun _ nm => steady_nameOf wc fun _ nc =>
    steady_nameOf_inScope (e := current) (by simp [hc]) wcur fun _ ncur =>
      .next (lawful_writeLine (fun _ => rfl) (by simp)) (obeys_writeLine ?_ rfl) fun _ _ => ?_
  · simpa [Line.Within, Line.parts] using ⟨nm, nc, ncur⟩
  · exact h.mono (fun _ hf => by simp [hf]) fun _ h => h

theorem sturdy_maskedBranch {mask : Expr} (hmask : mask.Within v) (hp : .plain mask ∈ env)
    (hv : .visible mask ∈ env) (h : Sturdy v calm held k true env body) :
    Sturdy v calm held (k + 1) true env (maskedBranch mask body) :=
  ⟨lawful_maskedBranch hp h.lawful, steady_withMask hmask hp hv (steady_inScope h.lawful h.steady)⟩

theorem ending_maskedBranch {mask : Expr} {x : Build ν Unit} (hmask : mask.Within v)
    (hp : .plain mask ∈ env) (hv : .visible mask ∈ env) (h : Sturdy v calm held k true env body)
    (hx : Ending v calm held k true env x) :
    Ending v calm held k true env (do maskedBranch mask body; x) :=
  .bind (lawful_maskedBranch hp h.lawful) (sturdy_maskedBranch hmask hp hv h).steady fun _ _ => hx

theorem sturdy_maskedIf (hc : cond.Within v) (h : Sturdy v calm held k true env body)
    (h' : ∀ other, otherwise? = some other →
      Sturdy v calm held k true (env.filter Fact.isLasting) other) :
    Sturdy v calm held k masked env (maskedIf cond body otherwise?) := by
  refine ⟨lawful_maskedIf h.lawful fun other ho => (h' other ho).lawful, ?_⟩
  refine steady_currentMask_bind fun current wcur =>
    .next (lawful_maskVariable _) (obeys_maskVariable (by decide)) fun taken wt =>
      .next (lawful_maskVariable _) (obeys_maskVariable (by decide)) fun missed wm => ?_
  refine steady_ballot true (by simp) (by simp) wt hc wcur
    (steady_ballot false (by simp) (by simp) wm hc wcur ?_)
  refine steady_nameOf_inScope (e := taken) (by simp) wt fun _ nt => .open (fun _ => rfl) (by simp) rfl
    (by simpa [Line.Within, Line.parts] using nt) ?_
  simp only [← List.append_assoc]
  refine ending_maskedBranch wt (by simp) (by simp) h.later ?_
  cases otherwise? with
  | none => exact ending_close
  | some other =>
    refine .next (lawful_nameOf_inScope (e := missed) (by simp)) (obeys_nameOf wm) fun _ nm =>
      .turn (fun _ => rfl) (by simp) rfl (by simpa [Line.Within, Line.parts] using nm) ?_
    have hother {more : List Fact} :
        Sturdy v calm held k true (List.filter Fact.isLasting (more ++ env)) other :=
      (h' other rfl).mono (by simp)
    simp only [← List.append_assoc]
    exact ending_maskedBranch wm (by simp [Fact.isLasting]) (by simp [Fact.isLasting]) hother
      ending_close

theorem sturdy_ifThen (hm : Made env cond) (hc : cond.Within v)
    (h : Sturdy v calm held k false env body) :
    Sturdy v calm held k masked env (ifThen cond body) where
  lawful := lawful_ifThen hm h.lawful
  steady := .next (lawful_checkCondition hm) (obeys_checkCondition hc) fun _ _ =>
    .next lawful_isWave32 obeys_isWave32 fun _ _ => .ite
      (Sturdy.steady (sturdy_maskedIf hc h.anyhow (by simp))) (sturdy_laneIf hm hc h.anyhow).steady

theorem sturdy_ifElse (hm : Made env cond) (hc : cond.Within v)
    (h : Sturdy v calm held k false env body)
    (h' : Sturdy v calm held k false (env.filter Fact.isLasting) otherwise) :
    Sturdy v calm held k masked env (ifElse cond body otherwise) := by
  refine ⟨lawful_ifElse hm h.lawful h'.lawful, .next (lawful_checkCondition hm)
    (obeys_checkCondition hc) fun _ _ => .next lawful_isWave32 obeys_isWave32 fun _ _ => .ite ?_
      (sturdy_laneIfElse hm hc h.anyhow h'.anyhow).steady⟩
  refine (sturdy_maskedIf hc h.anyhow fun _ hn => ?_).steady
  cases hn
  exact h'.anyhow

theorem sturdy_ifLaneActive (h : Sturdy v calm held k false env body) :
    Sturdy v calm held k masked env (ifLaneActive body) := by
  refine ⟨lawful_ifLaneActive h.lawful, steady_currentMask_bind fun current wcur =>
    .next (lawful_apply (by simp)) (obeys_apply (b := .laneBit) trivial (by simp)) fun bit wbit =>
      .next (lawful_binary (by simp [Operand.Made]) (by simp [Operand.Made]))
        (obeys_binary wcur wbit) fun own wown =>
          .next (lawful_binary (by simp [Operand.Made]) trivial)
            (obeys_binary wown trivial) fun active wactive => ?_⟩
  simp only [← List.append_assoc]
  exact steady_nameOf wactive fun _ hn => .open (fun _ => rfl) (by simp) rfl (within_openIf hn)
    (ending_inScope h.anyhow.later ending_close)

theorem steady_loopBody {condition : Option Expr} (h : Sturdy v calm held k masked env body) :
    Steady v calm held (k + 1) masked env (loopBody condition body) fun _ => True :=
  steady_withTarget .loop (steady_inScope h.lawful h.steady)

theorem ending_loop {condition : Option Expr} (h : Sturdy v calm held k masked env body) :
    Ending v calm held k masked env (do loopBody condition body; writeLine .close) :=
  .bind (lawful_loopBody h.lawful) (steady_loopBody h) fun _ _ => ending_close

theorem sturdy_laneWhile (h : Sturdy v calm held k masked env body) :
    Sturdy v calm held k masked env (laneWhile body) where
  lawful := lawful_laneWhile h.lawful
  steady := .open (fun _ => rfl) (by simp) rfl (within_bare rfl) (ending_loop h)

theorem maskedWhile_eq (body : Build ν Unit) :
    maskedWhile body = (do
      let current ← currentMask
      let name ← freshName "m_loop"
      let mask ← named current name
      writeLine .openWhile
      withMask mask (loopBody none body)
      writeLine .close) := by
  simp only [maskedWhile, withMask, bind_assoc, pure_bind]

theorem lawful_withMask {mask : Expr} {x : Build ν Unit} (hm : .plain mask ∈ env)
    (h : Lawful held .same env x fun _ => []) :
    Lawful held .same env (withMask mask x) fun _ => [] :=
  .bind (lawful_pushMask hm) fun _ => .bind h fun _ => .bind lawful_popMask fun _ => .pure (by simp)

theorem sturdy_maskedWhile (h : Sturdy v calm held k false env body) :
    Sturdy v calm held k masked env (maskedWhile body) := by
  refine ⟨lawful_maskedWhile h.lawful, ?_⟩
  rw [maskedWhile_eq]
  refine steady_currentMask_bind fun current wcur =>
    .next (lawful_freshName _) (obeys_freshName (v.plain _ (by decide))) fun _ hn =>
      .next (lawful_named (by simp) _) (obeys_named wcur hn) fun mask wmask => ?_
  simp only [← List.append_assoc]
  refine .open (fun _ => rfl) (by simp) rfl (within_bare rfl) ?_
  exact .bind (lawful_withMask (by simp) (lawful_loopBody h.later.lawful))
    (steady_withMask wmask (by simp) (by simp) (steady_loopBody h.anyhow.later)) fun _ _ =>
      ending_close

theorem sturdy_whileLoop (h : Sturdy v calm held k false env body) :
    Sturdy v calm held k masked env (whileLoop body) where
  lawful := lawful_whileLoop h.lawful
  steady := .next lawful_isWave32 obeys_isWave32 fun _ _ =>
    .ite (sturdy_maskedWhile h).steady (sturdy_laneWhile h.anyhow).steady

theorem sturdy_forRange {first last : Operand} {body : Expr → Build ν Unit}
    (hf : first.Made env) (hlast : last.Made env) (wf : first.Within v) (wl : last.Within v)
    (h : ∀ i, i.Within v → Sturdy v calm held k masked (.visible i :: env) (body i))
    (hl : ∀ i, Lawful held .growing (.visible i :: env) (body i) fun _ => []) :
    Sturdy v calm held k masked env (forRange first last body) := by
  refine ⟨lawful_forRange hf hlast hl, .next (lawful_emitOperand hf) (obeys_emitOperand wf) fun a wa =>
    .next (lawful_emitOperand (hlast.mono (by simp))) (obeys_emitOperand wl) fun b wb =>
      .next (lawful_typeOf (by simp)) (obeys_typeOf wa) fun ty _ =>
        .next (lawful_typeOf (by simp)) (obeys_typeOf wb) fun ty' _ => .ite ?_ ?_⟩
  · exact .of_obeys (.stop (v.admits_of rfl))
  refine .next (lawful_zero ty) (obeys_zero ty) fun z wz =>
    .next (lawful_copy (by simp)) (obeys_copy wz) fun counter wc =>
      .next (lawful_diverging _) (obeys_diverging _) fun either _ => ?_
  have hloop : Steady v calm held k masked
      ([.visible counter] ++ ([.visible z, .plain z] ++ ([.visible b] ++ ([.visible a] ++ env)))) (do
        writeLine (.openFor (← nameOf counter) (← nameOf a) (← nameOf b))
        let running ← node fun id => .binary id .le counter b
        loopBody (some running) (body counter)
        writeLine .close) fun _ => True := by
    refine steady_nameOf_inScope (e := counter) (by simp) wc fun _ nc =>
      steady_nameOf_inScope (e := a) (by simp) wa fun _ na =>
        steady_nameOf_inScope (e := b) (by simp) wb fun _ nb =>
          .open (fun _ => rfl) (by simp) rfl
            (by simpa [Line.Within, Line.parts] using ⟨nc, na, nb⟩) ?_
    refine .next (lawful_node (fun _ => rfl) (by simp)) (obeys_node (within_binary wc wb))
      fun _ _ => ?_
    refine (ending_loop (h counter wc)).mono fun f hf => ?_
    rcases List.mem_cons.mp hf with rfl | hf
    · simp
    · simp [hf]
  exact .ite (.next (lawful_diverging _) (obeys_diverging _) fun _ _ => hloop) hloop

theorem sturdy_switchCase {value : Expr} (label : UInt32) (h : Sturdy v calm held k masked env body) :
    Sturdy v calm held k masked env (switchCase value label body) where
  lawful := lawful_switchCase label h.lawful
  steady := .open (fun _ => rfl) (by simp) rfl (within_bare rfl)
    (ending_inScope h (ending_line rfl (within_bare rfl)))

theorem switchOn_eq (value : Expr) (cases : List (UInt32 × Build ν Unit)) :
    switchOn value cases = (do
      let ty ← typeOf value
      if !isLoopBound ty then fatal (.switchValue ty)
      writeLine (.openSwitch (← nameOf value))
      withTarget .switch (cases.forM fun (label, body) => switchCase value label body)
      writeLine .close) := by
  simp only [switchOn, withTarget, bind_assoc, pure_bind]

theorem lawful_withTarget {target : BreakTarget} {x : Build ν Unit}
    (h : Lawful held .same env x fun _ => []) :
    Lawful held .same env (withTarget target x) fun _ => [] :=
  .bind (lawful_redraft fun _ => rfl) fun _ => .bind h fun _ => .bind lawful_popTarget fun _ =>
    .pure (by simp)

theorem sturdy_switchOn {value : Expr} {cases : List (UInt32 × Build ν Unit)}
    (hm : Made env value) (hv : value.Within v)
    (h : ∀ c ∈ cases, Sturdy v calm held k masked env c.2) :
    Sturdy v calm held k masked env (switchOn value cases) := by
  refine ⟨lawful_switchOn hm fun c hc => (h c hc).lawful, ?_⟩
  rw [switchOn_eq]
  refine .next (lawful_typeOf hm) (obeys_typeOf hv) fun _ _ => .ite ?_ ?_
  · exact .of_obeys (.stop (v.admits_of rfl))
  refine steady_nameOf hv fun _ hn =>
    .open (fun _ => rfl) (by simp) rfl (by simpa [Line.Within, Line.parts] using hn) ?_
  have hcases : ∀ c ∈ cases, Sturdy v calm held k masked env (switchCase value c.1 c.2) :=
    fun c hc => sturdy_switchCase c.1 (h c hc)
  exact Ending.mono (.bind (lawful_withTarget (.forM fun c hc => lawful_switchCase c.1 (h c hc).lawful))
    (steady_withTarget .switch (.forM (fun c hc => (hcases c hc).lawful) fun c hc =>
      (hcases c hc).steady)) fun _ _ => ending_close) (by simp)

theorem steady_enableWave32 : Steady v false held k masked env enableWave32 fun _ => True := by
  refine .next (lawful_constant _) (obeys_constant_self _) fun seed hseed => ?_
  intro dag w _ _ hw hlevel _
  refine ⟨?_, ⟨rfl, rfl, .inr ⟨rfl, seed, hseed.2, rfl⟩⟩, hlevel.of_nesting rfl rfl rfl, trivial⟩
  refine { hw with sheet := ⟨hw.sheet.1, { hw.sheet.2 with masks := fun m hm => ?_ }⟩ }
  rw [List.mem_singleton.mp hm]
  exact hseed.1

theorem steady_configure (settings : Settings) :
    Steady v false held k masked env (configure settings) fun _ => True := by
  refine .next (lawful_setGroupSize _) (obeys_setGroupSize _) fun r hr => ?_
  cases r with
  | error fault => exact .of_obeys (.throw hr)
  | ok _ => exact .ite steady_enableWave32 (.pure trivial)

section Snippets

variable {buffer key : Expr} {query : String} {accept : Expr → Build ν Expr}

theorem steady_searchStep {low high : Expr} (hb : Made env buffer) (hk : Made env key)
    (hlow : Made env low) (hhigh : Made env high) (wb : buffer.Within v) (wk : key.Within v)
    (wlow : low.Within v) (whigh : high.Within v) :
    Steady v calm held k masked env (searchStep buffer key low high) fun _ => True := by
  refine .next (lawful_apply ?_) (obeys_applyOne trivial whigh) fun top wtop =>
    .next (lawful_apply ?_) (obeys_applyOne trivial wlow) fun bottom wbottom =>
      .next (lawful_binary ?_ ?_) (obeys_binary wtop wbottom) fun span wspan =>
        .next (lawful_binary ?_ trivial) (obeys_binary wspan trivial) fun done wdone => ?_
  rotate_left 5
  refine .bind (lawful_laneIf (by simp) lawful_breakLoop) (Sturdy.steady (sturdy_laneIf (by simp)
    wdone ⟨lawful_breakLoop, .of_obeys obeys_breakLoop⟩)) fun _ _ => ?_
  refine .next (lawful_binary ?_ ?_) (obeys_binary wlow whigh) fun sum wsum =>
    .next (lawful_binary ?_ trivial) (obeys_binary wsum trivial) fun middle wmiddle =>
      .next (lawful_read ?_ ?_) (obeys_read wb wmiddle) fun found wfound =>
        .next (lawful_binary ?_ ?_) (obeys_binary wfound wk) fun above wabove =>
          Sturdy.steady (sturdy_laneIfElse ?_ wabove
            ⟨.bind (lawful_assign ?_ ?_) fun _ => .pure (by simp),
              .of_obeys (.bind (obeys_assign whigh wmiddle) fun _ _ => .pure trivial)⟩
            ⟨.bind (lawful_assign ?_ ?_) fun _ => .pure (by simp),
              .of_obeys (.bind (obeys_assign wlow wmiddle) fun _ _ => .pure trivial)⟩)
  all_goals simp [Operand.Made, hb, hk, hlow, hhigh]

theorem steady_binarySearch {count : Expr} (hb : Known env buffer) (hc : Known env count)
    (hk : Known env key) (wb : buffer.Within v) (wc : count.Within v) (wk : key.Within v) :
    Steady v calm held k masked env (binarySearch buffer count key) (Expr.Within v) := by
  rw [binarySearch_eq]
  refine .next (lawful_zero _) (obeys_zero _) fun z wz =>
    .next (lawful_copy (by simp)) (obeys_copy wz) fun low wlow =>
      .next (lawful_copy (by simp [hc.made])) (obeys_copy wc) fun high whigh => ?_
  have hstep {more : List Fact} (hl : Known (more ++ env) low) (hh : Known (more ++ env) high) :
      Lawful held .growing (more ++ env) (searchStep buffer key low high) fun _ => [] :=
    lawful_searchStep (by simp [hb]) (by simp [hk]) hl hh
  simp only [← List.append_assoc]
  refine .bind (lawful_laneWhile (hstep ?_ ?_)) (sturdy_laneWhile ⟨hstep ?_ ?_,
    steady_searchStep ?_ ?_ ?_ ?_ wb wk wlow whigh⟩).steady fun _ _ => .pure wlow
  all_goals simp [hb.made, hk.made]

theorem steady_block {line : Line} (hstep : ∀ b, Blocks.step b line = b.enter)
    (hc : ∀ name ∈ line.computed, .inScope name ∈ env) (hb : line.bracing = .opens)
    (hline : line.Within v) (hl : Lawful held .same env body fun _ => [])
    (h : Steady v calm held (k + 1) masked env body fun _ => True) :
    Steady v calm held k masked env (block line body) fun _ => True :=
  .open hstep hc hb hline (.bind hl h fun _ _ => ending_close)

theorem steady_judge (wq : v.text query)
    (hl : ∀ c, Lawful held .growing (.visible c :: env) (accept c) fun _ => [])
    (h : ∀ c, c.Within v →
      Steady v calm held k masked (.visible c :: env) (accept c) (Expr.Within v)) :
    Steady v calm held k masked env (judge query accept) fun _ => True := by
  refine .next (lawful_zeroed _) (obeys_zeroed Ty.within_rayQueryResult) fun candidate wc =>
    .next (lawful_nameOf_inScope (e := candidate) (by simp)) (obeys_nameOf wc) fun _ nc =>
      .next (lawful_writeLine (fun _ => rfl) (by simp))
        (obeys_writeLine (by simpa [Line.Within, Line.parts] using ⟨nc, wq⟩) rfl) fun _ _ => ?_
  refine .bind ((hl candidate).mono (fun f hf => ?_) fun _ _ hf => hf)
    ((h candidate wc).mono (fun f hf => ?_) fun _ h => h) fun blocks wblocks =>
      .of_obeys (.bind (obeys_nameOf wblocks) fun _ nb =>
        obeys_writeLine (by simpa [Line.Within, Line.parts] using ⟨nb, wq⟩) rfl)
  all_goals
    rcases List.mem_cons.mp hf with rfl | hf
    · simp
    · simp [hf]

theorem steady_candidates (wq : v.text query)
    (hl : ∀ c, Lawful held .growing (.visible c :: env) (accept c) fun _ => [])
    (h : ∀ c, c.Within v →
      Steady v calm held k masked (.visible c :: env) (accept c) (Expr.Within v)) :
    Steady v calm held k masked env (block (.openQueryLoop query) <| inScope none <|
      block (.openCandidate query) <| inScope none <| judge query accept) fun _ => True := by
  have hq (line : Line) (hp : line.parts = [query]) : line.Within v := by
    simpa [Line.Within, hp] using wq
  have hinner : Lawful held .growing env (block (.openCandidate query) <| inScope none <|
      judge query accept) fun _ => [] :=
    lawful_block (fun _ => rfl) (by simp) (lawful_inScope (lawful_judge hl))
  refine steady_block (fun _ => rfl) (by simp) rfl (hq _ rfl)
    (lawful_inScope hinner) (steady_inScope hinner ?_)
  exact steady_block (fun _ => rfl) (by simp) rfl (hq _ rfl)
    (lawful_inScope (lawful_judge hl)) (steady_inScope (lawful_judge hl) (steady_judge wq hl h))

theorem steady_transparentQuery {scene ray : Expr}
    (ws : scene.Within v) (wr : ray.Within v)
    (hl : ∀ c, Lawful held .growing (.visible c :: env) (accept c) fun _ => [])
    (h : ∀ c, c.Within v →
      Steady v calm held k masked (.visible c :: env) (accept c) (Expr.Within v)) :
    Steady v calm held k masked env (transparentQuery scene ray accept) (Expr.Within v) := by
  rw [transparentQuery_eq]
  refine .next (lawful_zeroed _) (obeys_zeroed Ty.within_rayQueryResult) fun result wresult =>
    .next (lawful_freshName _) (obeys_freshName (v.plain _ (by decide))) fun query wq =>
      .next (lawful_writeLine (fun _ => rfl) (by simp))
        (obeys_writeLine (by simpa [Line.Within, Line.parts] using wq) rfl) fun _ _ =>
          .next (lawful_nameOf scene) (obeys_nameOf ws) fun _ ns =>
            .next (lawful_nameOf ray) (obeys_nameOf wr) fun _ nr =>
              .next (lawful_writeLine (fun _ => rfl) (by simp))
                (obeys_writeLine (by simpa [Line.Within, Line.parts] using ⟨wq, ns, nr⟩) rfl)
                  fun _ _ => ?_
  have hsub {more : List Fact} (c : Expr) : .visible c :: env ⊆ .visible c :: (more ++ env) := by
    intro f hf
    rcases List.mem_cons.mp hf with rfl | hf
    · simp
    · simp [hf]
  simp only [← List.append_assoc]
  refine .bind (lawful_candidates fun c => (hl c).mono (hsub c) fun _ _ hf => hf)
    (steady_candidates wq (fun c => (hl c).mono (hsub c) fun _ _ hf => hf)
      fun c wc => (h c wc).mono (hsub c) fun _ h => h) fun _ _ => ?_
  have hread {more : List Fact} : Lawful held .same (more ++ ([.visible result] ++ env)) (do
      writeLine (.readHit (← nameOf result) query .committed)) fun _ => [] :=
    .bind (lawful_nameOf_inScope (e := result) (by simp)) fun _ =>
      lawful_writeLine (fun _ => rfl) (by simp)
  simp only [← List.append_assoc] at hread ⊢
  refine .bind (lawful_block (fun _ => rfl) (by simp) hread)
    (steady_block (fun _ => rfl) (by simp) rfl
      (by simpa [Line.Within, Line.parts] using wq) hread ?_) fun _ _ => .pure wresult
  exact .of_obeys (.bind (obeys_nameOf wresult) fun _ nr =>
    obeys_writeLine (by simpa [Line.Within, Line.parts] using ⟨nr, wq⟩) rfl)

end Snippets

end Build

end ComputeKernel
