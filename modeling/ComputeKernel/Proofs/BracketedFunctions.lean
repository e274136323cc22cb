import ComputeKernel.Proofs.BracketedControl

namespace ComputeKernel

variable {d d' : Draft} {v : Vocabulary} {k : Nat} {p : Prototype}

structure Draft.Rejoined (p : Prototype) (d d' : Draft) : Prop where
  body : d'.body = d.body
  frames : d'.frames = d.frames
  scopes : d'.scopes = d.scopes
  targets : d'.targets = d.targets
  functions : ∃ header inner lines, p.header = .ok header ∧
    d'.functions = d.functions ++ inner ++ (.openFunction p header :: (lines ++ [.close])) ∧
    depthAfter 0 inner = some 0 ∧ depthAfter 1 lines = some 1

section Frames

variable {frames frames' : List Frame}

theorem frames_ext (hl : frames'.map Frame.lines = frames.map Frame.lines)
    (hs : frames'.map Frame.scopes = frames.map Frame.scopes)
    (ht : frames'.map Frame.targets = frames.map Frame.targets) : frames' = frames := by
  induction frames generalizing frames' with
  | nil => exact List.map_eq_nil_iff.mp hl
  | cons frame frames ih =>
    cases frames' with
    | nil => cases hl
    | cons frame' frames' =>
      simp only [List.map_cons, List.cons.injEq] at hl hs ht
      obtain ⟨lines, scopes, targets⟩ := frame
      obtain ⟨lines', scopes', targets'⟩ := frame'
      obtain ⟨rfl, hl⟩ := hl
      obtain ⟨rfl, hs⟩ := hs
      obtain ⟨rfl, ht⟩ := ht
      rw [ih hl hs ht]

theorem Draft.frames_of_enclosing
    (henc : d'.enclosing = (d.scopes :: d.frames.map Frame.scopes, d.pages))
    (ht : d'.frames.map Frame.targets = d.targets :: d.frames.map Frame.targets) :
    d'.frames = ⟨d'.lines, d.scopes, d.targets⟩ :: d.frames ∧ d'.body = d.body := by
  cases hf : d'.frames with
  | nil =>
    rw [hf] at ht
    cases ht
  | cons frame frames =>
    obtain ⟨lines, scopes, targets⟩ := frame
    simp only [enclosing, pages, hf, List.map_cons, List.cons_append, List.tail_cons,
      Prod.mk.injEq, List.cons.injEq] at henc ht
    obtain ⟨⟨rfl, hscopes⟩, hpages⟩ := henc
    obtain ⟨rfl, htargets⟩ := ht
    obtain ⟨hlines, hbody⟩ := List.append_inj' hpages rfl
    refine ⟨?_, by simpa using hbody⟩
    rw [frames_ext hlines hscopes htargets, Draft.lines, hf]

def Draft.rejoin (d d' : Draft) : Draft :=
  { d' with
    body := d.body
    frames := d.frames
    scopes := d.scopes
    targets := d.targets
    functions := d'.functions ++ (d'.lines ++ [.close]) }

theorem exitFunction_rejoins (hdepth : d'.scopes.depth = 0)
    (henc : d'.enclosing = (d.scopes :: d.frames.map Frame.scopes, d.pages))
    (ht : d'.frames.map Frame.targets = d.targets :: d.frames.map Frame.targets) :
    Drafting.exitFunction (d'.write .close) = .ok () (d.rejoin d') := by
  obtain ⟨hframes, hbody⟩ := Draft.frames_of_enclosing henc ht
  have hwrite : d'.write .close =
      { d' with frames := ⟨d'.lines ++ [.close], d.scopes, d.targets⟩ :: d.frames } := by
    unfold Draft.write
    rw [hframes]
  rw [hwrite]
  simp only [Drafting.exitFunction, Bind.bind, EStateM.bind, run_get, run_set, hdepth, Draft.rejoin, ← hbody]
  rfl

end Frames

section Levels

variable {header : String}

theorem Draft.Level.openFunction (h : d.Level k) (p : Prototype) (header : String) :
    (d.enterFunction.write (.openFunction p header)).Level 0 := by
  refine ⟨?_, ?_⟩
  · rw [lines_write, nesting_write]
    rfl
  · rw [functions_of_outside (outside_write _ _)]
    exact h.functions

theorem Draft.Level.rejoin (h : d.Level k) (h' : d'.Level 0) (hnest : d'.nesting = 1) :
    (d.rejoin d').Level k where
  lines := h.lines
  functions := by
    have hlines : depthAfter 0 (d'.lines ++ [.close]) = some 0 := by
      rw [depthAfter_snoc h'.lines, hnest]
      rfl
    change depthAfter 0 (d'.functions ++ (d'.lines ++ [.close])) = some 0
    rw [depthAfter_append, h'.functions]
    exact hlines

-- What stands before the definition was there already or belongs to definitions inside of its body.
theorem Draft.Level.rejoined {inner lines : List Line} (h : d.Level k) (h' : d'.Level 0)
    (hnest : d'.nesting = 1) (hheader : p.header = .ok header)
    (hfunctions : d'.functions = d.functions ++ inner)
    (hlines : d'.lines = .openFunction p header :: lines) : d.Rejoined p (d.rejoin d') := by
  refine ⟨rfl, rfl, rfl, rfl, header, inner, lines, hheader, ?_, ?_, ?_⟩
  · simp only [Draft.rejoin, hfunctions, hlines, List.cons_append]
  · have hinner := h'.functions
    rwa [hfunctions, depthAfter_append, h.functions] at hinner
  · have hbody := h'.lines
    rwa [hlines, hnest] at hbody

theorem Draft.Within.enterFunction (h : d.Within v) : d.enterFunction.Within v := by
  refine { h with lines := fun page hpage line hline => ?_ }
  rcases List.mem_cons.mp hpage with rfl | hpage
  · exact h.lines d.functions (by simp) line hline
  · rcases List.mem_cons.mp (show page ∈ [] :: d.pages from hpage) with rfl | hpage
    · cases hline
    · exact h.lines page (List.mem_cons_of_mem _ hpage) line hline

theorem Draft.lines_mem_pages (d : Draft) : d.lines ∈ d.pages := by
  unfold lines pages
  cases d.frames <;> simp

theorem Draft.Within.rejoin (h : d.Within v) (h' : d'.Within v) : (d.rejoin d').Within v := by
  refine { h' with lines := fun page hpage line hline => ?_ }
  rcases List.mem_cons.mp hpage with rfl | hpage
  · rcases List.mem_append.mp hline with hline | hline
    · exact h'.lines d'.functions (by simp) line hline
    rcases List.mem_append.mp hline with hline | hline
    · exact h'.lines d'.lines (List.mem_cons_of_mem _ d'.lines_mem_pages) line hline
    · rw [List.mem_singleton.mp hline]
      simp [Line.Within, Line.parts]
  · exact h.lines page (List.mem_cons_of_mem _ hpage) line hline

end Levels

def Workspace.openFunction {ν : Type} (w : Workspace ν) (p : Prototype) (header : String) :
    Workspace ν :=
  { w with sheet := w.sheet.openFunction p header }

namespace Build

variable {ν : Type} {held : ν → List Expr} {calm masked : Bool} {env : List Fact}
  {body : List Expr → Build ν (Option Expr)}

theorem steady_functionBody (hp : p.Within v)
    (hl : ∀ params : List Expr, Lawful held .growing (params.flatMap fun e => [.visible e])
      (body params) returned)
    (h : ∀ params : List Expr, (∀ e ∈ params, e.Within v) →
      Steady v calm held 0 false (params.flatMap fun e => [.visible e]) (body params)
        fun r => ∀ e, r = some e → e.Within v) :
    Steady v calm held 0 false [] (functionBody p body) fun _ => True := by
  refine .next (.mapM fun _ _ _ _ => lawful_emitNode (fun _ => rfl)
    (by simp)) (.mapM fun q hq => obeys_emitNode fun id => ?_)
      fun params wparams => ?_
  · exact within_leaf (hp.params q hq) rfl
  · exact .bind (by simpa using hl params) (by simpa using h params wparams) fun result wresult =>
      .of_obeys (obeys_returnResult wresult)

def closeFunction (p : Prototype) : Build ν Prototype := do
  writeLine .close
  drafting .exitFunction
  register p

theorem outside_openFunction (w : Workspace ν) (p : Prototype) (header : String) :
    (w.openFunction p header).sheet.draft.outside = w.sheet.draft.enterFunction.outside :=
  Draft.outside_write _ _

theorem closeFunction_ends {dag dag' : Dag} {w w' : Workspace ν} {header : String} (hp : p.Within v)
    (hheader : p.header = .ok header) (hw : w.Within v held) (hlevel : w.sheet.draft.Level k)
    (hw' : w'.Within v held)
    (hkept : (w.openFunction p header).sheet.draft.Kept calm w'.sheet.draft)
    (hlevel' : w'.sheet.draft.Level 0)
    (hadv : Advance Line.computed dag (w.openFunction p header).sheet
      (w.openFunction p header).sheet.blocks dag' w'.sheet) :
    Ends (closeFunction p) w'
      (fun _ w'' => w''.Within v held ∧ w.sheet.draft.Rejoined p w''.sheet.draft ∧
        w.sheet.draft.Kept calm w''.sheet.draft ∧ w''.sheet.draft.Level k)
      fun _ _ => False := by
  have hout := outside_openFunction w p header
  have htargets : w'.sheet.draft.targets = [] := hkept.targets.trans (congrArg (·.2.1) hout)
  have hframes : w'.sheet.draft.frames.map Frame.targets =
      w.sheet.draft.targets :: w.sheet.draft.frames.map Frame.targets :=
    hkept.frames.trans (congrArg (·.2.2) hout)
  have hstack : w'.sheet.draft.scopes.stack = {} :=
    hadv.stack.trans (congrArg Scopes.stack (Draft.scopes_write _ _))
  have hexit := exitFunction_rejoins (congrArg (·.visible.length) hstack)
    (hadv.enclosing.trans (w.sheet.enclosing_openFunction p header)) hframes
  have hnest : w'.sheet.draft.nesting = 1 := by
    have hne : w'.sheet.draft.frames ≠ [] := by
      intro hnil
      rw [hnil] at hframes
      cases hframes
    simp [Draft.nesting, Scopes.depth, hstack, htargets, Draft.inFunction, hne]
  obtain ⟨inner, hinner, -⟩ := hadv.functions
  rw [Draft.functions_of_outside hout] at hinner
  obtain ⟨lines, hlines, -⟩ := hadv.text
  have hopen : (w.openFunction p header).sheet.draft.lines = [.openFunction p header] :=
    Draft.lines_write w.sheet.draft.enterFunction _
  have hbody : w'.sheet.draft.lines = .openFunction p header :: lines := by
    rw [hlines, hopen, List.singleton_append]
  change Ends (drafting .exitFunction >>= fun _ => register p) (w'.write .close) _ _
  refine .bind (ends_drafting hexit ⟨?_, ?_, ?_, ?_⟩)
  · exact ⟨⟨hw'.sheet.1, hw.sheet.2.rejoin hw'.sheet.2⟩, hw'.callables.register hp, hw'.held⟩
  · exact hlevel.rejoined hlevel' hnest hheader hinner hbody
  · refine ⟨rfl, rfl, ?_⟩
    have hmasks : (w.openFunction p header).sheet.draft.masks = w.sheet.draft.masks :=
      congrArg (·.1.2.2) hout
    exact hmasks ▸ hkept.masks
  · exact hlevel.rejoin hlevel' hnest

theorem defineFunction_ends {dag : Dag} {w : Workspace ν} (hp : p.Within v)
    (hl : ∀ params : List Expr, Lawful held .growing (params.flatMap fun e => [.visible e])
      (body params) returned)
    (h : ∀ params : List Expr, (∀ e ∈ params, e.Within v) →
      Steady v calm held 0 false (params.flatMap fun e => [.visible e]) (body params)
        fun r => ∀ e, r = some e → e.Within v)
    (hs : Sound dag w.sheet) (henv : ∀ f ∈ (held w.notes).map Fact.known, f.Holds dag w.sheet)
    (hw : w.Within v held) (hlevel : w.sheet.draft.Level k) :
    Ends (defineFunction p body) w
      (fun _ w' => w'.Within v held ∧ w.sheet.draft.Rejoined p w'.sheet.draft ∧
        w.sheet.draft.Kept calm w'.sheet.draft ∧ w'.sheet.draft.Level k)
      fun halt w' => halt.Spared v calm ∧ ∀ name, halt = .unbound name →
        ∃ header, (w.openFunction p header).Met v held w' := by
  rw [defineFunction_eq]
  have hheader := hp.header
  cases hh : p.header with
  | error fault =>
    rw [hh] at hheader
    exact ⟨.inl hheader, fun name hn => by cases hn⟩
  | ok header =>
    rw [hh] at hheader
    change Ends (functionBody p body >>= fun _ => closeFunction p) (w.openFunction p header) _ _
    have hopen : Stays dag w.sheet (w.openFunction p header).sheet :=
      .of_nodes rfl (Draft.types_write _ _) (Draft.resources_write _ _)
    have hsound : Sound dag (w.openFunction p header).sheet := hs.openFunction p header
    have hfacts : ∀ f ∈ [] ++ (held w.notes).map Fact.known,
        f.Holds dag (w.openFunction p header).sheet := known_of_stays henv hopen
    have hline : (Line.openFunction p header).Within v := by
      simpa [Line.Within, Line.parts] using show v.text header from hheader
    have hbody := (steady_functionBody hp hl h dag (w.openFunction p header) hsound hfacts
      { hw with sheet := ⟨hw.sheet.1, hw.sheet.2.enterFunction.write hline⟩ }
      (hlevel.openFunction p header) (by simp)).and
        (lawful_functionBody (fun params => (hl params).mono (by simp) fun _ _ h => h) dag _ hsound
          hfacts)
    refine .bind (hbody.mono (fun _ w₂ h₂ => ?_) fun halt w₂ h₂ => ⟨h₂.1.1, fun name hn => ?_⟩)
    · obtain ⟨⟨hw₂, hkept, hlevel₂, -⟩, dag₂, hadv, -, -⟩ := h₂
      exact (closeFunction_ends hp hh hw hlevel hw₂ hkept hlevel₂ hadv).mono (fun _ _ h => h)
        fun _ _ h => h.elim
    · exact ⟨header, h₂.1.2 name hn⟩

theorem steady_defineFunction (hp : p.Within v)
    (hl : ∀ params : List Expr, Lawful held .growing (params.flatMap fun e => [.visible e])
      (body params) returned)
    (h : ∀ params : List Expr, (∀ e ∈ params, e.Within v) →
      Steady v calm held 0 false (params.flatMap fun e => [.visible e]) (body params)
        fun r => ∀ e, r = some e → e.Within v) :
    Steady v calm held k masked env (defineFunction p body) fun _ => True := by
  intro dag w hs henv hw hlevel _
  have hheld : ∀ f ∈ (held w.notes).map Fact.known, f.Holds dag w.sheet :=
    fun f hf => henv f (List.mem_append_right _ hf)
  refine (defineFunction_ends hp hl h hs hheld hw hlevel).mono (fun _ w' h' => ?_)
    fun halt w' h' => ⟨h'.1, fun name hn => ?_⟩
  · exact ⟨h'.1, h'.2.2.1, h'.2.2.2, trivial⟩
  · obtain ⟨header, hmet⟩ := h'.2 name hn
    refine hmet.outward ?_
    have hframes : (w.openFunction p header).sheet.draft.frames.map Frame.targets =
        w.sheet.draft.enterFunction.frames.map Frame.targets :=
      congrArg (·.2.2) (outside_openFunction w p header)
    have hlen := congrArg List.length hframes
    simp only [List.length_map, Draft.enterFunction, List.length_cons] at hlen
    omega

end Build

end ComputeKernel
