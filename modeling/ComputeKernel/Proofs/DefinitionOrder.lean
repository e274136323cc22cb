import ComputeKernel.Proofs.LeftScripts

namespace ComputeKernel

variable {vouched : Prototype → Prop} {K : Stock}

namespace Build

open Bears (items)
open Script Scripted

variable {D : Events} {w : Workspace Notebook}

abbrev Follows (vouched : Prototype → Prop) : Tracking Events Notebook :=
  Both (Untracked Fenced) (Orders vouched)

theorem callable_of_writeFunction (p : Prototype)
    {body : List Expr → Scripted (Option Expr)} (h : ∀ params, Fenced _ (body params) (body params))
    {w₁ : Workspace Notebook} (hrun : writeFunction p body w = .ok () w₁) :
    w₁.callable vouched p := by
  have hdefine : defineFunction p body w =
      .ok p { w₁ with callables := w₁.callables.register p } := by
    rw [defineFunction_eq_writeFunction]
    exact run_bind_ok hrun
  obtain ⟨_, hcompletes⟩ := (fenced_completes p h w).of_ok hdefine
  obtain ⟨before, definition, hfunctions, -, -, hdefinition⟩ := hcompletes.functions
  refine .inr (.inr ⟨w.sheet.draft.functions ++ before, definition, [], ?_, hdefinition⟩)
  rw [List.append_nil, List.append_assoc]
  exact hfunctions

instance follows_definitions : Definitions (Follows vouched) where
  defineFunction {D D' K} p body body' h := by
    refine ⟨Definitions.defineFunction p fun params => (h params).1, fun w hw hK => ?_⟩
    have (params : List Expr) :
        Held (Orders vouched) D D' (K.adding params) (body params) (body' params) :=
      ⟨(h params).2⟩
    have hwrite : Orders vouched D D' K _ _ _ := (tracked_writeFunction p body body').holds
    rw [defineFunction_eq_writeFunction]
    refine .bind ((hwrite w hw hK).result.imp fun _ w₁ h₁ => ?_)
    obtain ⟨hrun, hreached⟩ := h₁
    have hp : w₁.callable vouched p := callable_of_writeFunction p (fun params => (h params).1) hrun
    have hnext := hreached.ordered.next fun q (hq : FunctionEvent.returns p = .returns q) => by
      cases hq
      exact hp
    exact .bind (ensures_modify (ensures_pure ⟨hnext.register (.inl hp),
      hreached.functions, fun i hi => List.mem_singleton.mp hi ▸ hp⟩))

theorem orders_lookup (name : String) : Orders vouched D D K _ (lookup name) (lookup name) :=
  orders_of_writes fun w hw _ => ensures_lookup (fun e he =>
    { Workspace.Writes.refl w with items := fun _ hi => List.mem_singleton.mp hi ▸ hw.held e he })
    trivial

theorem orders_renote {f : Notebook → Notebook} (h : ∀ n, (f n).held = n.held) :
    Orders vouched D D K _ (renote f) (renote f) :=
  orders_of_keeps fun w => ensures_modify
    ⟨.of_contents rfl, rfl, h w.notes, nofun⟩

theorem orders_bindName (name : Option String) (e : Expr) (h : K.Has (items e)) :
    Orders vouched D D K _ (renote (·.bind name e)) (renote (·.bind name e)) := by
  intro w hw hK
  refine ensures_modify ⟨⟨hw.draft, hw.table, hw.returned, fun d hd => ?_⟩, List.prefix_rfl,
    nofun⟩
  cases name with
  | none => exact hw.held d hd
  | some name =>
    rcases List.mem_cons.mp hd with rfl | hd
    · exact hK _ h.value
    · exact hw.held d hd

theorem orders_record (label : String) (outcome : Outcome) :
    Orders vouched D D K _ (record label outcome) (record label outcome) :=
  orders_bind Basics.draft fun _ => orders_renote fun _ => rfl

theorem orders_register (p : Prototype) :
    Orders vouched D (D ++ [.registers p]) K _ (Query.register (.ok p)).perform
      (Query.register (.ok p)).perform := by
  intro w hw _
  have hnext := hw.next fun q (hq : FunctionEvent.registers p = .returns q) => by cases hq
  refine .bind (ensures_pure (.bind (.bind (ensures_modify
    (ensures_pure (ensures_pure ?_))))))
  exact ⟨hnext.register (.inr (List.mem_append_right _ (List.mem_singleton_self _))),
    List.prefix_rfl, nofun⟩

instance : Noting (Follows vouched) where
  toControls := both_controls _ _
  toDefinitions := follows_definitions
  lookup name := ⟨Notes.lookup name, orders_lookup name⟩
  bindName name e := fun h => ⟨Notes.bindName name e h, orders_bindName name e h⟩
  enterBody := ⟨Notes.enterBody, orders_renote fun _ => rfl⟩
  leaveBody := ⟨Notes.leaveBody, orders_renote fun _ => rfl⟩
  record label outcome := ⟨Notes.record label outcome, orders_record label outcome⟩
  askFunction name := ⟨Notes.askFunction name, orders_of_writes fun w _ _ =>
    .bind (.bind (ensures_get (ensures_pure (ensures_pure (.refl w)))))⟩
  register p := ⟨Noting.register p, orders_register p⟩
  describe e := ⟨Notes.describe e, orders_of_keeps fun w => .refl w⟩

instance : Scripting (Follows vouched) := scripting_of_answers
    (fun e => ⟨(plainly_divergenceOf e).fenced, orders_emitting (keeps_diverging e.divergence)⟩)
    ⟨plainly_inDivergentRegion.fenced, orders_emitting fun _ => ensures_inDivergentRegion fun _ _ => rfl⟩
    ⟨plainly_name.fenced, orders_of_keeps fun w => .refl w⟩

end Build

namespace Script

open Build Scripted
open Bears (items)

def CalledEarly (events : Events) (p : Prototype) : Prop :=
  ∃ before event after, events = before ++ event :: after ∧ IsEarly before event p

variable {past events : Events}

variable {step : Step} {event : FunctionEvent} {p : Prototype}

theorem Step.events_of_call (h : event ∈ step.ownEvents)
    (hcall : event.lasts = false) : step.events = [event] := by
  cases step with
  | act heading a =>
    rw [Step.events]
    change event ∈ a.events at h
    unfold Action.events at h ⊢
    split at h <;> simp_all
  | define label bodyLabel callee params body result =>
    cases callee with
    | ok p =>
      rw [List.mem_singleton.mp h] at hcall
      cases hcall
    | error fault => cases h
  | _ => cases h

theorem mem_lasting (h : event.lasts = true) : event ∈ lasting events ↔ event ∈ events := by
  simp [lasting, h]

theorem Admits.calls (h : Admits vouched past step.events)
    (hp : .calls p ∈ step.ownEvents) : .returns p ∈ lasting past ∨ vouched p := by
  rw [mem_lasting rfl]
  refine or_iff_not_imp_left.mpr fun hearly => ?_
  exact h [] (.calls p) [] p (step.events_of_call hp rfl) ⟨by rwa [List.append_nil], .inl rfl⟩

theorem Admits.callsName (h : Admits vouched past step.events)
    (hname : .callsName p.name ∈ step.ownEvents) (hp : .registers p ∈ lasting past) :
    .returns p ∈ lasting past ∨ vouched p := by
  rw [mem_lasting rfl] at hp ⊢
  refine or_iff_not_imp_left.mpr fun hearly => ?_
  refine h [] (.callsName p.name) [] p (step.events_of_call hname rfl) ⟨?_, .inr ⟨rfl, ?_⟩⟩
  · rwa [List.append_nil]
  · rwa [List.append_nil]

theorem mayCall_of_admits (h : Admits vouched past step.events) :
    MayCall (Follows vouched) (lasting past) step.ownEvents where
  calls p hp K := by
    refine ⟨(plainly_pure p).fenced, fun w hw _ => ensures_pure ⟨hw, List.prefix_rfl, fun i hi => ?_⟩⟩
    rw [List.mem_singleton.mp hi]
    exact (h.calls hp).elim (hw.returned p) fun hvouched => .inr (.inl hvouched)
  callsName name hname K :=
    ⟨fenced_function? name, orders_function? name fun _ heq => h.callsName (heq ▸ hname)⟩

theorem follows_program (settings : Settings) (configured : Bool) {steps : List Step}
    (h : Admits vouched [] (eventsOf steps)) :
    Follows vouched [] (lasting (eventsOf steps)) K _ (program settings configured steps)
      (program settings configured steps) := by
  have : Stock.Names fun i => K i ∨ Stock.names i := ⟨fun _ => .inr trivial⟩
  have hnamed : Follows vouched _ _ (fun i => K i ∨ Stock.names i) _ _ _ :=
    holds_program mayCall_of_admits settings configured h
  refine ⟨hnamed.1, fun w hw hK => hnamed.2 w hw fun i hi => hi.elim (hK i) fun hi => ?_⟩
  cases i <;> trivial

/-- Any call is of a built-in function or stands after the whole definition of the function, unless the
script has itself called it before. -/
theorem calls_follow_definitions (settings : Settings) (first : Nat) (configured : Bool)
    (steps : List Step) (w : Workspace Notebook)
    (h : program settings configured steps (.start settings first {}) = .ok () w) :
    (∀ halt p x, LeftAfter halt p steps x → ∃ w₁,
      begun settings configured x (.start settings first {}) = .error halt w₁ ∧
        EndsDefining p w₁.sheet.draft.functions ∧
          w₁.sheet.draft.functions <+: w.sheet.draft.functions ++ w.sheet.draft.body) ∧
    CallsFollow (CalledEarly (eventsOf steps)) (w.sheet.draft.functions ++ w.sheet.draft.body) ∧
    ∀ k, w.finish = .ok k → k.Prints w.sheet.draft.functions w.sheet.draft.body := by
  have hadmits : Admits (CalledEarly (eventsOf steps)) [] (eventsOf steps) :=
    fun before event after p heq hp => ⟨before, event, after, heq, hp⟩
  have hrun := (follows_program (K := fun _ => False) settings configured hadmits).2 _
    (Workspace.ordered_start settings first) (fun _ hi => hi.elim)
  have hordered := (hrun.of_ok h).ordered.draft
  obtain ⟨hframes, -⟩ := nothing_open_of_program h
  refine ⟨fun halt p x hleft => ?_, hordered.functions.append fun line hline p hp => ?_,
    fun _ hk => Workspace.prints_of_finish hk⟩
  · obtain ⟨w₁, hrun₁, hends, hgrown⟩ := hleft.exists_grown h
    exact ⟨w₁, hrun₁, hends, hgrown.trans (List.prefix_append _ _)⟩
  · exact hordered.pages line (by simp [Draft.pages, hframes, hline]) p hp

def inner : Prototype := .fixed "inner" .u32 []

def outer : Prototype := .fixed "outer" .u32 []

def nesting : List Step :=
  [ .act ⟨"register", none⟩ (.query (.register (.ok outer))),
    .act ⟨"lit", some "c"⟩ (.value (.constant (.bool [true]))),
    .ifThen "if" true "c"
      [ .define "define" "define_body" (.ok outer) []
          [ .define "define" "define_body" (.ok inner) []
              [.act ⟨"lit", some "one"⟩ (.value (.constant (.u32 [1])))] (some "one"),
            .act ⟨"call", some "i"⟩ (.value (.callNamed "inner" [])) ] (some "i") ],
    .loop "while" true
      [ .act ⟨"call_proto", some "o"⟩ (.value (.call (.ok outer) [])),
        .act ⟨"call", none⟩ (.value (.callNamed "outer" [])),
        .act ⟨"break", none⟩ (.command .breakLoop) ],
    .act ⟨"bin", none⟩ (.value (.binary .add (.value "o") (.value "i"))) ]

theorem not_calledEarly_nesting (p : Prototype) : ¬CalledEarly (eventsOf nesting) p := by
  have hevents : eventsOf nesting = [.registers outer, .returns inner, .callsName "inner",
    .returns outer, .calls outer, .callsName "outer"] := rfl
  have hname : outer.name ≠ "inner" := by decide
  rintro ⟨before, event, after, heq, hreturns, hcall⟩
  rw [hevents] at heq
  -- One case for each place that the event can have.
  rcases before with _ | ⟨_, _ | ⟨_, _ | ⟨_, _ | ⟨_, _ | ⟨_, _ | ⟨_, before⟩⟩⟩⟩⟩⟩ <;>
    simp only [List.nil_append, List.cons_append, List.cons.injEq, List.nil_eq_append_iff,
      reduceCtorEq, and_false] at heq <;> grind

theorem nesting_calls :
    ∃ w w₁ x, program .default false nesting (.start .default 1 {}) = .ok () w ∧
      LeftAfter (.unbound "") outer nesting x ∧
      begun .default false x (.start .default 1 {}) = .error (.unbound "") w₁ ∧
      EndsDefining outer w₁.sheet.draft.functions ∧
      w₁.sheet.draft.functions <+: w.sheet.draft.functions ++ w.sheet.draft.body ∧
      (w.sheet.draft.functions.filterMap Line.callee?).map Prototype.name = ["inner"] ∧
      (w.sheet.draft.body.filterMap Line.callee?).map Prototype.name =
        ["outer", "outer", "outer", "inner"] ∧
      CallsFollow (fun _ => False) (w.sheet.draft.functions ++ w.sheet.draft.body) := by
  obtain ⟨_, w, hrun, hfunctions, hbody⟩ := exists_ok_of_ensures
    (program .default false nesting) (.start .default 1 {})
    (fun _ w => (w.sheet.draft.functions.filterMap Line.callee?).map Prototype.name = ["inner"] ∧
      (w.sheet.draft.body.filterMap Line.callee?).map Prototype.name =
        ["outer", "outer", "outer", "inner"])
    (by decide +kernel)
  have hleft : LeftAfter (.unbound "") outer nesting _ :=
    .later _ (.later _ (.within _ 0 _ (.here _ (List.mem_singleton_self _))))
  obtain ⟨hlast, hfollow, -⟩ := calls_follow_definitions .default 1 false nesting w hrun
  obtain ⟨w₁, hrun₁, hends, hfirst⟩ := hlast _ _ _ hleft
  exact ⟨w, w₁, _, hrun, hleft, hrun₁, hends, hfirst, hfunctions, hbody,
    hfollow.mono not_calledEarly_nesting⟩

end Script

end ComputeKernel
