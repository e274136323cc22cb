import ComputeKernel.Proofs.BracketedFunctions
import ComputeKernel.Proofs.LocalsInScope

namespace ComputeKernel.Script

open Scripted
open Bears (items)

section Words

inductive Part where
  | action (a : Action)
  | callee (p : Described Prototype)

mutual

def Step.parts : Step → List Part
  | .act _ action => [.action action]
  | .ifThen _ _ _ body | .ifLaneActive _ body | .forRange _ _ _ _ body | .loop _ _ body
  | .transparentQuery _ _ _ _ body _ => partsOf body
  | .ifElse _ _ _ body otherwise => partsOf body ++ partsOf otherwise
  | .switchOn _ _ cases => partsOfCases cases
  | .define _ _ callee _ body _ => .callee callee :: partsOf body

def partsOf : List Step → List Part
  | [] => []
  | step :: steps => step.parts ++ partsOf steps

def partsOfCases : List (UInt32 × List Step) → List Part
  | [] => []
  | case :: cases => partsOfCase case ++ partsOfCases cases

def partsOfCase : UInt32 × List Step → List Part
  | (_, body) => partsOf body

end

variable (v : Vocabulary)

def ValueAction.Within : ValueAction → Prop
  | .zero ty | .zeroed ty | .localArray ty _ => v.Gives (Ty.Within v) ty
  | .input i => v.Gives (Input.Within v) i
  | .resource res => v.Gives (Resource.Within v) res
  | .apply b _ _ => v.Gives (Builtin.Within v) b
  | .sharedStorage name ty _ => v.text name ∧ v.Gives (Ty.Within v) ty
  | .call callee _ => v.Gives (Prototype.Within v) callee
  | .named _ name | .swizzle _ name | .field _ name | .part _ name | .setPart _ name _ => v.text name
  | _ => True

def TryAction.Within : TryAction → Prop
  | .swizzle _ name | .field _ name => v.text name
  | .callNamed .. => True

def Command.Within : Command → Prop
  | .writeHeader text => v.text text
  | _ => True

def Query.Within : Query → Prop
  | .register callee => v.Gives (Prototype.Within v) callee
  | .builtin b => v.Gives (Builtin.Within v) b
  | _ => True

def Action.Within : Action → Prop
  | .value a => a.Within v
  | .attempt a => a.Within v
  | .command c => c.Within v
  | .query q => q.Within v

def Part.Within : Part → Prop
  | .action a => a.Within v
  | .callee p => v.Gives (Prototype.Within v) p

def Part.enables : Part → Bool
  | .action (.command .enableWave32) => true
  | _ => false

def Fits (calm : Bool) (parts : List Part) : Prop :=
  ∀ part ∈ parts, part.Within v ∧ (calm = true → part.enables = false)

end Words

variable {v : Vocabulary} {calm masked : Bool} {k : Nat} {env : List Fact} {e : Expr} {α : Type}

section Names

variable {w : Workspace Notebook} {name : String} {p : α → Prop}

theorem lookup_unbound
    (h : w.notes.bound.lookup name = none) : lookup name w = .error (.unbound name) w := by
  simp only [lookup, bind_get, h]
  rfl

theorem lookup_bound (h : w.notes.bound.lookup name = some e) : lookup name w = .ok e w := by
  simp only [lookup, bind_get, h]
  rfl

theorem steady_lookup (name : String) :
    Steady v calm Notebook.held 0 masked env (lookup name) (Expr.Within v) := by
  intro dag w hs henv hw hlevel _
  cases h : w.notes.bound.lookup name with
  | none =>
    rw [Ends, lookup_unbound h]
    refine ⟨trivial, fun _ _ => ⟨hw, hlevel, ⟨dag, hs, fun f hf => ?_⟩, Nat.le_refl _, fun _ =>
      .refl _⟩⟩
    exact henv f (List.mem_append_right _ hf)
  | some e =>
    have hheld : e ∈ w.notes.held := held_of_lookup h
    rw [Ends, lookup_bound h]
    exact ⟨hw, .refl _ _, hlevel, hw.held e hheld⟩

variable {f : Expr → Scripted α}

theorem steady_withValue
    (h : ∀ e, e.Within v → Steady v calm Notebook.held 0 masked ([.known e] ++ env) (f e) p) :
    Steady v calm Notebook.held 0 masked env (lookup name >>= f) p :=
  .bind (lawful_lookup name) (steady_lookup name) h

theorem steady_ref (r : Ref) :
    Steady v calm Notebook.held 0 masked env r.operand (Operand.Within v) := by
  cases r with
  | value name => exact steady_withValue fun _ he => .pure he
  | constant l => exact .pure trivial

theorem obeys_given {x : Described α} (h : v.Gives p x) :
    (v.building Notebook.held).Obeys (given x) p := by
  cases x with
  | ok a => exact .pure h
  | error fault => exact .throw (show v.Admits fault from h)

theorem obeys_renote {f : Notebook → Notebook} (h : ∀ n, (f n).bound = n.bound) :
    (v.building Notebook.held).Upholds (renote f) := by
  intro w hw
  exact ⟨{ hw with held := by simpa [Notebook.held, h] using hw.held }, .refl _, trivial⟩

theorem obeys_bind (name : Option String) (he : e.Within v) :
    (v.building Notebook.held).Upholds (renote (·.bind name e)) := by
  cases name with
  | none => exact obeys_renote fun _ => rfl
  | some name =>
    intro w hw
    refine ⟨{ hw with held := fun d hd => ?_ }, .refl _, trivial⟩
    rcases List.mem_cons.mp (show d ∈ e :: w.notes.held from hd) with rfl | hd
    · exact he
    · exact hw.held d hd

theorem obeys_record (label : String) (outcome : Outcome) :
    (v.building Notebook.held).Upholds (Scripted.record label outcome) :=
  .bind Build.obeys_draft fun _ _ => obeys_renote fun _ => rfl

theorem steady_lookups (names : List String) :
    Steady v calm Notebook.held 0 masked env (names.mapM lookup) fun es => ∀ e ∈ es, e.Within v :=
  .mapM (fun name _ _ _ => lawful_lookup name) fun name _ _ _ => steady_lookup name

theorem steady_refs (rs : List Ref) :
    Steady v calm Notebook.held 0 masked env (rs.mapM Ref.operand)
      fun os => ∀ o ∈ os, o.Within v :=
  .mapM (fun r _ _ _ => lawful_ref r) fun r _ _ _ => steady_ref r

theorem steady_ofValue (h : ∀ e, e.Within v → (v.building Notebook.held).Obeys (f e) p) : Steady v
    calm Notebook.held 0 masked env (lookup name >>= f) p :=
  steady_withValue fun e he => .of_obeys (h e he)

theorem steady_ofRef {r : Ref} {f : Operand → Scripted α}
    (h : ∀ o, o.Within v → (v.building Notebook.held).Obeys (f o) p) :
    Steady v calm Notebook.held 0 masked env (r.operand >>= f) p :=
  .bind (lawful_ref r) (steady_ref r) fun o ho => .of_obeys (h o ho)

theorem steady_ofValues {names : List String} {f : List Expr → Scripted α}
    (h : ∀ es, (∀ e ∈ es, e.Within v) → (v.building Notebook.held).Obeys (f es) p) :
    Steady v calm Notebook.held 0 masked env (names.mapM lookup >>= f) p :=
  .bind (lawful_lookups names) (steady_lookups names) fun es hes => .of_obeys (h es hes)

end Names

theorem obeys_snippet (s : Snippet) (he : e.Within v) :
    (v.building Notebook.held).Obeys (s.build e) (Expr.Within v) := by
  have : Stock.Has (· ∈ items e) (items e) := ⟨fun _ h => h⟩
  have hsnippet := (tracked_snippet (J := Build.Disciplined v Notebook.held) (D := [])
    (K := (· ∈ items e)) s e).holds
  exact (hsnippet (by simpa [items] using he)).mono fun d hd => hd d (by simp [items])

theorem steady_value (a : ValueAction) (ha : a.Within v) :
    Steady v calm Notebook.held 0 masked env a.perform (Expr.Within v) := by
  cases a with
  | constant l => exact .of_obeys (Build.obeys_constant l)
  | variableOf o => exact steady_ofRef fun _ ho => Build.obeys_variableOf ho
  | zero ty => exact .of_obeys (.bind (obeys_given ha) fun ty _ => Build.obeys_zero ty)
  | zeroed ty => exact .of_obeys (.bind (obeys_given ha) fun _ hty => Build.obeys_zeroed hty)
  | input i => exact .of_obeys (.bind (obeys_given ha) fun _ hi => Build.obeys_input hi)
  | resource res => exact .of_obeys (.bind (obeys_given ha) fun _ hr => Build.obeys_resource hr)
  | apply b values operands =>
    exact .next (lawful_given b) (obeys_given ha) fun _ hb =>
      .bind (lawful_lookups values) (steady_lookups values) fun _ hes =>
        .bind (lawful_refs operands) (steady_refs operands) fun _ hos =>
          .of_obeys (Build.obeys_applyTo hb hes hos)
  | select cond yes no =>
    exact steady_withValue fun _ hc =>
      .bind (lawful_ref yes) (steady_ref yes) fun _ hy => steady_ofRef fun _ hn =>
        Build.obeys_select hc hy hn
  | sharedStorage name ty count =>
    exact .of_obeys (.bind (obeys_given ha.2) fun _ hty => Build.obeys_sharedStorage ha.1 hty count)
  | arrayOf values => exact .of_obeys (Build.obeys_arrayOf values)
  | localArray elem length =>
    exact .of_obeys (.bind (obeys_given ha) fun _ hty => Build.obeys_localArray hty length)
  | callNamed name args => exact steady_ofValues fun _ hes => Build.obeys_callNamed hes name
  | call callee args =>
    exact .next (lawful_given callee) (obeys_given ha) fun _ hp =>
      steady_ofValues fun _ hes => Build.obeys_call hp hes
  | currentMask => exact .of_obeys Build.obeys_currentMask
  | binarySearch buffer count key =>
    refine steady_withValue fun _ hb =>
      steady_withValue fun _ hc =>
        steady_withValue fun _ hk =>
          Build.steady_binarySearch ?_ ?_ ?_ hb hc hk
    all_goals simp
  | snippet s name => exact steady_ofValue fun _ he => obeys_snippet s he
  | negate name => exact steady_ofValue fun _ he => Build.obeys_unary he
  | complement name => exact steady_ofValue fun _ he => Build.obeys_complement he
  | binary op lhs rhs =>
    exact .bind (lawful_ref lhs) (steady_ref lhs) fun _ hl =>
      steady_ofRef fun _ hr => Build.obeys_binary hl hr
  | named source name => exact steady_ofValue fun _ he => Build.obeys_named he ha
  | swizzle source lanes => exact steady_ofValue fun _ he => Build.obeys_swizzle he ha
  | element source index => exact steady_ofValue fun _ he => Build.obeys_element he index
  | elementAt source index =>
    exact steady_withValue fun _ he =>
      steady_ofRef fun _ hi => Build.obeys_elementAt he hi
  | field source name => exact steady_ofValue fun _ he => Build.obeys_field he ha
  | part source name => exact steady_ofValue fun _ he => Build.obeys_part he ha
  | setPart source name o =>
    exact steady_withValue fun _ he =>
      steady_ofRef fun _ ho => Build.obeys_setPart he ha ho
  | load source index =>
    exact steady_withValue fun _ he =>
      steady_ofRef fun _ hi => Build.obeys_load he hi

def Outcome.Within (v : Vocabulary) : Outcome → Prop
  | .value e _ _ => e.Within v
  | _ => True

theorem obeys_describeValue (he : e.Within v) :
    (v.building Notebook.held).Obeys (describeValue e) (Outcome.Within v) :=
  .bind (Build.obeys_nameOf he) fun _ _ => .bind (Build.obeys_typeOf he) fun _ _ => .pure he

theorem obeys_survive {r : Except Fault Expr} (h : v.Gives (Expr.Within v) r) :
    (v.building Notebook.held).Obeys (survive r) (Outcome.Within v) := by
  cases r with
  | error fault => exact .pure trivial
  | ok e => exact obeys_describeValue h

theorem steady_attempt (a : TryAction) (ha : a.Within v) :
    Steady v calm Notebook.held 0 masked env a.perform (Outcome.Within v) := by
  cases a with
  | swizzle source lanes =>
    exact steady_ofValue fun _ he => .bind (Build.obeys_trySwizzle he ha) fun _ hr => obeys_survive hr
  | field source name =>
    exact steady_ofValue fun _ he => .bind (Build.obeys_tryField he ha) fun _ hr => obeys_survive hr
  | callNamed name args =>
    refine .next (Build.lawful_function? name) (Build.obeys_function? name) fun p hp => ?_
    cases p with
    | none => exact .pure trivial
    | some p =>
      exact steady_ofValues fun _ hes => .bind (Build.obeys_tryCall (hp p rfl) hes) fun _ hr =>
        obeys_survive hr

theorem steady_command (c : Command) (hc : c.Within v)
    (hcalm : calm = true → (Part.action (.command c)).enables = false) :
    Steady v calm Notebook.held 0 masked env c.perform fun _ => True := by
  cases c with
  | update op target o =>
    exact steady_withValue fun _ he => steady_ofRef fun _ ho =>
      .bind (Build.obeys_binary he ho) fun _ _ => .pure trivial
  | store target index o =>
    exact steady_withValue fun _ he =>
      .bind (lawful_ref index) (steady_ref index) fun _ hi => steady_ofRef fun _ ho =>
        Build.obeys_store he hi ho
  | write target index source =>
    exact steady_withValue fun _ he =>
      steady_withValue fun _ hi => steady_ofValue fun _ hs =>
        Build.obeys_write he hi hs
  | breakLoop => exact .of_obeys Build.obeys_breakLoop
  | continueLoop => exact .of_obeys Build.obeys_continueLoop
  | returnVoid => exact .of_obeys (Build.obeys_bareLine rfl rfl)
  | returnValue name => exact steady_ofValue fun _ he => Build.obeys_returnValue he
  | groupSync => exact .of_obeys Build.obeys_groupSync
  | writeHeader text => exact .of_obeys (Build.obeys_writeHeader hc)
  | enableWave32 =>
    cases calm with
    | true => cases hcalm rfl
    | false => exact Build.steady_enableWave32

theorem steady_query (q : Query) (hq : q.Within v) :
    Steady v calm Notebook.held 0 masked env q.perform (Outcome.Within v) := by
  cases q with
  | setGroupSize size =>
    refine .of_obeys (.bind (Build.obeys_setGroupSize size) fun r _ => ?_)
    cases r <;> exact .pure trivial
  | register callee =>
    exact .of_obeys (.bind (obeys_given hq) fun _ hp => .bind (Build.obeys_register hp) fun _ _ =>
      .pure trivial)
  | builtin b =>
    exact .of_obeys (.bind (obeys_given hq) fun _ hb => .bind (Build.obeys_builtin hb) fun _ _ =>
      .pure trivial)
  | function name => exact .of_obeys (.bind (Build.obeys_function? name) fun _ _ => .pure trivial)
  | divergence name =>
    exact steady_ofValue fun _ _ => .bind (Build.obeys_diverging _) fun _ _ => .pure trivial
  | describe name =>
    exact steady_ofValue fun _ he => .bind (Build.obeys_typeOf he) fun _ _ =>
      .bind (Build.obeys_nameOf he) fun _ _ => .bind .get fun _ _ => .pure trivial
  | region =>
    exact .of_obeys (.bind Build.obeys_inDivergentRegion fun _ _ => .bind Build.obeys_isWave32
      fun _ _ => .bind .get fun _ _ => .pure trivial)
  | warnings => exact .of_obeys (.bind Build.obeys_draft fun _ _ => .pure trivial)
  | text => exact .of_obeys (.bind .get fun _ _ => .pure trivial)

theorem steady_action (a : Action) (ha : a.Within v)
    (hcalm : calm = true → (Part.action a).enables = false) :
    Steady v calm Notebook.held 0 masked env a.perform (Outcome.Within v) := by
  cases a with
  | value a =>
    exact .bind (lawful_value a) (steady_value a ha) fun _ he => .of_obeys (obeys_describeValue he)
  | attempt a => exact steady_attempt a ha
  | command c => exact .bind (lawful_command c) (steady_command c ha hcalm) fun _ _ => .pure trivial
  | query q => exact steady_query q ha

theorem obeys_heading (h : Heading) {outcome : Outcome} (ho : outcome.Within v) :
    (v.building Notebook.held).Upholds (h.record outcome) := by
  cases outcome with
  | value e name ty => exact .bind (obeys_bind h.bind ho) fun _ _ => obeys_record h.label _
  | _ => exact obeys_record h.label _

section Bodies

variable {body : Scripted Unit}

variable {x : Scripted α} {p : α → Prop}

theorem steady_anywhere (h : Steady v calm Notebook.held k false [] x p) :
    Steady v calm Notebook.held k masked env x p := h.anyhow.mono (by simp) fun _ h => h

theorem steady_counting (counter : Option String)
    (h : Steady v calm Notebook.held 0 false [] body fun _ => True) (i : Expr) (hi : i.Within v) :
    Steady v calm Notebook.held 0 masked (.visible i :: env) (counting counter body i)
      fun _ => True :=
  .next (lawful_bind counter (by simp)) (obeys_bind counter hi) fun _ _ =>
    steady_anywhere h

theorem steady_answering (candidate : Option String) (accept : String)
    (hl : Lawful Notebook.held .growing [] body fun _ => [])
    (h : Steady v calm Notebook.held 0 false [] body fun _ => True) (c : Expr) (hc : c.Within v) :
    Steady v calm Notebook.held 0 masked (.visible c :: env) (answering candidate body accept c)
      (Expr.Within v) :=
  .next (lawful_bind candidate (by simp)) (obeys_bind candidate hc) fun _ _ =>
    .bind (lawful_anywhere hl) (steady_anywhere h) fun _ _ => steady_lookup accept

theorem obeys_bindAll (names : List String) {values : List Expr} (h : ∀ e ∈ values, e.Within v) :
    (v.building Notebook.held).Upholds (bindAll names values) := by
  unfold bindAll
  have hzip : ∀ b ∈ names.zip values, b.2.Within v := fun b hb => h b.2 (List.of_mem_zip hb).2
  generalize names.zip values = pairs at hzip ⊢
  induction pairs with
  | nil => exact .pure trivial
  | cons b rest ih =>
    exact .bind (obeys_bind (some b.1) (hzip b (by simp))) fun _ _ =>
      ih fun b' hb' => hzip b' (by simp [hb'])

theorem steady_defining (label : String) (params : List String) (result : Option String)
    (hl : Lawful Notebook.held .growing [] body fun _ => [])
    (h : Steady v calm Notebook.held 0 false [] body fun _ => True) (values : List Expr)
    (hvalues : ∀ e ∈ values, e.Within v) :
    Steady v calm Notebook.held 0 false (values.flatMap fun e => [.visible e])
      (defining label params body result values) fun r => ∀ e, r = some e → e.Within v := by
  refine .next (lawful_renote fun _ => rfl) (obeys_renote fun _ => rfl) fun _ _ =>
    .next (lawful_bindAll params fun e he => ?_) (obeys_bindAll params hvalues) fun _ _ =>
      .bind (lawful_anywhere hl) (steady_anywhere h) fun _ _ =>
        .next (lawful_record label .done) (obeys_record label .done) fun _ _ =>
          .next (lawful_renote fun _ => rfl) (obeys_renote fun _ => rfl) fun _ _ => ?_
  · exact List.mem_map.mpr ⟨.visible e, by simpa using he, rfl⟩
  · cases result with
    | none => exact .pure nofun
    | some name =>
      exact steady_withValue fun e he => .pure fun d hd => by
        cases hd
        exact he

theorem steady_recorded {x : Scripted Unit} {label : String}
    (h : Build.Sturdy v calm Notebook.held 0 masked env x) :
    Steady v calm Notebook.held 0 masked env (x >>= fun _ => Scripted.record label .done)
      fun _ => True :=
  .bind h.lawful h.steady fun _ _ => .of_obeys (obeys_record label _)

theorem sturdy_anywhere (h : Build.Sturdy v calm Notebook.held k false [] body) :
    Build.Sturdy v calm Notebook.held k masked env body := h.anyhow.mono (by simp)

end Bodies

theorem fits_append {parts parts' : List Part} :
    Fits v calm (parts ++ parts') ↔ Fits v calm parts ∧ Fits v calm parts' :=
  List.forall_mem_append

mutual

theorem steady_step (step : Step) (h : Fits v calm step.parts) :
    Steady v calm Notebook.held 0 false [] step.run fun _ => True := by
  cases step with
  | act heading action =>
    obtain ⟨ha, hcalm⟩ := h (.action action) (by simp [Step.parts])
    exact .bind (lawful_action action) (steady_action action ha hcalm) fun _ ho =>
      .of_obeys (obeys_heading heading ho)
  | ifThen label byLane cond body =>
    have hs := sturdy_steps body h
    exact steady_withValue fun _ hc => .ite
      (steady_recorded (Build.sturdy_laneIf (by simp) hc (sturdy_anywhere hs)))
      (steady_recorded (Build.sturdy_ifThen (by simp) hc (sturdy_anywhere hs)))
  | ifElse label byLane cond body otherwise =>
    obtain ⟨hbody, hother⟩ := fits_append.mp h
    have hs := sturdy_steps body hbody
    have hs' := sturdy_steps otherwise hother
    exact steady_withValue fun _ hc => .ite
      (steady_recorded (Build.sturdy_laneIfElse (by simp) hc (sturdy_anywhere hs)
        (sturdy_anywhere hs')))
      (steady_recorded (Build.sturdy_ifElse (by simp) hc (sturdy_anywhere hs) (sturdy_anywhere hs')))
  | ifLaneActive label body => exact steady_recorded (Build.sturdy_ifLaneActive (sturdy_steps body h))
  | forRange label first last counter body =>
    have hl {env : List Fact} (i : Expr) : Lawful Notebook.held .growing (.visible i :: env)
        (counting counter (runAll body) i) fun _ => [] :=
      lawful_counting counter (lawful_steps body) i
    exact .bind (lawful_ref first) (steady_ref first) fun a ha =>
      .bind (lawful_ref last) (steady_ref last) fun b hb => steady_recorded
        (Build.sturdy_forRange (made_of_noted (by simp)) (made_of_noted (by simp)) ha hb
          (fun i hi => ⟨hl i, steady_counting counter (sturdy_steps body h).steady i hi⟩) hl)
  | loop label byLane body =>
    have hs := sturdy_steps body h
    exact .ite (steady_recorded (Build.sturdy_laneWhile hs))
      (steady_recorded (Build.sturdy_whileLoop hs))
  | switchOn label name cases =>
    exact steady_withValue fun _ hv => steady_recorded (Build.sturdy_switchOn (by simp) hv
      fun c hc => sturdy_anywhere (sturdy_cases cases h c hc))
  | define label bodyLabel callee params body result =>
    have hl := lawful_defining bodyLabel params result (lawful_steps body)
    obtain ⟨⟨hcallee, -⟩, hbody⟩ := List.forall_mem_cons.mp h
    refine .next (lawful_given callee) (obeys_given hcallee) fun p hp => ?_
    exact .bind (Build.lawful_defineFunction fun values => (hl values).mono (by simp) fun _ _ h => h)
      (Build.steady_defineFunction hp hl
        (steady_defining bodyLabel params result (lawful_steps body) (sturdy_steps body hbody).steady))
      fun _ _ => .of_obeys (obeys_record label _)
  | transparentQuery heading scene ray candidate body accept =>
    have hl {env : List Fact} (c : Expr) : Lawful Notebook.held .growing (.visible c :: env)
        (answering candidate (runAll body) accept c) fun _ => [] :=
      lawful_answering candidate accept (lawful_steps body) c
    exact steady_withValue fun _ hscene => steady_withValue fun _ hray =>
      .bind (Build.lawful_transparentQuery hl) (Build.steady_transparentQuery hscene hray hl
        (steady_answering candidate accept (lawful_steps body) (sturdy_steps body h).steady))
        fun _ hhit => .of_obeys (.bind (obeys_describeValue hhit) fun _ ho =>
          obeys_heading heading ho)

theorem sturdy_steps (steps : List Step) (h : Fits v calm (partsOf steps)) :
    Build.Sturdy v calm Notebook.held 0 false [] (runAll steps) := by
  refine ⟨lawful_steps steps, ?_⟩
  cases steps with
  | nil => exact .pure trivial
  | cons step steps =>
    obtain ⟨hstep, hsteps⟩ := fits_append.mp h
    exact .bind (lawful_step step) (steady_step step hstep) fun _ _ =>
      steady_anywhere (sturdy_steps steps hsteps).steady

theorem sturdy_cases (cases : List (UInt32 × List Step))
    (h : Fits v calm (partsOfCases cases)) :
    ∀ c ∈ runCases cases, Build.Sturdy v calm Notebook.held 0 false [] c.2 := by
  cases cases with
  | nil => exact fun c hc => by cases hc
  | cons case cases =>
    obtain ⟨hcase, hcases⟩ := fits_append.mp h
    intro c hc
    rcases List.mem_cons.mp hc with rfl | hc
    · exact sturdy_case case hcase
    · exact sturdy_cases cases hcases c hc

theorem sturdy_case (case : UInt32 × List Step) (h : Fits v calm (partsOfCase case)) :
    Build.Sturdy v calm Notebook.held 0 false [] (runCase case).2 := by
  obtain ⟨label, body⟩ := case
  exact sturdy_steps body h

end

theorem Part.within_any (part : Part) : part.Within .any := by
  have hty (ty : Ty) : ty.Within .any := Ty.within_of_text (fun _ => trivial) ty
  cases part with
  | callee p => exact Vocabulary.gives_any Prototype.within_any p
  | action a =>
    cases a with
    | value a =>
      cases a with
      | zero ty | zeroed ty | localArray ty _ => exact Vocabulary.gives_any hty ty
      | input i => exact Vocabulary.gives_any (fun i => ⟨trivial, hty i.ty⟩) i
      | resource res =>
        exact Vocabulary.gives_any (fun r => ⟨trivial, hty r.ty, hty r.shape⟩) res
      | apply b _ _ => exact Vocabulary.gives_any Builtin.within_any b
      | sharedStorage name ty _ => exact ⟨trivial, Vocabulary.gives_any hty ty⟩
      | call callee _ => exact Vocabulary.gives_any Prototype.within_any callee
      | _ => trivial
    | attempt a => cases a <;> trivial
    | command c => cases c <;> trivial
    | query q =>
      cases q with
      | register callee => exact Vocabulary.gives_any Prototype.within_any callee
      | builtin b => exact Vocabulary.gives_any Builtin.within_any b
      | _ => trivial

theorem fits_any (parts : List Part) : Fits .any false parts :=
  fun part _ => ⟨part.within_any, fun h => by cases h⟩

theorem fits_calm {parts : List Part} (h : ∀ part ∈ parts, part.enables = false) :
    Fits .any true parts := fun part hp => ⟨part.within_any, fun _ => h part hp⟩

section Programs

variable {settings : Settings} {first : Nat} {configured : Bool} {steps : List Step}
  {w : Workspace Notebook}

theorem steady_program (settings : Settings) (configured : Bool)
    (h : Fits v false (partsOf steps)) :
    Steady v false Notebook.held 0 false [] (program settings configured steps) fun _ => True :=
  .ite (.bind (Build.lawful_configure settings) (Build.steady_configure settings) fun _ _ =>
    steady_anywhere (sturdy_steps steps h).steady) (sturdy_steps steps h).steady

def Reaches (settings : Settings) (first : Nat) (configured : Bool) (steps : List Step)
    (w : Workspace Notebook) : Prop :=
  program settings configured steps (.start settings first {}) = .ok () w ∨
    ∃ name, program settings configured steps (.start settings first {}) = .error (.unbound name) w

def abandoned : Step := .act ⟨"div", none⟩ (.query (.divergence "here"))

structure Poised (v : Vocabulary) (dag : Dag) (w : Workspace Notebook) : Prop where
  sound : Sound dag w.sheet
  held : ∀ f ∈ w.notes.held.map Fact.known, f.Holds dag w.sheet
  within : w.Within v Notebook.held
  level : w.sheet.draft.Level 0

theorem Poised.start (v : Vocabulary) (settings : Settings) (first : Nat) :
    Poised v (.ofList [] (by simp) (by simp)) (.start settings first {}) where
  sound := Sound.start settings first
  held _ h := by cases h
  within :=
    { sheet := ⟨⟨nofun, nofun⟩,
        Draft.within_start settings⟩
      callables := CallTable.within_standard
      held := nofun }
  level := ⟨rfl, rfl⟩

variable {dag : Dag}

theorem Poised.steady (h : Poised v dag w) {x : Scripted α} {p : α → Prop}
    (hx : Steady v calm Notebook.held 0 false [] x p) :
    Ends x w (fun a w' => w'.Within v Notebook.held ∧ w.sheet.draft.Kept calm w'.sheet.draft ∧
        w'.sheet.draft.Level 0 ∧ p a)
      fun halt w' => halt.Spared v calm ∧
        ∀ name, halt = .unbound name → w.Met v Notebook.held w' :=
  hx dag w h.sound (by simpa using h.held) h.within h.level (by simp)

theorem Poised.after (h : Poised v dag w) {x : Scripted Unit} {w' : Workspace Notebook}
    (hl : Lawful Notebook.held .growing [] x fun _ => [])
    (hx : Steady v calm Notebook.held 0 false [] x fun _ => True) (hrun : x w = .ok () w') :
    ∃ dag', Poised v dag' w' := by
  obtain ⟨hwithin, -, hlevel, -⟩ := (h.steady hx).of_ok hrun
  obtain ⟨dag', hadv, -, hheld⟩ := (hl dag w h.sound (by simpa using h.held)).of_ok hrun
  exact ⟨dag', hadv.sound, by simpa using hheld, hwithin, hlevel⟩

theorem Reaches.poised (h : Reaches settings first configured steps w)
    (hfits : Fits v false (partsOf steps)) : ∃ dag, Poised v dag w := by
  have hstart := Poised.start v settings first
  have hsteady := steady_program settings configured hfits
  rcases h with hok | ⟨name, herror⟩
  · exact hstart.after (lawful_program settings configured steps) hsteady hok
  · have hmet := ((hstart.steady hsteady).of_error herror).2 name rfl
    obtain ⟨dag, hsound, hheld⟩ := hmet.sound
    exact ⟨dag, hsound, hheld, hmet.within, hmet.level⟩

theorem define_ends (h : Poised v dag w) {label bodyLabel : String} {callee : Described Prototype}
    {params : List String} {body : List Step} {result : Option String}
    (hfits : Fits v calm (Step.define label bodyLabel callee params body result).parts) : Ends
    (Step.define label bodyLabel callee params body result).run w
    (fun _ w' => ∃ p, callee = .ok p ∧ w.sheet.draft.Rejoined p w'.sheet.draft) fun halt w' =>
    ∀ name, halt = .unbound name → ∃ p header, (w.openFunction p header).Met v Notebook.held w' := by
  obtain ⟨⟨hcallee, -⟩, hbody⟩ := List.forall_mem_cons.mp hfits
  cases callee with
  | error fault => exact fun name hn => by cases hn
  | ok p =>
    have hdefine := Build.defineFunction_ends hcallee
      (lawful_defining bodyLabel params result (lawful_steps body))
      (steady_defining bodyLabel params result (lawful_steps body) (sturdy_steps body hbody).steady)
      h.sound h.held h.within h.level
    change Ends (Build.defineFunction p (defining bodyLabel params (runAll body) result) >>=
      fun q => record label (.prototype (some q))) w _ _
    exact .bind (hdefine.mono (fun _ _ hd => ⟨p, rfl, hd.2.1⟩) fun _ _ hd name hn => ⟨p, hd.2 name hn⟩)

end Programs

end ComputeKernel.Script
