import ComputeKernel.Proofs.LawfulSnippets
import ComputeKernel.Proofs.ScriptJudgements

namespace ComputeKernel.Script

open Scripted
open Bears (items)

def Notebook.held (n : Notebook) : List Expr := n.bound.map Prod.snd

variable {k : Scoping} {env : List Fact} {e : Expr}

variable {name : String} {α : Type}

theorem held_of_lookup {n : Notebook} (h : n.bound.lookup name = some e) : e ∈ n.held := by
  obtain ⟨_, _, hbound, -⟩ := List.lookup_eq_some_iff.mp h
  simp [Notebook.held, hbound]

theorem ensures_lookup {w : Workspace Notebook} {done : Expr → Workspace Notebook → Prop}
    {failed : Workspace Notebook → Prop} (bound : ∀ e ∈ w.notes.held, done e w) (unbound : failed w)
    : Ensures (lookup name) w done failed := by
  refine .bind (ensures_get ?_)
  cases hfind : w.notes.bound.lookup name with
  | none => exact ensures_throw unbound
  | some e => exact ensures_pure (bound e (held_of_lookup hfind))

theorem lawful_lookup (name : String) :
    Lawful Notebook.held k env (lookup name) fun e => [.known e] := by
  intro dag w hs henv
  refine ensures_lookup (fun e hheld => .refl hs fun f hf => ?_) trivial
  rcases List.mem_append.mp hf with hf | hf
  · exact henv f (by simp [List.mem_singleton.mp hf, hheld])
  · exact henv f (List.mem_append_right _ hf)

theorem lawful_lookups (names : List String) :
    Lawful Notebook.held k env (names.mapM lookup) fun es => es.flatMap fun e => [.known e] :=
  .mapM fun name _ _ _ => lawful_lookup name

theorem lawful_renote {f : Notebook → Notebook} (h : ∀ n, (f n).bound = n.bound) :
    Lawful Notebook.held k env (renote f) fun _ => [] := by
  intro dag w hs henv
  refine ensures_modify (.refl hs fun g hg => henv g (List.mem_append_right _ ?_))
  simpa [Notebook.held, h] using hg

theorem lawful_bind (name : Option String) (he : Known env e) :
    Lawful Notebook.held k env (renote (·.bind name e)) fun _ => [] := by
  cases name with
  | none => exact lawful_renote fun _ => rfl
  | some name =>
    intro dag w hs henv
    refine ensures_modify (.refl hs fun f hf => ?_)
    rcases List.mem_cons.mp (show f ∈ .known e :: w.notes.held.map .known from hf) with rfl | hf
    · exact he.established hs fun f hf => henv f (List.mem_append_left _ hf)
    · exact henv f (List.mem_append_right _ hf)

theorem lawful_bindAll (names : List String) {values : List Expr}
    (h : ∀ e ∈ values, Known env e) :
    Lawful Notebook.held k env (bindAll names values) fun _ => [] :=
  .forM fun b hb => lawful_bind (some b.1) (h b.2 (List.of_mem_zip hb).2)

theorem lawful_record (label : String) (outcome : Outcome) :
    Lawful Notebook.held k env (Scripted.record label outcome) fun _ => [] :=
  .bind Build.lawful_draft fun _ => lawful_renote fun _ => rfl

theorem lawful_given (x : Described α) : Lawful Notebook.held k env (given x) fun _ => [] := by
  cases x with
  | ok a => exact .pure (by simp)
  | error fault => exact .throw

def noted : Operand → List Fact
  | .value e => [.known e]
  | .constant _ => []

theorem made_of_noted {o : Operand} (h : noted o ⊆ env) : o.Made env := by
  cases o with
  | value e => exact List.mem_map.mpr ⟨.known e, h (by simp [noted]), rfl⟩
  | constant l => trivial

theorem lawful_ref (r : Ref) : Lawful Notebook.held k env r.operand noted := by
  cases r with
  | value name => exact .bind (lawful_lookup name) fun e => .pure (by simp [noted])
  | constant l => exact .pure (by simp [noted])

theorem lawful_refs (rs : List Ref) :
    Lawful Notebook.held k env (rs.mapM Ref.operand) fun os => os.flatMap noted :=
  .mapM fun r _ _ _ => lawful_ref r

instance : Noting (Lawfully Notebook.held) where
  lookup name := fun _ _ => lawful_lookup name
  bindName name e := fun h _ hK => lawful_bind name (hK e h.value)
  enterBody := fun _ _ => lawful_renote fun _ => rfl
  leaveBody := fun _ _ => lawful_renote fun _ => rfl
  record label outcome := fun _ _ => lawful_record label outcome
  askFunction name := fun _ _ => .bind (Build.lawful_function? name) fun _ => .pure nofun
  register _ := fun _ _ => .bind (lawful_given _) fun p =>
    .bind (Build.lawful_register p) fun _ => .pure nofun
  describe _ := fun _ _ => .bind .get fun _ => .pure nofun

instance : Scripting (Lawfully Notebook.held) :=
  scripting_of_answers (fun e _ _ _ _ => Build.lawful_divergenceOf e)
    (fun _ _ => Build.lawful_inDivergentRegion) fun _ _ => .bind .get fun _ => .pure nofun

theorem lawfully_calls (D events : Events) : MayCall (Lawfully Notebook.held) D events :=
  ⟨fun p _ _ => ⟨fun _ _ => lawful_given (.ok p)⟩,
    fun name _ _ => ⟨fun _ _ => (Build.lawful_function? name).knowing fun p e he => by
      cases p <;> simp [items] at he⟩⟩

theorem lawful_of_lawfully {D D' : Events} [Bears α] {x : Scripted α}
    (h : Lawfully Notebook.held D D' .names α x x) :
    Lawful Notebook.held .growing env x fun a => factsOf (items a) := h env nofun

theorem lawful_value (a : ValueAction) :
    Lawful Notebook.held .growing env a.perform fun e => [.known e] :=
  lawful_of_lawfully (D := []) (tracked_laneAction a (lawfully_calls _ _) fun _ _ => trivial).holds

theorem lawful_command (c : Command) : Lawful Notebook.held .growing env c.perform fun _ => [] :=
  lawful_of_lawfully (D := []) (tracked_command c).holds

theorem lawful_query (q : Query) :
    Lawful Notebook.held .growing env q.perform fun o => factsOf (items o) := by
  cases q with
  | setGroupSize size =>
    refine .bind (Build.lawful_setGroupSize size) fun r => ?_
    cases r <;> exact .pure nofun
  | register callee =>
    exact .bind (lawful_given callee) fun p => .bind (Build.lawful_register p) fun _ => .pure nofun
  | builtin b =>
    exact .bind (lawful_given b) fun b => .bind (Build.lawful_builtin b) fun _ => .pure nofun
  | function name => exact .bind (Build.lawful_function? name) fun _ => .pure nofun
  | divergence name =>
    exact .bind (lawful_lookup name) fun e => .bind (Build.lawful_divergenceOf e) fun _ =>
      .pure nofun
  | describe name =>
    exact .bind (lawful_lookup name) fun e => .bind (Build.lawful_typeOf (by simp))
      fun _ => .bind (Build.lawful_nameOf e) fun _ => .bind .get fun _ => .pure nofun
  | region =>
    exact .bind Build.lawful_inDivergentRegion fun _ => .bind Build.lawful_isWave32 fun _ =>
      .bind .get fun _ => .pure nofun
  | warnings => exact .bind Build.lawful_draft fun _ => .pure nofun
  | text => exact .bind .get fun _ => .pure nofun

theorem lawful_action (a : Action) :
    Lawful Notebook.held .growing env a.perform fun o => factsOf (items o) := by
  cases a with
  | value a =>
    have := tracked_laneAction (D := []) (K := .names) a (lawfully_calls _ _) fun _ _ => trivial
    exact lawful_of_lawfully (D := []) (x := a.perform >>= describeValue) Build.Tracked.holds
  | attempt a => exact lawful_of_lawfully (D := []) (tracked_tryAction a (lawfully_calls _ _)).holds
  | command c => exact .bind (lawful_command c) fun _ => .pure nofun
  | query q => exact lawful_query q

theorem lawful_anywhere {x : Scripted Unit} (h : Lawful Notebook.held .growing [] x fun _ => []) :
    Lawful Notebook.held .growing env x fun _ => [] := h.mono (by simp) fun _ _ hf => hf

section Bodies

variable {body : Scripted Unit}

def counting (counter : Option String) (body : Scripted Unit) (i : Expr) : Scripted Unit := do
  renote (·.bind counter i)
  body

def answering (candidate : Option String) (body : Scripted Unit) (accept : String) (c : Expr) :
    Scripted Expr := do
  renote (·.bind candidate c)
  body
  lookup accept

def defining (label : String) (params : List String) (body : Scripted Unit) (result : Option String)
    (values : List Expr) : Scripted (Option Expr) := do
  renote (·.enterBody)
  bindAll params values
  body
  record label .done
  renote (·.leaveBody)
  result.mapM lookup

theorem lawful_counting (counter : Option String)
    (h : Lawful Notebook.held .growing [] body fun _ => []) (i : Expr) :
    Lawful Notebook.held .growing (.visible i :: env) (counting counter body i) fun _ => [] :=
  .bind (lawful_bind counter (by simp)) fun _ => lawful_anywhere h

theorem lawful_answering (candidate : Option String) (accept : String)
    (h : Lawful Notebook.held .growing [] body fun _ => []) (c : Expr) :
    Lawful Notebook.held .growing (.visible c :: env) (answering candidate body accept c)
      fun _ => [] :=
  .bind (lawful_bind candidate (by simp)) fun _ =>
    .bind (lawful_anywhere h) fun _ => (lawful_lookup accept).mono (fun _ h => h) (by simp)

theorem lawful_defining (label : String) (params : List String) (result : Option String)
    (h : Lawful Notebook.held .growing [] body fun _ => []) (values : List Expr) :
    Lawful Notebook.held .growing (values.flatMap fun e => [.visible e])
      (defining label params body result values) Build.returned := by
  refine .bind (lawful_renote fun _ => rfl) fun _ => .bind (lawful_bindAll params fun e he => ?_)
    fun _ => .bind (lawful_anywhere h) fun _ => .bind (lawful_record label .done) fun _ =>
      .bind (lawful_renote fun _ => rfl) fun _ => ?_
  · exact List.mem_map.mpr ⟨.visible e, by simpa using he, rfl⟩
  · cases result with
    | none => exact .pure (by simp [Build.returned])
    | some name =>
      refine .bind (lawful_lookup name) fun e => .result fun _ _ _ henv f hf => ?_
      obtain rfl : f = .made e := by simpa [Build.returned] using hf
      exact (henv (.known e) (by simp)).1

end Bodies

theorem lawful_steps (steps : List Step) :
    Lawful Notebook.held .growing env (runAll steps) fun _ => [] :=
  lawful_of_lawfully (holds_runAll (fun _ => lawfully_calls _ _) steps [] _ (admits_any [] _))

theorem lawful_step (step : Step) : Lawful Notebook.held .growing env step.run fun _ => [] :=
  lawful_of_lawfully (holds_step (lawfully_calls (lasting []) _) fun i =>
    holds_runAll (fun _ => lawfully_calls _ _) (step.body i) _ _ (admits_any _ _))

end ComputeKernel.Script
