import ComputeKernel.Proofs.BracketedScripts
import Mathlib.Data.List.Forall2

namespace ComputeKernel

def Paired {ε σ α α' : Type} (S : σ → σ → Prop) (R : α → α' → Prop) :
    EStateM.Result ε σ α → EStateM.Result ε σ α' → Prop
  | .ok a s, .ok a' s' => R a a' ∧ S s s'
  | .error e s, .error e' s' => e = e' ∧ S s s'
  | _, _ => False

def Twin {ε σ α α' : Type} (S : σ → σ → Prop) (R : α → α' → Prop) (x : EStateM ε σ α)
    (x' : EStateM ε σ α') : Prop :=
  ∀ s s', S s s' → Paired S R (x s) (x' s')

def Agree {ε α β : Type} (R : α → β → Prop) : Except ε α → Except ε β → Prop
  | .ok a, .ok b => R a b
  | .error e, .error e' => e = e'
  | _, _ => False

theorem agree_same {ε α : Type} (x : Except ε α) : Agree Eq x x := by
  cases x <;> exact rfl

section Rules

variable {ε σ α α' β β' : Type} {S : σ → σ → Prop} {R : α → α' → Prop} {Q : β → β' → Prop}

variable {x : EStateM ε σ α} {x' : EStateM ε σ α'} {f : α → EStateM ε σ β}
  {f' : α' → EStateM ε σ β'}

theorem Twin.bind (hx : Twin S R x x') (hf : ∀ a a', R a a' → Twin S Q (f a) (f' a')) :
    Twin S Q (x >>= f) (x' >>= f') := by
  intro s s' hs
  have h := hx s s' hs
  simp only [Bind.bind, EStateM.bind]
  cases hrun : x s <;> cases hrun' : x' s' <;> rw [hrun, hrun'] at h
  · exact hf _ _ h.1 _ _ h.2
  · exact h.elim
  · exact h.elim
  · exact h

theorem Twin.bind_eq {x' : EStateM ε σ α} {f' : α → EStateM ε σ β'}
    (hx : Twin S Eq x x') (hf : ∀ a, Twin S Q (f a) (f' a)) : Twin S Q (x >>= f) (x' >>= f') :=
  hx.bind fun a _ h => h ▸ hf a

theorem twin_pure {a : α} {a' : α'} (h : R a a') :
    Twin S R (pure a : EStateM ε σ α) (pure a' : EStateM ε σ α') := fun _ _ hs => ⟨h, hs⟩

theorem twin_throw (fault : ε) :
    Twin S R (throw fault : EStateM ε σ α) (throw fault : EStateM ε σ α') := fun _ _ hs => ⟨rfl, hs⟩

theorem twin_get : Twin S S (get : EStateM ε σ σ) get := fun _ _ hs => ⟨hs, hs⟩

theorem twin_set {t t' : σ} (h : S t t') :
    Twin S Eq (set t : EStateM ε σ PUnit) (set t') := fun _ _ _ => ⟨rfl, h⟩

theorem twin_modify {f f' : σ → σ} (h : ∀ s s', S s s' → S (f s) (f' s')) :
    Twin S Eq (modify f : EStateM ε σ PUnit) (modify f') := fun s s' hs => ⟨rfl, h s s' hs⟩

theorem twin_orFault {x : Except Fault α} {x' : Except Fault α'} (h : Agree R x x') :
    Twin S R (orFault x : EStateM Fault σ α) (orFault x' : EStateM Fault σ α') := by
  cases x <;> cases x' <;> try exact h.elim
  · exact h ▸ twin_throw _
  · exact twin_pure h

end Rules

def Build.result {ν : Type} (x : Build ν Unit) (w : Workspace ν) : Except Halt Kernel × ν :=
  match x w with
  | .error halt w => (.error halt, w.notes)
  | .ok () w => (w.finish.mapError .ofFailure, w.notes)

variable {τ α : Type}

abbrev SameFor {ε σ τ : Type} (view : σ → τ) : Judgement (EStateM ε σ) := fun _ =>
  Twin (fun s s' => view s = view s') Eq

instance {ε σ τ : Type} (view : σ → τ) :
    (SameFor view : Judgement (EStateM ε σ)).Chains where
  pure _ := twin_pure rfl
  bind hx hf := hx.bind_eq hf

def Unseen {ε σ τ α : Type} (view : σ → τ) (x : EStateM ε σ α) : Prop :=
  ∀ s, ∃ a s', x s = .ok a s' ∧ view s' = view s

section Unseen

variable {ε σ β : Type} {view : σ → τ}

theorem unseen_pure (a : α) : Unseen view (pure a : EStateM ε σ α) := fun s => ⟨a, s, rfl, rfl⟩

variable {x : EStateM ε σ α}

theorem Unseen.bind {f : α → EStateM ε σ β} (hx : Unseen view x)
    (hf : ∀ a, Unseen view (f a)) : Unseen view (x >>= f) := by
  intro s
  obtain ⟨a, s₁, hrun, hview⟩ := hx s
  obtain ⟨b, s₂, hrun', hview'⟩ := hf a s₁
  refine ⟨b, s₂, ?_, hview'.trans hview⟩
  simp only [Bind.bind, EStateM.bind, hrun, hrun']

theorem unseen_ite {p : Prop} [Decidable p] {y : EStateM ε σ α} (hx : Unseen view x)
    (hy : Unseen view y) : Unseen view (if p then x else y) := by
  split
  · exact hx
  · exact hy

theorem unseen_get : Unseen view (get : EStateM ε σ σ) := fun s => ⟨s, s, rfl, rfl⟩

theorem unseen_modify {f : σ → σ} (h : ∀ s, view (f s) = view s) :
    Unseen view (modify f : EStateM ε σ PUnit) := fun s => ⟨⟨⟩, f s, rfl, h s⟩

theorem Unseen.sameFor {x x' : EStateM ε σ Unit} (hx : Unseen view x) (hx' : Unseen view x') :
    SameFor view _ x x' := by
  intro s s' hs
  obtain ⟨_, s₁, hrun, hview⟩ := hx s
  obtain ⟨_, s₁', hrun', hview'⟩ := hx' s'
  rw [hrun, hrun']
  exact ⟨rfl, hview.trans (hs.trans hview'.symm)⟩

end Unseen

def Nodes.unmarked (n : Nodes) : Nodes := { n with modes := {} }

theorem Nodes.unmarked_eq_iff {n n' : Nodes} :
    n.unmarked = n'.unmarked ↔ n.next = n'.next ∧ n.names = n'.names ∧ n.types = n'.types := by
  simp [unmarked]

abbrev NodesUnmarked : Judgement Making := SameFor Nodes.unmarked

instance (mk : Nat → Expr) :
    Judged NodesUnmarked (Making.node mk) (Making.node mk) := by
  refine ⟨fun n n' hn => ?_⟩
  obtain ⟨hnext, hnames, htypes⟩ := Nodes.unmarked_eq_iff.mp hn
  refine ⟨congrArg mk hnext, Nodes.unmarked_eq_iff.mpr ⟨?_, hnames, htypes⟩⟩
  exact congrArg (· + 1) hnext

instance (x : Typing α) :
    Judged NodesUnmarked (Making.typing x) (Making.typing x) := by
  refine ⟨fun n n' hn => ?_⟩
  obtain ⟨hnext, hnames, htypes⟩ := Nodes.unmarked_eq_iff.mp hn
  unfold Making.typing
  rw [htypes]
  cases x n'.types <;> exact ⟨rfl, Nodes.unmarked_eq_iff.mpr ⟨hnext, hnames, rfl⟩⟩

instance (fault : Fault) :
    Judged NodesUnmarked (throw fault : Making α) (throw fault) := ⟨twin_throw fault⟩

instance (r : Except Fault α) :
    Judged NodesUnmarked (orFault r) (orFault r) := ⟨twin_orFault (agree_same r)⟩

instance (l : Literal) : Judged NodesUnmarked (Making.literal l) (Making.literal l) := by
  unfold Making.literal; infer_instance

instance (elem : Ty) (length : UInt32) (init : List Literal) :
    Judged NodesUnmarked (Making.array elem length init) (Making.array elem length init) := by
  unfold Making.array; infer_instance

instance (e : Expr) (lanes : String) :
    Judged NodesUnmarked (Making.swizzle e lanes) (Making.swizzle e lanes) := by
  unfold Making.swizzle; infer_instance

def Sheet.unmarked (s : Sheet) : Sheet := { s with nodes := s.nodes.unmarked }

variable {s s' : Sheet}

theorem Sheet.unmarked_eq_iff :
    s.unmarked = s'.unmarked ↔ s.nodes.unmarked = s'.nodes.unmarked ∧ s.draft = s'.draft := by
  simp [unmarked]

abbrev SheetUnmarked : Judgement Emit := SameFor Sheet.unmarked

instance unmarked_making (x : Making α) [h : Judged NodesUnmarked x x] :
    Judged SheetUnmarked (Emit.making x) (Emit.making x) := by
  refine ⟨fun s s' hs => ?_⟩
  obtain ⟨hnodes, hdraft⟩ := Sheet.unmarked_eq_iff.mp hs
  have hrun := h.holds s.nodes s'.nodes hnodes
  unfold Emit.making
  cases hx : x s.nodes <;> cases hx' : x s'.nodes <;> rw [hx, hx'] at hrun
  · exact ⟨hrun.1, Sheet.unmarked_eq_iff.mpr ⟨hrun.2, hdraft⟩⟩
  · exact hrun.elim
  · exact hrun.elim
  · exact ⟨hrun.1, Sheet.unmarked_eq_iff.mpr ⟨hrun.2, hdraft⟩⟩

instance unmarked_drafting (x : Drafting α) :
    Judged SheetUnmarked (Emit.drafting x) (Emit.drafting x) := by
  refine ⟨fun s s' hs => ?_⟩
  obtain ⟨hnodes, hdraft⟩ := Sheet.unmarked_eq_iff.mp hs
  unfold Emit.drafting
  rw [hdraft]
  cases x s'.draft <;> exact ⟨rfl, Sheet.unmarked_eq_iff.mpr ⟨hnodes, rfl⟩⟩

instance unmarked_redraft (f : Draft → Draft) :
    Judged SheetUnmarked (Emit.redraft f) (Emit.redraft f) := by
  refine ⟨twin_modify fun s s' hs => ?_⟩
  obtain ⟨hnodes, hdraft⟩ := Sheet.unmarked_eq_iff.mp hs
  exact Sheet.unmarked_eq_iff.mpr ⟨hnodes, congrArg f hdraft⟩

instance unmarked_write (line : Line) : Judged SheetUnmarked (Emit.write line) (Emit.write line) :=
  unmarked_redraft _

theorem Sheet.name_of_unmarked (h : s.unmarked = s'.unmarked) (e : Expr) :
    s.nodes.name e = s'.nodes.name e := by
  obtain ⟨-, hnames, -⟩ := Nodes.unmarked_eq_iff.mp (Sheet.unmarked_eq_iff.mp h).1
  unfold Nodes.name
  rw [hnames]

instance unmarked_emitNameOf (e : Expr) : Judged SheetUnmarked (Emit.nameOf e) (Emit.nameOf e) :=
  ⟨fun _ _ hs => ⟨Sheet.name_of_unmarked hs e, hs⟩⟩

instance unmarked_emitRename (id : Nat) (name : Spelling) :
    Judged SheetUnmarked (Emit.rename id name) (Emit.rename id name) := by
  refine ⟨twin_modify fun s s' hs => ?_⟩
  obtain ⟨hnodes, hdraft⟩ := Sheet.unmarked_eq_iff.mp hs
  obtain ⟨hnext, hnames, htypes⟩ := Nodes.unmarked_eq_iff.mp hnodes
  refine Sheet.unmarked_eq_iff.mpr ⟨Nodes.unmarked_eq_iff.mpr ⟨hnext, ?_, htypes⟩, hdraft⟩
  exact congrArg (·.insert id name) hnames

theorem unseen_diverging (x : Diverging α) : Unseen Sheet.unmarked (Emit.diverging x) :=
  fun _ => ⟨_, _, rfl, rfl⟩

theorem unseen_emitRegion : Unseen Sheet.unmarked Emit.inDivergentRegion :=
  unseen_get.bind fun _ => (unseen_diverging _).bind fun _ => unseen_pure _

theorem unseen_noteWrite (target : Expr) : Unseen Sheet.unmarked (Emit.noteWrite target) :=
  unseen_emitRegion.bind fun _ => unseen_ite
    ((unseen_diverging _).bind fun _ => unseen_diverging _) (unseen_pure _)

instance (cond target value : Expr) (x x' : Emit Unit) [Judged SheetUnmarked x x'] :
    Judged SheetUnmarked (Emit.branch cond target value x) (Emit.branch cond target value x') := by
  unfold Emit.branch; infer_instance

instance : SheetUnmarked.Emission fun _ => True where
  orFault r := twin_orFault (agree_same r)
  typing e := (unmarked_making (.typing e.inferType)).holds
  nameOf e := (unmarked_emitNameOf e).holds
  rename id name := (unmarked_emitRename id name).holds
  write line _ := (unmarked_write line).holds
  writeCall line _ _ _ := (unmarked_write line).holds
  registerType _ := (unmarked_drafting _).holds
  registerResource _ := (unmarked_drafting _).holds
  noteWrite target := (unseen_noteWrite target).sameFor (unseen_noteWrite target)
  once e body body' h := by
    have (ty : Ty) : Judged SheetUnmarked (body ty) (body' ty) := ⟨h ty⟩
    have : Judged SheetUnmarked (Emit.typing e.inferType) (Emit.typing e.inferType) :=
      unmarked_making (.typing e.inferType)
    refine twin_get.bind fun s s' hs => ?_
    rw [(Sheet.unmarked_eq_iff.mp hs).2]
    exact Judged.holds (J := SheetUnmarked)
  choose cond target yes no x x' y y' hx hy := by
    have : Judged SheetUnmarked x x' := ⟨hx⟩
    have : Judged SheetUnmarked y y' := ⟨hy⟩
    unfold Emit.choose; exact Judged.holds

instance (e : Expr) :
    Judged SheetUnmarked (Build.emitValue e) (Build.emitValue e) := by
  have := e.judged_emit (J := SheetUnmarked) e.callsOnly_any
  have hmark : Unseen Sheet.unmarked
      (do if ← Emit.inDivergentRegion then Emit.diverging (.force e.id)) :=
    unseen_emitRegion.bind fun _ => unseen_ite (unseen_diverging _) (unseen_pure _)
  have : Judged SheetUnmarked _ _ := ⟨hmark.sameFor hmark⟩
  unfold Build.emitValue
  infer_instance

section Workspaces

variable {ν : Type}

def Workspace.unmarked (view : ν → τ) (w : Workspace ν) : Workspace τ where
  name := w.name
  sheet := w.sheet.unmarked
  callables := w.callables
  roots := w.roots
  labels := w.labels
  notes := view w.notes

theorem Workspace.finish_unmarked (view : ν → τ) (w : Workspace ν) :
    (w.unmarked view).finish = w.finish := rfl

namespace Build

abbrev Unmarked (view : ν → τ) : Judgement (Build ν) := SameFor (Workspace.unmarked view)

variable {view : ν → τ}

theorem unmarked_eq_iff {w w' : Workspace ν} : w.unmarked view = w'.unmarked view ↔
    w.name = w'.name ∧ w.sheet.unmarked = w'.sheet.unmarked ∧ w.callables = w'.callables ∧
      w.roots = w'.roots ∧ w.labels = w'.labels ∧ view w.notes = view w'.notes := by
  simp [Workspace.unmarked]

instance unmarked_attempt (x x' : Emit α) [h : Judged SheetUnmarked x x'] :
    Judged (Unmarked view) (attempt x) (attempt x') := by
  refine ⟨fun w w' hw => ?_⟩
  obtain ⟨hname, hsheet, hrest⟩ := unmarked_eq_iff.mp hw
  have hrun := h.holds w.sheet w'.sheet hsheet
  unfold attempt
  cases hx : x w.sheet <;> cases hx' : x' w'.sheet <;> rw [hx, hx'] at hrun
  · exact ⟨congrArg _ hrun.1, unmarked_eq_iff.mpr ⟨hname, hrun.2, hrest⟩⟩
  · exact hrun.elim
  · exact hrun.elim
  · exact ⟨congrArg _ hrun.1, unmarked_eq_iff.mpr ⟨hname, hrun.2, hrest⟩⟩

instance (r : Except Fault α) :
    Judged (Unmarked view) (must r : Build ν α) (must r) := by
  cases r with
  | ok a => exact ⟨twin_pure rfl⟩
  | error fault => exact ⟨twin_throw _⟩

instance unmarked_emitting (x x' : Emit α) [Judged SheetUnmarked x x'] :
    Judged (Unmarked view) (emitting x) (emitting x') := by
  unfold emitting; infer_instance

instance unmarked_tryEmit (e : Expr) :
    Judged (Unmarked view) (tryEmit e : Build ν (Except Fault Expr)) (tryEmit e) := by
  refine ⟨(unmarked_attempt (emitValue e) (emitValue e)).holds.bind_eq fun r => ?_⟩
  cases r with
  | error fault => exact twin_pure rfl
  | ok _ =>
    refine (twin_modify fun w w' hw => ?_).bind_eq fun _ => twin_pure rfl
    obtain ⟨hname, hsheet, hcalls, hroots, hrest⟩ := unmarked_eq_iff.mp hw
    exact unmarked_eq_iff.mpr ⟨hname, hsheet, hcalls, congrArg (· ++ [e]) hroots, hrest⟩

theorem unmarked_builtin (b : Builtin) :
    Unmarked view _ (builtin b : Build ν Prototype) (builtin b) := by
  refine twin_get.bind fun w w' hw => ?_
  obtain ⟨hname, hsheet, hcalls, hrest⟩ := unmarked_eq_iff.mp hw
  rw [hcalls]
  refine (twin_set ?_).bind_eq fun _ => twin_pure rfl
  exact unmarked_eq_iff.mpr ⟨hname, hsheet, rfl, hrest⟩

theorem unmarked_freshName (stem : String) :
    Unmarked view _ (freshName stem : Build ν String) (freshName stem) := by
  refine twin_get.bind fun w w' hw => ?_
  obtain ⟨hname, hsheet, hcalls, hroots, hlabels, hnotes⟩ := unmarked_eq_iff.mp hw
  rw [hlabels]
  refine (twin_set ?_).bind_eq fun _ => twin_pure rfl
  exact unmarked_eq_iff.mpr ⟨hname, hsheet, hcalls, hroots, rfl, hnotes⟩

instance unmarked_draft : Judged (Unmarked view) (draft : Build ν Draft) draft := by
  refine ⟨twin_get.bind fun w w' hw => twin_pure ?_⟩
  exact (Sheet.unmarked_eq_iff.mp (unmarked_eq_iff.mp hw).2.1).2

theorem unmarked_setGroupSize (size : GroupSize) :
    Unmarked view _ (setGroupSize size : Build ν (Except Fault Unit)) (setGroupSize size) := by
  refine unmarked_draft.holds.bind_eq fun d => ?_
  cases d.setGroupSize size with
  | ok d => exact (unmarked_emitting _ _).holds.bind_eq fun _ => twin_pure rfl
  | error failure =>
    cases failure with
    | fault fault => exact twin_pure rfl
    | overflow overflow => exact twin_throw _

theorem unseen_emitting {x : Emit α} (h : Unseen Sheet.unmarked x) :
    Unseen (Workspace.unmarked view) (emitting x : Build ν α) := by
  intro w
  obtain ⟨a, s, hrun, hview⟩ := h w.sheet
  refine ⟨a, { w with sheet := s }, ?_, ?_⟩
  · simp only [emitting, attempt, Bind.bind, EStateM.bind, hrun]
    rfl
  · exact unmarked_eq_iff.mpr ⟨rfl, hview, rfl, rfl, rfl, rfl⟩

theorem unseen_spread (first last counter : Expr) :
    Unseen (Workspace.unmarked view) (spread first last counter : Build ν Unit) :=
  (unseen_emitting (unseen_diverging _)).bind fun _ =>
    unseen_ite (unseen_emitting (unseen_diverging _)) (unseen_pure _)

theorem unmarked_function? (name : String) :
    Unmarked view _ (function? name : Build ν (Option Prototype)) (function? name) :=
  twin_get.bind fun _ _ hw =>
    twin_pure (congrArg (NameTable.find? · name) (unmarked_eq_iff.mp hw).2.2.1)

theorem unmarked_register (p : Prototype) :
    Unmarked view _ (register p : Build ν Prototype) (register p) := by
  refine (twin_modify fun w w' hw => ?_).bind_eq fun _ => twin_pure rfl
  obtain ⟨hname, hsheet, hcalls, hrest⟩ := unmarked_eq_iff.mp hw
  exact unmarked_eq_iff.mpr ⟨hname, hsheet, congrArg (·.register p) hcalls, hrest⟩

instance : FunctionStatements (Untracked (Unmarked view)) where
  throw halt := twin_throw halt
  node _ _ _ := (unmarked_emitting _ _).holds
  place _ _ := Tracking.Chains.emitted (unmarked_emitting _ _).holds
    (fun e => (unmarked_tryEmit e).holds) fun halt => twin_throw halt
  literal _ := (unmarked_emitting _ _).holds
  array _ _ _ := Tracking.Chains.emitted (unmarked_emitting _ _).holds
    (fun e => (unmarked_tryEmit e).holds) fun halt => twin_throw halt
  swizzle _ _ := fun _ => (unmarked_attempt _ _).holds
  typeOf e := fun _ => (unmarked_emitting (.making (.typing e.inferType)) (.making (.typing e.inferType))).holds
  nameOf e := twin_get.bind fun _ _ hw =>
    twin_pure (Sheet.name_of_unmarked (unmarked_eq_iff.mp hw).2.1 e)
  rename _ _ := (unmarked_emitting _ _).holds
  tryEmit e := fun _ => (unmarked_tryEmit e).holds
  builtin b := unmarked_builtin b
  freshName stem := unmarked_freshName stem
  draft := unmarked_draft.holds
  currentMask := (unmarked_emitting _ _).holds
  addShared _ _ := (unmarked_emitting _ _).holds
  setGroupSize size := unmarked_setGroupSize size
  writeHeader _ := (unmarked_emitting _ _).holds
  writeLine _ _ _ := (unmarked_emitting _ _).holds
  ballot _ _ _ _ := (unmarked_emitting _ _).holds
  noteSync := (unmarked_emitting _ _).holds
  seedMask _ := fun _ => (unmarked_emitting _ _).holds
  line _ _ := (unmarked_emitting _ _).holds
  enterScope _ := (unmarked_emitting _ _).holds
  exitScope := (unmarked_emitting _ _).holds
  pushTarget _ := (unmarked_emitting _ _).holds
  popTarget := (unmarked_emitting _ _).holds
  pushMask _ := fun _ => (unmarked_emitting _ _).holds
  popMask := (unmarked_emitting _ _).holds
  enterFunction := (unmarked_emitting _ _).holds
  openFunction _ _ := (unmarked_emitting _ _).holds
  exitFunction := (unmarked_emitting _ _).holds
  checkBreak _ := (unmarked_emitting _ _).holds
  checkContinue := (unmarked_emitting _ _).holds
  spread first last counter :=
    (unseen_spread first last counter).sameFor (unseen_spread first last counter)

end Build

end Workspaces

namespace Script

open Build Scripted

def Outcome.isDivergence : Outcome → Bool
  | .divergence _ | .region .. => true
  | _ => false

def Notebook.unmarked (n : Notebook) : List (String × Expr) × List (String × Outcome) :=
  (n.bound, (n.entries.filter fun entry => !entry.outcome.isDivergence).map
    fun entry => (entry.label, entry.outcome))

variable {n n' : Notebook} {w : Workspace Notebook} {x : Scripted Unit}

theorem Notebook.unmarked_eq_iff :
    n.unmarked = n'.unmarked ↔ n.bound = n'.bound ∧ n.unmarked.2 = n'.unmarked.2 := by
  simp [Notebook.unmarked]

theorem Notebook.unmarked_record (n : Notebook) (label : String) (outcome : Outcome)
    (lines : List Line) : (n.record label outcome lines).unmarked =
      (n.bound, if outcome.isDivergence then n.unmarked.2 else (label, outcome) :: n.unmarked.2) := by
  unfold Notebook.unmarked Notebook.record
  cases h : outcome.isDivergence <;> simp [h]

abbrev ScriptUnmarked : Judgement Scripted := Build.Unmarked Notebook.unmarked

theorem unmarked_renote {f f' : Notebook → Notebook}
    (h : ∀ n n' : Notebook, n.unmarked = n'.unmarked → (f n).unmarked = (f' n').unmarked) :
    ScriptUnmarked _ (renote f) (renote f') := by
  refine twin_modify fun w w' hw => ?_
  obtain ⟨hname, hsheet, hcalls, hroots, hlabels, hnotes⟩ := Build.unmarked_eq_iff.mp hw
  exact Build.unmarked_eq_iff.mpr ⟨hname, hsheet, hcalls, hroots, hlabels, h _ _ hnotes⟩

theorem Notebook.unmarked_bind (h : n.unmarked = n'.unmarked)
    (name : Option String) (e : Expr) : (n.bind name e).unmarked = (n'.bind name e).unmarked := by
  cases name with
  | none => exact h
  | some name =>
    obtain ⟨hbound, hentries⟩ := Notebook.unmarked_eq_iff.mp h
    exact Notebook.unmarked_eq_iff.mpr ⟨congrArg ((name, e) :: ·) hbound, hentries⟩

theorem unmarked_lookup (name : String) : ScriptUnmarked _ (lookup name) (lookup name) := by
  refine twin_get.bind fun w w' hw => ?_
  obtain ⟨-, -, -, -, -, hnotes⟩ := Build.unmarked_eq_iff.mp hw
  rw [(Notebook.unmarked_eq_iff.mp hnotes).1]
  cases w'.notes.bound.lookup name with
  | none => exact twin_throw _
  | some e => exact twin_pure rfl

theorem unmarked_record (label : String) (outcome : Outcome) :
    ScriptUnmarked _ (record label outcome) (record label outcome) := by
  refine Build.unmarked_draft.holds.bind_eq fun d => unmarked_renote fun n n' hn => ?_
  obtain ⟨hbound, hentries⟩ := Notebook.unmarked_eq_iff.mp hn
  rw [Notebook.unmarked_record, Notebook.unmarked_record, hbound, hentries]

theorem unmarked_describe (e : Expr) :
    ScriptUnmarked _ (do return (← get).sheet.nodes.describe e)
      (do return (← get).sheet.nodes.describe e) := by
  refine twin_get.bind fun w w' hw => twin_pure ?_
  have hname := Sheet.name_of_unmarked (Build.unmarked_eq_iff.mp hw).2.1
  unfold Nodes.describe Nodes.label
  rw [hname e]

inductive Probe where
  | divergence (e : Expr)
  | region
  | force (e : Expr)
  | ask (heading : Heading) (name : String)
  | askRegion (heading : Heading)

def Probe.perform : Probe → Scripted Unit
  | .divergence e => do let _ ← divergenceOf e
  | .region => do let _ ← inDivergentRegion
  | .force e => emitting (.diverging (.force e.id))
  | .ask heading name => do
    if ((← get).notes.bound.lookup name).isSome then
      (Step.act heading (.query (.divergence name))).run
  | .askRegion heading => (Step.act heading (.query .region)).run

inductive Probed : List Step → Scripted Unit → Prop
  | nil : Probed [] (pure ())
  | probe (p : Probe) {steps : List Step} {x : Scripted Unit} (h : Probed steps x) :
    Probed steps (p.perform >>= fun _ => x)
  | step (step : Step) {steps : List Step} {run : Nat → Scripted Unit} {x : Scripted Unit}
    (hrun : ∀ i, Probed (step.body i) (run i)) (h : Probed steps x) :
    Probed (step :: steps) (step.runBy run >>= fun _ => x)

abbrev ScriptUnseen {α : Type} (x : Scripted α) : Prop :=
  Unseen (Workspace.unmarked Notebook.unmarked) x

theorem unseen_draft : ScriptUnseen draft := unseen_get.bind fun _ => unseen_pure _

theorem unseen_record (heading : Heading) {outcome : Outcome} (h : outcome.isDivergence = true) :
    ScriptUnseen (heading.record outcome) := by
  have hrecord : ScriptUnseen (record heading.label outcome) := by
    refine unseen_draft.bind fun d => unseen_modify fun w => ?_
    refine Build.unmarked_eq_iff.mpr ⟨rfl, rfl, rfl, rfl, rfl, ?_⟩
    rw [Notebook.unmarked_record, if_pos h]
    rfl
  cases outcome with
  | divergence mode => exact hrecord
  | region divergent wave32 kernel => exact hrecord
  | _ => cases h

theorem unseen_divergenceOf (e : Expr) : ScriptUnseen (divergenceOf e) :=
  unseen_emitting (unseen_diverging _)

theorem unseen_inDivergentRegion : ScriptUnseen inDivergentRegion :=
  unseen_emitting unseen_emitRegion

theorem unseen_askRegion (heading : Heading) :
    ScriptUnseen (Step.act heading (.query .region)).run := by
  simp only [Step.run, Action.perform, Query.perform, bind_assoc, pure_bind]
  exact unseen_inDivergentRegion.bind fun _ => (unseen_draft.bind fun _ => unseen_pure _).bind
    fun _ => unseen_get.bind fun _ => unseen_record heading rfl

theorem ask_eq (heading : Heading) {name : String} {e : Expr}
    (h : w.notes.bound.lookup name = some e) : (Step.act heading (.query (.divergence name))).run w
    = (divergenceOf e >>= fun mode => heading.record (.divergence mode)) w := by
  have hlookup : lookup name w = .ok e w := by
    simp only [lookup, bind_get, h]
    rfl
  simp only [Step.run, Action.perform, Query.perform, bind_assoc, pure_bind]
  simp only [Bind.bind, EStateM.bind, hlookup]

theorem unseen_probe (p : Probe) : ScriptUnseen p.perform := by
  cases p with
  | divergence e => exact (unseen_divergenceOf e).bind fun _ => unseen_pure _
  | region => exact unseen_inDivergentRegion.bind fun _ => unseen_pure _
  | force e => exact unseen_emitting (unseen_diverging _)
  | askRegion heading => exact unseen_askRegion heading
  | ask heading name =>
    intro w
    cases hname : w.notes.bound.lookup name with
    | none =>
      refine ⟨(), w, ?_, rfl⟩
      simp only [Probe.perform, bind_get, hname]
      rfl
    | some e =>
      have hask : ScriptUnseen (divergenceOf e >>= fun mode => heading.record (.divergence mode)) :=
        (unseen_divergenceOf e).bind fun _ => unseen_record heading rfl
      obtain ⟨_, w', hrun, hview⟩ := hask w
      refine ⟨(), w', ?_, hview⟩
      rw [← hrun, ← ask_eq heading hname]
      simp only [Probe.perform, bind_get, hname]
      rfl

theorem unmarked_askDivergence (heading : Heading) (name : String) :
    ScriptUnmarked _ (Step.act heading (.query (.divergence name))).run
      (Step.act heading (.query (.divergence name))).run := by
  simp only [Step.run, Action.perform, Query.perform, bind_assoc, pure_bind]
  refine (unmarked_lookup name).bind_eq fun e => ?_
  have hask : ScriptUnseen (divergenceOf e >>= fun mode => heading.record (.divergence mode)) :=
    (unseen_divergenceOf e).bind fun _ => unseen_record heading rfl
  exact hask.sameFor hask

instance : Scripting (Untracked ScriptUnmarked) where
  toDefinitions := definitions_of_statements Build.unmarked_register
  lookup name := unmarked_lookup name
  bindName name e := fun _ => unmarked_renote fun _ _ hn => Notebook.unmarked_bind hn name e
  enterBody := unmarked_renote fun _ _ hn => hn
  leaveBody := unmarked_renote fun _ _ hn => hn
  record label outcome := unmarked_record label outcome
  askFunction name := (unmarked_function? name).bind_eq fun _ => twin_pure rfl
  register p := (unmarked_register p).bind_eq fun _ => twin_pure rfl
  describe e := unmarked_describe e
  askDivergence heading name := unmarked_askDivergence heading name
  askRegion heading := (unseen_askRegion heading).sameFor (unseen_askRegion heading)

theorem Probed.same {steps : List Step} (h : Probed steps x) :
    ScriptUnmarked _ x (runAll steps) := by
  induction h with
  | nil =>
    rw [runAll]
    exact twin_pure rfl
  | @probe p steps x _ ih =>
    intro w w' hw
    obtain ⟨_, w₁, hrun, hview⟩ := unseen_probe p w
    have hrest := ih w₁ w' (hview.trans hw)
    simp only [Bind.bind, EStateM.bind, hrun]
    exact hrest
  | step step _ _ ihrun ih =>
    rw [runAll_cons, step.run_eq]
    have hstep : Untracked ScriptUnmarked [] _ .all _ _ _ :=
      holds_runBy (D := fun _ => []) ihrun step
        ⟨fun _ _ _ => ⟨twin_pure rfl⟩, fun name _ _ => ⟨unmarked_function? name⟩⟩
    exact hstep.bind_eq fun _ => ih

def begun (settings : Settings) (configured : Bool) (x : Scripted Unit) : Scripted Unit := do
  if configured then Build.configure settings
  x

abbrev SameOutcome (run run' : EStateM.Result Halt (Workspace Notebook) Unit) : Prop :=
  Paired (fun w w' => w.unmarked Notebook.unmarked = w'.unmarked Notebook.unmarked) Eq run run'

theorem SameOutcome.result {x' : Scripted Unit} {w' : Workspace Notebook}
    (h : SameOutcome (x w) (x' w')) : (x.result w).1 = (x'.result w').1 := by
  unfold Build.result
  cases hx : x w <;> cases hx' : x' w' <;> rw [hx, hx'] at h
  · rename_i v _ v'
    have hfinish : v.finish = v'.finish := by
      rw [← v.finish_unmarked Notebook.unmarked, h.2, v'.finish_unmarked]
    exact congrArg (Except.mapError Halt.ofFailure) hfinish
  · exact h.elim
  · exact h.elim
  · exact congrArg Except.error h.1

theorem kernel_independent_of_divergence (settings : Settings) (first : Nat) (configured : Bool)
    {steps : List Step} {x : Scripted Unit} (h : Probed steps x) :
    let start := Workspace.start settings first {}
    SameOutcome (begun settings configured x start) (program settings configured steps start) ∧
      ((begun settings configured x).result start).1 =
        ((program settings configured steps).result start).1 := by
  intro start
  have hbody : Held (Untracked ScriptUnmarked) [] [] .all x (runAll steps) := ⟨h.same⟩
  have hbegun : Untracked ScriptUnmarked [] [] .all _ (begun settings configured x)
      (begun settings configured (runAll steps)) := by
    unfold begun
    exact Tracked.holds
  have hsame := hbegun start start rfl
  exact ⟨hsame, SameOutcome.result hsame⟩

def declaring : Step := .act ⟨"var", some "v"⟩ (.value (.variableOf (.constant (.u32 [1]))))

def adding : Step := .act ⟨"add_assign", none⟩ (.command (.update .addAssign "v" (.value "i")))

def looping : Step :=
  .forRange "for_range" (.constant (.u32 [0])) (.value "v") (some "i") [adding]

def summing : List Step := [declaring, looping]

def watched : Scripted Unit := do
  declaring.runBy fun _ => pure ()
  Probe.perform (.force (.unary 2 .assign (.literal 1 (.u32 [1]))))
  looping.runBy fun i => match i with
    | 0 => do
      Probe.perform (.askRegion ⟨"region", none⟩)
      adding.runBy fun _ => pure ()
      Probe.perform (.ask ⟨"div", none⟩ "v")
      pure ()
    | _ => pure ()
  pure ()

theorem watched_probed : Probed summing watched := by
  refine .step declaring (fun _ => .nil) (.probe _ (.step looping (fun i => ?_) .nil))
  cases i with
  | zero => exact .probe _ (.step adding (fun _ => .nil) (.probe _ .nil))
  | succ i => exact .nil

theorem summing_watched :
    let start := Workspace.start .default 1 {}
    Probed summing watched ∧
      (final (begun .default false watched start)).sheet.nodes.modes.find? 2 = some .divergent ∧
      (final (program .default false summing start)).sheet.nodes.modes.find? 2 = some .uniform ∧
      ((program .default false summing).result start).1.toOption.isSome ∧
      SameOutcome (begun .default false watched start) (program .default false summing start) ∧
      ((begun .default false watched).result start).1 =
        ((program .default false summing).result start).1 := by
  intro start
  have hmarked : (final (begun .default false watched start)).sheet.nodes.modes.find? 2 =
      some .divergent := by decide +kernel
  have hplain : (final (program .default false summing start)).sheet.nodes.modes.find? 2 =
      some .uniform := by decide +kernel
  have hkernel : ((program .default false summing).result start).1.toOption.isSome := by
    decide +kernel
  exact ⟨watched_probed, hmarked, hplain, hkernel,
    kernel_independent_of_divergence .default 1 false watched_probed⟩

end Script

end ComputeKernel
