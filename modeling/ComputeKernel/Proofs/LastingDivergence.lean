import ComputeKernel.Proofs.BuildHistory

namespace ComputeKernel

structure Workspace.Remains {ν : Type} (base : List Expr) (first : IdTable Divergence)
    (w w' : Workspace ν) : Prop where
  sheet : Lasts base first w.sheet w'.sheet
  roots : ∃ emitted, w'.roots = w.roots ++ emitted ∧
    (base <+: w.sheet.draft.scopes.conditions → Answered base first w.sheet.nodes.modes →
      ∀ e ∈ emitted, w'.sheet.nodes.modes.find? e.id = some .divergent)

section Regions

variable {base : List Expr} {first : IdTable Divergence} {s s' : Sheet} {α : Type}

theorem Lasts.of_same (h : s'.draft.scopes.stack.conditions = s.draft.scopes.stack.conditions)
    (hmodes : s'.nodes.modes = s.nodes.modes) : Lasts base first s s' :=
  ⟨h ▸ List.suffix_rfl, .of_eq hmodes, fun _ hs => by rwa [hmodes]⟩

theorem lasts_making {x : Making α} (h : Keeps Nodes.modes x) :
    Moves (Lasts base first) (Emit.making x) := fun s =>
  ensures_making ((h s.nodes).mono (fun _ _ h => .of_same rfl h) fun _ h => .of_same rfl h)

theorem lasts_emitValue (e : Expr) : Moves (Lasts base first) (Build.emitValue e) := by
  refine (e.emit_lasts base first).onward fun _ s => .bind (ensures_ok (inDivergentRegion_run s) ?_)
  split
  · exact Lasts.of_asked (keepsMarks_force e.id)
  · exact Lasts.of_asked (.of_eq rfl)

theorem mark_of_emitValue {e : Expr} (h : Answered base first s.nodes.modes)
    (hbase : base <+: s.draft.scopes.conditions) (hrun : Build.emitValue e s = .ok () s') :
    s'.nodes.modes.find? e.id = some .divergent := by
  have hemit : Ensures (Build.emitValue e) s
      (fun _ s' => s'.nodes.modes.find? e.id = some .divergent) fun _ => True := by
    refine .bind ((e.emit_lasts base first s).mono (fun _ s₁ h₁ => ?_) fun _ _ => trivial)
    obtain ⟨hinside, -⟩ := (h₁.answered hbase h).region
      (hbase.trans (conditions_of_suffix h₁.stack))
    refine .bind (ensures_ok (inDivergentRegion_run s₁) ?_)
    rw [hinside]
    show IdTable.find? (IdTable.insert _ e.id Divergence.divergent) e.id = _
    rw [IdTable.find?_insert, if_pos rfl]
  exact hemit.of_ok hrun

end Regions

section Workspaces

variable {ν : Type} {base : List Expr} {first : IdTable Divergence} {w w' w'' : Workspace ν}

theorem Workspace.Remains.of_sheet (h : Lasts base first w.sheet w'.sheet) (hroots : w'.roots = w.roots) :
    w.Remains base first w' := ⟨h, [], by rw [hroots, List.append_nil], by simp⟩

theorem Workspace.Remains.trans (h : w.Remains base first w') (h' : w'.Remains base first w'') :
    w.Remains base first w'' := by
  obtain ⟨emitted, hroots, hmarks⟩ := h.roots
  obtain ⟨later, hroots', hmarks'⟩ := h'.roots
  refine ⟨h.sheet.trans h'.sheet, emitted ++ later, by rw [hroots', hroots, List.append_assoc],
    fun hbase hs e he => ?_⟩
  rcases List.mem_append.mp he with he | he
  · exact h'.sheet.marks _ (hmarks hbase hs e he)
  · exact hmarks' (hbase.trans (conditions_of_suffix h.sheet.stack)) (h.sheet.answered hbase hs) e he

end Workspaces

namespace Script

open Build Scripted Bears

class Endures {α : Type} (x : Scripted α) : Prop where
  moves (base : List Expr) (first : IdTable Divergence) : Moves (Workspace.Remains base first) x

class Yields {α : Type} [Bears α] (x : Scripted α) : Prop extends Endures x where
  emits (w : Workspace Notebook) : Ensures x w (fun a w' => ∃ emitted, w'.roots = w.roots ++ emitted ∧
    ∀ e, .value e ∈ items a → e ∈ emitted) fun _ => True

section Endures

variable {α β : Type}

theorem endures_aside {x : Scripted α} (h : Keeps (fun w => (w.sheet, w.roots)) x) : Endures x where
  moves base first w := by
    have hsame {w' : Workspace Notebook} (hw : (w'.sheet, w'.roots) = (w.sheet, w.roots)) :
        w.Remains base first w' := by
      obtain ⟨hsheet, hroots⟩ := Prod.mk.inj hw
      exact .of_sheet (hsheet ▸ .of_same rfl rfl) hroots
    exact (h w).mono (fun _ _ => hsame) fun _ => hsame

instance (a : α) : Endures (pure a : Scripted α) := endures_aside (keeps_pure a)

instance (halt : Halt) : Endures (throw halt : Scripted α) := endures_aside (keeps_throw halt)

instance (fault : Fault) : Endures (fatal fault : Scripted α) := endures_aside (keeps_throw _)

instance endures_bind (x : Scripted α) (f : α → Scripted β) [hx : Endures x] [hf : ∀ a, Endures (f a)] :
    Endures (x >>= f) :=
  ⟨fun base first => .bind .trans (hx.moves base first) fun a => (hf a).moves base first⟩

instance (p : Prop) [Decidable p] (x y : Scripted α) [hx : Endures x] [hy : Endures y] :
    Endures (if p then x else y) := by
  split
  · exact hx
  · exact hy

theorem Endures.after {x : Scripted α} {f : α → Scripted β} [Endures x] (hf : ∀ a, Endures (f a)) :
    Endures (x >>= f) := inferInstance

instance {γ : Type} (f : γ → Scripted α) (cs : List γ) [hf : ∀ c, Endures (f c)] :
    Endures (cs.mapM f) := by
  induction cs with
  | nil => rw [List.mapM_nil]; infer_instance
  | cons c cs ih => rw [List.mapM_cons]; infer_instance

instance (r : Except Fault α) : Endures (must r : Scripted α) := by
  cases r <;> unfold must <;> infer_instance

instance (x : Described α) : Endures (given x) := by cases x <;> unfold given <;> infer_instance

instance (name : String) : Endures (lookup name) :=
  endures_aside fun _ => ensures_lookup (fun _ _ => rfl) rfl

instance (ref : Ref) : Endures ref.operand := by cases ref <;> unfold Ref.operand <;> infer_instance

instance (e : Expr) : Endures (nameOf e : Scripted Spelling) := endures_aside fun _ => rfl

instance (b : Builtin) : Endures (builtin b : Scripted Prototype) := endures_aside fun _ => rfl

instance (name : String) : Endures (function? name : Scripted (Option Prototype)) :=
  endures_aside fun _ => rfl

theorem endures_attempt {x : Emit α} (h : ∀ base first, Moves (Lasts base first) x) :
    Endures (attempt x : Scripted _) where
  moves base first w := ensures_attempt
    (fun _ _ he => .of_sheet ((h base first w.sheet).of_ok he) rfl)
    fun _ _ he => .of_sheet ((h base first w.sheet).of_error he) rfl

theorem endures_emitting {x : Emit α} (h : ∀ base first, Moves (Lasts base first) x) :
    Endures (emitting x : Scripted _) :=
  have := endures_attempt h
  endures_bind (attempt x) must

theorem endures_drafting {x : Drafting α} (h : Keeps Draft.bodies x) : Endures (drafting x : Scripted _) :=
  endures_emitting fun _ _ => (still_drafting h).moves

theorem endures_redraft {f : Draft → Draft} (h : ∀ d, (f d).bodies = d.bodies) :
    Endures (redraft f : Scripted _) :=
  endures_emitting fun _ _ => Still.moves fun s => congrArg (·, s.nodes.modes, s.nodes.next) (h s.draft)

instance (e : Expr) : Endures (typeOf e : Scripted Ty) :=
  endures_emitting fun _ _ => (still_typing _).moves

instance (mk : Nat → Expr) : Endures (node mk : Scripted Expr) :=
  endures_emitting fun _ _ => lasts_making fun _ => rfl

instance (l : Literal) : Endures (making (.literal l) : Scripted Expr) :=
  endures_emitting fun _ _ => lasts_making (@Session.forms_literal [] l).keeps_modes

instance (elem : Ty) (length : UInt32) (init : List Literal) :
    Endures (making (.array elem length init) : Scripted Expr) :=
  endures_emitting fun _ _ => lasts_making (@Session.forms_array [] elem length init).keeps_modes

instance (e : Expr) (name : String) : Endures (emitting (.rename e.id (.word name)) : Scripted Unit) :=
  endures_emitting fun _ _ => (still_rename e.id (.word name)).moves

instance (name : String) (ty : Ty) : Endures (drafting (.addShared name ty) : Scripted Unit) :=
  endures_drafting (keeps_addShared (fun _ _ _ => rfl) (fun _ _ => rfl) name ty)

instance (line : Line) : Endures (writeLine line : Scripted Unit) :=
  endures_redraft fun d => bodies_write d line

instance (o : Operand) : Endures (operand o : Scripted Expr) := by
  cases o <;> unfold operand <;> infer_instance

instance (e : Expr) : Yields (tryEmit e : Scripted _) where
  moves base first w := by
    refine .bind (ensures_attempt (fun _ s h => ?_) fun fault s h => ?_)
    · refine ⟨(lasts_emitValue e w.sheet).of_ok h, [e], rfl, fun hbase hs d hd => ?_⟩
      rw [List.mem_singleton.mp hd]
      exact mark_of_emitValue hs hbase h
    · exact Workspace.Remains.of_sheet ((lasts_emitValue e w.sheet).of_error h) rfl
  emits w := .bind (ensures_attempt (fun _ _ _ => ⟨[e], rfl, by simp [items, Except.toOption]⟩)
    fun _ _ _ => ⟨[], by simp, by simp [items, Except.toOption]⟩)

end Endures

section Yields

variable {α β : Type} [Bears α] [Bears β]

instance yields_bind (x : Scripted α) (f : α → Scripted β) [hx : Endures x]
    [hf : ∀ a, Yields (f a)] : Yields (x >>= f) where
  emits w := by
    refine .bind ((hx.moves [] {} w).mono (fun a w₁ h₁ => ?_) fun _ _ => trivial)
    obtain ⟨before, hroots, -⟩ := h₁.roots
    refine ((hf a).emits w₁).imp fun b w₂ h₂ => ?_
    obtain ⟨emitted, hroots', hitems⟩ := h₂
    exact ⟨before ++ emitted, by rw [hroots', hroots, List.append_assoc], fun e he =>
      List.mem_append_right _ (hitems e he)⟩

omit [Bears α] in
theorem Yields.after {x : Scripted α} {f : α → Scripted β} [Endures x] (hf : ∀ a, Yields (f a)) :
    Yields (x >>= f) := inferInstance

omit [Bears α] [Bears β] in
theorem ensures_last {x : Scripted α} {f : α → Scripted β} {done : β → Workspace Notebook → Prop}
    {w : Workspace Notebook} (h : ∀ a w, Ensures (f a) w done fun _ => True) :
    Ensures (x >>= f) w done fun _ => True :=
  .bind (ensures_any h fun _ => trivial)

theorem Yields.keep {x : Scripted α} (hx : Yields x) {f : α → Scripted β} (hf : ∀ a, Endures (f a))
    (hsame : ∀ a w, Ensures (f a) w
      (fun b _ => ∀ e, Item.value e ∈ items b → .value e ∈ items a) fun _ => True) :
    Yields (x >>= f) where
  emits w := by
    refine .bind ((hx.emits w).imp fun a w₁ h₁ => ?_)
    obtain ⟨emitted, hroots, hitems⟩ := h₁
    refine (((hf a).moves [] {} w₁).and (hsame a w₁)).mono (fun b w₂ h₂ => ?_) fun _ _ => trivial
    obtain ⟨⟨-, after, hroots', -⟩, hb⟩ := h₂
    exact ⟨emitted ++ after, by rw [hroots', hroots, List.append_assoc], fun e he =>
      List.mem_append_left _ (hitems e (hb e he))⟩

instance (p : Prop) [Decidable p] (x y : Scripted α) [hx : Yields x] [hy : Yields y] :
    Yields (if p then x else y) := by
  split
  · exact hx
  · exact hy

instance (fault : Fault) : Yields (fatal fault : Scripted α) := ⟨fun _ => trivial⟩

instance (x : Scripted (Except Fault Expr)) [hx : Yields x] : Yields (x >>= must) :=
  hx.keep (fun _ => inferInstance) fun r w => by
    cases r with
    | ok e => exact ensures_pure fun _ h => h
    | error fault => exact ensures_throw trivial

variable (e : Expr) (o o' : Operand) (name : String)

instance : Yields (emit e) := by unfold emit; infer_instance

instance : Yields (emitOperand o) := by unfold emitOperand; infer_instance

instance (l : Literal) : Yields (constant l) := by unfold constant; infer_instance

instance : Yields (variableOf o) := by unfold variableOf; infer_instance

instance : Yields (copy e) := by unfold copy; infer_instance

instance (ty : Ty) : Yields (zero ty) := by unfold zero; infer_instance

instance (ty : Ty) : Yields (zeroed ty) := by unfold zeroed; infer_instance

instance (i : Input) : Yields (input i) := by unfold input; infer_instance

instance (res : Resource) : Yields (resource res) := by unfold resource; infer_instance

instance : Yields (select e o o') := by unfold select; infer_instance

instance (elem : Ty) (count : UInt32) : Yields (sharedStorage name elem count) := by
  unfold sharedStorage; infer_instance

instance (values : List Literal) : Yields (arrayOf values) := by
  cases values <;> unfold arrayOf <;> infer_instance

instance (elem : Ty) (length : UInt32) : Yields (localArray elem length) := by
  unfold localArray; infer_instance

instance (op : Op) : Yields (binary op o o') := by unfold binary; infer_instance

instance (op : Op) : Yields (unary op e) := by unfold unary; infer_instance

instance : Yields (negate e) := by unfold negate; infer_instance

instance : Yields (complement e) := by unfold complement; infer_instance

instance : Yields (assign e o) := by unfold assign; infer_instance

instance : Yields (named e name) := by unfold named; infer_instance

instance : Yields (trySwizzle e name) := by
  have : Endures (attempt (.making (.swizzle e name)) : Scripted _) := endures_attempt fun _ _ =>
    lasts_making (Session.forms_swizzle name (List.mem_singleton_self e)).keeps_modes
  refine .after (x := attempt (.making (.swizzle e name))) fun r => ?_
  cases r with
  | ok part => exact inferInstanceAs (Yields (tryEmit part))
  | error fault => exact ⟨fun w => ⟨[], by simp, by simp [items, Except.toOption]⟩⟩

instance : Yields (swizzle e name) := by unfold swizzle; infer_instance

instance : Yields (tryField e name) := by unfold tryField; infer_instance

instance : Yields (field e name) := by unfold field; infer_instance

instance (index : UInt32) : Yields (element e index) := by unfold element; infer_instance

instance : Yields (elementAt e o) := by unfold elementAt; infer_instance

instance : Yields (part e name) := by unfold part; infer_instance

instance : Yields (setPart e name o) := by unfold setPart; infer_instance

instance (b : Builtin) (args : List Expr) : Yields (apply b args) := by
  unfold apply; infer_instance

instance (index : Expr) : Yields (Build.read e index) := by unfold Build.read; infer_instance

instance : Yields (load e o) := by unfold load; infer_instance

instance (b : Builtin) (es : List Expr) (os : List Operand) : Yields (applyTo b es os) := by
  unfold applyTo; infer_instance

instance (p : Prototype) (args : List Expr) : Yields (tryCall p args) := by
  unfold tryCall; infer_instance

instance (p : Prototype) (args : List Expr) : Yields (call p args) := by
  unfold call; infer_instance

instance (args : List Expr) : Yields (callNamed name args) := by
  refine .after (x := function? name) fun p => ?_
  cases p with
  | some p => exact inferInstanceAs (Yields (call p args))
  | none => exact inferInstanceAs (Yields (fatal _))

section Snippets

instance : Yields (packHalves e) := by unfold packHalves; infer_instance

instance : Yields (luminance e) := by unfold luminance; infer_instance

instance : Yields (signNotZero e) := by unfold signNotZero; infer_instance

instance : Yields (encodeOctahedral e) := by
  unfold encodeOctahedral
  repeat with_reducible refine .after fun _ => ?_
  infer_instance

instance : Yields (decodeOctahedral e) := by
  unfold decodeOctahedral
  repeat with_reducible refine .after fun _ => ?_
  infer_instance

instance : Yields (encodeOctahedralBytes e) := by unfold encodeOctahedralBytes; infer_instance

instance : Yields (decodeOctahedralBytes e) := by
  unfold decodeOctahedralBytes
  repeat with_reducible refine .after fun _ => ?_
  infer_instance

instance : Yields (unpackHalves e) := by
  have : Yields (zeroed .f16x2) := inferInstance
  unfold unpackHalves
  iterate 5 refine .after fun _ => ?_
  exact this.keep (fun _ => inferInstance) fun out w => ensures_last fun _ _ => ensures_last fun _ _ =>
    ensures_last fun _ _ => ensures_last fun _ _ => ensures_pure fun _ h => h

instance (s : Snippet) : Yields (s.build e) := by
  cases s <;> unfold Snippet.build <;> infer_instance

end Snippets

section Blocks

instance (condition : Option Expr) (body : Scripted Unit) [h : Endures body] :
    Endures (inScope condition body) where
  moves base first w := by
    have henter : w.Remains base first (w.redraft (·.enterScope condition)) :=
      .of_sheet (lasts_enterScope condition w.sheet) rfl
    have hprefix := conditions_of_suffix henter.sheet.stack
    refine .bind (Build.ensures_redraft (.bind ((h.moves base first _).mono (fun _ w₁ h₁ => ?_)
      fun w₁ h₁ => ?_)))
    · obtain ⟨emitted, hroots, hmarks⟩ := h₁.roots
      have hleave {draft : Draft} (hsheet : Lasts base first w.sheet { w₁.sheet with draft }) :
          w.Remains base first { w₁ with sheet := { w₁.sheet with draft } } :=
        ⟨hsheet, emitted, hroots, fun hbase hs => hmarks (hbase.trans hprefix) hs⟩
      exact Build.ensures_drafting (h₁.sheet.exitScope.mono (fun _ _ => hleave) fun _ => hleave)
    · exact henter.trans h₁

instance : Endures (breakLoop : Scripted Unit) := by
  have : Endures (drafting (.checkBreak "break") : Scripted Unit) := endures_drafting (keeps_checkBreak _)
  unfold breakLoop; infer_instance

instance (cond : Expr) : Endures (checkCondition cond : Scripted Unit) := by
  unfold checkCondition; infer_instance

instance (cond : Expr) (body : Scripted Unit) [Endures body] : Endures (laneIf cond body) := by
  unfold laneIf; infer_instance

instance (cond : Expr) (body other : Scripted Unit) [Endures body] [Endures other] :
    Endures (laneIfElse cond body other) := by
  unfold laneIfElse; infer_instance

instance endures_laneWhile (body : Scripted Unit) [Endures body] : Endures (laneWhile body) := by
  have : Endures (redraft (·.pushTarget .loop) : Scripted Unit) := endures_redraft fun _ => rfl
  have : Endures (drafting .popTarget : Scripted BreakTarget) :=
    endures_drafting (keeps_popTarget fun _ _ => rfl)
  unfold laneWhile loopBody; infer_instance

instance (buffer count key : Expr) : Yields (binarySearch buffer count key) := by
  unfold binarySearch
  refine .after fun z => .keep (x := copy z) inferInstance (fun low => .after fun high => ?_) fun low w =>
    ensures_last fun _ _ => ensures_last fun _ _ => ensures_pure fun _ h => h
  refine @endures_bind _ _ _ _ (@endures_laneWhile _ ?_) inferInstance
  repeat with_reducible refine .after fun _ => ?_
  infer_instance

theorem yields_value {a : ValueAction} (h : a ≠ .currentMask) : Yields a.perform := by
  cases a with
  | currentMask => exact absurd rfl h
  | _ => unfold ValueAction.perform; infer_instance

instance (e : Expr) : Endures (describeValue e) := by unfold describeValue; infer_instance

instance (r : Except Fault Expr) : Endures (survive r) := by
  cases r <;> unfold survive <;> infer_instance

instance (x : Scripted Expr) [hx : Yields x] : Yields (x >>= describeValue) :=
  hx.keep (fun _ => inferInstance) fun _ _ => ensures_last fun _ _ => ensures_last fun _ _ =>
    ensures_pure fun _ h => h

instance (x : Scripted (Except Fault Expr)) [hx : Yields x] : Yields (x >>= survive) :=
  hx.keep (fun _ => inferInstance) fun r w => by
    cases r with
    | ok e => exact ensures_last fun _ _ => ensures_last fun _ _ => ensures_pure fun _ h => h
    | error fault => exact ensures_pure fun _ h => h

theorem yields_attempt (a : TryAction) : Yields a.perform := by
  cases a with
  | callNamed name args =>
    refine .after (x := function? name) fun p => ?_
    cases p with
    | some p => exact inferInstanceAs (Yields (do survive (← tryCall p (← args.mapM lookup))))
    | none => exact ⟨fun _ => ⟨[], by simp, by simp [items]⟩⟩
  | _ => unfold TryAction.perform; infer_instance

theorem endures_command (c : Command) : Endures c.perform := by
  have : Endures (continueLoop : Scripted Unit) := by
    have : Endures (drafting .checkContinue : Scripted Unit) := endures_drafting keeps_checkContinue
    unfold continueLoop; infer_instance
  have : Endures (groupSync : Scripted Unit) := by
    have : Endures (redraft Draft.noteSync : Scripted Unit) := endures_redraft fun _ => rfl
    unfold groupSync; infer_instance
  have (text : String) : Endures (writeHeader text : Scripted Unit) := endures_redraft fun _ => rfl
  have : Endures (enableWave32 : Scripted Unit) := by
    have (seed : Expr) : Endures (redraft (·.enableWave32 seed) : Scripted Unit) :=
      endures_redraft fun _ => rfl
    unfold enableWave32; infer_instance
  cases c <;> unfold Command.perform <;> try infer_instance
  · unfold store Build.write; infer_instance
  · unfold Build.write; infer_instance
  · unfold returnVoid; infer_instance
  · unfold returnValue; infer_instance

end Blocks

end Yields

section Assignments

variable {w w' : Workspace Notebook} {s s' : Sheet} {e target : Expr} {op : Op} {o : Operand} {α : Type}

def Marked (s : Sheet) (e : Expr) : Prop := s.nodes.modes.find? e.id = some .divergent

def Fresh (s : Sheet) : Prop := ∀ id ∈ s.draft.scopes.visible, id < s.nodes.next

def MarksStorage (whole : Bool) (target : Expr) (w : Workspace Notebook) : Prop :=
  ∃ t, t.lvalueRoot = target.lvalueRoot ∧ (whole = true → t = target) ∧ Marked w.sheet t ∧
    Marked w.sheet t.lvalueRoot

theorem ensures_of_run {x : Scripted α} {done : α → Workspace Notebook → Prop}
    (h : ∀ a w', x w = .ok a w' → done a w') :
    Ensures x w done fun _ => True := by
  unfold Ensures
  split
  · exact h _ _ ‹_›
  · trivial

theorem Marked.reports (h : Marked s e) : s.reports e = .divergent := Expr.divergence_of_mark h

theorem Marked.for_good (h : Marked w.sheet e) {x : Scripted α} (hx : Built α x) :
    (final (x w)).sheet.reports e = .divergent :=
  Marked.reports ((hx.leading w).final.marks e.id h)

theorem fresh_of_sound {dag : Dag} (h : Sound dag s) : Fresh s := by
  intro id hid
  obtain ⟨e, he, rfl⟩ := h.node id hid
  exact h.numbered e he

theorem emitValue_of_emit {d : Expr} (h : emit e w = .ok d w') :
    emitValue e w.sheet = .ok () w'.sheet := by
  have hemit : Ensures (emit e) w (fun _ w' => emitValue e w.sheet = .ok () w'.sheet) fun _ => True :=
    .bind (.bind (ensures_attempt (fun _ _ h => h) fun _ _ _ => trivial))
  exact hemit.of_ok h

theorem marks_of_emitted {id : Nat} {value : Expr} (hop : op.isAssign = true)
    (hidden : ¬s.draft.scopes.isVisible id = true) (hregion : s.region = .divergent)
    (h : emitValue (.binary id op target value) s = .ok () s') :
    Marked s' target ∧ Marked s' target.lvalueRoot := by
  obtain ⟨_, t, hwritten, hrest⟩ := exists_of_bind_ok h
  have hmoves : Moves Sheet.Marks (do
      if ← Emit.inDivergentRegion then Emit.diverging (.force id)) :=
    Writing.ask.onward fun divergent => by
      cases divergent with
      | false => exact Still.moves (keeps_pure _)
      | true => exact Writing.force _
  have hkeeps := (hmoves t).of_ok hrest
  obtain ⟨htarget, hroot⟩ := marks_of_assign hop hidden hregion hwritten
  exact ⟨hkeeps _ htarget, hkeeps _ hroot⟩

theorem marks_of_binary (hfresh : Fresh w.sheet) (hregion : w.sheet.region = .divergent)
    (hop : op.isAssign = true) (h : Build.binary op target o w = .ok e w') :
    Marked w'.sheet target ∧ Marked w'.sheet target.lvalueRoot := by
  have hoperand : Ensures (operand o) w (fun _ w₁ => w₁.sheet.draft = w.sheet.draft ∧
      w₁.sheet.nodes.modes = w.sheet.nodes.modes ∧ w.sheet.nodes.next ≤ w₁.sheet.nodes.next)
      fun _ => True := by
    cases o with
    | value v => exact ensures_pure ⟨rfl, rfl, Nat.le_refl _⟩
    | constant l =>
      refine Build.ensures_making ((ensures_literal l _).mono (fun v n hn => ?_) fun _ _ => trivial)
      rw [hn.2]
      exact ⟨rfl, rfl, Nat.le_succ _⟩
  obtain ⟨value, w₁, hvalue, hrest⟩ := exists_of_bind_ok (x := operand o) h
  obtain ⟨hdraft, hmodes, hnext⟩ := hoperand.of_ok hvalue
  let w₂ : Workspace Notebook :=
    { w₁ with sheet := { w₁.sheet with nodes := { w₁.sheet.nodes with next := w₁.sheet.nodes.next + 1 } } }
  have hemit : emit (.binary w₁.sheet.nodes.next op target value) w₂ = .ok e w' := hrest
  have hregion₂ : w₂.sheet.region = .divergent := by
    rw [← hregion]
    simp only [Sheet.region, w₂, hdraft, hmodes]
  have hidden : ¬w₂.sheet.draft.scopes.isVisible w₁.sheet.nodes.next = true := by
    rw [Scopes.isVisible_iff]
    intro hvisible
    exact absurd (hfresh _ (hdraft ▸ hvisible)) (Nat.not_lt.mpr hnext)
  exact marks_of_emitted hop hidden hregion₂ (emitValue_of_emit hemit)

theorem Endures.region {x : Scripted α} (hx : Endures x) {a : α} (hregion : w.sheet.region = .divergent)
    (h : x w = .ok a w') : w'.sheet.region = .divergent := by
  have hlasts := ((hx.moves w.sheet.draft.scopes.conditions w.sheet.nodes.modes w).of_ok h).sheet
  exact ((hlasts.answered List.prefix_rfl (.inl ⟨rfl, hregion⟩)).region
    (conditions_of_suffix hlasts.stack)).1

theorem marks_of_part {x : Scripted Expr} [hx : Endures x] (hregion : w.sheet.region = .divergent)
    (hroot : Ensures x w (fun t _ => t.lvalueRoot = target.lvalueRoot) fun _ => True)
    (hfresh : ∀ t w', x w = .ok t w' → Fresh w'.sheet) :
    Ensures (do assign (← x) o) w (fun _ w' => MarksStorage false target w') fun _ => True := by
  refine .bind (ensures_of_run fun t w₁ hrun => ensures_of_run fun e w₂ hassign => ?_)
  exact ⟨t, hroot.of_ok hrun, by simp,
    marks_of_binary (hfresh t w₁ hrun) (hx.region hregion hrun) rfl hassign⟩

theorem ensures_tryEmit {done : Except Fault Expr → Workspace Notebook → Prop}
    {failed : Workspace Notebook → Prop} (h : ∀ r w', (∀ d ∈ r.toOption, d = e) → done r w') :
    Ensures (tryEmit e) w done failed :=
  .bind (ensures_attempt (fun _ _ _ => h _ _ (by simp [Except.toOption]))
    fun _ _ _ => h _ _ (by simp [Except.toOption]))

theorem ensures_must_root {r : Except Fault Expr} (h : ∀ d ∈ r.toOption, d.lvalueRoot = e.lvalueRoot) :
    Ensures (must r) w (fun t _ => t.lvalueRoot = e.lvalueRoot) fun _ => True := by
  cases r with
  | ok d => exact ensures_pure (h d rfl)
  | error fault => exact ensures_throw trivial

theorem root_of_part (e : Expr) (name : String) (w : Workspace Notebook) :
    Ensures (part e name) w (fun t _ => t.lvalueRoot = e.lvalueRoot) fun _ => True := by
  refine ensures_last fun ty w => ensures_ite (fun _ => ?_) fun _ => ?_
  · exact .bind (.bind (Build.ensures_node (ensures_tryEmit fun r _ hr =>
      ensures_must_root fun d hd => by rw [hr d hd]; rfl)))
  · refine .bind (.bind (ensures_attempt (fun t s h => ?_) fun _ _ _ => trivial))
    have hswizzle : Ensures (Emit.making (.swizzle e name)) w.sheet
        (fun t _ => t.lvalueRoot = e.lvalueRoot) fun _ => True :=
      ComputeKernel.ensures_making (.bind (ensures_makingTyping (ensures_any (fun _ _ => ensures_ite
        (fun _ => .bind (ensures_throw trivial)) fun _ => .bind (ensures_orFault
          (fun _ _ => ensures_newNode rfl) fun _ _ => trivial)) fun _ => trivial)))
    exact ensures_tryEmit fun r _ hr => ensures_must_root fun d hd => by
      rw [hr d hd]; exact hswizzle.of_ok h

theorem root_of_elementAt (e : Expr) (i : Operand) (w : Workspace Notebook) :
    Ensures (elementAt e i) w (fun t _ => t.lvalueRoot = e.lvalueRoot) fun _ => True :=
  ensures_last fun _ _ => .bind (Build.ensures_node (.bind (ensures_tryEmit fun r _ hr =>
    ensures_must_root fun d hd => by rw [hr d hd]; rfl)))

inductive Assigns (w : Workspace Notebook) : Action → Bool → Expr → Prop
  | update {op : Op} {name : String} {o : Ref} {target : Expr} : op.isAssign = true →
    w.notes.bound.lookup name = some target → Assigns w (.command (.update op name o)) true target
  | binary {op : Op} {name : String} {o : Ref} {target : Expr} : op.isAssign = true →
    w.notes.bound.lookup name = some target → Assigns w (.value (.binary op (.value name) o)) true target
  | part {name part : String} {o : Ref} {target : Expr} :
    w.notes.bound.lookup name = some target → Assigns w (.value (.setPart name part o)) false target
  | element {name : String} {index o : Ref} {target : Expr} :
    w.notes.bound.lookup name = some target →
    (∀ ty w', typeOf target w = .ok ty w' → ty.isResource = false) →
    Assigns w (.command (.store name index o)) false target

section Ensures

variable {β : Type} {x : Scripted α} {done : β → Workspace Notebook → Prop}

theorem lookup_run {name : String} (h : w.notes.bound.lookup name = some e) :
    lookup name w = .ok e w := by
  unfold lookup
  rw [run_bind_ok (x := get) rfl, h]
  rfl

theorem ensures_operand {ref : Ref} {f : Operand → Scripted β}
    (h : ∀ o, ref.operand w = .ok o w → Ensures (f o) w done fun _ => True) :
    Ensures (ref.operand >>= f) w done fun _ => True := by
  have hsame : Ensures ref.operand w (fun _ w' => w' = w) fun _ => True := by
    cases ref with
    | value name => exact .bind (ensures_lookup (fun _ _ => ensures_pure rfl) trivial)
    | constant l => exact ensures_pure rfl
  refine .bind (ensures_of_run fun o w' hrun => ?_)
  obtain rfl := hsame.of_ok hrun
  exact h o hrun

end Ensures

theorem fresh_of_value {dag : Dag} (hs : Sound dag w.sheet)
    (hheld : ∀ f ∈ w.notes.held.map Fact.known, f.Holds dag w.sheet) {a : ValueAction}
    (h : a.perform w = .ok e w') : Fresh w'.sheet := by
  have hlawful : Lawful Notebook.held .growing [] a.perform fun e => [.known e] := lawful_value a
  obtain ⟨_, hadvance, -⟩ := (hlawful dag w hs (by simpa using hheld)).of_ok h
  exact fresh_of_sound hadvance.sound

theorem Marked.kept {x : Scripted α} [hx : Endures x] {a : α} (h : Marked w.sheet e)
    (hrun : x w = .ok a w') : Marked w'.sheet e :=
  ((hx.moves [] {} w).of_ok hrun).sheet.marks e.id h

theorem MarksStorage.kept {x : Scripted α} [Endures x] {a : α} {whole : Bool}
    (h : MarksStorage whole target w) (hrun : x w = .ok a w') : MarksStorage whole target w' := by
  obtain ⟨t, hsame, hwhole, htarget, hroot⟩ := h
  exact ⟨t, hsame, hwhole, htarget.kept hrun, hroot.kept hrun⟩

theorem Assigns.marks {dag : Dag} (hs : Sound dag w.sheet)
    (hheld : ∀ f ∈ w.notes.held.map Fact.known, f.Holds dag w.sheet)
    (hregion : w.sheet.region = .divergent) {action : Action} {whole : Bool}
    (h : Assigns w action whole target) :
    Ensures action.perform w (fun _ w' => MarksStorage whole target w') fun _ => True := by
  have hfresh := fresh_of_sound hs
  cases h with
  | update hop hbound =>
    refine .bind (.bind (ensures_ok (lookup_run hbound) (ensures_operand fun o _ => .bind ?_)))
    exact ensures_of_run fun e w₁ hrun =>
      ⟨target, rfl, fun _ => rfl, marks_of_binary hfresh hregion hop hrun⟩
  | binary hop hbound =>
    refine .bind (.bind (.bind (ensures_ok (lookup_run hbound) (ensures_operand fun o _ => ?_))))
    refine ensures_of_run fun e w₁ hrun => ensures_of_run fun _ _ hdescribe => ?_
    exact MarksStorage.kept ⟨target, rfl, fun _ => rfl, marks_of_binary hfresh hregion hop hrun⟩ hdescribe
  | @part name lanes _ target hbound =>
    refine .bind (.bind (ensures_ok (lookup_run hbound) (ensures_operand fun o _ => ?_)))
    refine (marks_of_part hregion (root_of_part target lanes w) fun t w' hpart => ?_).imp fun e w₁ hstorage =>
      ensures_of_run fun _ _ hdescribe => hstorage.kept hdescribe
    exact fresh_of_value hs hheld (a := .part name lanes) ((run_bind_ok (lookup_run hbound)).trans hpart)
  | @element name index _ target hbound hplain =>
    refine .bind (.bind (ensures_ok (lookup_run hbound) (ensures_operand fun i hi =>
      ensures_operand fun o _ => .bind (ensures_of_run fun ty w₁ hty => ?_))))
    have hty' : ¬ty.isResource = true := by simp [hplain ty w₁ hty]
    have hregion₁ : w₁.sheet.region = .divergent := Endures.region inferInstance hregion hty
    have hmarks := marks_of_part (o := o) hregion₁ (root_of_elementAt target i w₁) fun t w' helement => by
      refine fresh_of_value hs hheld (a := .load name index) (e := t) ?_
      refine (run_bind_ok (lookup_run hbound)).trans ((run_bind_ok hi).trans ((run_bind_ok hty).trans ?_))
      rwa [if_neg hty']
    rw [if_neg hty']
    refine .bind (ensures_of_run fun t w₂ hrun => .bind (ensures_of_run fun e w₃ hassign => ?_))
    exact hmarks.of_ok ((run_bind_ok hrun).trans hassign)

end Assignments

section Steps

variable {w w' : Workspace Notebook} {α : Type}

def Emits (x : Scripted α) (values : α → List Item) (w : Workspace Notebook) : Prop :=
  Ensures x w (fun a w' => ∃ emitted, w'.roots = w.roots ++ emitted ∧
    (∀ e, .value e ∈ values a → e ∈ emitted) ∧
    (w.sheet.region = .divergent → ∀ e ∈ emitted, Marked w'.sheet e)) fun _ => True

theorem Endures.emits {x : Scripted α} (hx : Endures x) (w : Workspace Notebook) :
    Emits x (fun _ => []) w := by
  refine (hx.moves w.sheet.draft.scopes.conditions w.sheet.nodes.modes w).mono (fun _ w' h => ?_)
    fun _ _ => trivial
  obtain ⟨emitted, hroots, hmarks⟩ := h.roots
  exact ⟨emitted, hroots, by simp, fun hregion => hmarks List.prefix_rfl (.inl ⟨rfl, hregion⟩)⟩

theorem Yields.marks [Bears α] {x : Scripted α} (hx : Yields x) (w : Workspace Notebook) :
    Emits x items w := by
  refine ((hx.emits w).and (hx.toEndures.emits w)).mono (fun a w' h => ?_) fun _ _ => trivial
  obtain ⟨⟨emitted, hroots, hitems⟩, same, hroots', -, hmarks⟩ := h
  obtain rfl := List.append_cancel_left (hroots.symm.trans hroots')
  exact ⟨emitted, hroots, hitems, hmarks⟩

theorem roots_emitting (x : Emit α) : Keeps Workspace.roots (emitting x : Scripted α) := fun _ =>
  .bind (ensures_attempt (fun _ _ _ => ensures_pure rfl) fun _ _ _ => ensures_throw rfl)

theorem roots_lookup (name : String) : Keeps Workspace.roots (lookup name) := fun _ =>
  ensures_lookup (fun _ _ => rfl) rfl

theorem roots_given (x : Described α) : Keeps Workspace.roots (given x) := by
  cases x with
  | ok a => exact keeps_pure a
  | error fault => exact keeps_throw _

theorem roots_query (q : Query) : Keeps Workspace.roots q.perform := by
  cases q with
  | setGroupSize size =>
    exact fun _ => .bind (ensures_setGroupSize rfl (fun _ => rfl) rfl)
  | register p => exact (roots_given p).bind fun _ _ => rfl
  | builtin b => exact (roots_given b).bind fun _ _ => rfl
  | divergence name => exact (roots_lookup name).bind fun _ => (roots_emitting _).bind fun _ _ => rfl
  | describe name => exact (roots_lookup name).bind fun _ => (roots_emitting _).bind fun _ _ => rfl
  | region => exact (roots_emitting _).bind fun _ _ => rfl
  | function _ | warnings | text => exact fun _ => rfl

theorem items_query (q : Query) (w : Workspace Notebook) :
    Ensures q.perform w (fun o _ => items o = []) fun _ => True := by
  cases q with
  | setGroupSize size => exact .bind (ensures_setGroupSize rfl (fun _ => rfl) trivial)
  | region | register _ | builtin _ => exact ensures_last fun _ _ => ensures_last fun _ _ => rfl
  | divergence name => exact ensures_last fun _ _ => ensures_last fun _ _ => rfl
  | describe name =>
    exact ensures_last fun _ _ => ensures_last fun _ _ => ensures_last fun _ _ => rfl
  | function _ | warnings | text => exact rfl

theorem emits_query (q : Query) (w : Workspace Notebook) : Emits q.perform items w :=
  ((roots_query q w).and (items_query q w)).mono
    (fun o w' h => ⟨[], by simpa using h.1, by simp [h.2], by simp⟩)
    fun _ _ => trivial

theorem emits_action (a : Action) (h : a ≠ .value .currentMask) (w : Workspace Notebook) :
    Emits a.perform items w := by
  cases a with
  | value a =>
    have := yields_value fun ha => h (congrArg Action.value ha)
    exact Yields.marks (x := a.perform >>= describeValue) inferInstance w
  | attempt a => exact (yields_attempt a).marks w
  | command c =>
    refine .bind (((endures_command c).emits w).imp fun _ _ h => ensures_pure ?_)
    obtain ⟨emitted, hroots, -, hmarks⟩ := h
    exact ⟨emitted, hroots, by simp [items], hmarks⟩
  | query q => exact emits_query q w

def Notebook.yielded? (n : Notebook) : Option Expr :=
  match n.entries with
  | ⟨_, .value e _ _, _⟩ :: _ => some e
  | _ => none

theorem ensures_record (heading : Heading) (outcome : Outcome) (w : Workspace Notebook) :
    Ensures (heading.record outcome) w (fun _ w' => w'.sheet = w.sheet ∧ w'.roots = w.roots ∧
      ∀ e ∈ w'.notes.yielded?, .value e ∈ items outcome) fun _ => True := by
  cases outcome with
  | value e name ty => 
    refine ⟨rfl, rfl, ?_⟩
    cases heading.bind <;> simp [Notebook.record, Notebook.yielded?, items, Notebook.bind]
  | _ => exact ⟨rfl, rfl, by simp [Notebook.record, Notebook.yielded?]⟩

structure DivergesForGood (w : Workspace Notebook) (e : Expr) : Prop where
  reports {α : Type} {x : Scripted α} : Built α x → (final (x w)).sheet.reports e = .divergent

theorem Marked.diverges {e : Expr} (h : Marked w.sheet e) : DivergesForGood w e := ⟨h.for_good⟩

theorem leading_writeLine (line : Line) : Leading (writeLine line : Scripted Unit) :=
  leading_redraft (.write line) fun _ => rfl

theorem leading_inScope {body : Scripted Unit} (h : Leading body) : Leading (inScope none body) :=
  (leading_redraft (.enterScope none) fun _ => rfl).bind fun _ => h.bind fun _ =>
    leading_drafting .exitScope fun _ => rfl

theorem leading_nameOf (e : Expr) : Leading (nameOf e : Scripted Spelling) := leading_aside fun _ => rfl

theorem transparentQuery_marks (scene ray : Expr) {accept : Expr → Scripted Expr}
    (haccept : ∀ c, Leading (accept c)) (hregion : w.sheet.region = .divergent) :
    Ensures (Build.transparentQuery scene ray accept) w (fun e w' => Marked w'.sheet e)
      fun _ => True := by
  have hzeroed : Ensures (zeroed .rayQueryResult) w (fun e w' => Marked w'.sheet e) fun _ => True := by
    refine (Yields.marks (x := zeroed .rayQueryResult) inferInstance w).imp fun e w₁ h => ?_
    obtain ⟨emitted, -, hitems, hmarks⟩ := h
    exact hmarks hregion e (hitems e (List.mem_singleton_self _))
  refine .bind (hzeroed.imp fun result w₁ hmark => ?_)
  have hresult {x : Scripted Expr} (hx : Leading x)
      (hsame : Ensures x w₁ (fun e _ => e = result) fun _ => True) :
      Ensures x w₁ (fun e w' => Marked w'.sheet e) fun _ => True :=
    ((hx w₁).and hsame).mono (fun e w' h => h.2 ▸ h.1.marks _ hmark) fun _ _ => trivial
  have hcandidate : Leading (zeroed .rayQueryResult : Scripted Expr) :=
    Built.leading fun J _ => ⟨inferInstance, [], Tracked.holds⟩
  refine hresult ?_ ?_
  · refine (leading_aside (x := freshName "rq") fun _ => rfl).bind fun query => (leading_writeLine _).bind fun _ =>
      (leading_nameOf _).bind fun _ => (leading_nameOf _).bind fun _ => (leading_writeLine _).bind fun _ =>
      (leading_writeLine _).bind fun _ => (leading_inScope ?_).bind fun _ => (leading_writeLine _).bind fun _ =>
      (leading_writeLine _).bind fun _ => (leading_nameOf _).bind fun _ => (leading_writeLine _).bind fun _ =>
      (leading_writeLine _).bind fun _ => leading_aside (keeps_pure _)
    refine (leading_writeLine _).bind fun _ => (leading_inScope ?_).bind fun _ => leading_writeLine _
    exact hcandidate.bind fun c => (leading_nameOf _).bind fun _ => (leading_writeLine _).bind fun _ =>
      (haccept c).bind fun _ => (leading_nameOf _).bind fun _ => leading_writeLine _
  · repeat with_reducible refine ensures_last fun _ _ => ?_
    rfl

def Step.isMask : Step → Bool
  | .act _ (.value .currentMask) => true
  | _ => false

theorem act_marks (heading : Heading) (action : Action) (hmask : (Step.act heading action).isMask = false)
    (hregion : w.sheet.region = .divergent) : Ensures (Step.act heading action).run w (fun _ w' =>
      ∃ emitted, w'.roots = w.roots ++ emitted ∧ (∀ e ∈ w'.notes.yielded?, e ∈ emitted) ∧
        ∀ e ∈ emitted, Marked w'.sheet e) fun _ => True := by
  have hne : action ≠ .value .currentMask := fun h => by
    rw [h] at hmask
    cases hmask
  rw [Step.run]
  refine .bind ((emits_action action hne w).imp fun outcome w₁ h => ?_)
  obtain ⟨emitted, hroots, hitems, hmarks⟩ := h
  refine (ensures_record heading outcome w₁).imp fun _ w' h => ⟨emitted, h.2.1.trans hroots, ?_⟩
  exact ⟨fun e he => hitems e (h.2.2 e he), fun e he => h.1 ▸ hmarks hregion e he⟩

theorem yielded_marks (step : Step) (hmask : step.isMask = false) (hregion : w.sheet.region = .divergent) :
    Ensures step.run w (fun _ w' => ∀ e ∈ w'.notes.yielded?, Marked w'.sheet e) fun _ => True := by
  have hdone (label : String) (w : Workspace Notebook) :
      Ensures (record label .done) w (fun _ w' => ∀ e ∈ w'.notes.yielded?, Marked w'.sheet e)
        fun _ => True := fun e he => by cases he
  cases step with
  | act heading action =>
    refine (act_marks heading action hmask hregion).imp fun _ w' h => ?_
    obtain ⟨emitted, -, hyielded, hmarks⟩ := h
    exact fun e he => hmarks e (hyielded e he)
  | transparentQuery heading scene ray candidate body accept =>
    have haccept (c : Expr) : Leading (do
        renote (·.bind candidate c)
        runAll body
        lookup accept) :=
      (leading_aside (x := renote (·.bind candidate c)) fun _ => rfl).bind fun _ =>
        (built_runAll body).leading.bind fun _ => leading_aside fun _ => ensures_lookup (fun _ _ => rfl) rfl
    rw [Step.run]
    refine .bind (ensures_lookup (fun tlas _ => .bind (ensures_lookup (fun r _ => ?_) trivial)) trivial)
    refine .bind ((transparentQuery_marks tlas r haccept hregion).imp fun hit w₁ hmark => ?_)
    refine .bind (ensures_of_run fun outcome w₂ hdescribe => ?_)
    have houtcome : Ensures (describeValue hit) w₁
        (fun o _ => ∀ e, Item.value e ∈ items o → e = hit) fun _ => True :=
      ensures_last fun _ _ => ensures_last fun _ _ => fun e he => by simpa [items] using he
    refine (ensures_record heading outcome w₂).imp fun _ w' h => fun e he => ?_
    rw [houtcome.of_ok hdescribe e (h.2.2 e he)]
    exact h.1 ▸ hmark.kept hdescribe
  | ifThen | ifElse =>
    rw [Step.run]
    exact ensures_last fun _ _ => ensures_ite (fun _ => ensures_last fun _ _ => hdone _ _)
      fun _ => ensures_last fun _ _ => hdone _ _
  | loop =>
    rw [Step.run]
    exact ensures_ite (fun _ => ensures_last fun _ _ => hdone _ _)
      fun _ => ensures_last fun _ _ => hdone _ _
  | forRange | switchOn | ifLaneActive =>
    rw [Step.run]
    repeat with_reducible refine ensures_last fun _ _ => ?_
    exact hdone _ _
  | define =>
    rw [Step.run]
    exact ensures_last fun _ _ => ensures_last fun _ _ => fun e he => by cases he

end Steps

theorem exists_place (steps : List Step) (P : Workspace Notebook → Prop)
    (h : Ends (program .default false steps) (.start .default 1 {}) (fun _ _ => False)
      fun halt w => halt = .unbound "here" ∧ P w) :
    ∃ w, program .default false steps (.start .default 1 {}) = .error (.unbound "here") w ∧ P w := by
  obtain ⟨_, w, hrun, rfl, hplace⟩ := Ends.exists_error _ _ _ h
  exact ⟨w, hrun, hplace⟩

def laneBranch (body : List Step) : List Step :=
  [ .act ⟨"input", some "lane"⟩ (.value (.input (.ok (.custom "v_lane" .bool)))),
    .act ⟨"var", some "count"⟩ (.value (.variableOf (.constant (.u32 [0])))),
    .ifThen "lane_if" true "lane" body ]

def tally : Expr := .unary 3 .assign (.literal 2 (.u32 [0]))

def tallied : Step :=
  .act ⟨"compound", some "sum"⟩ (.value (.binary .addAssign (.value "count") (.constant (.u32 [1]))))

/-- What is left of the script after the branch's last step, and a copy of the count. -/
def rejoined : Scripted Expr := do
  drafting .exitScope
  writeLine .close
  record "lane_if" .done
  variableOf (.value (← lookup "count"))

theorem built_rejoined : Built Expr rejoined := fun _ _ => ⟨inferInstance, [], by
  unfold rejoined
  exact Tracked.holds⟩

end Script

end ComputeKernel
