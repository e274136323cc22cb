import ComputeKernel.Proofs.Judgements

namespace ComputeKernel

variable {K : Stock} {α β : Type}

def Line.types : Line → List Ty
  | .declare ty _ _ | .reserve ty _ | .array ty _ _ _ => [ty]
  | .openFunction callee _ => callee.fixedReturn?.toList ++ callee.params.map Param.ty
  | _ => []

class Line.Simple (line : Line) : Prop where
  callee : line.callee? = none
  types : line.types = []
  noVote : ∀ mask taken cond current, line ≠ .ballot mask taken cond current

namespace Line

instance : Simple .returnVoid := ⟨rfl, rfl, nofun⟩

instance (value : Spelling) : Simple (.returnValue value) := ⟨rfl, rfl, nofun⟩

instance : Simple .barrier := ⟨rfl, rfl, nofun⟩

instance (name : String) : Simple (.declareQuery name) := ⟨rfl, rfl, nofun⟩

instance (query : String) (scene ray : Spelling) : Simple (.trace query scene ray) :=
  ⟨rfl, rfl, nofun⟩

instance (cond : Spelling) (query : String) : Simple (.commit cond query) := ⟨rfl, rfl, nofun⟩

instance (hit : Spelling) (query : String) (stage : HitStage) :
    Simple (.readHit hit query stage) := ⟨rfl, rfl, nofun⟩

end Line

class CommonLanes (lanes : String) : Prop where
  known : lanes ∈ ["x", "y", "z", "xy", "yx"]

instance : CommonLanes "x" := ⟨by simp⟩
instance : CommonLanes "y" := ⟨by simp⟩
instance : CommonLanes "z" := ⟨by simp⟩
instance : CommonLanes "xy" := ⟨by simp⟩
instance : CommonLanes "yx" := ⟨by simp⟩

class Builtin.Common (b : Builtin) : Prop where
  types : ∀ ty, b = .construct ty → ∃ kind rows cols, ty = .value kind rows cols

instance : Builtin.Common .dot := ⟨nofun⟩
instance : Builtin.Common .max := ⟨nofun⟩
instance : Builtin.Common .f16ToU32 := ⟨nofun⟩
instance : Builtin.Common .u32ToF16 := ⟨nofun⟩
instance (f : MathFn) : Builtin.Common (.math f) := ⟨nofun⟩
instance (kind : Kind) : Builtin.Common (.convert kind) := ⟨nofun⟩
instance (kind : Kind) (rows cols : Nat) : Builtin.Common (.construct (.value kind rows cols)) :=
  ⟨fun _ h => ⟨kind, rows, cols, (Builtin.construct.inj h).symm⟩⟩

inductive Item where
  | value (e : Expr)
  | callee (p : Prototype)
  | name (x : String)

inductive FunctionEvent where
  | registers (p : Prototype)
  | returns (p : Prototype)
  | calls (p : Prototype)
  | callsName (name : String)

abbrev Events := List FunctionEvent

def FunctionEvent.lasts : FunctionEvent → Bool
  | .registers _ | .returns _ => true
  | .calls _ | .callsName _ => false

def lasting (events : Events) : Events := events.filter FunctionEvent.lasts

class Bears (α : Type) where
  items : α → List Item

open Bears (items)

class Bare (α : Type) : Prop

instance (α : Type) [Bare α] : Bears α := ⟨fun _ => []⟩

instance : Bare Unit := ⟨⟩
instance : Bare Bool := ⟨⟩
instance : Bare String := ⟨⟩
instance : Bare Literal := ⟨⟩
instance : Bare Ty := ⟨⟩
instance : Bare Builtin := ⟨⟩
instance : Bare Spelling := ⟨⟩
instance : Bare Divergence := ⟨⟩
instance : Bare BreakTarget := ⟨⟩
instance : Bare Draft := ⟨⟩
instance : Bare (Except Fault Unit) := ⟨⟩

instance : Bears Expr := ⟨fun e => [.value e]⟩

instance : Bears Prototype := ⟨fun p => [.callee p]⟩

instance {α : Type} [Bears α] : Bears (List α) := ⟨fun as => as.flatMap items⟩

instance {α : Type} [Bears α] : Bears (Option α) := ⟨fun a => a.elim [] items⟩

instance : Bears (Except Fault Expr) := ⟨fun r => items r.toOption⟩

instance : Bears Operand :=
  ⟨fun
    | .value e => items e
    | .constant _ => []⟩

abbrev Stock := Item → Prop

namespace Stock

def all : Stock := fun _ => True

def names : Stock
  | .name _ => True
  | _ => False

def adding {α : Type} [Bears α] (K : Stock) (a : α) : Stock := fun i => i ∈ items a ∨ K i

class Has (K : Stock) (needed : List Item) : Prop where
  each : ∀ i ∈ needed, K i

class Grows (K K' : Stock) : Prop where
  kept : ∀ i, K i → K' i

class Names (K : Stock) : Prop where
  each : ∀ x, K (.name x)

variable [Bears α] [Bears β]

instance : Names all := ⟨fun _ => trivial⟩

instance : Names names := ⟨fun _ => trivial⟩

instance (a : α) [h : Names K] : Names (K.adding a) := ⟨fun x => .inr (h.each x)⟩

instance (x : String) [h : Names K] : Has K [.name x] :=
  ⟨fun _ hi => List.mem_singleton.mp hi ▸ h.each x⟩

instance (needed : List Item) : Has all needed := ⟨fun _ _ => trivial⟩

instance (xs ys : List Item) [h : Has K xs] [h' : Has K ys] : Has K (xs ++ ys) :=
  ⟨fun i hi => (List.mem_append.mp hi).elim (h.each i) (h'.each i)⟩

theorem Has.left {xs ys : List Item} (h : Has K (xs ++ ys)) : Has K xs :=
  ⟨fun i hi => h.each i (List.mem_append_left _ hi)⟩

theorem Has.right {xs ys : List Item} (h : Has K (xs ++ ys)) : Has K ys :=
  ⟨fun i hi => h.each i (List.mem_append_right _ hi)⟩

instance (a : α) : Has (K.adding a) (items a) := ⟨fun _ hi => .inl hi⟩

instance (priority := low) (a : α) (needed : List Item) [h : Has K needed] :
    Has (K.adding a) needed := ⟨fun i hi => .inr (h.each i hi)⟩

instance {α : Type} [Bare α] (a : α) : Has K (items a) := ⟨nofun⟩

instance : Has K (items ([] : List α)) := ⟨nofun⟩

instance (a : α) (as : List α) [h : Has K (items a)] [h' : Has K (items as)] :
    Has K (items (a :: as)) := ⟨fun i hi => (List.mem_append.mp hi).elim (h.each i) (h'.each i)⟩

instance (as bs : List α) [h : Has K (items as)] [h' : Has K (items bs)] :
    Has K (items (as ++ bs)) :=
  ⟨fun i hi => (List.mem_append.mp (List.flatMap_append ▸ hi)).elim (h.each i) (h'.each i)⟩

instance : Has K (items (none : Option α)) := ⟨nofun⟩

instance (a : α) [h : Has K (items a)] : Has K (items (some a)) := ⟨h.each⟩

instance (e : Expr) [h : Has K (items e)] : Has K (items (Operand.value e)) := ⟨h.each⟩

instance (l : Literal) : Has K (items (Operand.constant l)) := ⟨nofun⟩

instance : Grows K K := ⟨fun _ hi => hi⟩

instance (priority := low) {K' : Stock} (a : α) [h : Grows K K'] :
    Grows K (K'.adding a) := ⟨fun i hi => .inr (h.kept i hi)⟩

instance {K' : Stock} (a : α) [h : Grows K K'] [ha : Has K' (items a)] :
    Grows (K.adding a) K' := ⟨fun i hi => hi.elim (ha.each i) (h.kept i)⟩

theorem Has.value {e : Expr} (h : Has K (items e)) : K (.value e) := h.each _ (.head _)

theorem Has.callee {p : Prototype} (h : Has K (items p)) : K (.callee p) := h.each _ (.head _)

theorem Has.name {x : String} (h : Has K [.name x]) : K (.name x) := h.each _ (.head _)

theorem Has.mem {a : α} {as : List α} (h : Has K (items as)) (ha : a ∈ as) : Has K (items a) :=
  ⟨fun i hi => h.each i (List.mem_flatMap.mpr ⟨a, ha, hi⟩)⟩

end Stock

class Assembled (K : Stock) (mk : Nat → Expr) : Prop where
  id : ∀ n, (mk n).id = n
  operand : ∀ n, ∀ d ∈ (mk n).operands, K (.value d)
  callee : ∀ n p, (mk n).callee? = some p → K (.callee p)
  name : ∀ n x, (mk n).givenName? = some x → K (.name x)

def Expr.isDerived : Expr → Bool
  | .unary .. | .binary .. | .call .. | .swizzle .. | .field .. | .element .. | .elementAt ..
  | .select .. => true
  | .literal .. | .resource .. | .input .. | .array .. | .storage .. | .zeroed .. => false

class Derived (mk : Nat → Expr) : Prop where
  derived : ∀ n, (mk n).isDerived = true

theorem assembled_of_operands {mk : Nat → Expr} (es : List Expr)
    (hmk : ∀ n, (mk n).id = n ∧ (mk n).operands = es ∧
      ((mk n).callee?, (mk n).givenName?) = (none, none))
    (h : ∀ e ∈ es, K (.value e)) : Assembled K mk where
  id n := (hmk n).1
  operand n d hd := h d ((hmk n).2.1 ▸ hd)
  callee n p hp := by cases hp.symm.trans (congrArg Prod.fst (hmk n).2.2)
  name n x hx := by cases hx.symm.trans (congrArg Prod.snd (hmk n).2.2)

instance assembled_unary (op : Op) (e : Expr) [h : K.Has (items e)] : Assembled K (.unary · op e) :=
  assembled_of_operands [e] (fun _ => ⟨rfl, rfl, rfl⟩) (by simp [h.value])

instance (op : Op) (a b : Expr) [ha : K.Has (items a)] [hb : K.Has (items b)] :
    Assembled K (.binary · op a b) :=
  assembled_of_operands [a, b] (fun _ => ⟨rfl, rfl, rfl⟩) (by simp [ha.value, hb.value])

instance (callee : Prototype) (args : List Expr) [h : K.Has (items callee)]
    [ha : K.Has (items args)] : Assembled K (.call · callee args) where
  id _ := rfl
  operand n d hd := (ha.mem (Expr.operands_call n callee args ▸ hd)).value
  callee _ p hp := by cases hp; exact h.callee
  name := nofun

instance (res : Resource) [h : K.Has [.name res.name]] :
    Assembled K (.resource · res) where
  id _ := rfl
  operand _ _ hd := by cases hd
  callee := nofun
  name _ _ hx := by cases hx; exact h.name

instance (i : Input) [h : K.Has [.name i.name]] : Assembled K (.input · i) where
  id _ := rfl
  operand _ _ hd := by cases hd
  callee := nofun
  name _ _ hx := by cases hx; exact h.name

instance (e : Expr) (name : String) [h : K.Has (items e)] :
    Assembled K (.field · e name) :=
  assembled_of_operands [e] (fun _ => ⟨rfl, rfl, rfl⟩) (by simp [h.value])

instance (e : Expr) (index : UInt32) [h : K.Has (items e)] :
    Assembled K (.element · e index) :=
  assembled_of_operands [e] (fun _ => ⟨rfl, rfl, rfl⟩) (by simp [h.value])

instance (e i : Expr) [h : K.Has (items e)] [hi : K.Has (items i)] :
    Assembled K (.elementAt · e i) :=
  assembled_of_operands [e, i] (fun _ => ⟨rfl, rfl, rfl⟩) (by simp [h.value, hi.value])

instance (name : String) (ty : Ty) : Assembled K (.storage · name ty) :=
  assembled_of_operands [] (fun _ => ⟨rfl, rfl, rfl⟩) (by simp)

instance (ty : Ty) : Assembled K (.zeroed · ty) :=
  assembled_of_operands [] (fun _ => ⟨rfl, rfl, rfl⟩) (by simp)

instance (c a b : Expr) [hc : K.Has (items c)] [ha : K.Has (items a)]
    [hb : K.Has (items b)] : Assembled K (.select · c a b) :=
  assembled_of_operands [c, a, b] (fun _ => ⟨rfl, rfl, rfl⟩)
    (by simp [hc.value, ha.value, hb.value])

instance (op : Op) (e : Expr) : Derived (.unary · op e) := ⟨fun _ => rfl⟩

instance (op : Op) (a b : Expr) : Derived (.binary · op a b) := ⟨fun _ => rfl⟩

instance (callee : Prototype) (args : List Expr) : Derived (.call · callee args) :=
  ⟨fun _ => rfl⟩

instance (e : Expr) (name : String) : Derived (.field · e name) := ⟨fun _ => rfl⟩

namespace Build

def Crafted (K : Stock) (x : Making Expr) : Prop :=
  ∀ n, Ensures x n (fun e n' => ∃ mk, Assembled K mk ∧ e = mk n.next ∧ n'.next = n.next + 1)
    fun n' => n'.next = n.next

theorem Crafted.after {γ : Type} {x : Making γ} {f : γ → Making Expr} (hx : Keeps Nodes.next x)
    (h : ∀ c, Crafted K (f c)) : Crafted K (x >>= f) := fun n =>
  .bind ((hx n).imp fun c n' heq => heq ▸ h c n')

theorem crafted_node {mk : Nat → Expr} (h : Assembled K mk) : Crafted K (.node mk) :=
  fun _ => ensures_newNode ⟨mk, h, rfl, rfl⟩

theorem crafted_ite {p : Prop} [Decidable p] {fault : Fault} {x : Making Expr} (h : Crafted K x) :
    Crafted K (if p then throw fault >>= fun _ : Unit => x else x) := by
  split
  · exact .after (keeps_throw fault) fun _ => h
  · exact h

theorem crafted_literal (l : Literal) : Crafted K (.literal l) :=
  .after (keeps_orFault _) fun _ => crafted_node
    (assembled_of_operands [] (fun _ => ⟨rfl, rfl, rfl⟩) nofun)

theorem crafted_array (elem : Ty) (length : UInt32) (init : List Literal) :
    Crafted K (.array elem length init) :=
  crafted_ite (crafted_ite (.after (keeps_orFault _) fun _ => crafted_node
    (assembled_of_operands [] (fun _ => ⟨rfl, rfl, rfl⟩) nofun)))

theorem crafted_swizzle (e : Expr) (lanes : String) (h : K.Has (items e)) :
    Crafted K (.swizzle e lanes) :=
  .after (fun _ => ensures_makingTyping (ensures_any (fun _ _ => rfl) fun _ => rfl)) fun _ =>
    crafted_ite (.after (keeps_orFault _) fun _ => crafted_node (assembled_of_operands [e]
      (fun _ => ⟨rfl, rfl, rfl⟩) fun _ he => List.mem_singleton.mp he ▸ h.value))

variable {σ ν : Type}

abbrev Tracking (σ ν : Type) :=
  (before after : σ) → Stock → (α : Type) → [Bears α] → Build ν α → Build ν α → Prop

class Tracked {α : Type} [Bears α] (J : Tracking σ ν) (D : σ)
    (D' : outParam σ) (K : Stock) (x x' : Build ν α) : Prop where
  holds : J D D' K α x x'

def Untracked (J : Judgement (Build ν)) : Tracking Events ν := fun _ _ _ α _ x x' => J α x x'

class Tracking.Chains (J : Tracking σ ν) : Prop where
  pure {D : σ} {K : Stock} {α : Type} [Bears α] (a : α) :
    K.Has (items a) → J D D K α (pure a) (pure a)
  bind {D D₁ D₂ : σ} {K : Stock} {α β : Type} [Bears α] [Bears β] {x x' : Build ν α}
    {f f' : α → Build ν β} : J D D₁ K α x x' →
      (∀ a, J D₁ D₂ (K.adding a) β (f a) (f' a)) → J D D₂ K β (x >>= f) (x' >>= f')
  grow {D D' : σ} {K K' : Stock} {α : Type} [Bears α] {x x' : Build ν α} :
    K.Grows K' → J D D' K α x x' → J D D' K' α x x'

instance (J : Judgement (Build ν)) [h : J.Chains] : (Untracked J).Chains where
  pure a _ := h.pure a
  bind hx hf := h.bind hx hf
  grow _ hx := hx

class Held {α : Type} [Bears α] (J : Tracking σ ν) (D : σ)
    (D' : outParam σ) (K : outParam Stock) (x x' : Build ν α) : Prop where
  holds : J D D' K α x x'

section Chains

variable {J : Tracking σ ν} [J.Chains] {D D' D₁ D₂ : σ} [Bears α] [Bears β]

instance tracked_pure (a : α) [h : K.Has (items a)] : Tracked J D D K (pure a) (pure a) :=
  ⟨Tracking.Chains.pure a h⟩

instance tracked_bind (x x' : Build ν α) (f f' : α → Build ν β) [hx : Tracked J D D₁ K x x']
    [hf : ∀ a, Tracked J D₁ D₂ (K.adding a) (f a) (f' a)] :
    Tracked J D D₂ K (x >>= f) (x' >>= f') := ⟨Tracking.Chains.bind hx.holds fun a => (hf a).holds⟩

theorem Tracked.after {x x' : Build ν α} {f f' : α → Build ν β} [Tracked J D D₁ K x x']
    (hf : ∀ a, Tracked J D₁ D₂ (K.adding a) (f a) (f' a)) :
    Tracked J D D₂ K (x >>= f) (x' >>= f') := inferInstance

theorem Tracked.andThen (D₁ : σ) {x x' : Build ν α} {f f' : α → Build ν β}
    (hx : Tracked J D D₁ K x x') (hf : ∀ a, Tracked J D₁ D₂ (K.adding a) (f a) (f' a)) :
    Tracked J D D₂ K (x >>= f) (x' >>= f') := inferInstance

omit [J.Chains] in
theorem Tracked.branch {p : Prop} [Decidable p] {x y x' y' : Build ν α}
    (hx : Tracked J D D' K x x') (hy : Tracked J D D' K y y') :
    Tracked J D D' K (if p then x else y) (if p then x' else y') := by
  split
  · exact hx
  · exact hy

instance (p : Prop) [Decidable p] (x y x' y' : Build ν α) [hx : Tracked J D D' K x x']
    [hy : Tracked J D D' K y y'] : Tracked J D D' K (if p then x else y) (if p then x' else y') :=
  hx.branch hy

instance (priority := low) {K' : Stock} (x x' : Build ν α)
    [h : Held J D D' K x x'] [hK : K.Grows K'] : Tracked J D D' K' x x' :=
  ⟨Tracking.Chains.grow hK h.holds⟩

theorem tracked_each {γ : Type} {f f' : γ → Build ν α} {cs : List γ}
    (h : ∀ c ∈ cs, Tracked J D D K (f c) (f' c)) : Tracked J D D K (cs.mapM f) (cs.mapM f') := by
  induction cs with
  | nil =>
    rw [List.mapM_nil, List.mapM_nil]
    infer_instance
  | cons c cs ih =>
    have := h c (List.mem_cons_self ..)
    have : Held J D D K (cs.mapM f) (cs.mapM f') :=
      ⟨(ih fun c hc => h c (List.mem_cons_of_mem _ hc)).holds⟩
    rw [List.mapM_cons, List.mapM_cons]
    infer_instance

instance {γ : Type} (f f' : γ → Build ν α) (cs : List γ)
    [h : ∀ c, Tracked J D D K (f c) (f' c)] : Tracked J D D K (cs.mapM f) (cs.mapM f') :=
  tracked_each fun c _ => h c

end Chains

theorem Tracking.Chains.emitted {J : Tracking σ ν} [J.Chains] {D : σ}
    {x : Build ν Expr} (hx : J D D K _ x x)
    (hemit : ∀ e, J D D (K.adding e) _ (tryEmit e) (tryEmit e))
    (hthrow : ∀ {K : Stock} halt, J D D K Expr (throw halt) (throw halt)) :
    J D D K _ (do emit (← x)) (do emit (← x)) := by
  refine bind hx fun e => bind (hemit e) fun r => ?_
  cases r with
  | ok d => exact pure d ⟨fun i hi => .inl hi⟩
  | error fault => exact hthrow (.fatal fault)

abbrev Tracking.On {α : Type} [Bears α] (J : Tracking σ ν) (x : Build ν α) : Prop :=
  ∀ {D : σ} {K : Stock}, J D D K α x x

abbrev Tracking.Given {α : Type} [Bears α] (J : Tracking σ ν) (needed : List Item) (x : Build ν α) :
    Prop := ∀ {D : σ} {K : Stock}, K.Has needed → J D D K α x x

class Basics (J : Tracking σ ν) : Prop extends J.Chains where
  throw {D D' : σ} {K : Stock} {α : Type} [Bears α] (halt : Halt) :
    J D D' K α (throw halt) (throw halt)
  place {D : σ} {K : Stock} (mk : Nat → Expr) : Assembled K mk →
    J D D K _ (do emit (← node mk)) (do emit (← node mk))
  array (elem : Ty) (length : UInt32) (init : List Literal) :
    J.On (do emit (← making (.array elem length init)))
  typeOf (e : Expr) : J.Given (items e) (typeOf e)
  nameOf (e : Expr) : J.On (nameOf e)
  builtin (b : Builtin) : J.On (builtin b)
  draft : J.On draft
  currentMask : J.On currentMask
  addShared (name : String) (ty : Ty) : J.On (drafting (.addShared name ty))
  setGroupSize (size : GroupSize) : J.On (setGroupSize size)
  writeHeader (text : String) : J.On (writeHeader text)

class Operations (J : Tracking σ ν) : Prop extends Basics J where
  node {D : σ} {K : Stock} (mk : Nat → Expr) :
    Assembled K mk → Derived mk → J D D K _ (node mk) (node mk)
  literal (l : Literal) : J.On (making (.literal l))
  swizzle (e : Expr) (lanes : String) : J.Given (items e) (attempt (.making (.swizzle e lanes)))
  tryEmit (e : Expr) : J.Given (items e) (tryEmit e)
  freshName (stem : String) : J.On (freshName stem)
  writeLine (line : Line) [line.Straight] [line.Simple] : J.On (writeLine line)
  noteSync : J.On (redraft Draft.noteSync)

class Naming (J : Tracking σ ν) : Prop extends Operations J where
  named (e : Expr) (name : String) : J.Given (items e ++ [.name name]) (named e name)

class Markings (J : Tracking σ ν) : Prop extends Operations J where
  rename (e : Expr) (name : String) : J.On (emitting (.rename e.id (.word name)))
  ballot (mask cond current : Spelling) (taken : Bool) :
    J.On (Build.writeLine (.ballot mask taken cond current))
  seedMask (seed : Expr) : J.Given (items seed) (redraft (·.enableWave32 seed))

class Arithmetic (J : Tracking σ ν) : Prop extends J.Chains where
  constant (l : Literal) : J.On (constant l)
  emitOperand (o : Operand) : J.Given (items o) (emitOperand o)
  zeroed (kind : Kind) (rows cols : Nat) : J.On (zeroed (.value kind rows cols))
  select (cond : Expr) (yes no : Operand) :
    J.Given (items cond ++ (items yes ++ items no)) (select cond yes no)
  binary (op : Op) (lhs rhs : Operand) : J.Given (items lhs ++ items rhs) (binary op lhs rhs)
  unary (op : Op) (e : Expr) : J.Given (items e) (unary op e)
  lanes (e : Expr) (lanes : String) [CommonLanes lanes] : J.Given (items e) (swizzle e lanes)
  common (b : Builtin) (args : List Expr) [b.Common] : J.Given (items args) (apply b args)

class Crafting (J : Tracking σ ν) : Prop extends Basics J, Arithmetic J where
  variableOf (o : Operand) : J.Given (items o) (variableOf o)
  elementAt (e : Expr) (index : Operand) : J.Given (items e ++ items index) (elementAt e index)
  named (e : Expr) (name : String) : J.Given (items e ++ [.name name]) (named e name)
  trySwizzle (e : Expr) (lanes : String) : J.Given (items e) (trySwizzle e lanes)
  tryField (e : Expr) (name : String) : J.Given (items e) (tryField e name)
  tryCall (p : Prototype) (args : List Expr) : J.Given (items p ++ items args) (tryCall p args)
  returnVoid : J.On returnVoid
  returnValue (e : Expr) : J.On (returnValue e)
  groupSync : J.On groupSync

def Both (J J' : Tracking σ ν) : Tracking σ ν := fun D D' K α _ x x' =>
  J D D' K α x x' ∧ J' D D' K α x x'

instance both_crafting (J J' : Tracking σ ν) [Crafting J] [Crafting J'] : Crafting (Both J J') where
  pure a h := ⟨Tracking.Chains.pure a h, Tracking.Chains.pure a h⟩
  bind hx hf := ⟨Tracking.Chains.bind hx.1 fun a => (hf a).1,
    Tracking.Chains.bind hx.2 fun a => (hf a).2⟩
  grow hK hx := ⟨Tracking.Chains.grow hK hx.1, Tracking.Chains.grow hK hx.2⟩
  throw halt := ⟨Basics.throw halt, Basics.throw halt⟩
  place mk h := ⟨Basics.place mk h, Basics.place mk h⟩
  array elem length init := ⟨Basics.array elem length init, Basics.array elem length init⟩
  typeOf e := fun h => ⟨Basics.typeOf e h, Basics.typeOf e h⟩
  nameOf e := ⟨Basics.nameOf e, Basics.nameOf e⟩
  builtin b := ⟨Basics.builtin b, Basics.builtin b⟩
  draft := ⟨Basics.draft, Basics.draft⟩
  currentMask := ⟨Basics.currentMask, Basics.currentMask⟩
  addShared name ty := ⟨Basics.addShared name ty, Basics.addShared name ty⟩
  setGroupSize size := ⟨Basics.setGroupSize size, Basics.setGroupSize size⟩
  writeHeader text := ⟨Basics.writeHeader text, Basics.writeHeader text⟩
  constant l := ⟨Arithmetic.constant l, Arithmetic.constant l⟩
  emitOperand o := fun h => ⟨Arithmetic.emitOperand o h, Arithmetic.emitOperand o h⟩
  zeroed kind rows cols := ⟨Arithmetic.zeroed kind rows cols, Arithmetic.zeroed kind rows cols⟩
  select cond yes no := fun h => ⟨Arithmetic.select cond yes no h, Arithmetic.select cond yes no h⟩
  binary op lhs rhs := fun h => ⟨Arithmetic.binary op lhs rhs h, Arithmetic.binary op lhs rhs h⟩
  unary op e := fun h => ⟨Arithmetic.unary op e h, Arithmetic.unary op e h⟩
  lanes e lanes _ := fun h => ⟨Arithmetic.lanes e lanes h, Arithmetic.lanes e lanes h⟩
  common b args _ := fun h => ⟨Arithmetic.common b args h, Arithmetic.common b args h⟩
  variableOf o := fun h => ⟨Crafting.variableOf o h, Crafting.variableOf o h⟩
  elementAt e index := fun h => ⟨Crafting.elementAt e index h, Crafting.elementAt e index h⟩
  named e name := fun h => ⟨Crafting.named e name h, Crafting.named e name h⟩
  trySwizzle e lanes := fun h => ⟨Crafting.trySwizzle e lanes h, Crafting.trySwizzle e lanes h⟩
  tryField e name := fun h => ⟨Crafting.tryField e name h, Crafting.tryField e name h⟩
  tryCall p args := fun h => ⟨Crafting.tryCall p args h, Crafting.tryCall p args h⟩
  returnVoid := ⟨Crafting.returnVoid, Crafting.returnVoid⟩
  returnValue e := ⟨Crafting.returnValue e, Crafting.returnValue e⟩
  groupSync := ⟨Crafting.groupSync, Crafting.groupSync⟩

abbrev Meets {α : Type} [Bears α] (J : Tracking σ ν) (D : σ) (K : Stock)
    (x : Build ν α) : Prop := Tracked J D D K x x

variable {J : Tracking σ ν} {D : σ} [Bears α]

section Basics

variable [Basics J]

instance tracked_throw (halt : Halt) : Meets J D K (throw halt : Build ν α) := ⟨Basics.throw halt⟩

instance (r : Except Fault Expr) [h : K.Has (items r)] :
    Meets J D K (must r : Build ν Expr) := by
  cases r with
  | ok e =>
    have : K.Has (items e) := ⟨h.each⟩
    unfold must; infer_instance
  | error fault => unfold must; infer_instance

instance {γ : Type} [Bare γ] (r : Except Fault γ) :
    Meets J D K (must r : Build ν γ) := by
  cases r <;> unfold must <;> infer_instance

instance (fault : Fault) : Meets J D K (fatal fault : Build ν α) := tracked_throw _

instance (mk : Nat → Expr) [h : Assembled K mk] :
    Meets J D K (do emit (← node mk)) := ⟨Basics.place mk h⟩

instance (elem : Ty) (length : UInt32) (init : List Literal) :
    Meets J D K (do emit (← making (.array elem length init))) := ⟨Basics.array elem length init⟩

instance (e : Expr) [h : K.Has (items e)] : Meets J D K (typeOf e) := ⟨Basics.typeOf e h⟩

instance (e : Expr) : Meets J D K (nameOf e) := ⟨Basics.nameOf e⟩

instance (b : Builtin) : Meets J D K (builtin b) := ⟨Basics.builtin b⟩

instance : Meets J D K draft := ⟨Basics.draft⟩

instance : Meets J D K currentMask := ⟨Basics.currentMask⟩

instance (name : String) (ty : Ty) :
    Meets J D K (drafting (.addShared name ty)) := ⟨Basics.addShared name ty⟩

instance (text : String) : Meets J D K (writeHeader text) := ⟨Basics.writeHeader text⟩

instance : Meets J D K isWave32 := by unfold isWave32; infer_instance

instance (ty : Ty) : Meets J D K (zeroed ty) := by unfold zeroed; infer_instance

instance tracked_input (i : Input) [K.Has [.name i.name]] : Meets J D K (input i) := by
  unfold input; infer_instance

instance tracked_resource (res : Resource) [K.Has [.name res.name]] : Meets J D K (resource res) := by
  unfold resource; infer_instance

instance (name : String) (elem : Ty) (count : UInt32) :
    Meets J D K (sharedStorage name elem count) := by
  unfold sharedStorage; infer_instance

instance (values : List Literal) : Meets J D K (arrayOf values) := by
  cases values <;> unfold arrayOf <;> infer_instance

instance (elem : Ty) (length : UInt32) : Meets J D K (localArray elem length) := by
  unfold localArray; infer_instance

instance (e : Expr) (index : UInt32) [K.Has (items e)] : Meets J D K (element e index) := by
  unfold element; infer_instance

instance (b : Builtin) (args : List Expr) [K.Has (items args)] : Meets J D K (apply b args) := by
  unfold apply; infer_instance

instance (cond : Expr) [K.Has (items cond)] : Meets J D K (checkCondition cond) := by
  unfold checkCondition; infer_instance

end Basics

section Operations

variable [Operations J]

instance (mk : Nat → Expr) [h : Assembled K mk] [hc : Derived mk] :
    Meets J D K (node mk) := ⟨Operations.node mk h hc⟩

instance (l : Literal) : Meets J D K (making (.literal l)) := ⟨Operations.literal l⟩

instance (e : Expr) [h : K.Has (items e)] : Meets J D K (tryEmit e) := ⟨Operations.tryEmit e h⟩

instance (stem : String) : Meets J D K (freshName stem) := ⟨Operations.freshName stem⟩

instance (line : Line) [line.Straight] [line.Simple] :
    Meets J D K (writeLine line) := ⟨Operations.writeLine line⟩

instance : Meets J D K (redraft Draft.noteSync) := ⟨Operations.noteSync⟩

instance (o : Operand) [h : K.Has (items o)] : Meets J D K (operand o) := by
  cases o with
  | value e =>
    have : K.Has (items e) := ⟨h.each⟩
    unfold operand; infer_instance
  | constant l => unfold operand; infer_instance

instance (e : Expr) [K.Has (items e)] : Meets J D K (emit e) := by unfold emit; infer_instance

instance (e : Expr) (lanes : String) [h : K.Has (items e)] :
    Meets J D K (trySwizzle e lanes) := by
  refine ⟨Tracking.Chains.bind (Operations.swizzle e lanes h) fun part => ?_⟩
  cases part with
  | error fault => exact Tracking.Chains.pure _ ⟨nofun⟩
  | ok part => exact Operations.tryEmit part ⟨fun _ hi => .inl hi⟩

end Operations

section Markings

variable [Markings J]

instance (e : Expr) (name : String) :
    Meets J D K (emitting (.rename e.id (.word name))) := ⟨Markings.rename e name⟩

instance (mask cond current : Spelling) (taken : Bool) :
    Meets J D K (writeLine (.ballot mask taken cond current)) :=
  ⟨Markings.ballot mask cond current taken⟩

instance (seed : Expr) [h : K.Has (items seed)] :
    Meets J D K (redraft (·.enableWave32 seed)) := ⟨Markings.seedMask seed h⟩

instance (e : Expr) (name : String) [K.Has (items e)] : Meets J D K (named e name) := by
  unfold named; infer_instance

instance : Naming J where
  named e name := fun h => by
    have := h.left
    exact Tracked.holds

end Markings

instance [Naming J] : Crafting J where
  constant l := by unfold constant; exact Tracked.holds
  emitOperand o := fun h => by unfold emitOperand; exact Tracked.holds
  zeroed kind rows cols := Tracked.holds
  select cond yes no := fun h => by
    have := h.left
    have := h.right.left
    have := h.right.right
    unfold select; exact Tracked.holds
  binary op lhs rhs := fun h => by
    have := h.left
    have := h.right
    unfold binary; exact Tracked.holds
  unary op e := fun h => by unfold unary; exact Tracked.holds
  lanes e lanes _ := fun h => by unfold swizzle; exact Tracked.holds
  common b args _ := fun h => Tracked.holds
  variableOf o := fun h => by unfold variableOf; exact Tracked.holds
  elementAt e index := fun h => by
    have := h.left
    have := h.right
    unfold elementAt; exact Tracked.holds
  named e name := fun h => Naming.named e name h
  trySwizzle e lanes := fun h => Tracked.holds
  tryField e name := fun h => by unfold tryField; exact Tracked.holds
  tryCall p args := fun h => by
    have := h.left
    have := h.right
    unfold tryCall; exact Tracked.holds
  returnVoid := by unfold returnVoid; exact Tracked.holds
  returnValue e := by unfold returnValue; exact Tracked.holds
  groupSync := by unfold groupSync; exact Tracked.holds

section Arithmetic

variable [Arithmetic J] (e : Expr) [h : K.Has (items e)] (o o' : Operand) [ho : K.Has (items o)]
  [K.Has (items o')]

instance (l : Literal) : Meets J D K (constant l) := ⟨Arithmetic.constant l⟩

instance : Meets J D K (emitOperand o) := ⟨Arithmetic.emitOperand o ho⟩

instance (kind : Kind) (rows cols : Nat) :
    Meets J D K (zeroed (.value kind rows cols)) := ⟨Arithmetic.zeroed kind rows cols⟩

instance : Meets J D K (select e o o') := ⟨Arithmetic.select e o o' inferInstance⟩

instance (op : Op) : Meets J D K (binary op o o') := ⟨Arithmetic.binary op o o' inferInstance⟩

instance (op : Op) : Meets J D K (unary op e) := ⟨Arithmetic.unary op e h⟩

instance : Meets J D K (negate e) := by unfold negate; infer_instance

instance : Meets J D K (assign e o) := by unfold assign; infer_instance

instance (lanes : String) [CommonLanes lanes] : Meets J D K (swizzle e lanes) :=
  ⟨Arithmetic.lanes e lanes h⟩

instance (b : Builtin) (args : List Expr) [b.Common] [h : K.Has (items args)] :
    Meets J D K (apply b args) := ⟨Arithmetic.common b args h⟩

instance (os : List Operand) [h : K.Has (items os)] :
    Meets J D K (os.mapM emitOperand) :=
  tracked_each fun o ho => by
    have := h.mem ho
    infer_instance

instance (b : Builtin) (values : List Expr) (operands : List Operand) [b.Common]
    [K.Has (items values)] [K.Has (items operands)] : Meets J D K (applyTo b values operands) := by
  unfold applyTo; infer_instance

instance : Meets J D K (packHalves e) := by unfold packHalves; infer_instance

instance : Meets J D K (unpackHalves e) := by
  unfold unpackHalves
  repeat with_reducible refine Tracked.after fun _ => ?_
  infer_instance

instance : Meets J D K (luminance e) := by unfold luminance; infer_instance

instance : Meets J D K (signNotZero e) := by unfold signNotZero; infer_instance

instance : Meets J D K (encodeOctahedral e) := by
  unfold encodeOctahedral
  repeat with_reducible refine Tracked.after fun _ => ?_
  infer_instance

instance : Meets J D K (decodeOctahedral e) := by
  unfold decodeOctahedral
  repeat with_reducible refine Tracked.after fun _ => ?_
  infer_instance

instance : Meets J D K (encodeOctahedralBytes e) := by unfold encodeOctahedralBytes; infer_instance

instance : Meets J D K (decodeOctahedralBytes e) := by unfold decodeOctahedralBytes; infer_instance

end Arithmetic

instance [Crafting J] (e : Expr) : Meets J D K (returnValue e) := ⟨Crafting.returnValue e⟩

section Crafting

variable [Crafting J] (e : Expr) [h : K.Has (items e)] (o o' : Operand) [ho : K.Has (items o)]
  [K.Has (items o')]

instance : Meets J D K (variableOf o) := ⟨Crafting.variableOf o ho⟩

instance : Meets J D K (elementAt e o) := ⟨Crafting.elementAt e o inferInstance⟩

instance (name : String) [K.Has [.name name]] : Meets J D K (named e name) :=
  ⟨Crafting.named e name inferInstance⟩

instance (lanes : String) : Meets J D K (trySwizzle e lanes) := ⟨Crafting.trySwizzle e lanes h⟩

instance (name : String) : Meets J D K (tryField e name) := ⟨Crafting.tryField e name h⟩

instance (p : Prototype) (args : List Expr) [K.Has (items p)] [K.Has (items args)] :
    Meets J D K (tryCall p args) := ⟨Crafting.tryCall p args inferInstance⟩

instance : Meets J D K returnVoid := ⟨Crafting.returnVoid⟩

instance : Meets J D K groupSync := ⟨Crafting.groupSync⟩

instance tracked_call (p : Prototype) (args : List Expr) [K.Has (items p)] [K.Has (items args)] :
    Meets J D K (call p args) := by
  unfold call; infer_instance

instance (name : String) (args : List Expr) [h : K.Has (items args)]
    [hname : Meets J D K (function? name)] : Meets J D K (callNamed name args) := by
  refine ⟨Tracking.Chains.bind hname.holds fun p => ?_⟩
  cases p with
  | none => exact Basics.throw _
  | some p =>
    have : (K.adding (some p)).Has (items p) := ⟨fun _ hi => .inl hi⟩
    exact (tracked_call p args).holds

instance (ty : Ty) : Meets J D K (zero ty) := by unfold zero; infer_instance

instance : Meets J D K (complement e) := by unfold complement; infer_instance

instance : Meets J D K (copy e) := by unfold copy; infer_instance

instance (lanes : String) : Meets J D K (swizzle e lanes) := by unfold swizzle; infer_instance

instance (name : String) : Meets J D K (field e name) := by unfold field; infer_instance

instance (name : String) : Meets J D K (part e name) := by unfold part; infer_instance

instance (name : String) : Meets J D K (setPart e name o) := by unfold setPart; infer_instance

instance (index : Expr) [K.Has (items index)] : Meets J D K (read e index) := by
  unfold read; infer_instance

instance (index value : Expr) [K.Has (items index)] [K.Has (items value)] :
    Meets J D K (write e index value) := by
  unfold write; infer_instance

instance : Meets J D K (load e o) := by unfold load; infer_instance

instance : Meets J D K (store e o o') := by unfold store; infer_instance

instance (b : Builtin) (values : List Expr) (operands : List Operand)
    [K.Has (items values)] [K.Has (items operands)] : Meets J D K (applyTo b values operands) := by
  unfold applyTo; infer_instance

instance (p : Prototype) (ret : Ty) (result : Option Expr)
    [h : K.Has (items result)] : Meets J D K (returnResult p ret result) := by
  cases result with
  | some value =>
    have : K.Has (items value) := ⟨h.each⟩
    unfold returnResult; infer_instance
  | none => unfold returnResult; infer_instance

end Crafting

instance [Markings J] (stem : String) : Meets J D K (maskVariable stem) := by
  unfold maskVariable; infer_instance

end Build

end ComputeKernel
