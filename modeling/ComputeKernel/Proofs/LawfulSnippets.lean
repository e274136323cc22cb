import ComputeKernel.Proofs.ControlJudgements
import ComputeKernel.Proofs.LawfulControl

namespace ComputeKernel

variable {ν : Type} {held : ν → List Expr} {k : Scoping} {env : List Fact} {e : Expr}

namespace Build

def searchStep (buffer key low high : Expr) : Build ν Unit := do
  let top ← apply (.convert .i32) [high]
  let bottom ← apply (.convert .i32) [low]
  let span ← binary .sub top bottom
  let done ← binary .le span (Literal.i32 [1])
  laneIf done breakLoop
  let sum ← binary .add low high
  let middle ← binary .div sum (Literal.u32 [2])
  let found ← read buffer middle
  let above ← binary .gt found key
  laneIfElse above
    (do let _ ← assign high middle)
    (do let _ ← assign low middle)

theorem binarySearch_eq (buffer count key : Expr) :
    (binarySearch buffer count key : Build ν Expr) = (do
      let low ← copy (← zero .u32)
      let high ← copy count
      laneWhile (searchStep buffer key low high)
      return low) := rfl

def block (line : Line) (body : Build ν Unit) : Build ν Unit := do
  writeLine line
  body
  writeLine .close

theorem lawful_block {line : Line} {body : Build ν Unit}
    (hstep : ∀ b, Blocks.step b line = b.enter) (hc : ∀ name ∈ line.computed, .inScope name ∈ env)
    (h : Lawful held .same env body fun _ => []) :
    Lawful held k env (block line body) fun _ => [] :=
  .open hstep hc (.bind h fun _ => closing_line (fun _ => rfl) rfl)

def judge (query : String) (accept : Expr → Build ν Expr) : Build ν Unit := do
  let candidate ← zeroed .rayQueryResult
  writeLine (.readHit (← nameOf candidate) query .candidate)
  let blocks ← accept candidate
  writeLine (.commit (← nameOf blocks) query)

theorem transparentQuery_eq (scene ray : Expr) (accept : Expr → Build ν Expr) :
    transparentQuery scene ray accept = (do
      let result ← zeroed .rayQueryResult
      let query ← freshName "rq"
      writeLine (.declareQuery query)
      writeLine (.trace query (← nameOf scene) (← nameOf ray))
      block (.openQueryLoop query) <| inScope none <| block (.openCandidate query) <| inScope none <|
        judge query accept
      block (.openCommitted query) do
        writeLine (.readHit (← nameOf result) query .committed)
      return result) := by
  simp only [transparentQuery, judge, block, bind_assoc]

variable {query : String} {accept : Expr → Build ν Expr}

theorem lawful_judge (h : ∀ c, Lawful held .growing (.visible c :: env) (accept c) fun _ => []) :
    Lawful held .growing env (judge query accept) fun _ => [] := by
  refine .bind (lawful_zeroed _) fun candidate =>
    .bind (lawful_nameOf_inScope (e := candidate) (by simp)) fun _ =>
      .bind (lawful_writeLine (fun _ => rfl) (by simp)) fun _ => ?_
  refine .bind ((h candidate).mono (fun f hf => ?_) fun _ _ hf => hf) fun blocks =>
    .bind (lawful_nameOf blocks) fun _ => lawful_writeLine (fun _ => rfl) (by simp)
  rcases List.mem_cons.mp hf with rfl | hf
  · simp
  · simp [hf]

theorem lawful_candidates
    (h : ∀ c, Lawful held .growing (.visible c :: env) (accept c) fun _ => []) :
    Lawful held k env (block (.openQueryLoop query) <| inScope none <|
      block (.openCandidate query) <| inScope none <| judge query accept) fun _ => [] :=
  lawful_block (fun _ => rfl) (by simp) (lawful_inScope
    (lawful_block (fun _ => rfl) (by simp) (lawful_inScope (lawful_judge h))))

theorem lawful_transparentQuery {scene ray : Expr}
    (h : ∀ c, Lawful held .growing (.visible c :: env) (accept c) fun _ => []) :
    Lawful held .growing env (transparentQuery scene ray accept) fun e => [.visible e] := by
  rw [transparentQuery_eq]
  refine .bind (lawful_zeroed _) fun result => .bind (lawful_freshName _) fun query =>
    .bind (lawful_writeLine (fun _ => rfl) (by simp)) fun _ =>
      .bind (lawful_nameOf scene) fun _ => .bind (lawful_nameOf ray) fun _ =>
        .bind (lawful_writeLine (fun _ => rfl) (by simp)) fun _ => ?_
  refine .bind (lawful_candidates fun c => (h c).mono (fun f hf => ?_) fun _ _ hf => hf) fun _ => ?_
  · rcases List.mem_cons.mp hf with rfl | hf
    · simp
    · simp [hf]
  · refine .bind (lawful_block (fun _ => rfl) (by simp)
      (.bind (lawful_nameOf_inScope (e := result) (by simp)) fun _ =>
        lawful_writeLine (fun _ => rfl) (by simp))) fun _ => .pure (by simp)

end Build

section Judgement

open Bears (items)
open Build

def factsOf (taken : List Item) : List Fact :=
  taken.filterMap fun
    | .value e => some (.known e)
    | _ => none

def Lawfully (held : ν → List Expr) : Tracking Events ν := fun _ _ K _ _ x _ =>
  ∀ env, (∀ e, K (.value e) → Known env e) → Lawful held .growing env x fun a => factsOf (items a)

variable {K : Stock} {α : Type} [Bears α]

variable {taken : List Item}

theorem mem_factsOf {f : Fact} : f ∈ factsOf taken ↔ ∃ e, .value e ∈ taken ∧ f = .known e := by
  simp only [factsOf, List.mem_filterMap]
  constructor
  · rintro ⟨i, hi, hf⟩
    cases i with
    | value e => exact ⟨e, hi, (Option.some.inj hf).symm⟩
    | _ => cases hf
  · rintro ⟨e, he, rfl⟩
    exact ⟨_, he, rfl⟩

theorem known_factsOf (h : .value e ∈ taken) : Known (factsOf taken) e :=
  List.mem_map.mpr ⟨.known e, mem_factsOf.mpr ⟨e, h, rfl⟩, rfl⟩

theorem Lawful.knowing {x : Build ν α} {res : α → List Fact} (h : Lawful held k env x res)
    (hk : ∀ a e, .value e ∈ items a → Known (res a) e) :
    Lawful held k env x fun a => factsOf (items a) := by
  refine h.weaken fun a dag s hs hf f hm => ?_
  obtain ⟨e, he, rfl⟩ := mem_factsOf.mp hm
  exact (hk a e he).established hs hf

theorem known_visible (e : Expr) : ∀ i, .value i ∈ items e → Known [.visible e] i := by
  simp [items]

theorem Lawful.visibly {x : Build ν Expr} (h : Lawful held k env x fun e => [.visible e]) :
    Lawful held k env x fun e => factsOf (items e) := h.knowing known_visible

theorem Lawful.emittedly {x : Build ν (Except Fault Expr)} (h : Lawful held k env x emitted) :
    Lawful held k env x fun r => factsOf (items r) := by
  refine h.knowing fun r e he => ?_
  cases r with
  | ok d =>
    obtain rfl : e = d := by simpa [items, Except.toOption] using he
    simp [emitted]
  | error fault => cases he

theorem made_of_has {o : Operand} (hK : ∀ e, K (.value e) → Known env e) (h : K.Has (items o)) :
    o.Made env := by
  cases o with
  | value e => exact (hK e (h.each _ (.head _))).made
  | constant l => trivial

instance : Crafting (Lawfully held) where
  pure a h := fun env hK => .result fun dag s hs henv f hf => by
    obtain ⟨e, he, rfl⟩ := mem_factsOf.mp hf
    exact (hK e (h.each _ he)).established hs henv
  bind hx hf := fun env hK => .bind (hx env hK) fun a => hf a _ fun e he => known_append.mpr
    (he.imp known_factsOf (hK e))
  grow h hx := fun env hK => hx env fun e he => hK e (h.kept _ he)
  throw halt := fun _ _ => .throw
  place mk h := fun env hK => (lawful_emitNode h.id fun n d hd => (hK d (h.operand n d hd)).made).visibly
  array elem length init := fun env hK => (Lawful.bind (lawful_array elem length init) fun _ =>
    lawful_emit (by simp)).visibly
  typeOf e := fun h env hK => lawful_typeOf (hK e h.value).made
  nameOf e := fun _ _ => lawful_nameOf e
  builtin b := fun _ _ => lawful_builtin b
  draft := fun _ _ => lawful_draft
  currentMask := fun _ _ => lawful_currentMask.knowing (by simp [items])
  addShared name ty := fun _ _ => lawful_addShared name ty
  setGroupSize size := fun _ _ => lawful_setGroupSize size
  writeHeader text := fun _ _ => lawful_writeHeader text
  constant l := fun _ _ => (lawful_constant l).knowing (by simp [items])
  emitOperand o := fun h env hK => (lawful_emitOperand (made_of_has hK h)).visibly
  zeroed kind rows cols := fun _ _ => (lawful_zeroed _).visibly
  select cond yes no := fun h env hK => (lawful_select (hK cond h.left.value).made
    (made_of_has hK h.right.left) (made_of_has hK h.right.right)).visibly
  binary op lhs rhs := fun h env hK =>
    (lawful_binary (made_of_has hK h.left) (made_of_has hK h.right)).visibly
  unary op e := fun h env hK => (lawful_unary (hK e h.value).made).visibly
  lanes e lanes _ := fun h env hK => (lawful_swizzle (hK e h.value) lanes).visibly
  common b args _ := fun h env hK => (lawful_apply fun a ha => (hK a (h.mem ha).value).made).visibly
  variableOf o := fun h env hK => (lawful_variableOf (made_of_has hK h)).visibly
  elementAt e index := fun h env hK =>
    (lawful_elementAt (hK e h.left.value).made (made_of_has hK h.right)).visibly
  named e name := fun h env hK =>
    (lawful_named (hK e h.left.value).made name).knowing (by simp [items])
  trySwizzle e lanes := fun h env hK => (lawful_trySwizzle (hK e h.value) lanes).emittedly
  tryField e name := fun h env hK => (lawful_tryField (hK e h.value) name).emittedly
  tryCall p args := fun h env hK => (lawful_tryCall fun a ha => hK a (h.right.mem ha).value).emittedly
  returnVoid := fun _ _ => lawful_returnVoid
  returnValue e := fun _ _ => lawful_returnValue e
  groupSync := fun _ _ => lawful_groupSync

theorem lawful_of_trackedCases {D D' : Events} {cases cases' : List (UInt32 × Build ν Unit)}
    (h : TrackedCases (Lawfully held) K D D' cases cases') (hK : ∀ e, K (.value e) → Known env e) :
    ∀ c ∈ cases, Lawful held .growing env c.2 fun _ => [] := by
  induction h with
  | nil => simp
  | cons label hbody _ ih => exact List.forall_mem_cons.mpr ⟨hbody env hK, ih⟩

theorem known_adding {a : α} {more : List Fact} (ha : ∀ i, .value i ∈ items a → Known more i)
    (hK : ∀ e, K (.value e) → Known env e) (he : (K.adding a) (.value e)) : Known (more ++ env) e :=
  known_append.mpr (he.imp (ha e) (hK e))

instance : Controls (Lawfully held) where
  enableWave32 := fun _ _ => lawful_enableWave32
  laneIf cond _ _ hc h := fun env hK => lawful_laneIf (hK cond hc.value).made (h env hK)
  laneIfElse cond _ _ _ _ hc h ho := fun env hK => lawful_laneIfElse (hK cond hc.value).made
    (h env hK) (ho _ fun e he => known_filter.mpr (hK e he))
  maskedIf cond _ _ h := fun env hK => lawful_maskedIf (h env hK) nofun
  maskedIfElse cond _ _ _ _ h ho := fun env hK => lawful_maskedIf (h env hK) fun _ hn => by
    cases hn
    exact ho _ fun e he => known_filter.mpr (hK e he)
  ifLaneActive h := fun env hK => lawful_ifLaneActive (h env hK)
  forRange first last _ _ hf hl h := fun env hK => lawful_forRange (made_of_has hK hf)
    (made_of_has hK hl) fun i => h i _ fun _ => known_adding (known_visible _) hK
  laneWhile h := fun env hK => lawful_laneWhile (h env hK)
  maskedWhile h := fun env hK => lawful_maskedWhile (h env hK)
  switchOn value _ _ hv h := fun env hK =>
    lawful_switchOn (hK value hv.value).made (lawful_of_trackedCases h hK)
  breakLoop := fun _ _ => lawful_breakLoop
  continueLoop := fun _ _ => lawful_continueLoop
  transparentQuery scene ray _ _ h := fun env hK => (lawful_transparentQuery fun c =>
    (h c _ fun _ => known_adding (known_visible _) hK).mono (fun _ h => h) (by simp)).visibly

instance : Definitions (Lawfully held) where
  defineFunction p _ _ h := fun env hK => lawful_defineFunction fun params => by
    refine (h params _ fun e => known_adding (fun i hi => ?_) fun e he => ?_).weaken
      fun r dag s hs hf f hm => ?_
    · simpa [Known, items] using hi
    · simpa [Known] using hK e he
    · obtain ⟨e, he, rfl⟩ := List.mem_map.mp hm
      obtain rfl : r = some e := by simpa using he
      exact (hf (.known e) (mem_factsOf.mpr ⟨e, .head _, rfl⟩)).1

def known (env : List Fact) : Stock := fun i => ∀ e, i = .value e → Known env e

theorem has_known (h : Known env e) : (known env).Has (items e) := ⟨by simpa [items, known] using h⟩

theorem lawful_searchStep {buffer key low high : Expr} (hb : Known env buffer) (hk : Known env key)
    (hlow : Known env low) (hhigh : Known env high) :
    Lawful held .growing env (searchStep buffer key low high) fun _ => [] := by
  have := has_known hb
  have := has_known hk
  have := has_known hlow
  have := has_known hhigh
  have hstep : Meets (Lawfully held) [] (known env) (searchStep buffer key low high) := by
    unfold searchStep
    repeat with_reducible refine Tracked.after fun _ => ?_
    infer_instance
  exact hstep.holds env fun e he => he e rfl

end Judgement

end ComputeKernel
