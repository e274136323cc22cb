import ComputeKernel.Proofs.Building
import ComputeKernel.Proofs.Reemission

namespace ComputeKernel

inductive Fact where
  | made (e : Expr)
  | ready (e : Expr)
  | known (e : Expr)
  | visible (e : Expr)
  | plain (e : Expr)
  | inScope (name : Spelling)

namespace Fact

def Holds (dag : Dag) (s : Sheet) : Fact → Prop
  | .made e => dag.contains e
  | .ready e => dag.contains e ∧ ∀ d ∈ e.operands, d.Established s
  | .known e => dag.contains e ∧ e.Established s
  | .visible e => dag.contains e ∧ e.id ∈ s.draft.scopes.visible
  | .plain e => dag.contains e ∧ e.Established s ∧ (s.nodes.name e).temps = []
  | .inScope name => InScope s.nodes.types s.blocks name

def isLasting : Fact → Bool
  | .inScope _ => false
  | _ => true

@[simp]
def node? : Fact → Option Expr
  | .made e | .ready e | .known e | .visible e | .plain e => some e
  | .inScope _ => none

@[simp]
def written? : Fact → Option Expr
  | .known e | .visible e | .plain e => some e
  | .made _ | .ready _ | .inScope _ => none

end Fact

def Made (env : List Fact) (e : Expr) : Prop := some e ∈ env.map Fact.node?

def Known (env : List Fact) (e : Expr) : Prop := some e ∈ env.map Fact.written?

section Facts

variable {names : Line → List Spelling} {dag dag' : Dag} {s s' : Sheet} {b : Blocks} {f : Fact}
  {env more : List Fact} {e : Expr}

@[simp]
theorem made_cons : Made (f :: env) e ↔ f.node? = some e ∨ Made env e := by
  simp [Made, eq_comm]

@[simp]
theorem known_cons : Known (f :: env) e ↔ f.written? = some e ∨ Known env e := by
  simp [Known, eq_comm]

@[simp]
theorem known_append : Known (env ++ more) e ↔ Known env e ∨ Known more e := by
  simp [Known]

@[simp]
theorem made_filter : Made (env.filter Fact.isLasting) e ↔ Made env e := by
  simp only [Made, List.mem_map, List.mem_filter]
  refine exists_congr fun f => ⟨fun h => ⟨h.1.1, h.2⟩, fun h => ⟨⟨h.1, ?_⟩, h.2⟩⟩
  cases f <;> first | rfl | cases h.2

@[simp]
theorem known_filter : Known (env.filter Fact.isLasting) e ↔ Known env e := by
  simp only [Known, List.mem_map, List.mem_filter]
  refine exists_congr fun f => ⟨fun h => ⟨h.1.1, h.2⟩, fun h => ⟨⟨h.1, ?_⟩, h.2⟩⟩
  cases f <;> first | rfl | cases h.2

theorem Known.made (h : Known env e) : Made env e := by
  obtain ⟨f, hf, hw⟩ := List.mem_map.mp h
  refine List.mem_map.mpr ⟨f, hf, ?_⟩
  cases f <;> first | exact hw | cases hw

theorem Fact.Holds.of_stays (h : f.Holds dag s) (hst : Stays dag s s')
    (hg : ∀ e, dag.contains e → dag'.contains e)
    (hv : s.draft.scopes.visible ⊆ s'.draft.scopes.visible)
    (hb : f.isLasting = true ∨ s.blocks.all ⊆ s'.blocks.all) : f.Holds dag' s' := by
  cases f with
  | made e => exact hg e h
  | ready e =>
    exact ⟨hg e h.1, fun d hd => hst.established (dag.operands h.1 hd) (h.2 d hd)⟩
  | known e => exact ⟨hg e h.1, hst.established h.1 h.2⟩
  | visible e => exact ⟨hg e h.1, hv h.2⟩
  | plain e =>
    refine ⟨hg e h.1, hst.established h.1 h.2.1, ?_⟩
    rw [hst.name h.1 h.2.1]
    exact h.2.2
  | inScope name => exact h.mono hst.types (hb.resolve_left (by simp [isLasting]))

theorem known_of_stays {es : List Expr} (h : ∀ f ∈ es.map Fact.known, f.Holds dag s)
    (hst : Stays dag s s') : ∀ f ∈ es.map Fact.known, f.Holds dag s' := by
  intro f hf
  obtain ⟨e, -, rfl⟩ := List.mem_map.mp hf
  exact ⟨(h _ hf).1, hst.established (h _ hf).1 (h _ hf).2⟩

theorem Fact.Holds.advance (h : f.Holds dag s) (ha : Advance names dag s b dag' s')
    (hb : s.blocks.all ⊆ b.all) : f.Holds dag' s' :=
  h.of_stays ha.stays ha.grows ha.visible (.inr fun _ hm => ha.within.all_subset (hb hm))

theorem Made.contains (h : Made env e) (henv : ∀ f ∈ env, f.Holds dag s) : dag.contains e := by
  obtain ⟨f, hf, hn⟩ := List.mem_map.mp h
  have hh := henv f hf
  cases f <;> cases hn <;> first | exact hh | exact hh.1

theorem Known.established (h : Known env e) (hs : Sound dag s)
    (henv : ∀ f ∈ env, f.Holds dag s) : dag.contains e ∧ e.Established s := by
  obtain ⟨f, hf, hn⟩ := List.mem_map.mp h
  have hh := henv f hf
  cases f <;> cases hn
  · exact hh
  · exact ⟨hh.1, hs.established e hh.1 hh.2⟩
  · exact ⟨hh.1, hh.2.1⟩

end Facts

inductive Scoping where
  | same
  | growing

def Scoping.Allows : Scoping → Scopes → Scopes → Prop
  | .same, scopes, scopes' => scopes' = scopes
  | .growing, _, _ => True

theorem Scoping.allows_refl (k : Scoping) (scopes : Scopes) : k.Allows scopes scopes := by
  cases k <;> trivial

theorem Scoping.Allows.trans {k : Scoping} {a b c : Scopes} (h : k.Allows a b)
    (h' : k.Allows b c) : k.Allows a c := by
  cases k
  · exact Eq.trans h' h
  · trivial

def Goes (k : Scoping) (dag : Dag) (s : Sheet) (facts : List Fact) (s' : Sheet) : Prop :=
  ∃ dag', Advance Line.computed dag s s.blocks dag' s' ∧
    k.Allows s.draft.scopes s'.draft.scopes ∧ ∀ f ∈ facts, f.Holds dag' s'

def Lawful {ν α : Type} (held : ν → List Expr) (k : Scoping) (env : List Fact) (x : Build ν α)
    (res : α → List Fact) : Prop :=
  ∀ dag w, Sound dag w.sheet → (∀ f ∈ env ++ (held w.notes).map .known, f.Holds dag w.sheet) →
    Ensures x w
      (fun a w' => Goes k dag w.sheet (res a ++ (held w'.notes).map .known) w'.sheet) fun _ => True

section Rules

variable {ν α β : Type} {held : ν → List Expr} {k : Scoping} {env facts more : List Fact}
  {res : α → List Fact} {dag dag' : Dag} {s s' : Sheet} {e : Expr}

theorem Goes.refl (hs : Sound dag s) (hf : ∀ f ∈ facts, f.Holds dag s) : Goes k dag s facts s :=
  ⟨dag, .refl hs, k.allows_refl _, hf⟩

theorem Goes.keep (h : Goes k dag s facts s') (hf : ∀ f ∈ more, f.Holds dag s) :
    Goes k dag s (facts ++ more) s' := by
  obtain ⟨dag', ha, hk, hfacts⟩ := h
  refine ⟨dag', ha, hk, fun f hm => ?_⟩
  rcases List.mem_append.mp hm with hm | hm
  · exact hfacts f hm
  · exact (hf f hm).advance ha fun _ hm => hm

theorem Goes.of_wrote (h : Wrote dag s s.blocks s') (hk : k.Allows s.draft.scopes s'.draft.scopes)
    (hf : ∀ f ∈ facts, f.Holds dag s') : Goes k dag s facts s' :=
  ⟨dag, h.sparing fun _ => List.subset_append_left _ _, hk, hf⟩

theorem facts_after {new kept kept' : List Fact} (henv : ∀ f ∈ env ++ kept, f.Holds dag s)
    (ha : Advance Line.computed dag s s.blocks dag' s') (hf : ∀ f ∈ new ++ kept', f.Holds dag' s') :
    ∀ f ∈ new ++ env ++ kept', f.Holds dag' s' := by
  simp only [List.forall_mem_append] at *
  exact ⟨⟨hf.1, fun f hm => (henv.1 f hm).advance ha fun _ hm => hm⟩, hf.2⟩

namespace Lawful

variable {res' : α → List Fact} {x : Build ν α} {a : α}

theorem weaken (h : Lawful held k env x res)
    (hw : ∀ a dag s, Sound dag s → (∀ f ∈ res a, f.Holds dag s) → ∀ f ∈ res' a, f.Holds dag s) :
    Lawful held k env x res' := by
  intro dag w hs henv
  refine (h dag w hs henv).imp (fun a w' hg => ?_)
  obtain ⟨dag', ha, hallows, hf⟩ := hg
  rw [List.forall_mem_append] at hf
  exact ⟨dag', ha, hallows, List.forall_mem_append.mpr ⟨hw a dag' _ ha.sound hf.1, hf.2⟩⟩

theorem mono {env' : List Fact} (h : Lawful held k env x res) (he : env ⊆ env')
    (hr : ∀ a, res' a ⊆ res a) : Lawful held k env' x res' := by
  refine weaken (fun dag w hs hf => h dag w hs ?_) fun a _ _ _ hf f hm => hf f (hr a hm)
  rw [List.forall_mem_append] at hf ⊢
  exact ⟨fun f hm => hf.1 f (he hm), hf.2⟩

theorem growing (h : Lawful held .same env x res) : Lawful held k env x res := by
  intro dag w hs hf
  refine (h dag w hs hf).imp (fun a w' hg => ?_)
  obtain ⟨dag', ha, hk, hfacts⟩ := hg
  refine ⟨dag', ha, ?_, hfacts⟩
  rw [show w'.sheet.draft.scopes = w.sheet.draft.scopes from hk]
  exact k.allows_refl _

theorem bind {mid : β → List Fact} {x : Build ν β} {f : β → Build ν α}
    (hx : Lawful held k env x mid) (hf : ∀ a, Lawful held k (mid a ++ env) (f a) res) :
    Lawful held k env (x >>= f) res := by
  intro dag w hs henv
  refine .bind ((hx dag w hs henv).imp fun a w1 h1 => ?_)
  obtain ⟨dag1, ha1, hk1, hf1⟩ := h1
  refine (hf a dag1 w1 ha1.sound (facts_after henv ha1 hf1)).imp (fun b w2 h2 => ?_)
  obtain ⟨dag2, ha2, hk2, hf2⟩ := h2
  exact ⟨dag2, ha1.andThen ha2, hk1.trans hk2, hf2⟩

theorem aside
    (h : ∀ w, Ensures x w (fun _ w' => w'.sheet = w.sheet ∧ w'.notes = w.notes) fun _ => True) :
    Lawful held k env x fun _ => [] := by
  intro dag w hs henv
  refine (h w).imp (fun a w' hw => ?_)
  rw [hw.1, hw.2]
  exact .refl hs fun f hf => henv f (List.mem_append_right _ hf)

theorem emitting {x : Emit α}
    (h : ∀ dag s, Sound dag s → (∀ f ∈ env, f.Holds dag s) →
      Ensures x s (fun a s' => Goes k dag s (res a) s') fun _ => True) :
    Lawful held k env (Build.emitting x) res := by
  intro dag w hs henv
  refine Build.ensures_emitting ((h dag w.sheet hs fun f hf =>
    henv f (List.mem_append_left _ hf)).imp fun a s' hg => ?_)
  exact hg.keep fun f hf => henv f (List.mem_append_right _ hf)

theorem attempt {x : Emit α}
    (h : ∀ dag s, Sound dag s → (∀ f ∈ env, f.Holds dag s) →
      Ensures x s (fun a s' => Goes k dag s (res a) s') fun s' => Goes k dag s [] s') :
    Lawful held k env (Build.attempt x) fun r => r.toOption.elim [] res := by
  intro dag w hs henv
  have hx := h dag w.sheet hs fun f hf => henv f (List.mem_append_left _ hf)
  refine Build.ensures_attempt (fun a s' he => ?_) fun fault s' he => ?_
  · exact (hx.of_ok he).keep fun f hf => henv f (List.mem_append_right _ hf)
  · exact (hx.of_error he).keep fun f hf => henv f (List.mem_append_right _ hf)

theorem ite {p : Prop} [Decidable p] {y : Build ν α} (hx : Lawful held k env x res)
    (hy : Lawful held k env y res) : Lawful held k env (if p then x else y) res := by
  split
  · exact hx
  · exact hy

theorem result (h : ∀ dag s, Sound dag s → (∀ f ∈ env, f.Holds dag s) → ∀ f ∈ res a, f.Holds dag s)
    : Lawful held k env (Pure.pure a : Build ν α) res := fun dag w hs henv =>
  ensures_pure (.refl hs fun f hf => (List.mem_append.mp hf).elim
    (h dag w.sheet hs (fun g hg => henv g (List.mem_append_left _ hg)) f)
    fun hf => henv f (List.mem_append_right _ hf))

theorem pure (h : ∀ f ∈ res a, f ∈ env) : Lawful held k env (Pure.pure a : Build ν α) res :=
  result fun _ _ _ henv f hf => henv f (h f hf)

theorem throw {halt : Halt} : Lawful held k env (MonadExcept.throw halt : Build ν α) res :=
  fun _ _ _ _ => ensures_throw trivial

theorem get : Lawful held k env (MonadState.get : Build ν (Workspace ν)) fun _ => [] :=
  aside fun _ => ensures_get ⟨rfl, rfl⟩

theorem mapM {γ : Type} {f : γ → Build ν β} {single : β → List Fact} {xs : List γ}
    (h : ∀ x ∈ xs, ∀ env', env ⊆ env' → Lawful held k env' (f x) single) :
    Lawful held k env (xs.mapM f) fun ys => ys.flatMap single := by
  induction xs generalizing env with
  | nil =>
    rw [List.mapM_nil]
    exact .pure (by simp)
  | cons x xs ih =>
    rw [List.mapM_cons]
    refine .bind (h x (by simp) env fun _ hm => hm) fun y => .bind (ih fun x' hx' env' he => ?_)
      fun ys => .pure fun f hf => ?_
    · exact h x' (by simp [hx']) env' fun _ hm => he (List.mem_append_right _ hm)
    · simpa [List.flatMap_cons, or_comm, or_left_comm, or_assoc] using Or.inl hf

end Lawful

end Rules

def Draft.outline (d : Draft) :=
  ((d.types, d.resources), d.context, d.scopes, d.lines)

variable {names : Line → List Spelling} {dag : Dag} {s : Sheet}

theorem Advance.of_outline {d : Draft} (hs : Sound dag s) (h : d.outline = s.draft.outline) :
    Advance names dag s s.blocks dag { s with draft := d } := by
  simp only [Draft.outline, Prod.mk.injEq] at h
  obtain ⟨⟨ht, hr⟩, hc, hsc, hl⟩ := h
  exact .redraft hs (ht ▸ .refl _) (hr ▸ .refl _) hc hsc hl

theorem Advance.remask {masks : List Expr} {wave32 : Bool} (hs : Sound dag s)
    (hm : ∀ m ∈ masks, (Fact.plain m).Holds dag s) :
    Advance names dag s s.blocks dag { s with draft := { s.draft with masks, wave32 } } where
  grows := fun _ he => he
  sound := ⟨hs.numbered, hs.beyond, hs.own, hs.typed, hs.node, hs.established, hs.inScope, hm⟩
  stays := .of_nodes rfl rfl rfl
  enclosing := rfl
  stack := rfl
  visible := fun _ h => h
  within := .refl _
  text := ⟨[], (List.append_nil _).symm, trivial⟩
  functions := ⟨[], (List.append_nil _).symm, fun _ => trivial⟩

theorem Shown.remode {e : Expr} {s' : Sheet} (h : Shown dag e s s') (modes : IdTable Divergence) :
    Shown dag e s { s' with nodes := { s'.nodes with modes } } :=
  ⟨h.wrote.andThen (.remode h.wrote.sound modes), h.established, h.visible⟩

namespace Build

variable {ν α : Type} {held : ν → List Expr} {k : Scoping} {env : List Fact} {dag : Dag}
  {w : Workspace ν} {e : Expr}

theorem emitValue_shows (he : dag.contains e) (hs : Sound dag s) :
    Ensures (emitValue e) s (fun _ s' => Shown dag e s s') (Failed dag e s) := by
  refine .bind ((e.emit_shows he s hs).imp fun _ s1 h1 => ?_)
  refine .bind (ensures_inDivergentRegion fun _ modes => ensures_ite (fun _ => ?_) fun _ => ?_)
  · exact ensures_diverging fun _ modes => h1.remode modes
  · exact ensures_pure (h1.remode modes)

theorem tryEmit_shows (he : dag.contains e) (hs : Sound dag w.sheet) :
    Ensures (tryEmit e) w (fun r w' => w'.notes = w.notes ∧
      (r = .ok e ∧ Shown dag e w.sheet w'.sheet ∨
        (∃ fault, r = .error fault) ∧ Failed dag e w.sheet w'.sheet)) fun _ => False := by
  refine .bind (ensures_attempt (fun _ s' hx => ?_) fun fault s' hx => ?_)
  · refine .bind (ensures_modify (ensures_pure ⟨rfl, .inl ⟨rfl, ?_⟩⟩))
    exact (emitValue_shows he hs).of_ok hx
  · exact ensures_pure ⟨rfl, .inr ⟨⟨fault, rfl⟩, (emitValue_shows he hs).of_error hx⟩⟩

theorem emit_shows (he : dag.contains e) (hs : Sound dag w.sheet) :
    Ensures (emit e) w (fun r w' => w'.notes = w.notes ∧ r = e ∧ Shown dag e w.sheet w'.sheet)
      fun _ => True := by
  refine .bind ((tryEmit_shows he hs).mono (fun r w' h => ?_) fun _ h => h.elim)
  refine ensures_must (fun a ha => ?_) trivial
  obtain ⟨hn, ⟨hr, hsh⟩ | ⟨⟨fault, hr⟩, -⟩⟩ := h <;> rw [hr] at ha <;> cases ha
  exact ⟨hn, rfl, hsh⟩

def emitted : Except Fault Expr → List Fact
  | .ok e => [.visible e]
  | .error _ => []

theorem lawful_tryEmit (he : .ready e ∈ env) : Lawful held .growing env (tryEmit e) emitted := by
  intro dag w hs henv
  have hr : (Fact.ready e).Holds dag w.sheet := henv _ (List.mem_append_left _ he)
  refine (tryEmit_shows hr.1 hs).mono (fun r w' h => ?_) fun _ h => h.elim
  obtain ⟨hn, ⟨rfl, hsh⟩ | ⟨⟨fault, rfl⟩, hf⟩⟩ := h <;> rw [hn] <;>
    refine Goes.keep ?_ fun f hm => henv f (List.mem_append_right _ hm)
  · exact .of_wrote hsh.wrote trivial (by simpa [emitted, Fact.Holds] using ⟨hr.1, hsh.visible⟩)
  · exact .of_wrote (hf.wrote hr.2) trivial (by simp [emitted])

theorem lawful_emit (he : Made env e) :
    Lawful held .growing env (emit e) fun e => [.visible e] := by
  intro dag w hs henv
  have hc : dag.contains e := he.contains fun f hf => henv f (List.mem_append_left _ hf)
  refine (emit_shows hc hs).imp (fun r w' h => ?_)
  obtain ⟨hn, rfl, hsh⟩ := h
  rw [hn]
  refine Goes.keep ?_ fun f hm => henv f (List.mem_append_right _ hm)
  exact .of_wrote hsh.wrote trivial (by simpa [Fact.Holds] using ⟨hc, hsh.visible⟩)

variable {mk : Nat → Expr}

theorem lawful_node (hid : ∀ id, (mk id).id = id) (hops : ∀ id, ∀ d ∈ (mk id).operands, Made env d)
    : Lawful held k env (node mk) fun e => [.made e] := by
  refine .emitting fun dag s hs henv => ComputeKernel.ensures_making ?_
  obtain ⟨dag', hc, ha⟩ := Advance.make Line.computed hs _ (hid _) fun d hd => (hops _ d hd).contains henv
  exact ⟨dag', ha, k.allows_refl _, by simpa [Fact.Holds] using hc⟩

theorem lawful_node_ready (hid : ∀ id, (mk id).id = id)
    (hops : ∀ id, ∀ d ∈ (mk id).operands, Known env d) :
    Lawful held k env (node mk) fun e => [.ready e] := by
  refine .emitting fun dag s hs henv => ComputeKernel.ensures_making ?_
  have hknown := fun d hd => (hops s.nodes.next d hd).established hs henv
  obtain ⟨dag', hc, ha⟩ := Advance.make Line.computed hs _ (hid _) fun d hd => (hknown d hd).1
  refine ⟨dag', ha, k.allows_refl _, ?_⟩
  simpa [Fact.Holds] using
    ⟨hc, fun d hd => ha.stays.established (hknown d hd).1 (hknown d hd).2⟩

theorem lawful_must (r : Except Fault α) : Lawful held k env (must r) fun _ => [] :=
  .aside fun _ => ensures_must (fun _ _ => ⟨rfl, rfl⟩) trivial

theorem lawful_must_emitted {r : Except Fault Expr} (h : emitted r ⊆ env) :
    Lawful held k env (must r) fun e => [.visible e] := by
  cases r with
  | ok e => exact .pure fun _ hf => h hf
  | error fault => exact .throw

theorem lawful_fatal {res : α → List Fact} (fault : Fault) :
    Lawful held k env (fatal fault : Build ν α) res := .throw

theorem lawful_fatal_bind {β : Type} {f : α → Build ν β} {res : β → List Fact} (fault : Fault) :
    Lawful held k env (fatal fault >>= f) res :=
  fun _ _ _ _ => .bind (ensures_throw trivial)

theorem lawful_draft : Lawful held k env draft fun _ => [] :=
  .aside fun _ => .bind (ensures_get (ensures_pure ⟨rfl, rfl⟩))

theorem lawful_isWave32 : Lawful held k env isWave32 fun _ => [] :=
  .aside fun _ => ensures_isWave32 ⟨rfl, rfl⟩

theorem lawful_nameOf (e : Expr) : Lawful held k env (nameOf e) fun _ => [] :=
  .aside fun _ => ensures_nameOf ⟨rfl, rfl⟩

theorem lawful_nameOf_inScope (h : .visible e ∈ env ∨ .plain e ∈ env) :
    Lawful held k env (nameOf e) fun name => [.inScope name] := by
  intro dag w hs henv
  have henv' := fun f hf => henv f (List.mem_append_left _ hf)
  refine ensures_nameOf (.refl hs fun f hf => ?_)
  rcases List.mem_append.mp hf with hf | hf
  · rw [List.mem_singleton.mp hf]
    rcases h with h | h
    · have hv : (Fact.visible e).Holds dag w.sheet := henv' _ h
      exact hs.inScope e hv.1 hv.2
    · have hp : (Fact.plain e).Holds dag w.sheet := henv' _ h
      simp [Fact.Holds, InScope, hp.2.2]
  · exact henv f (List.mem_append_right _ hf)

theorem lawful_typeOf (he : Made env e) : Lawful held k env (typeOf e) fun _ => [] := by
  refine .emitting fun dag s hs henv => ensures_typing ?_
  refine (e.inferType_finds (he.contains henv) hs.typed).mono (fun _ t h => ?_) fun _ _ => trivial
  exact ⟨dag, .retype hs h.1.1 h.1.2, k.allows_refl _, by simp⟩

theorem lawful_diverging (x : Diverging α) :
    Lawful held k env (emitting (.diverging x)) fun _ => [] :=
  .emitting fun dag _ hs _ => ensures_diverging fun _ modes =>
    ⟨dag, .remode hs modes, k.allows_refl _, by simp⟩

theorem lawful_divergenceOf (e : Expr) : Lawful held k env (divergenceOf e) fun _ => [] :=
  lawful_diverging _

theorem lawful_inDivergentRegion : Lawful held k env inDivergentRegion fun _ => [] :=
  .emitting fun dag _ hs _ => ensures_inDivergentRegion fun _ modes =>
    ⟨dag, .remode hs modes, k.allows_refl _, by simp⟩

theorem lawful_freshName (stem : String) : Lawful held k env (freshName stem) fun _ => [] :=
  .aside fun _ => ensures_freshName ⟨rfl, rfl⟩

theorem lawful_drafting {x : Drafting α}
    (h : ∀ d, Ensures x d (fun _ d' => d'.outline = d.outline) fun _ => True) :
    Lawful held k env (drafting x) fun _ => [] := by
  refine .emitting fun dag s hs _ => ComputeKernel.ensures_drafting ?_
  refine (h s.draft).imp (fun _ d hd => ?_)
  refine ⟨dag, .of_outline hs hd, ?_, by simp⟩
  rw [show d.scopes = s.draft.scopes from congrArg (·.2.2.1) hd]
  exact k.allows_refl _

theorem lawful_redraft {f : Draft → Draft} (h : ∀ d, (f d).outline = d.outline) :
    Lawful held k env (redraft f) fun _ => [] :=
  lawful_drafting (x := modify f) fun d => ensures_modify (h d)

theorem lawful_writeLine {line : Line} (hstep : ∀ b, Blocks.step b line = b.declare line.declared)
    (hm : ∀ name ∈ line.computed, .inScope name ∈ env) :
    Lawful held k env (writeLine line) fun _ => [] := by
  refine .emitting fun dag s hs henv => ComputeKernel.ensures_redraft ?_
  refine ⟨dag, .statement hs (fun name hn => henv _ (hm name hn)) (hstep _), ?_, by simp⟩
  rw [Draft.scopes_write]
  exact k.allows_refl _

theorem lawful_popTarget : Lawful held k env (drafting .popTarget) fun _ => [] := by
  refine lawful_drafting fun d => .bind (ensures_get ?_)
  cases d.targets with
  | nil => exact ensures_throw trivial
  | cons target targets => exact .bind (ensures_set (ensures_pure rfl))

theorem lawful_pushMask {mask : Expr} (h : .plain mask ∈ env) :
    Lawful held k env (redraft (·.pushMask mask)) fun _ => [] := by
  refine .emitting fun dag s hs henv => ComputeKernel.ensures_redraft ?_
  refine ⟨dag, .remask hs fun m hm => ?_, k.allows_refl _, by simp⟩
  rcases List.mem_cons.mp hm with rfl | hm
  · exact henv _ h
  · exact hs.masks m hm

theorem lawful_popMask : Lawful held k env (drafting .popMask) fun _ => [] := by
  refine .emitting fun dag s hs _ => ComputeKernel.ensures_drafting
    (.bind (ensures_get ?_))
  have hmasks := hs.masks
  generalize hm : s.draft.masks = masks at hmasks
  match masks with
  | [] | [_] => exact ensures_throw trivial
  | mask :: next :: masks =>
    refine .bind (ensures_set (ensures_pure
      ⟨dag, .remask hs fun m hmem => ?_, k.allows_refl _, by simp⟩))
    exact hmasks m (List.mem_cons_of_mem _ hmem)

theorem lawful_currentMask : Lawful held k env currentMask fun mask => [.plain mask] := by
  refine .emitting fun dag s hs _ => ComputeKernel.ensures_drafting
    (.bind (ensures_get ?_))
  have hmasks := hs.masks
  generalize s.draft.masks = masks at hmasks
  match masks with
  | [] => exact ensures_throw trivial
  | mask :: masks =>
    exact ensures_pure (.refl hs (by simpa [Fact.Holds] using hmasks mask (by simp)))

theorem lawful_writeHeader (text : String) : Lawful held k env (writeHeader text) fun _ => [] :=
  lawful_redraft fun _ => rfl

theorem lawful_setGroupSize (size : GroupSize) :
    Lawful held k env (setGroupSize size) fun _ => [] := by
  intro dag w hs henv
  have hheld := fun f hf => henv f (List.mem_append_right _ hf)
  exact ensures_setGroupSize (Goes.keep ⟨dag, .of_outline hs rfl, k.allows_refl _, by simp⟩ hheld)
    (fun _ => .refl hs hheld) trivial

theorem lawful_builtin (b : Builtin) : Lawful held k env (builtin b) fun _ => [] :=
  .aside fun _ => .bind (ensures_get (.bind (ensures_set (ensures_pure ⟨rfl, rfl⟩))))

theorem lawful_function? (name : String) : Lawful held k env (function? name) fun _ => [] :=
  .aside fun _ => .bind (ensures_get (ensures_pure ⟨rfl, rfl⟩))

theorem lawful_register (p : Prototype) : Lawful held k env (register p) fun _ => [] :=
  .aside fun _ => .bind (ensures_modify (ensures_pure ⟨rfl, rfl⟩))

end Build

end ComputeKernel
