import ComputeKernel.Proofs.Nesting
import ComputeKernel.Proofs.Vocabulary

namespace ComputeKernel

def Ends {ε σ α : Type} (x : EStateM ε σ α) (s : σ) (done : α → σ → Prop)
    (failed : ε → σ → Prop) : Prop :=
  match x s with
  | .ok a s' => done a s'
  | .error fault s' => failed fault s'

namespace Ends

variable {ε σ α β : Type} {s : σ} {done : α → σ → Prop} {failed : ε → σ → Prop}
  {x : EStateM ε σ α}

variable {done' : α → σ → Prop} {failed' : σ → Prop} {a : α} {s' : σ} {fault : ε}

theorem mono {failed' : ε → σ → Prop} (h : Ends x s done failed)
    (hd : ∀ a s', done a s' → done' a s') (hf : ∀ fault s', failed fault s' → failed' fault s') :
    Ends x s done' failed' := by
  unfold Ends at *
  split at h
  · exact hd _ _ h
  · exact hf _ _ h

theorem of_ok (h : Ends x s done failed) (hx : x s = .ok a s') : done a s' := by
  simpa only [Ends, hx] using h

theorem of_error (h : Ends x s done failed) (hx : x s = .error fault s') : failed fault s' := by
  simpa only [Ends, hx] using h

theorem of_runs (hd : ∀ a s', x s = .ok a s' → done a s')
    (hf : ∀ fault s', x s = .error fault s' → failed fault s') : Ends x s done failed := by
  unfold Ends
  split
  · exact hd _ _ ‹_›
  · exact hf _ _ ‹_›

theorem and (h : Ends x s done failed) (h' : Ensures x s done' failed') :
    Ends x s (fun a s' => done a s' ∧ done' a s') fun fault s' => failed fault s' ∧ failed' s' := by
  unfold Ends at *
  unfold Ensures at h'
  split at h <;> simp_all

theorem ensures (h : Ends x s done failed)
    (hf : ∀ fault s', failed fault s' → failed' s') : Ensures x s done failed' := by
  unfold Ensures
  cases hx : x s with
  | ok a s' => exact h.of_ok hx
  | error fault s' => exact hf fault s' (h.of_error hx)

theorem bind {f : α → EStateM ε σ β} {done : β → σ → Prop}
    (h : Ends x s (fun a s' => Ends (f a) s' done failed) failed) :
    Ends (x >>= f) s done failed := by
  simp only [Ends, Bind.bind, EStateM.bind] at *
  cases hx : x s <;> simpa only [hx] using h

theorem pure (h : done a s) : Ends (Pure.pure a : EStateM ε σ α) s done failed := h

theorem throw (h : failed fault s) :
    Ends (MonadExcept.throw fault : EStateM ε σ α) s done failed := h

theorem get {done : σ → σ → Prop} (h : done s s) :
    Ends (MonadState.get : EStateM ε σ σ) s done failed := h

theorem modify {f : σ → σ} {done : PUnit → σ → Prop} (h : done ⟨⟩ (f s)) :
    Ends (MonadState.modifyGet (fun s => (⟨⟩, f s)) : EStateM ε σ PUnit) s done failed := h

theorem ite {p : Prop} [Decidable p] {y : EStateM ε σ α} (hx : p → Ends x s done failed)
    (hy : ¬p → Ends y s done failed) : Ends (if p then x else y) s done failed := by
  split
  · exact hx ‹p›
  · exact hy ‹¬p›

instance [∀ a s', Decidable (done a s')] [∀ fault s', Decidable (failed fault s')] :
    Decidable (Ends x s done failed) :=
  match hx : x s with
  | .ok a s' => decidable_of_iff (done a s') (by rw [Ends, hx])
  | .error fault s' => decidable_of_iff (failed fault s') (by rw [Ends, hx])

theorem exists_error (x : EStateM ε σ α) (s : σ) (failed : ε → σ → Prop)
    (h : Ends x s (fun _ _ => False) failed) :
    ∃ fault s', x s = .error fault s' ∧ failed fault s' := by
  unfold Ends at h
  split at h
  · exact h.elim
  · exact ⟨_, _, by assumption, h⟩

end Ends

structure Discipline (ε σ : Type) where
  good : σ → Prop
  runs : σ → σ → Prop
  fails : σ → σ → Prop
  stops : ε → Prop
  refl : ∀ s, runs s s
  trans : ∀ {a b c}, runs a b → runs b c → runs a c
  abandon : ∀ {a b}, runs a b → fails a b
  trans_fails : ∀ {a b c}, runs a b → fails b c → fails a c

namespace Discipline

variable {ε σ α β γ : Type} {D : Discipline ε σ} {p : α → Prop} {q : β → Prop}

def Obeys (D : Discipline ε σ) (x : EStateM ε σ α) (p : α → Prop) : Prop :=
  ∀ s, D.good s → Ends x s (fun a s' => D.good s' ∧ D.runs s s' ∧ p a)
    fun fault s' => D.stops fault ∧ D.good s' ∧ D.fails s s'

abbrev Upholds (D : Discipline ε σ) (x : EStateM ε σ α) : Prop := D.Obeys x fun _ => True

namespace Obeys

variable {x : EStateM ε σ α} {f : α → EStateM ε σ β} {fault : ε}

theorem mono {p' : α → Prop} (h : D.Obeys x p) (hp : ∀ a, p a → p' a) : D.Obeys x p' := by
  intro s hs
  exact (h s hs).mono (fun a s' h => ⟨h.1, h.2.1, hp a h.2.2⟩) fun _ _ h => h

theorem bind (hx : D.Obeys x p) (hf : ∀ a, p a → D.Obeys (f a) q) : D.Obeys (x >>= f) q := by
  intro s hs
  refine .bind ((hx s hs).mono (fun a s1 h1 => ?_) fun _ _ h => h)
  obtain ⟨hgood, hruns, ha⟩ := h1
  refine (hf a ha s1 hgood).mono (fun b s2 h2 => ?_) fun fault s2 h2 => ?_
  · exact ⟨h2.1, D.trans hruns h2.2.1, h2.2.2⟩
  · exact ⟨h2.1, h2.2.1, D.trans_fails hruns h2.2.2⟩

theorem pure {a : α} (h : p a) : D.Obeys (Pure.pure a : EStateM ε σ α) p := by
  intro s hs
  exact ⟨hs, D.refl s, h⟩

theorem throw (h : D.stops fault) : D.Obeys (MonadExcept.throw fault : EStateM ε σ α) p := by
  intro s hs
  exact ⟨h, hs, D.abandon (D.refl s)⟩

theorem stop (h : D.stops fault) : D.Obeys (MonadExcept.throw fault >>= f) q :=
  bind (p := fun _ => False) (throw h) fun _ ha => ha.elim

theorem get : D.Obeys (MonadState.get : EStateM ε σ σ) D.good := by
  intro s hs
  exact ⟨hs, D.refl s, hs⟩

theorem modify {f : σ → σ} (h : ∀ s, D.good s → D.good (f s) ∧ D.runs s (f s)) :
    D.Upholds (MonadState.modifyGet (fun s => (⟨⟩, f s)) : EStateM ε σ PUnit) := by
  intro s hs
  exact ⟨(h s hs).1, (h s hs).2, trivial⟩

theorem ite {c : Prop} [Decidable c] {y : EStateM ε σ α} (hx : c → D.Obeys x p)
    (hy : ¬c → D.Obeys y p) : D.Obeys (if c then x else y) p := by
  split
  · exact hx ‹c›
  · exact hy ‹¬c›

theorem mapM {f : γ → EStateM ε σ α} {xs : List γ} (h : ∀ x ∈ xs, D.Obeys (f x) p) :
    D.Obeys (xs.mapM f) fun ys => ∀ y ∈ ys, p y := by
  induction xs with
  | nil =>
    rw [List.mapM_nil]
    exact pure (by simp)
  | cons x xs ih =>
    rw [List.mapM_cons]
    refine bind (h x (by simp)) fun y hy => bind (ih fun z hz => h z (by simp [hz])) fun ys hys => ?_
    exact pure (by simpa using ⟨hy, hys⟩)

end Obeys

theorem obeys_orFault {D : Discipline Fault σ} {v : Vocabulary} (hD : ∀ f, v.Admits f → D.stops f)
    {r : Except Fault α} (h : v.Gives p r) : D.Obeys (orFault r) p := by
  cases r with
  | ok a => exact .pure h
  | error fault => exact .throw (hD fault h)

end Discipline

section Words

variable (v : Vocabulary)

def Line.parts : Line → List String
  | .declare ty target value => [ty.name, target.text, value.text ty]
  | .reserve ty target => [ty.name, target.text]
  | .assign target _ value => [target.text, value.text]
  | .perform _ _ text => [text]
  | .array elem target _ init => elem.name :: target.text :: init
  | .ballot mask _ cond current => [mask.text, cond.text, current.text]
  | .openIf cond | .openMask cond | .openElseMask cond => [cond.text]
  | .openFor counter first last => [counter.text, first.text, last.text]
  | .openSwitch value | .returnValue value => [value.text]
  | .openFunction _ header => [header]
  | .declareQuery query | .openQueryLoop query | .openCandidate query | .openCommitted query =>
    [query]
  | .trace query scene ray => [query, scene.text, ray.text]
  | .commit cond query => [cond.text, query]
  | .readHit hit query _ => [hit.text, query]
  | .verbatim text => [text]
  | .openElse | .openWhile | .openCase _ | .closeCase | .close | .breakLoop | .continueLoop
  | .returnVoid | .barrier => []

def Line.Within (line : Line) : Prop := ∀ part ∈ line.parts, v.text part

structure Draft.Within (d : Draft) : Prop where
  lines : ∀ page ∈ d.functions :: d.pages, ∀ line ∈ page, line.Within v
  structs : ∀ ty ∈ d.structs, ty.Within v
  resources : ∀ entry ∈ d.resources.entries, entry.2.Within v
  shared : ∀ entry ∈ d.shared.entries, v.text entry.1 ∧ entry.2.Within v
  header : v.text d.header
  masks : ∀ m ∈ d.masks, m.Within v

def IdTable.Within (types : IdTable Ty) : Prop := ∀ id ty, types.find? id = some ty → ty.Within v

structure Nodes.Within (n : Nodes) : Prop where
  names : ∀ id name, n.names.find? id = some name → v.text name.text
  types : n.types.Within v

def Sheet.Within (s : Sheet) : Prop := s.nodes.Within v ∧ s.draft.Within v

variable {v}

variable {n : Nodes}

theorem Nodes.Within.name (h : n.Within v) {e : Expr} (he : e.Within v) :
    v.text (n.name e).text := by
  unfold Nodes.name
  cases hf : n.names.find? e.id with
  | none => exact he.defaultName
  | some name => exact h.names e.id name hf

theorem Nodes.Within.rename (h : n.Within v) (id : Nat) {name : Spelling}
    (hn : v.text name.text) : (n.rename id name).Within v where
  names key other hk := by
    rw [Nodes.rename, IdTable.find?_insert] at hk
    split at hk
    · cases hk
      exact hn
    · exact h.names key other hk
  types := h.types

theorem Draft.within_start (settings : Settings) :
    (Draft.start settings).Within v where
  lines page hpage line hline := by
    rcases List.mem_pair.mp (show page ∈ [[], []] from hpage) with rfl | rfl <;> cases hline
  structs _ h := by cases h
  resources _ h := by cases h
  shared _ h := by cases h
  header := v.plain "" (by decide)
  masks _ h := by cases h

theorem Draft.Within.write {d : Draft} (h : d.Within v) {line : Line} (hl : line.Within v) :
    (d.write line).Within v := by
  have hpages : ∀ page ∈ d.functions :: (d.write line).pages, ∀ l ∈ page, l.Within v := by
    have hlines := h.lines
    have hadd (page : List Line) (hp : ∀ l ∈ page, l.Within v) :
        ∀ l ∈ page ++ [line], l.Within v := by
      intro l hm
      rcases List.mem_append.mp hm with hm | hm
      · exact hp l hm
      · exact List.mem_singleton.mp hm ▸ hl
    unfold Draft.write Draft.pages at *
    cases hf : d.frames with
    | nil =>
      simp only [hf, List.map_nil, List.nil_append, List.mem_cons, List.not_mem_nil, or_false,
        forall_eq_or_imp, forall_eq] at hlines ⊢
      exact ⟨hlines.1, hadd _ hlines.2⟩
    | cons frame frames =>
      simp only [hf, List.map_cons, List.cons_append, List.mem_cons, forall_eq_or_imp] at hlines ⊢
      exact ⟨hlines.1, hadd _ hlines.2.1, hlines.2.2⟩
  have hsame : (d.write line).functions = d.functions ∧ (d.write line).structs = d.structs ∧
      (d.write line).resources = d.resources ∧ (d.write line).shared = d.shared ∧
      (d.write line).header = d.header ∧ (d.write line).masks = d.masks := by
    unfold Draft.write
    split <;> exact ⟨rfl, rfl, rfl, rfl, rfl, rfl⟩
  obtain ⟨hfun, hst, hres, hsh, hhead, hm⟩ := hsame
  exact {
    lines := by rw [hfun]; exact hpages
    structs := by rw [hst]; exact h.structs
    resources := by rw [hres]; exact h.resources
    shared := by rw [hsh]; exact h.shared
    header := by rw [hhead]; exact h.header
    masks := by rw [hm]; exact h.masks }

end Words

structure Draft.Carried (d d' : Draft) : Prop where
  outside : d'.outside = d.outside
  level : ∀ k, d.Level k → d'.Level k

theorem Draft.Carried.refl (d : Draft) : d.Carried d := ⟨rfl, fun _ h => h⟩

theorem Draft.Carried.trans {a b c : Draft} (h : a.Carried b) (h' : b.Carried c) : a.Carried c :=
  ⟨h'.outside.trans h.outside, fun k hk => h'.level k (h.level k hk)⟩

structure Draft.Settled (d d' : Draft) : Prop extends d.Carried d' where
  stack : d'.scopes.stack = d.scopes.stack

namespace Vocabulary

variable (v : Vocabulary)

def typingOf (P : Ty → Prop) : Discipline Fault (IdTable Ty) where
  good types := ∀ id ty, types.find? id = some ty → P ty
  runs _ _ := True
  fails _ _ := True
  stops := v.Admits
  refl _ := trivial
  trans _ _ := trivial
  abandon _ := trivial
  trans_fails _ _ := trivial

abbrev typing : Discipline Fault (IdTable Ty) := v.typingOf (Ty.Within v)

def making : Discipline Fault Nodes where
  good := Nodes.Within v
  runs _ _ := True
  fails _ _ := True
  stops := v.Admits
  refl _ := trivial
  trans _ _ := trivial
  abandon _ := trivial
  trans_fails _ _ := trivial

def drafting : Discipline Fault Draft where
  good := Draft.Within v
  runs := Draft.Settled
  fails := Draft.Carried
  stops := v.Admits
  refl d := ⟨.refl d, rfl⟩
  trans h h' := ⟨h.toCarried.trans h'.toCarried, h'.stack.trans h.stack⟩
  abandon h := h.toCarried
  trans_fails h h' := h.toCarried.trans h'

def emission : Discipline Fault Sheet where
  good := Sheet.Within v
  runs s s' := s.draft.Settled s'.draft
  fails s s' := s.draft.Carried s'.draft
  stops := v.Admits
  refl s := ⟨.refl s.draft, rfl⟩
  trans h h' := ⟨h.toCarried.trans h'.toCarried, h'.stack.trans h.stack⟩
  abandon h := h.toCarried
  trans_fails h h' := h.toCarried.trans h'

end Vocabulary

end ComputeKernel
