import ComputeKernel.Emission

namespace ComputeKernel

variable {ε σ α β : Type} {p : Prop}

def Ensures {ε σ α : Type} (x : EStateM ε σ α) (s : σ) (done : α → σ → Prop)
    (failed : σ → Prop) : Prop :=
  match x s with
  | .ok a s' => done a s'
  | .error _ s' => failed s'

def final {ε σ α : Type} : EStateM.Result ε σ α → σ
  | .ok _ s => s
  | .error _ s => s

section Rules

variable {s : σ} {done : α → σ → Prop} {failed : σ → Prop}

variable {x : EStateM ε σ α} {done' : α → σ → Prop} {failed' : σ → Prop} {a : α} {s' : σ}
  {fault : ε} {y : EStateM ε σ α} {f : α → EStateM ε σ β} {b : β}

theorem Ensures.mono (h : Ensures x s done failed) (hd : ∀ a s', done a s' → done' a s')
    (hf : ∀ s', failed s' → failed' s') : Ensures x s done' failed' := by
  unfold Ensures at *
  split at h
  · exact hd _ _ h
  · exact hf _ h

theorem Ensures.imp (h : Ensures x s done failed)
    (hd : ∀ a s', done a s' → done' a s') : Ensures x s done' failed := h.mono hd fun _ h => h

theorem Ensures.of_ok (h : Ensures x s done failed) (hx : x s = .ok a s') : done a s' := by
  simpa only [Ensures, hx] using h

theorem Ensures.of_error (h : Ensures x s done failed)
    (hx : x s = .error fault s') : failed s' := by
  simpa only [Ensures, hx] using h

theorem Ensures.and (h : Ensures x s done failed) (h' : Ensures x s done' failed') :
    Ensures x s (fun a s' => done a s' ∧ done' a s') fun s' => failed s' ∧ failed' s' := by
  unfold Ensures at *
  split
  · simp_all
  · simp_all

instance {x : EStateM ε σ α} [∀ a s', Decidable (done a s')] [∀ s', Decidable (failed s')] :
    Decidable (Ensures x s done failed) :=
  match hx : x s with
  | .ok a s' => decidable_of_iff (done a s') (by rw [Ensures, hx])
  | .error _ s' => decidable_of_iff (failed s') (by rw [Ensures, hx])

theorem exists_ok_of_ensures (x : EStateM ε σ α) (s : σ) (done : α → σ → Prop)
    (h : Ensures x s done fun _ => False) : ∃ a s', x s = .ok a s' ∧ done a s' := by
  unfold Ensures at h
  split at h
  · exact ⟨_, _, by assumption, h⟩
  · exact h.elim

theorem Ensures.result (h : Ensures x s done failed) :
    Ensures x s (fun a s' => x s = .ok a s' ∧ done a s') failed := by
  unfold Ensures at *
  split <;> simp_all

theorem Ensures.not_of_failed (h : p → Ensures x s done fun _ => False) :
    Ensures x s (fun _ _ => True) fun _ => ¬p := by
  unfold Ensures at *
  split
  · trivial
  · rename_i hx
    intro hp
    simpa only [hx] using h hp

theorem Ensures.final {p : σ → Prop} (h : Ensures x s (fun _ => p) p) :
    p (ComputeKernel.final (x s)) := by
  unfold Ensures at h
  cases hx : x s <;> simpa only [hx, ComputeKernel.final] using h

theorem ensures_ok (hx : x s = .ok a s') (h : done a s') : Ensures x s done failed := by
  simpa only [Ensures, hx] using h

theorem ensures_error (hx : x s = .error fault s') (h : failed s') : Ensures x s done failed := by
  simpa only [Ensures, hx] using h

theorem Ensures.of_eq (hxy : x s = y s) (h : Ensures y s done failed) :
    Ensures x s done failed := by
  unfold Ensures at *
  rwa [hxy]

theorem run_get (s : σ) : (get : EStateM ε σ σ) s = .ok s s := rfl

theorem run_set (s t : σ) : (set t : EStateM ε σ PUnit) s = .ok ⟨⟩ t := rfl

theorem bind_get (f : σ → EStateM ε σ α) (s : σ) : (get >>= f) s = f s s := rfl

theorem run_bind_ok (h : x s = .ok a s') : (x >>= f) s = f a s' := by
  simp only [Bind.bind, EStateM.bind, h]

theorem run_bind_error (h : x s = .error fault s') : (x >>= f) s = .error fault s' := by
  simp only [Bind.bind, EStateM.bind, h]

theorem exists_of_bind_ok
    (h : (x >>= f) s = .ok b s') :
    ∃ a s₁, x s = .ok a s₁ ∧ f a s₁ = .ok b s' := by
  simp only [Bind.bind, EStateM.bind] at h
  cases hx : x s with
  | ok a s₁ => exact ⟨a, s₁, rfl, by simpa only [hx] using h⟩
  | error fault s₁ => simp [hx] at h

theorem of_bind_error (h : (x >>= f) s = .error fault s') :
    x s = .error fault s' ∨ ∃ a s₁, x s = .ok a s₁ ∧ f a s₁ = .error fault s' := by
  simp only [Bind.bind, EStateM.bind] at h
  cases hx : x s with
  | ok a s₁ => exact .inr ⟨a, s₁, rfl, by simpa only [hx] using h⟩
  | error e s₁ =>
    rw [hx] at h
    cases h
    exact .inl rfl

theorem Ensures.bind {done : β → σ → Prop}
    (h : Ensures x s (fun a s' => Ensures (f a) s' done failed) failed) :
    Ensures (x >>= f) s done failed := by
  simp only [Ensures, Bind.bind, EStateM.bind] at *
  cases hx : x s <;> simpa only [hx] using h

theorem ensures_pure (h : done a s) : Ensures (pure a : EStateM ε σ α) s done failed := h

theorem ensures_get {done : σ → σ → Prop} (h : done s s) :
    Ensures (get : EStateM ε σ σ) s done failed := h

theorem ensures_set {t : σ} {done : PUnit → σ → Prop} (h : done ⟨⟩ t) :
    Ensures (set t : EStateM ε σ PUnit) s done failed := h

theorem ensures_modify {f : σ → σ} {done : PUnit → σ → Prop} (h : done ⟨⟩ (f s)) :
    Ensures (modify f : EStateM ε σ PUnit) s done failed := h

theorem ensures_throw (h : failed s) : Ensures (throw fault : EStateM ε σ α) s done failed := h

theorem ensures_ite [Decidable p] (hx : p → Ensures x s done failed)
    (hy : ¬p → Ensures y s done failed) : Ensures (if p then x else y) s done failed := by
  split
  · exact hx ‹p›
  · exact hy ‹¬p›

theorem ensures_orFault {r : Except Fault α} (ok : ∀ a, r = .ok a → done a s)
    (fail : ∀ fault, r = .error fault → failed s) :
    Ensures (orFault r : EStateM Fault σ α) s done failed := by
  cases r with
  | ok a => exact ok a rfl
  | error fault => exact fail fault rfl

theorem exists_of_bind {x : Except ε α} {f : α → Except ε β} (h : x >>= f = .ok b) :
    ∃ a, x = .ok a ∧ f a = .ok b := by
  cases x with
  | error e => cases h
  | ok a => exact ⟨a, rfl, h⟩

theorem exists_bind {x : Except ε α} {f : α → Except ε β} (hx : x = .ok a)
    (hf : ∃ b, f a = .ok b) : ∃ b, x >>= f = .ok b := by
  rw [hx]
  exact hf

theorem exists_of_isOk {x : Except ε α} (h : x.isOk = true) : ∃ a, x = .ok a := by
  cases x with
  | error e => cases h
  | ok a => exact ⟨a, rfl⟩

end Rules

def Keeps {ε σ α β : Type} (f : σ → β) (x : EStateM ε σ α) : Prop :=
  ∀ s, Ensures x s (fun _ s' => f s' = f s) (fun s' => f s' = f s)

section Frames

variable {γ : Type} {f : σ → γ}

variable {x : EStateM ε σ α}

theorem Keeps.bind {g : α → EStateM ε σ β} (hx : Keeps f x)
    (hg : ∀ a, Keeps f (g a)) : Keeps f (x >>= g) := by
  intro s
  refine .bind ((hx s).imp fun a s' h => ?_)
  exact (hg a s').mono (fun _ _ h' => h'.trans h) fun _ h' => h'.trans h

theorem keeps_pure (a : α) : Keeps f (pure a : EStateM ε σ α) := fun _ => rfl

theorem keeps_get : Keeps f (get : EStateM ε σ σ) := fun _ => rfl

theorem keeps_throw (fault : ε) : Keeps f (throw fault : EStateM ε σ α) := fun _ => rfl

theorem keeps_modify {g : σ → σ} (h : ∀ s, f (g s) = f s) :
    Keeps f (modify g : EStateM ε σ PUnit) := h

theorem keeps_ite [Decidable p] {y : EStateM ε σ α} (hx : Keeps f x)
    (hy : Keeps f y) : Keeps f (if p then x else y) := by
  split
  · exact hx
  · exact hy

theorem keeps_guard [Decidable p] {fault : ε} (h : Keeps f x) :
    Keeps f (if p then throw fault >>= fun _ : Unit => x else x) :=
  keeps_ite (.bind (keeps_throw fault) fun _ => h) h

theorem keeps_orFault (r : Except Fault α) : Keeps f (orFault r : EStateM Fault σ α) := by
  cases r <;> exact fun _ => rfl

end Frames

def Moves {ε σ α : Type} (R : σ → σ → Prop) (x : EStateM ε σ α) : Prop :=
  ∀ s, Ensures x s (fun _ s' => R s s') (R s)

theorem Moves.bind {R : σ → σ → Prop} {x : EStateM ε σ α}
    {g : α → EStateM ε σ β} (trans : ∀ {a b c}, R a b → R b c → R a c) (hx : Moves R x)
    (hg : ∀ a, Moves R (g a)) : Moves R (x >>= g) := by
  intro s
  refine .bind ((hx s).imp fun a s' h => ?_)
  exact (hg a s').mono (fun _ _ h' => trans h h') fun _ h' => trans h h'

namespace Draft

theorem lines_write (d : Draft) (line : Line) : (d.write line).lines = d.lines ++ [line] := by
  unfold write lines
  cases d.frames <;> rfl

theorem types_write (d : Draft) (line : Line) : (d.write line).types = d.types := by
  unfold write
  split <;> rfl

theorem resources_write (d : Draft) (line : Line) : (d.write line).resources = d.resources := by
  unfold write
  split <;> rfl

theorem scopes_write (d : Draft) (line : Line) : (d.write line).scopes = d.scopes := by
  unfold write
  split <;> rfl

end Draft

section Emission

variable {x : Typing α} {s : Sheet} {done : α → Sheet → Prop} {failed : Sheet → Prop} {n : Nodes}
  {f : Draft → β} {line : Line}

theorem ensures_drafting {x : Drafting α}
    (h : Ensures x s.draft (fun a draft => done a { s with draft })
      fun draft => failed { s with draft }) : Ensures (Emit.drafting x) s done failed := by
  simp only [Ensures, Emit.drafting] at *
  cases hx : x s.draft <;> simpa only [hx] using h

theorem ensures_making {x : Making α}
    (h : Ensures x s.nodes (fun a nodes => done a { s with nodes })
      fun nodes => failed { s with nodes }) : Ensures (Emit.making x) s done failed := by
  simp only [Ensures, Emit.making] at *
  cases hx : x s.nodes <;> simpa only [hx] using h

theorem ensures_newNode {mk : Nat → Expr} {done : Expr → Nodes → Prop}
    {failed : Nodes → Prop} (h : done (mk n.next) { n with next := n.next + 1 }) :
    Ensures (Making.node mk) n done failed := h

theorem ensures_makingTyping {done : α → Nodes → Prop}
    {failed : Nodes → Prop}
    (h : Ensures x n.types (fun a types => done a { n with types })
      fun types => failed { n with types }) : Ensures (Making.typing x) n done failed := by
  simp only [Ensures, Making.typing] at *
  cases hx : x n.types <;> simpa only [hx] using h

theorem ensures_typing
    (h : Ensures x s.nodes.types (fun a types => done a { s with nodes := { s.nodes with types } })
      fun types => failed { s with nodes := { s.nodes with types } }) :
    Ensures (Emit.typing x) s done failed :=
  ensures_making (ensures_makingTyping h)

theorem ensures_redraft {f : Draft → Draft} {done : Unit → Sheet → Prop}
    (h : done () { s with draft := f s.draft }) :
    Ensures (Emit.redraft f) s done failed := h

theorem ensures_nameOf {e : Expr} {done : Spelling → Sheet → Prop} (h : done (s.nodes.name e) s) :
    Ensures (Emit.nameOf e) s done failed := h

theorem ensures_write {done : Unit → Sheet → Prop} (h : done () { s with draft := s.draft.write line }) :
    Ensures (Emit.write line) s done failed := h

theorem ensures_diverging {x : Diverging α}
    (h : ∀ a modes, done a { s with nodes := { s.nodes with modes } }) :
    Ensures (Emit.diverging x) s done failed := h _ _

theorem ensures_inDivergentRegion {done : Bool → Sheet → Prop}
    (h : ∀ a modes, done a { s with nodes := { s.nodes with modes } }) :
    Ensures Emit.inDivergentRegion s done failed :=
  .bind (ensures_get (.bind (ensures_diverging fun _ modes => ensures_pure (h _ modes))))

theorem ensures_noteWrite {target : Expr} {done : Unit → Sheet → Prop}
    (h : ∀ modes, done () { s with nodes := { s.nodes with modes } }) :
    Ensures (Emit.noteWrite target) s done failed := by
  refine .bind (ensures_inDivergentRegion fun _ modes => ensures_ite (fun _ => ?_) fun _ => ?_)
  · exact .bind (ensures_diverging fun _ _ => ensures_diverging fun _ modes => h modes)
  · exact ensures_pure (h modes)

theorem ensures_rename {id : Nat} {name : Spelling} {done : Unit → Sheet → Prop}
    (h : done () { s with nodes := s.nodes.rename id name }) :
    Ensures (Emit.rename id name) s done failed := h

theorem ensures_any {x : EStateM ε σ α} {s : σ} {done : α → σ → Prop}
    {failed : σ → Prop} (hd : ∀ a s', done a s') (hf : ∀ s', failed s') :
    Ensures x s done failed := by
  unfold Ensures
  split
  · exact hd _ _
  · exact hf _

theorem keeps_drafting {x : Drafting α} (h : Keeps f x) :
    Keeps (fun s : Sheet => f s.draft) (Emit.drafting x) := fun s =>
  ensures_drafting (h s.draft)

theorem keeps_typing (x : Typing α) : Keeps (fun s : Sheet => f s.draft) (Emit.typing x) := fun _ =>
  ensures_typing (ensures_any (fun _ _ => rfl) fun _ => rfl)

theorem keeps_diverging (x : Diverging α) :
    Keeps (fun s : Sheet => f s.draft) (Emit.diverging x) := fun _ => rfl

theorem keeps_nameOf (e : Expr) : Keeps (fun s : Sheet => f s.draft) (Emit.nameOf e) := fun _ => rfl

theorem keeps_rename (id : Nat) (name : Spelling) :
    Keeps (fun s : Sheet => f s.draft) (Emit.rename id name) := fun _ => rfl

theorem keeps_write (h : ∀ d : Draft, f (d.write line) = f d) :
    Keeps (fun s : Sheet => f s.draft) (Emit.write line) := fun s => h s.draft

theorem keeps_noteWrite (target : Expr) :
    Keeps (fun s : Sheet => f s.draft) (Emit.noteWrite target) := by
  refine .bind (Keeps.bind keeps_get fun _ => ?_) fun _ => keeps_ite ?_ (keeps_pure _)
  · exact .bind (keeps_diverging _) fun _ => keeps_pure _
  · exact .bind (keeps_diverging _) fun _ => keeps_diverging _

end Emission

section Once

variable {e : Expr} {body : Ty → Emit Unit} {s : Sheet}

theorem once_of_visible (h : s.draft.scopes.isVisible e.id = true) :
    Emit.once e body s = .ok () s := by
  simp only [Emit.once, bind_get, h]
  rfl

theorem once_of_hidden (h : ¬s.draft.scopes.isVisible e.id = true) :
    Emit.once e body s = (do
      let ty ← Emit.typing e.inferType
      body ty
      Emit.redraft (·.mark e.id) : Emit Unit) s := by
  simp only [Emit.once, bind_get, h]
  rfl

end Once

section Registration

variable {f : Draft → β}

mutual

theorem keeps_registerType (h : ∀ d types structs, f { d with types, structs } = f d) :
    ∀ ty, Keeps f (Drafting.registerType ty)
  | .struct name fields builtin => by
    rw [Drafting.registerType]
    refine Keeps.bind keeps_get fun d => ?_
    cases d.types.find? name with
    | some existing => exact keeps_ite (keeps_throw _) (keeps_pure _)
    | none =>
      exact .bind (keeps_registerFields h fields) fun _ => keeps_modify fun d => h d _ _
  | .array elem _ => by
    rw [Drafting.registerType]
    exact keeps_registerType h elem
  | .resource _ (some elem) _ _ => by
    rw [Drafting.registerType]
    exact keeps_registerType h elem
  | .resource _ none _ _ | .void | .numeric _ | .wildcard _ | .value .. => by
    rw [Drafting.registerType]
    exact keeps_pure _

theorem keeps_registerFields (h : ∀ d types structs, f { d with types, structs } = f d) :
    ∀ fields, Keeps f (Drafting.registerFields fields)
  | [] => by
    rw [Drafting.registerFields]
    exact keeps_pure _
  | (_, ty) :: rest => by
    rw [Drafting.registerFields]
    exact .bind (keeps_registerType h ty) fun _ => keeps_registerFields h rest

end

theorem keeps_registerResource (h : ∀ d types structs, f { d with types, structs } = f d)
    (hr : ∀ d resources, f { d with resources } = f d) (res : Resource) :
    Keeps f (Drafting.registerResource res) := by
  refine Keeps.bind keeps_get fun d => ?_
  cases d.resources.find? res.name with
  | some existing => exact keeps_ite (keeps_throw _) (keeps_pure _)
  | none => exact .bind (keeps_registerType h res.ty) fun _ => keeps_modify fun d => hr d _

theorem keeps_addShared (h : ∀ d types structs, f { d with types, structs } = f d)
    (hs : ∀ d shared, f { d with shared } = f d) (name : String) (ty : Ty) :
    Keeps f (Drafting.addShared name ty) := by
  refine .bind keeps_get fun d => ?_
  cases d.shared.find? name with
  | some existing => exact keeps_ite (keeps_throw _) (keeps_pure _)
  | none => exact .bind (keeps_registerType h ty) fun _ => keeps_modify fun d => hs d _

end Registration

section Stacks

variable {f : Draft → β}

theorem keeps_exitScope (h : ∀ d scopes, f { d with scopes } = f d) :
    Keeps f Drafting.exitScope := by
  intro d
  refine .bind (ensures_get ?_)
  cases d.scopes.leave? with
  | none => exact ensures_throw rfl
  | some scopes => exact ensures_set (h d scopes)

theorem keeps_popTarget (h : ∀ d targets, f { d with targets } = f d) :
    Keeps f Drafting.popTarget := by
  intro d
  refine .bind (ensures_get ?_)
  cases d.targets with
  | nil => exact ensures_throw rfl
  | cons target targets => exact .bind (ensures_set (ensures_pure (h d targets)))

theorem keeps_checkBreak (what : String) : Keeps f (Drafting.checkBreak what) := by
  intro d
  refine .bind (ensures_get ?_)
  split
  · exact ensures_pure rfl
  · exact ensures_throw rfl
  · exact ensures_throw rfl

theorem keeps_checkContinue : Keeps f Drafting.checkContinue :=
  fun _ => .bind (ensures_get (ensures_ite (fun _ => ensures_throw rfl) fun _ => ensures_pure rfl))

theorem keeps_popMask (h : ∀ d masks, f { d with masks } = f d) : Keeps f Drafting.popMask := by
  intro d
  refine .bind (ensures_get ?_)
  split
  · exact .bind (ensures_set (ensures_pure (h d _)))
  · exact ensures_throw rfl

theorem keeps_currentMask : Keeps f Drafting.currentMask := by
  intro d
  refine .bind (ensures_get ?_)
  split
  · exact ensures_pure rfl
  · exact ensures_throw rfl

variable {d : Draft}

theorem Draft.setGroupSize_eq_ok {d' : Draft} {size : GroupSize}
    (h : d.setGroupSize size = .ok d') : d' = { d with groupSize := size } := by
  obtain ⟨-, -, hd⟩ := exists_of_bind h
  cases hd
  rfl

def Draft.afterFunction (d : Draft) (frame : Frame) (frames : List Frame) : Draft :=
  { d with
    frames
    scopes := frame.scopes
    targets := frame.targets
    functions := d.functions ++ frame.lines }

theorem ensures_exitFunction {done : Unit → Draft → Prop} {failed : Draft → Prop}
    (ended : ∀ frame frames, d.frames = frame :: frames → d.scopes.depth = 0 →
      done () (d.afterFunction frame frames))
    (outside : failed d)
    (unended : ∀ frame frames, d.frames = frame :: frames → failed { d with frames }) :
    Ensures Drafting.exitFunction d done failed := by
  refine .bind (ensures_get ?_)
  cases hframes : d.frames with
  | nil => exact ensures_throw outside
  | cons frame frames =>
    refine .bind (ensures_set (ensures_ite (fun _ => ?_) fun hdepth => ?_))
    · exact .bind (ensures_throw (unended frame frames hframes))
    · exact ensures_set (ended frame frames hframes (Decidable.not_not.mp hdepth))

end Stacks

end ComputeKernel
