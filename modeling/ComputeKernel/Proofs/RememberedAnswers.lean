import ComputeKernel.Proofs.AssignedStorage

namespace ComputeKernel

def Diverging.Retains {α : Type} (x : Diverging α) : Prop :=
  ∀ modes id mode, modes.find? id = some mode → (x modes).2.find? id = some mode

section Questions

variable {dag : Dag} {modes : IdTable Divergence} {es fs : List Expr}

theorem retains_pure (mode : Divergence) : Diverging.Retains (pure mode) := fun _ _ _ h => h

theorem Diverging.Retains.either {x y : Diverging Divergence} (hx : x.Retains) (hy : y.Retains) :
    (Diverging.either x y).Retains := by
  intro modes id mode h
  rw [Diverging.either_run]
  cases (x modes).1 with
  | divergent => exact hx modes id mode h
  | uniform => exact hy _ id mode (hx modes id mode h)

theorem Diverging.Retains.remember {x : Diverging Divergence} (hx : x.Retains) (id : Nat) :
    (Diverging.remember id x).Retains := by
  intro modes key mode h
  rw [Diverging.remember_run]
  cases hfind : modes.find? id with
  | some known => exact h
  | none =>
    have hne : key ≠ id := by
      rintro rfl
      rw [hfind] at h
      cases h
    rw [IdTable.find?_insert, if_neg hne]
    exact hx modes key mode h

mutual

theorem Expr.divergence_retains (e : Expr) : e.divergence.Retains := by
  unfold divergence
  cases e with
  | literal id _ | resource id _ | zeroed id _ | storage id _ _ | array id _ _ _ | input id _ =>
    exact (retains_pure _).remember id
  | unary id _ c | swizzle id c _ | field id c _ | element id c _ =>
    exact c.divergence_retains.remember id
  | binary id _ c d | elementAt id c d =>
    exact (c.divergence_retains.either d.divergence_retains).remember id
  | call id callee args =>
    refine Diverging.Retains.remember ?_ id
    split
    · exact retains_pure _
    · exact anyDivergent_retains args
  | select id c d f =>
    exact (c.divergence_retains.either (d.divergence_retains.either f.divergence_retains)).remember id

theorem Expr.anyDivergent_retains (es : List Expr) : (anyDivergent es).Retains := by
  cases es with
  | nil =>
    rw [anyDivergent]
    exact retains_pure _
  | cons e rest =>
    rw [anyDivergent]
    exact e.divergence_retains.either (anyDivergent_retains rest)

end

theorem Diverging.remember_remembers (id : Nat) (x : Diverging Divergence)
    (modes : IdTable Divergence) :
    (remember id x modes).2.find? id = some (remember id x modes).1 := by
  rw [remember_run]
  cases hfind : modes.find? id with
  | some mode => exact hfind
  | none => rw [IdTable.find?_insert, if_pos rfl]

theorem Expr.divergence_remembers (e : Expr) (modes : IdTable Divergence) :
    (e.divergence modes).2.find? e.id = some (e.divergence modes).1 := by
  cases e <;> rw [divergence] <;> exact Diverging.remember_remembers _ _ _

theorem anyDivergent_remembers (hes : ∀ e ∈ es, dag.contains e) (h : ¬AnyDiffers modes es) :
    ∀ c ∈ es, (Expr.anyDivergent (es ++ fs) modes).2.find? c.id = some .uniform := by
  induction es generalizing modes with
  | nil => simp
  | cons e rest ih =>
    have hrest : ∀ d ∈ rest, dag.contains d := fun d hd => hes d (List.mem_cons_of_mem e hd)
    obtain ⟨htells, hsame⟩ := e.divergence_tells (hes e List.mem_cons_self) modes
    have huniform : (e.divergence modes).1 = .uniform := by
      cases hmode : (e.divergence modes).1 with
      | uniform => rfl
      | divergent =>
        obtain ⟨d, hd, hdiffers⟩ := htells.mp hmode
        exact (h ⟨d, List.mem_cons.mpr (.inl (List.mem_singleton.mp hd)), hdiffers⟩).elim
    have hothers : ¬AnyDiffers (e.divergence modes).2 rest := by
      rw [hsame.any hrest]
      exact fun ⟨d, hd, hdiffers⟩ => h ⟨d, List.mem_cons_of_mem e hd, hdiffers⟩
    have hknown := e.divergence_remembers modes
    rw [huniform] at hknown
    rw [List.cons_append, Expr.anyDivergent, Diverging.either_run, huniform]
    intro c hc
    rcases List.mem_cons.mp hc with rfl | hc
    · exact Expr.anyDivergent_retains _ _ _ _ hknown
    · exact ih hrest hothers c hc

end Questions

def Pinned (marked : Nat → Prop) (outer : List Expr) (modes : IdTable Divergence) : Prop :=
  ∀ c ∈ outer, ∃ mode, modes.find? c.id = some mode ∧ (mode = .divergent → marked c.id)

inductive Settled (dag : Dag) (marked : Nat → Prop) (outer : List Expr)
    (first modes : IdTable Divergence) : Prop
  | divergent (h : AnyDiffers first outer)
  | unmarked (h : SameAnswers dag first modes)
  | pinned (h : Pinned marked outer modes)

section Conditions

variable {dag : Dag} {marked : Nat → Prop} {outer : List Expr} {first modes : IdTable Divergence}
  {s : Sheet} {target : Expr}

theorem Pinned.force {id : Nat} (h : Pinned marked outer modes) (hid : marked id) :
    Pinned marked outer (modes.insert id .divergent) := by
  intro c hc
  rw [IdTable.find?_insert]
  split
  · rename_i hsame
    exact ⟨_, rfl, fun _ => hsame ▸ hid⟩
  · exact h c hc

theorem Settled.write (h : Settled dag marked outer first s.nodes.modes)
    (hs : s.draft.Rooted dag) (houter : outer <+: s.draft.scopes.conditions)
    (ht : marked target.id) (hr : marked target.lvalueRoot.id) :
    Settled dag marked outer first (s.modesAfterWrite target) := by
  obtain ⟨inner, hconditions⟩ := houter
  have hnodes : ∀ c ∈ outer, dag.contains c := fun c hc =>
    hs.conditions c (hconditions ▸ List.mem_append_left inner hc)
  have hsame := (Expr.anyDivergent_tells _ hs.conditions s.nodes.modes).2
  cases h with
  | divergent h => exact .divergent h
  | pinned h =>
    have hasked : Pinned marked outer
        (Expr.anyDivergent s.draft.scopes.conditions s.nodes.modes).2 := by
      intro c hc
      obtain ⟨mode, hfind, hmode⟩ := h c hc
      exact ⟨mode, Expr.anyDivergent_retains _ _ _ _ hfind, hmode⟩
    unfold Sheet.modesAfterWrite
    split
    · exact .pinned ((hasked.force ht).force hr)
    · exact .pinned hasked
  | unmarked h =>
    by_cases hfirst : AnyDiffers first outer
    · exact .divergent hfirst
    · -- The conditions have all been asked for when the first target is marked.
      have huniform : ¬AnyDiffers s.nodes.modes outer := by rwa [h.any hnodes]
      have hasked : Pinned marked outer
          (Expr.anyDivergent s.draft.scopes.conditions s.nodes.modes).2 := by
        intro c hc
        refine ⟨.uniform, ?_, fun hmode => by cases hmode⟩
        rw [← hconditions]
        exact anyDivergent_remembers hnodes huniform c hc
      unfold Sheet.modesAfterWrite
      split
      · exact .pinned ((hasked.force ht).force hr)
      · exact .unmarked (h.trans hsame)

theorem Settled.differs (h : Settled dag marked outer first modes)
    (hnodes : ∀ c ∈ outer, dag.contains c) (hd : AnyDiffers modes outer) :
    AnyDiffers first outer ∨ ∃ c ∈ outer, marked c.id ∧ Differs modes c := by
  cases h with
  | divergent h => exact .inl h
  | unmarked h => exact .inl ((h.any hnodes).mp hd)
  | pinned h =>
    obtain ⟨c, hc, hdiffers⟩ := hd
    obtain ⟨mode, hfind, hmode⟩ := h c hc
    exact .inr ⟨c, hc, hmode ((differs_iff_of_known hfind).mp hdiffers), hdiffers⟩

end Conditions

end ComputeKernel
