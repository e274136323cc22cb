import ComputeKernel.Proofs.RestoredStacks

namespace ComputeKernel

def Draft.OwnsMask (d : Draft) : Prop :=
  ∀ mask, d.masks.head? = some mask → mask.IsSeed ∨ mask.id ∈ d.scopes.visible

def Draft.Unmasked (d : Draft) : Prop := ∀ mask, d.masks.head? = some mask → mask.IsSeed

theorem Draft.Under.ownsMask {d d' : Draft} (h : d.Under d') (hd : d.Unmasked) : d'.OwnsMask := by
  intro mask hmask
  obtain ⟨pushed, base, hmasks, hbase, hvisible⟩ := h.masks
  cases pushed with
  | cons first pushed =>
    rw [hmasks] at hmask
    cases hmask
    exact .inr (hvisible _ (by simp))
  | nil =>
    rw [hmasks, List.nil_append] at hmask
    rcases hbase with rfl | ⟨seed, hseed, rfl⟩
    · exact .inl (hd mask hmask)
    · cases hmask
      exact .inl hseed

def Line.introduced : Line → List Spelling
  | .declare _ target _ | .reserve _ target | .array _ target _ _ => [target]
  | _ => []

namespace Script

theorem exists_unbound {α : Type} (bound : List (String × α)) :
    ∃ name, bound.lookup name = none := by
  have hlong : ∃ n, ∀ entry ∈ bound, entry.1.length < n := by
    induction bound with
    | nil => exact ⟨0, by simp⟩
    | cons entry rest ih =>
      obtain ⟨n, hn⟩ := ih
      refine ⟨max n (entry.1.length + 1), fun other hother => ?_⟩
      rcases List.mem_cons.mp hother with rfl | hother
      · omega
      · have := hn other hother
        omega
  obtain ⟨n, hn⟩ := hlong
  refine ⟨String.ofList (List.replicate n 'x'), List.lookup_eq_none_iff.mpr fun entry hentry => ?_⟩
  have hne : String.ofList (List.replicate n 'x') ≠ entry.1 := by
    rintro heq
    have hlt := hn entry hentry
    simp [← heq] at hlt
  simpa using hne

def asking (name : String) : Step :=
  .define "" "" (.ok (.fixed "f" .void [])) [] [.act ⟨"", none⟩ (.query (.divergence name))] none

def asked (w : Workspace Notebook) : Workspace Notebook :=
  { w.openFunction (.fixed "f" .void []) "void f()" with notes := w.notes.enterBody }

theorem asking_run {w : Workspace Notebook} {name : String}
    (h : w.notes.bound.lookup name = none) :
    (asking name).run w = .error (.unbound name) (asked w) := by
  have hlookup : Scripted.lookup name (asked w) = .error (.unbound name) (asked w) :=
    lookup_unbound h
  have hbody : Build.functionBody (.fixed "f" .void [])
      (defining "" [] (runAll [.act ⟨"", none⟩ (.query (.divergence name))]) none)
      (w.openFunction (.fixed "f" .void []) "void f()") = .error (.unbound name) (asked w) :=
    -- the parameters and the names for them come first
    (run_bind_ok rfl).trans <| run_bind_error <| (run_bind_ok rfl).trans <|
      (run_bind_ok rfl).trans <| run_bind_error <| run_bind_error <| run_bind_error <|
        run_bind_error hlookup
  have hdefine : Build.defineFunction (.fixed "f" .void [])
      (defining "" [] (runAll [.act ⟨"", none⟩ (.query (.divergence name))]) none) w =
        .error (.unbound name) (asked w) := by
    rw [Build.defineFunction_eq]
    exact (run_bind_ok rfl).trans <| (run_bind_ok rfl).trans <| (run_bind_ok rfl).trans <|
      run_bind_error hbody
  exact (run_bind_ok rfl).trans (run_bind_error hdefine)

section Masks

variable {settings : Settings} {first : Nat} {configured : Bool} {steps : List Step}
  {w w' : Workspace Notebook}

def InBody (w w' : Workspace Notebook) : Prop :=
  w'.sheet.draft.frames.length = w.sheet.draft.frames.length + 1 ∧
    ∃ (step : Step) (name : String), step.isDefinition = true ∧ step.run w = .error (.unbound name) w'

theorem inBody_asked (w : Workspace Notebook) : InBody w (asked w) := by
  obtain ⟨name, hname⟩ := exists_unbound w.notes.bound
  exact ⟨rfl, asking name, name, rfl, asking_run hname⟩

theorem InBody.under (h : InBody w w') (hreach : Reaches settings first configured steps w) :
    ∃ p header, (w.openFunction p header).sheet.draft.Under w'.sheet.draft := by
  obtain ⟨hlen, step, name, hdef, hrun⟩ := h
  obtain ⟨dag, hpoised⟩ := hreach.poised (fits_any _)
  cases step with
  | define label bodyLabel callee params body result =>
    obtain ⟨p, header, hmet⟩ := (define_ends hpoised (fits_any _)).of_error hrun name rfl
    exact ⟨p, header, hmet.under hlen⟩
  | _ => cases hdef

theorem unmasked_of_program
    (h : program settings configured steps (.start settings first {}) = .ok () w) :
    w.sheet.draft.Unmasked := by
  have hsteady := (Poised.start .any settings first).steady
    (steady_program settings configured (fits_any (partsOf steps)))
  obtain ⟨-, hkept, -, -⟩ := hsteady.of_ok h
  intro mask hmask
  rcases hkept.masks with hmasks | ⟨-, seed, hseed, hmasks⟩
  · rw [hmasks] at hmask
    cases hmask
  · rw [hmasks] at hmask
    cases hmask
    exact hseed

theorem function_owns_mask_iff (settings : Settings) (first : Nat) (configured : Bool)
    (steps : List Step) (w : Workspace Notebook) (h : Reaches settings first configured steps w) :
    ((∀ w', InBody w w' → w'.sheet.draft.OwnsMask) ↔ w.sheet.draft.Unmasked) ∧
    (program settings configured steps (.start settings first {}) = .ok () w →
      w.sheet.draft.Unmasked) ∧
    ∀ w', InBody w w' → ∃ pushed base, w'.sheet.draft.masks = pushed ++ base ∧
      (∀ mask ∈ pushed, mask.id ∈ w'.sheet.draft.scopes.visible) ∧
        (base = w.sheet.draft.masks ∨ ∃ seed, seed.IsSeed ∧ base = [seed]) := by
  refine ⟨⟨fun hown mask hmask => ?_, fun hmasks w' hbody => ?_⟩, unmasked_of_program,
    fun w' hbody => ?_⟩
  -- a function that has written nothing yet has the mask from outside
  · exact (hown (asked w) (inBody_asked w) mask hmask).resolve_right fun hv => by cases hv
  · obtain ⟨p, header, hunder⟩ := hbody.under h
    exact hunder.ownsMask hmasks
  · obtain ⟨p, header, hunder⟩ := hbody.under h
    obtain ⟨pushed, base, hmasks, hbase, hvisible⟩ := hunder.masks
    exact ⟨pushed, base, hmasks, hvisible, hbase⟩

def voting : List Step :=
  [ .act ⟨"enable_wave32", none⟩ (.command .enableWave32),
    .act ⟨"lit", some "c"⟩ (.value (.constant (.bool [true]))) ]

def branching (steps : List Step) : Step :=
  .define "define" "define_body" (.ok (.fixed "f" .void [])) [] [.ifThen "if" false "c" steps] none

theorem branching_owns_mask :
    ∃ w w', Reaches .default 1 false voting w ∧ InBody w w' ∧
      w'.sheet.draft.masks.length = 2 ∧ w'.sheet.draft.OwnsMask := by
  obtain ⟨_, w, hrun, hbranch⟩ := exists_ok_of_ensures (program .default false voting)
    (.start .default 1 {}) (fun _ w => w.sheet.draft.frames = [] ∧
      Ends (branching [abandoned]).run w (fun _ _ => False) fun halt w' => halt = .unbound "here" ∧
        w'.sheet.draft.frames.length = 1 ∧ w'.sheet.draft.masks.length = 2) (by decide +kernel)
  obtain ⟨hframes, hends⟩ := hbranch
  obtain ⟨_, w', hleft, rfl, hlen, hmasks⟩ := Ends.exists_error _ _ _ hends
  have hreach : Reaches .default 1 false voting w := .inl hrun
  have hbody : InBody w w' := ⟨by rw [hlen, hframes]; rfl, branching [abandoned], "here", rfl, hleft⟩
  obtain ⟨hiff, htop, -⟩ := function_owns_mask_iff .default 1 false voting w hreach
  exact ⟨w, w', hreach, hbody, hmasks, hiff.mpr (htop hrun) w' hbody⟩

def leaking : List Step := voting ++ [.ifThen "if" false "c" [branching []]]

theorem leaking_mentions_outer_mask :
    ∃ w, program .default false leaking (.start .default 1 {}) = .ok () w ∧
      (∃ line ∈ w.sheet.draft.functions, .word "m_if_0" ∈ line.computed) ∧
        ∀ line ∈ w.sheet.draft.functions, .word "m_if_0" ∉ line.introduced := by
  obtain ⟨_, w, hrun, hleak⟩ := exists_ok_of_ensures (program .default false leaking)
    (.start .default 1 {}) (fun _ w =>
      (∃ line ∈ w.sheet.draft.functions, .word "m_if_0" ∈ line.computed) ∧
        ∀ line ∈ w.sheet.draft.functions, .word "m_if_0" ∉ line.introduced) (by decide +kernel)
  exact ⟨w, hrun, hleak⟩

end Masks

end Script

end ComputeKernel
