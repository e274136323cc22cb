import ComputeKernel.Proofs.LawfulScripts

namespace ComputeKernel

namespace CallTable

theorem builtin_rule (t : CallTable) (b : Builtin) : (t.builtin b).1.rule = .builtin b := by
  unfold builtin
  split
  · split
    · rename_i p _ hp
      unfold Prototype.isBuiltin at hp
      split at hp
      · rename_i c hrule
        rw [hrule, eq_of_beq hp]
      · cases hp
    · rfl
  · rfl

theorem find?_builtin (t : CallTable) (b : Builtin) (name : String) :
    (t.builtin b).2.find? name = if name = b.name then some (t.builtin b).1 else t.find? name := by
  unfold builtin
  split
  · rename_i p hp
    split
    · split
      · rename_i hname
        rw [hname]
        exact hp
      · rfl
    · exact find?_register t _ name
  · exact find?_register t _ name

/-- Names not installed again are kept, or a built-in function of that name has taken them. -/
def HoldsNames (installed : List Prototype) (t t' : CallTable) : Prop :=
  ∀ name, (∀ p ∈ installed, p.name ≠ name) →
    t'.find? name = t.find? name ∨
      ∃ b p, t'.find? name = some p ∧ p.rule = .builtin b ∧ b.name = name

variable {t t' t'' : CallTable} {ps qs : List Prototype}

theorem HoldsNames.trans (h : HoldsNames ps t t') (h' : HoldsNames qs t' t'') :
    HoldsNames (ps ++ qs) t t'' := by
  intro name hnot
  rcases h' name fun p hp => hnot p (List.mem_append_right _ hp) with heq | hb
  · rw [heq]
    exact h name fun p hp => hnot p (List.mem_append_left _ hp)
  · exact .inr hb

theorem holdsNames_register (t : CallTable) (p : Prototype) : HoldsNames [p] t (t.register p) := by
  intro name hnot
  exact .inl ((t.find?_register p name).trans (if_neg (hnot p (.head _)).symm))

theorem holdsNames_builtin (t : CallTable) (b : Builtin) : HoldsNames [] t (t.builtin b).2 := by
  intro name _
  by_cases hname : name = b.name
  · exact .inr ⟨b, _, (t.find?_builtin b name).trans (if_pos hname), t.builtin_rule b, hname.symm⟩
  · exact .inl ((t.find?_builtin b name).trans (if_neg hname))

end CallTable

def installs (events : Events) : List Prototype := events.filterMap fun
  | .registers p | .returns p => some p
  | .calls _ | .callsName _ => none

namespace Build

open Script Scripted CallTable

variable {D D' : Events} {K : Stock} {α : Type}

def Holding : Tracking Events Notebook := fun D D' _ _ _ x _ => ∀ w,
  Ensures x w (fun _ w' => ∃ installed, installs D' = installs D ++ installed ∧
    HoldsNames installed w.callables w'.callables) fun _ => True

theorem holding_aside [Bears α] {x : Scripted α}
    (h : ∀ w, Ensures x w (fun _ w' => w'.callables = w.callables) fun _ => True) :
    Holding D D K α x x := fun w => (h w).imp fun _ _ h =>
  ⟨[], (List.append_nil _).symm, fun _ _ => .inl (h ▸ rfl)⟩

theorem holding_emitting [Bears α] (x : Emit α) : Holding D D K _ (emitting x) (emitting x) :=
  holding_aside fun _ => ensures_emitting (ensures_any (fun _ _ => rfl) fun _ => trivial)

theorem holding_install [Bears α] {x : Scripted α} {event : FunctionEvent} {p : Prototype}
    (hevent : installs [event] = [p])
    (h : ∀ w, Ensures x w (fun _ w' => w'.callables = w.callables.register p) fun _ => True) :
    Holding D (D ++ [event]) K _ x x := fun w => (h w).imp fun _ _ h =>
  ⟨[p], by rw [installs, List.filterMap_append]; exact congrArg _ hevent,
    h ▸ holdsNames_register _ p⟩

instance : Holding.Chains where
  pure a _ := holding_aside fun _ => rfl
  bind hx hf := fun w => .bind ((hx w).imp fun a w₁ h₁ => (hf a w₁).imp fun _ w₂ h₂ => by
    obtain ⟨ps, hD, hw⟩ := h₁
    obtain ⟨qs, hD', hw'⟩ := h₂
    exact ⟨ps ++ qs, by rw [hD', hD, List.append_assoc], hw.trans hw'⟩)
  grow _ hx := hx

theorem holding_tryEmit (e : Expr) : Holding D D K _ (tryEmit e) (tryEmit e) := holding_aside
  fun _ => .bind (ensures_attempt (fun _ _ _ => rfl) fun _ _ _ => rfl)

theorem holding_throw [Bears α] (halt : Halt) : Holding D D' K α (throw halt) (throw halt) :=
  fun _ => trivial

instance : FunctionStatements Holding where
  throw halt := holding_throw halt
  node _ _ _ := holding_emitting _
  place _ _ := Tracking.Chains.emitted (holding_emitting _) (fun e => holding_tryEmit e)
    fun halt => holding_throw halt
  literal _ := holding_emitting _
  array _ _ _ := Tracking.Chains.emitted (holding_emitting _) (fun e => holding_tryEmit e)
    fun halt => holding_throw halt
  swizzle _ _ := fun _ => holding_aside fun _ => ensures_attempt (fun _ _ _ => rfl) fun _ _ _ => rfl
  typeOf _ := fun _ => holding_emitting _
  nameOf _ := holding_aside fun _ => rfl
  rename _ _ := holding_emitting _
  tryEmit e := fun _ => holding_tryEmit e
  builtin b := fun w => ⟨[], (List.append_nil _).symm, holdsNames_builtin w.callables b⟩
  freshName _ := holding_aside fun _ => rfl
  draft := holding_aside fun _ => rfl
  currentMask := holding_emitting _
  addShared _ _ := holding_emitting _
  setGroupSize _ := holding_aside fun _ => ensures_setGroupSize rfl (fun _ => rfl) trivial
  writeHeader _ := holding_emitting _
  writeLine _ _ _ := holding_emitting _
  ballot _ _ _ _ := holding_emitting _
  noteSync := holding_emitting _
  seedMask _ := fun _ => holding_emitting _
  line _ _ := holding_emitting _
  enterScope _ := holding_emitting _
  exitScope := holding_emitting _
  pushTarget _ := holding_emitting _
  popTarget := holding_emitting _
  pushMask _ := fun _ => holding_emitting _
  popMask := holding_emitting _
  checkBreak _ := holding_emitting _
  checkContinue := holding_emitting _
  spread a b counter := Tracking.Chains.bind (holding_emitting _) fun either => by
    split
    · exact holding_emitting _
    · exact Tracking.Chains.pure () inferInstance
  enterFunction := holding_emitting _
  openFunction _ _ := holding_emitting _
  exitFunction := holding_emitting _

end Build

namespace Script

open Build Scripted CallTable

instance : Noting Holding where
  toDefinitions := definitions_of_statements fun _ => holding_install rfl fun _ => rfl
  lookup _ := holding_aside fun _ => ensures_lookup (fun _ _ => rfl) trivial
  bindName _ _ := fun _ => holding_aside fun _ => rfl
  enterBody := holding_aside fun _ => rfl
  leaveBody := holding_aside fun _ => rfl
  record _ _ := holding_aside fun _ => rfl
  askFunction _ := holding_aside fun _ => rfl
  register _ := holding_install rfl fun _ => rfl
  describe _ := holding_aside fun _ => rfl

instance : Scripting Holding :=
  scripting_of_answers (fun _ => holding_emitting _) (holding_emitting _) (holding_aside fun _ => rfl)

theorem holdsNames_of_runAll {steps : List Step} {w w' : Workspace Notebook}
    (h : runAll steps w = .ok () w') :
    HoldsNames (installs (lasting (eventsOf steps))) w.callables w'.callables := by
  have hholds := holds_runAll (J := Holding) (fun _ => ⟨fun _ _ _ => ⟨holding_aside fun _ => rfl⟩,
    fun _ _ _ => ⟨holding_aside fun _ => rfl⟩⟩) steps [] .all (admits_any [] _) w
  obtain ⟨installed, hinstalls, hnames⟩ := hholds.of_ok h
  have heq : installs (lasting (eventsOf steps)) = installed := hinstalls
  exact heq ▸ hnames

def ownCount : Prototype := .fixed "countbits" .u32 [⟨"x", .u32, .input⟩]

def withOwnCount : Workspace Notebook :=
  { Workspace.start .default 1 {} with callables := CallTable.standard.register ownCount }

def countingBits : List Step :=
  [.act ⟨"lit", some "a"⟩ (.value (.constant (.u32 [1]))),
    .act ⟨"count_bits", none⟩ (.value (.apply (.ok .countBits) ["a"] []))]

theorem find?_withOwnCount : withOwnCount.callables.find? "countbits" = some ownCount :=
  (CallTable.find?_register _ _ _).trans (if_pos rfl)

end Script

end ComputeKernel
