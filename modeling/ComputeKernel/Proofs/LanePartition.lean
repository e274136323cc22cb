import ComputeKernel.Proofs.FunctionMasks
import ComputeKernel.Proofs.HeededScripts

namespace ComputeKernel

open Script

variable {w w' : Workspace Notebook} {label cond : String}

section Ready

variable {mask : Expr} {rest : List Expr}

structure Workspace.Ready (w : Workspace Notebook) : Prop where
  orderly : w.Orderly
  furnished : w.Furnished []
  masked : Phase.masked.Holds w.sheet.draft
  legible : w.Legible .masked

theorem Workspace.Orderly.current_within (ho : w.Orderly) (hs : mask :: rest <:+ w.sheet.draft.masks)
    (hne : rest ≠ []) (o : Votes) : w.current o &&& w.laneMask o mask = w.current o := by
  rcases ho.tower with hnil | ⟨pushed, seed, ht⟩
  · simp [hnil] at hs
  obtain ⟨above, habove⟩ := hs
  obtain ⟨below, last, rfl⟩ := List.eq_nil_or_concat rest |>.resolve_left hne
  obtain ⟨rfl, -⟩ : above ++ mask :: below = pushed ∧ [last] = [seed] :=
    List.append_inj' (by simpa using habove.trans ht.masks) rfl
  have : IsTrans Expr fun inner outer =>
      w.laneMask o inner &&& w.laneMask o outer = w.laneMask o inner :=
    ⟨fun a b c hab hbc => by rw [← hab, BitVec.and_assoc, hbc]⟩
  have hpairs := List.isChain_iff_pairwise.mp (ht.linked o)
  cases above with
  | nil =>
    have hhead : mask ∈ w.sheet.draft.masks.head? := by simp [ht.masks]
    rw [current_of_head hhead o, BitVec.and_self]
  | cons first above =>
    have hhead : first ∈ w.sheet.draft.masks.head? := by simp [ht.masks]
    rw [current_of_head hhead o]
    exact (List.pairwise_cons.mp hpairs).1 mask (by simp)

theorem Workspace.Orderly.legible_of_suffix (ho : w.Orderly)
    (hs : mask :: rest <:+ w.sheet.draft.masks) (hne : rest ≠ []) : w.Legible .masked := by
  rcases ho.tower with hnil | ⟨pushed, seed, ht⟩
  · simp [hnil] at hs
  intro current hcurrent
  refine .inl ⟨rfl, ht.anchored current ?_⟩
  cases pushed with
  | nil =>
    have hlength := hs.length_le
    rw [ht.masks] at hlength
    exact (hne (by simpa using hlength)).elim
  | cons first pushed =>
    rw [ht.masks] at hcurrent
    simp_all

theorem Workspace.Ready.of_left (h : w.Ready) (hl : w.Left .masked w')
    (hspares : w'.sheet.draft.SparesMasks)
    (hs : mask :: w.sheet.draft.masks <:+ w'.sheet.draft.masks) : w'.Ready := by
  have ho := (hl.safe h.orderly hspares).1
  have hne : w'.sheet.draft.masks ≠ [] := by
    intro hnil
    simp [hnil] at hs
  exact ⟨ho, hl.furnished, ⟨hne, hl.enabled.mpr hne⟩, ho.legible_of_suffix hs h.masked.1⟩

end Ready

namespace Script

section Stack

variable {settings : Settings} {first : Nat} {configured : Bool} {steps : List Step}

theorem name_of_isSeed {seed : Expr} (hseed : seed.IsSeed) (hnoted : seed.Noted w.sheet) :
    ∃ id text, seed = .literal id (.u32 [0xffffffff]) ∧
      w.sheet.nodes.names.find? seed.id = some (.constant (.u32 [0xffffffff]) text) := by
  obtain ⟨id, rfl⟩ := hseed
  obtain ⟨text, -, hname⟩ := hnoted
  exact ⟨id, text, rfl, hname⟩

theorem Reaches.noted (h : Reaches settings first configured steps w) :
    ∀ m ∈ w.sheet.draft.masks, m.Noted w.sheet := by
  obtain ⟨dag, hpoised⟩ := h.poised (fits_any _)
  exact fun m hm => (hpoised.sound.masks m hm).2.1.noted

theorem Reaches.ready (h : Reaches settings first configured steps w)
    (hsteps : Heedful (startPhase settings configured) steps) (hspares : w.sheet.draft.SparesMasks)
    (hwave : w.sheet.draft.wave32 = true) : w.Ready := by
  obtain ⟨ho, hfurnished, henabled⟩ := h.orderly hsteps hspares
  have hne := henabled.mp hwave
  refine ⟨ho, hfurnished, ⟨hne, hwave⟩, fun current hcurrent => ?_⟩
  obtain ⟨pushed, seed, ht⟩ := ho.tower.resolve_left hne
  have hmem : current ∈ pushed ++ [seed] := ht.masks ▸ List.mem_of_mem_head? hcurrent
  rcases List.mem_append.mp hmem with hpushed | hseed
  · exact .inl ⟨rfl, ht.anchored current hpushed⟩
  · obtain rfl := List.mem_singleton.mp hseed
    obtain ⟨id, text, hliteral, hname⟩ :=
      name_of_isSeed ht.seed (h.noted current (by simp [ht.masks]))
    exact .inr ⟨id, _, text, hliteral, hname⟩

theorem Reaches.maskStack (h : Reaches settings first configured steps w)
    (hready : w.Ready) (o : Votes) :
    (w.maskStack o).IsChain (fun inner outer => inner &&& outer = inner) ∧
      (w.maskStack o).getLast? = some (BitVec.allOnes 32) := by
  obtain ⟨pushed, seed, ht⟩ := hready.orderly.tower.resolve_left hready.masked.1
  have hseed : w.laneMask o seed = BitVec.allOnes 32 := by
    obtain ⟨_, _, -, hname⟩ := name_of_isSeed ht.seed (h.noted seed (by simp [ht.masks]))
    simp only [Workspace.laneMask, Nodes.name, hname, Option.getD_some, LaneState.value]
    rfl
  rw [Workspace.maskStack, ht.masks, List.map_append, List.map_singleton, hseed]
  refine ⟨List.isChain_append.mpr ⟨(List.isChain_map _).mpr (ht.linked o), .singleton _, ?_⟩, by simp⟩
  intro inner _ outer houter
  simp only [List.head?_cons, Option.mem_some_iff] at houter
  rw [← houter, BitVec.and_allOnes]

end Stack

section Branches

variable {w₀ p q : Workspace Notebook} {c taken missed : Expr}

theorem checkCondition_ok (h : Build.checkCondition c w = .ok () w₀) :
    ∃ types, w₀ = { w with sheet := { w.sheet with nodes := { w.sheet.nodes with types } } } := by
  obtain ⟨ty, w₁, htype, hrest⟩ := exists_of_bind_ok h
  obtain rfl : w₁ = w₀ := by
    split at hrest <;> cases hrest
    rfl
  simp only [Build.typeOf, Build.emitting, Build.attempt, Emit.typing, Emit.making, Making.typing,
    Bind.bind, EStateM.bind] at htype
  cases hx : c.inferType w.sheet.nodes.types <;> rw [hx] at htype <;> cases htype
  exact ⟨_, rfl⟩

def Forked (w : Workspace Notebook) (c taken missed : Expr) (w' : Workspace Notebook) : Prop :=
  ∃ w₀, Build.checkCondition c w = .ok () w₀ ∧ w₀.Branching c taken missed w'

theorem Forked.unique {taken' missed' : Expr} (h : Forked w c taken missed p)
    (h' : Forked w c taken' missed' q) : taken' = taken ∧ missed' = missed ∧
      ∀ o, q.laneMask o taken = p.laneMask o taken ∧ q.laneMask o missed = p.laneMask o missed := by
  obtain ⟨w₀, hcheck, hb⟩ := h
  obtain ⟨w₀', hcheck', hb'⟩ := h'
  cases hcheck.symm.trans hcheck'
  obtain ⟨w₁, hrun, hvalues⟩ := hb.voted
  obtain ⟨w₁', hrun', hvalues'⟩ := hb'.voted
  cases hrun.symm.trans hrun'
  refine ⟨rfl, rfl, fun o => ⟨?_, ?_⟩⟩
  · rw [(hvalues' o).1, (hvalues o).1]
  · rw [(hvalues' o).2, (hvalues o).2]

theorem Forked.named (h : Forked w c taken missed p) (o : Votes) :
    (p.laneState o).store ("m_if_" ++ toString w.labels) = p.laneMask o taken ∧
      (p.laneState o).store ("m_else_" ++ toString (w.labels + 1)) = p.laneMask o missed := by
  obtain ⟨w₀, hcheck, hb⟩ := h
  obtain ⟨types, rfl⟩ := checkCondition_ok hcheck
  exact ⟨(hb.shown.1.laneMask o).symm, (hb.shown.2.laneMask o).symm⟩

theorem Forked.divides (h : Forked w c taken missed p) (o : Votes) :
    p.laneMask o taken &&& p.laneMask o missed = 0 ∧
      p.laneMask o taken ||| p.laneMask o missed = w.current o := by
  obtain ⟨w₀, hcheck, hb⟩ := h
  obtain ⟨types, rfl⟩ := checkCondition_ok hcheck
  exact ⟨hb.disjoint o, hb.covering o⟩

def branch (label cond : String) (body : List Step) : Option (List Step) → Step
  | none => .ifThen label false cond body
  | some otherwise => .ifElse label false cond body otherwise

def opening (c : Expr) (body : List Step) : Scripted Expr := do
  Build.checkCondition c
  Build.takenBranch c (runAll body)

def recordedEnd (label : String) : Scripted Unit := do
  Build.writeLine .close
  Scripted.record label .done

def closing (label : String) (otherwise : Option (List Step)) (missed : Expr) : Scripted Unit := do
  match otherwise with
  | some other => Build.missedBranch (runAll other) missed
  | none => pure ()
  recordedEnd label

variable {body : List Step} {otherwise : Option (List Step)}

theorem branch_run (hcond : w.notes.bound.lookup cond = some c)
    (hwave : w.sheet.draft.wave32 = true) :
    (branch label cond body otherwise).run w = (opening c body >>= closing label otherwise) w := by
  have hmasked (byLane : Scripted Unit) : ((do
      Build.checkCondition c
      if ← Build.isWave32 then Build.maskedIf c (runAll body) (otherwise.map runAll) else byLane) >>=
        fun _ => Scripted.record label .done) w = (opening c body >>= closing label otherwise) w := by
    simp only [opening, bind_assoc]
    cases hcheck : Build.checkCondition c w with
    | error halt w₀ => exact (run_bind_error hcheck).trans (run_bind_error hcheck).symm
    | ok _ w₀ =>
      refine (run_bind_ok hcheck).trans (Eq.trans ?_ (run_bind_ok hcheck).symm)
      have hwave₀ : Build.isWave32 w₀ = .ok true w₀ := by
        obtain ⟨types, rfl⟩ := checkCondition_ok hcheck
        exact congrArg (EStateM.Result.ok · _) hwave
      refine (run_bind_ok hwave₀).trans ?_
      rw [if_pos rfl, Build.maskedIf_eq, bind_assoc]
      refine congrArg (fun rest => (Build.takenBranch c (runAll body) >>= rest) w₀)
        (funext fun missed => ?_)
      cases otherwise with
      | none => rfl
      | some other => exact bind_assoc _ _ _
  cases otherwise with
  | none => exact (run_bind_ok (lookup_bound hcond)).trans (hmasked (Build.laneIf c (runAll body)))
  | some other =>
    exact (run_bind_ok (lookup_bound hcond)).trans
      (hmasked (Build.laneIfElse c (runAll body) (runAll other)))

instance (c : Expr) : Build.Firm (Build.checkCondition c : Scripted Unit) := by
  unfold Build.checkCondition Build.typeOf; infer_instance

instance (mask : Expr) (x : Scripted Unit) [Build.Firm x] : Build.Firm (Build.withMask mask x) := by
  unfold Build.withMask; infer_instance

instance (condition : Option Expr) (x : Scripted Unit) [Build.Firm x] :
    Build.Firm (Build.inScope condition x) := by
  unfold Build.inScope; infer_instance

instance (label : String) (outcome : Outcome) :
    Build.Firm (Scripted.record label outcome) := ⟨fun _ => trivial⟩

theorem ends_opening (h : w.Ready) (hbody : Heedful .masked body) :
    Ends (opening c body) w
      (fun missed w' => w.Done .masked .masked [missed] w' ∧ (w'.sheet.draft.SparesMasks →
        w'.Fits missed ∧ ∃ taken, Forked w c taken missed w'))
      fun halt w' => ∀ name, halt = .unbound name → w.Left .masked w' ∧
        (w'.sheet.draft.SparesMasks → ∃ taken missed, Forked w c taken missed w' ∧
          taken :: w.sheet.draft.masks <:+ w'.sheet.draft.masks) := by
  have hcheck := Build.Firm.ends_of ((Build.heeds_checkCondition c).ends w h.furnished h.masked)
  refine .bind (Ends.of_runs (fun _ w₀ hrun => ?_) fun _ _ hrun name hn =>
    (hcheck.of_error hrun name hn).elim)
  have hdone := hcheck.of_ok hrun
  have := hbody.heeds_masked []
  have hbranch : Ends (Build.takenBranch c (runAll body)) w₀ _ _ :=
    Build.ends_takenBranch (show w₀.Furnished [] from hdone.furnished) hdone.phase (by decide)
  have hsafe (hspares : w₀.sheet.draft.SparesMasks) : w₀.Orderly ∧ w₀.Legible .masked := by
    refine ⟨(hdone.safe h.orderly hspares).1, ?_⟩
    obtain ⟨types, rfl⟩ := checkCondition_ok hrun
    exact h.legible
  refine hbranch.mono (fun missed w' h' => ?_) fun _ w' h' name hn => ?_
  · obtain ⟨hdone', hparts⟩ := h'
    refine ⟨hdone.trans hdone', fun hspares => ?_⟩
    obtain ⟨ho, hl⟩ := hsafe (hspares.of_subset hdone'.onward.grows.everyLine)
    obtain ⟨hfits, hforks⟩ := hparts ho hspares
    obtain ⟨taken, hfork⟩ := hforks hl
    exact ⟨hfits, taken, w₀, hrun, hfork⟩
  · obtain ⟨hleft, hparts⟩ := h' name hn
    refine ⟨.after hdone hleft, fun hspares => ?_⟩
    obtain ⟨ho, hl⟩ := hsafe (hspares.of_subset hleft.written)
    obtain ⟨taken, missed, hfork, hsuffix⟩ := hparts ho hspares hl
    exact ⟨taken, missed, ⟨w₀, hrun, hfork⟩, hdone.masks (by decide) ▸ hsuffix⟩

instance firm_recordedEnd (label : String) : Build.Firm (recordedEnd label) := by
  unfold recordedEnd; infer_instance

theorem firm_closing (label : String) (missed : Expr)
    (h : otherwise.getD [] = []) : Build.Firm (closing label otherwise missed) := by
  cases otherwise with
  | none => unfold closing; infer_instance
  | some other =>
    obtain rfl : other = [] := h
    unfold closing Build.missedBranch runAll; infer_instance

theorem keeps_of_recordedEnd (hspares : w'.sheet.draft.SparesMasks)
    (hrun : recordedEnd label w = .ok () w') :
    w.sheet.draft.SparesMasks ∧ (w.Orderly → w.Keeps w') := by
  cases hrun
  have hcalm : Build.Calm w (w.write .close) := Build.calm_write rfl
  exact ⟨hspares.of_subset hcalm.onward.grows.everyLine,
    fun ho => ⟨(hcalm.safe ho.labelled hspares).2, hcalm.onward.grows.visible⟩⟩

inductive Spot where
  | taken
  | missed
  | after
deriving DecidableEq

namespace Spot

def Reached (w : Workspace Notebook) (cond : String) (w' : Workspace Notebook) : Spot → Prop
  | .taken => ∃ label body otherwise name, Heedful .masked body ∧ otherwise.getD [] = [] ∧
    (branch label cond body otherwise).run w = .error (.unbound name) w'
  | .missed => ∃ label body otherwise name w₁, Heedful .masked body ∧ Heedful .masked otherwise ∧
    (branch label cond body (some [])).run w = .ok () w₁ ∧
    (branch label cond body (some otherwise)).run w = .error (.unbound name) w'
  | .after => ∃ label body otherwise, Heedful .masked body ∧ Heedful .masked (otherwise.getD []) ∧
    (branch label cond body otherwise).run w = .ok () w'

def pick {α : Type} (ofTaken ofMissed : α) : Spot → Option α
  | .taken => some ofTaken
  | .missed => some ofMissed
  | .after => none

end Spot

structure Visits (w : Workspace Notebook) (cond : String) (spot : Spot) (w' : Workspace Notebook) :
    Prop where
  bound : (w.notes.bound.lookup cond).isSome = true
  reached : spot.Reached w cond w'
  spares : w'.sheet.draft.SparesMasks

section Visits

variable {body : List Step} {otherwise : Option (List Step)}

variable {name : String}

theorem forked_taken (h : w.Ready) (hcond : w.notes.bound.lookup cond = some c)
    (hbody : Heedful .masked body) (hother : otherwise.getD [] = [])
    (hrun : (branch label cond body otherwise).run w = .error (.unbound name) w')
    (hspares : w'.sheet.draft.SparesMasks) : ∃ taken missed, Forked w c taken missed w' ∧ w'.Ready ∧
    taken :: w.sheet.draft.masks <:+ w'.sheet.draft.masks := by
  rw [branch_run hcond h.masked.2] at hrun
  rcases of_bind_error hrun with hopen | ⟨missed, w₁, -, hclose⟩
  · obtain ⟨hleft, hforks⟩ := (ends_opening h hbody).of_error hopen name rfl
    obtain ⟨taken, missed, hfork, hsuffix⟩ := hforks hspares
    exact ⟨taken, missed, hfork, h.of_left hleft hspares hsuffix, hsuffix⟩
  · exact (((firm_closing label missed hother).ends w₁).of_error hclose name rfl).elim

theorem forked_missed {other : List Step} {w₁ : Workspace Notebook} (h : w.Ready)
    (hcond : w.notes.bound.lookup cond = some c) (hbody : Heedful .masked body)
    (hother : Heedful .masked other) (hfirst : (branch label cond body (some [])).run w = .ok () w₁)
    (hrun : (branch label cond body (some other)).run w = .error (.unbound name) w')
    (hspares : w'.sheet.draft.SparesMasks) : ∃ taken missed, Forked w c taken missed w' ∧ w'.Ready ∧
    missed :: w.sheet.draft.masks <:+ w'.sheet.draft.masks := by
  rw [branch_run hcond h.masked.2] at hfirst hrun
  obtain ⟨missed, w₂, hopen, -⟩ := exists_of_bind_ok hfirst
  rw [run_bind_ok hopen] at hrun
  obtain ⟨hdone, hforks⟩ := (ends_opening h hbody).of_ok hopen
  have := hother.heeds_masked []
  rcases of_bind_error hrun with hbranch | ⟨_, w₃, -, hclose⟩
  · obtain ⟨hleft, hsuffix, hkeeps⟩ := (Build.ends_missedBranch h.furnished (by decide) hdone
      fun _ hspares => (hforks hspares).1).of_error hbranch name rfl
    obtain ⟨hspares₂, hk⟩ := hkeeps h.orderly hspares
    obtain ⟨-, taken, w₀, hcheck, hfork⟩ := hforks hspares₂
    exact ⟨taken, missed, ⟨w₀, hcheck, hfork.of_keeps hk⟩, h.of_left hleft hspares hsuffix, hsuffix⟩
  · exact (((firm_recordedEnd label).ends w₃).of_error hclose name rfl).elim

theorem forked_after (h : w.Ready) (hcond : w.notes.bound.lookup cond = some c)
    (hbody : Heedful .masked body) (hother : Heedful .masked (otherwise.getD []))
    (hrun : (branch label cond body otherwise).run w = .ok () w')
    (hspares : w'.sheet.draft.SparesMasks) : ∃ taken missed, Forked w c taken missed w' := by
  rw [branch_run hcond h.masked.2] at hrun
  obtain ⟨missed, w₁, hopen, hclose⟩ := exists_of_bind_ok hrun
  obtain ⟨hdone, hforks⟩ := (ends_opening h hbody).of_ok hopen
  -- The second branch, if there is one, ends at `w₂`.
  have hrest : ∃ w₂ out, w.Done .masked .masked out w₂ ∧ w₁.Onward w₂ ∧
      (w₂.sheet.draft.SparesMasks → w₁.Keeps w₂) ∧ recordedEnd label w₂ = .ok () w' := by
    cases otherwise with
    | none => exact ⟨w₁, _, hdone, .refl w₁, fun _ => ⟨.refl _ _, fun _ h => h⟩, hclose⟩
    | some other =>
      have : Heeds .masked .masked [] (runAll other) := hother.heeds_masked []
      obtain ⟨_, w₂, hbranch, hclose⟩ := exists_of_bind_ok hclose
      obtain ⟨hdone', hon, hk⟩ := (Build.ends_missedBranch h.furnished (by decide) hdone
        fun _ hspares => (hforks hspares).1).of_ok hbranch
      exact ⟨w₂, _, hdone', hon, hk h.orderly, hclose⟩
  obtain ⟨w₂, out, hdone', hon, hk, hclosed⟩ := hrest
  obtain ⟨hspares₂, hclosed⟩ := keeps_of_recordedEnd hspares hclosed
  obtain ⟨-, taken, w₀, hcheck, hfork⟩ := hforks (hspares₂.of_subset hon.grows.everyLine)
  have hkeeps := (hk hspares₂).trans (hclosed (hdone'.safe h.orderly hspares₂).1)
  exact ⟨taken, missed, w₀, hcheck, hfork.of_keeps hkeeps⟩

theorem Visits.forked {spot : Spot} (h : w.Ready) (hv : Visits w cond spot w')
    (hcond : w.notes.bound.lookup cond = some c) :
    ∃ taken missed, Forked w c taken missed w' ∧ ∀ mask ∈ spot.pick taken missed, w'.Ready ∧
      mask :: w.sheet.draft.masks <:+ w'.sheet.draft.masks := by
  cases spot with
  | taken =>
    obtain ⟨label, body, otherwise, name, hbody, hother, hrun⟩ := hv.reached
    obtain ⟨taken, missed, hfork, hready⟩ := forked_taken h hcond hbody hother hrun hv.spares
    exact ⟨taken, missed, hfork, fun mask hmask => Option.mem_some.mp hmask ▸ hready⟩
  | missed =>
    obtain ⟨label, body, other, name, w₁, hbody, hother, hfirst, hrun⟩ := hv.reached
    obtain ⟨taken, missed, hfork, hready⟩ :=
      forked_missed h hcond hbody hother hfirst hrun hv.spares
    exact ⟨taken, missed, hfork, fun mask hmask => Option.mem_some.mp hmask ▸ hready⟩
  | after =>
    obtain ⟨label, body, otherwise, hbody, hother, hrun⟩ := hv.reached
    obtain ⟨taken, missed, hfork⟩ := forked_after h hcond hbody hother hrun hv.spares
    exact ⟨taken, missed, hfork, fun mask hmask => by cases hmask⟩

theorem visits_divide (h : w.Ready) (cond : String) (o : Votes) :
    ∃ taken missed : Lanes, taken &&& missed = 0 ∧ taken ||| missed = w.current o ∧
      ∀ spot w', Visits w cond spot w' →
        (w'.laneState o).store ("m_if_" ++ toString w.labels) = taken ∧
        (w'.laneState o).store ("m_else_" ++ toString (w.labels + 1)) = missed ∧
        ∀ share ∈ spot.pick taken missed, w'.current o &&& share = w'.current o ∧
          (w'.sheet.draft.masks.length = w.sheet.draft.masks.length + 1 → w'.current o = share) := by
  -- All that is seen of the masks agrees with what is seen in one place, if there is any.
  by_cases hany : ∃ spot w', Visits w cond spot w'
  · obtain ⟨spot, w', hv⟩ := hany
    obtain ⟨c, hcond⟩ := Option.isSome_iff_exists.mp hv.bound
    obtain ⟨taken, missed, hfork, -⟩ := hv.forked h hcond
    refine ⟨w'.laneMask o taken, w'.laneMask o missed, (hfork.divides o).1, (hfork.divides o).2,
      fun spot' w'' hv' => ?_⟩
    obtain ⟨taken, missed, hfork', hready⟩ := hv'.forked h hcond
    obtain ⟨rfl, rfl, hsame⟩ := hfork.unique hfork'
    rw [(hfork'.named o).1, (hfork'.named o).2, (hsame o).1, (hsame o).2]
    refine ⟨rfl, rfl, fun share hshare => ?_⟩
    have hpick : spot'.pick (w'.laneMask o taken) (w'.laneMask o missed) =
        (spot'.pick taken missed).map (w''.laneMask o) := by
      rw [← (hsame o).1, ← (hsame o).2]
      cases spot' <;> rfl
    obtain ⟨mask, hmask, rfl⟩ := Option.map_eq_some_iff.mp (hpick ▸ hshare)
    obtain ⟨hready', hsuffix⟩ := hready mask hmask
    refine ⟨hready'.orderly.current_within hsuffix h.masked.1 o, fun hlength => ?_⟩
    have hmasks := hsuffix.eq_of_length (by simpa using hlength.symm)
    exact w''.current_of_head (by simp [← hmasks]) o
  · exact ⟨0, w.current o, by simp, by simp, fun spot w' hv => (hany ⟨spot, w', hv⟩).elim⟩

end Visits

end Branches

section Loops

structure Loops (w : Workspace Notebook) (inside : Bool) (w' : Workspace Notebook) : Prop where
  reached : ∃ label body, Heedful .masked body ∧
    if inside then ∃ name, (Step.loop label false body).run w = .error (.unbound name) w'
    else (Step.loop label false body).run w = .ok () w'
  spares : w'.sheet.draft.SparesMasks

theorem loop_run {body : List Step} (hwave : w.sheet.draft.wave32 = true) :
    (Step.loop label false body).run w =
      (Build.copiedLoop (runAll body) >>= fun _ => recordedEnd label) w := by
  have hwave' : Build.isWave32 w = .ok true w := congrArg (EStateM.Result.ok · _) hwave
  have hloop : Build.whileLoop (runAll body) w = Build.maskedWhile (runAll body) w :=
    run_bind_ok hwave'
  unfold recordedEnd
  rw [← bind_assoc, ← Build.maskedWhile_eq_copiedLoop]
  change (Build.whileLoop (runAll body) >>= fun _ => Scripted.record label .done) w = _
  simp only [Bind.bind, EStateM.bind, hloop]

variable {inside : Bool}

theorem Loops.copied (h : w.Ready) (hl : Loops w inside w') : ∃ mask, w.Looping mask w' ∧
    (inside = true → w'.Ready ∧ mask :: w.sheet.draft.masks <:+ w'.sheet.draft.masks) := by
  obtain ⟨label, body, hbody, hrun⟩ := hl.reached
  have := hbody.heeds_masked []
  have hends : Ends (Build.copiedLoop (runAll body)) w _ _ :=
    Build.ends_copiedLoop h.furnished h.masked (by decide)
  cases inside with
  | true =>
    obtain ⟨name, hrun⟩ := hrun
    rw [loop_run h.masked.2] at hrun
    rcases of_bind_error hrun with hloop | ⟨_, w₁, -, hclose⟩
    · obtain ⟨hleft, hcopy⟩ := hends.of_error hloop name rfl
      obtain ⟨mask, hmask, hsuffix⟩ := hcopy h.orderly hl.spares h.legible
      exact ⟨mask, hmask, fun _ => ⟨h.of_left hleft hl.spares hsuffix, hsuffix⟩⟩
    · exact (((firm_recordedEnd label).ends w₁).of_error hclose name rfl).elim
  | false =>
    rw [if_neg (by decide), loop_run h.masked.2] at hrun
    obtain ⟨_, w₁, hloop, hclose⟩ := exists_of_bind_ok hrun
    obtain ⟨hdone, hcopy⟩ := hends.of_ok hloop
    obtain ⟨hspares, hclosed⟩ := keeps_of_recordedEnd hl.spares hclose
    obtain ⟨mask, hmask⟩ := hcopy h.orderly hspares h.legible
    have hkeeps := hclosed (hdone.safe h.orderly hspares).1
    exact ⟨mask, hmask.of_keeps hkeeps, fun h => by cases h⟩

theorem loops_copy (h : w.Ready) (hl : Loops w inside w') (o : Votes) :
    (w'.laneState o).store ("m_loop_" ++ toString w.labels) = w.current o ∧
      (inside = true → w'.current o &&& w.current o = w'.current o) := by
  obtain ⟨mask, hmask, hinside⟩ := hl.copied h
  refine ⟨(hmask.shown.laneMask o).symm.trans (hmask.same o), fun hin => ?_⟩
  obtain ⟨hready, hsuffix⟩ := hinside hin
  rw [← hmask.same o]
  exact hready.orderly.current_within hsuffix h.masked.1 o

end Loops

section Leaves

variable {leaves : List (Workspace Notebook)}

inductive Leaves : Workspace Notebook → List (Workspace Notebook) → Prop
  | leaf (w : Workspace Notebook) : Leaves w [w]
  | split {w p q : Workspace Notebook} {cond : String} {ps qs : List (Workspace Notebook)}
      (hp : Visits w cond .taken p) (hq : Visits w cond .missed q)
      (hpdepth : p.sheet.draft.masks.length = w.sheet.draft.masks.length + 1)
      (hqdepth : q.sheet.draft.masks.length = w.sheet.draft.masks.length + 1)
      (hps : Leaves p ps) (hqs : Leaves q qs) : Leaves w (ps ++ qs)

theorem Visits.ready {spot : Spot} (h : w.Ready)
    (hv : Visits w cond spot w') (hspot : spot ≠ .after) : w'.Ready := by
  obtain ⟨c, hcond⟩ := Option.isSome_iff_exists.mp hv.bound
  obtain ⟨taken, missed, -, hready⟩ := hv.forked h hcond
  cases spot with
  | taken => exact (hready taken rfl).1
  | missed => exact (hready missed rfl).1
  | after => exact (hspot rfl).elim

theorem Leaves.count (hl : Leaves w leaves) (h : w.Ready) (o : Votes) (lane : Nat) :
    leaves.countP (fun p => (p.current o).getLsbD lane) = ((w.current o).getLsbD lane).toNat := by
  induction hl with
  | leaf w => cases hlane : (w.current o).getLsbD lane <;> simp [hlane]
  | @split w p q cond ps qs hp hq hpdepth hqdepth _ _ ihp ihq =>
    obtain ⟨taken, missed, hdisjoint, hcover, hvisits⟩ := visits_divide h cond o
    have htaken : p.current o = taken := ((hvisits _ _ hp).2.2 taken rfl).2 hpdepth
    have hmissed : q.current o = missed := ((hvisits _ _ hq).2.2 missed rfl).2 hqdepth
    rw [List.countP_append, ihp (hp.ready h (by decide)), ihq (hq.ready h (by decide)), htaken,
      hmissed, ← hcover, BitVec.getLsbD_or]
    have hlane := congrArg (BitVec.getLsbD · lane) hdisjoint
    simp only [BitVec.getLsbD_and, BitVec.ofNat_eq_ofNat, BitVec.getLsbD_zero] at hlane
    cases ht : taken.getLsbD lane <;> cases hm : missed.getLsbD lane <;> simp_all

theorem current_of_single {o : Votes} (hlast : (w.maskStack o).getLast? = some (BitVec.allOnes 32))
    (hlength : w.sheet.draft.masks.length = 1) : w.current o = BitVec.allOnes 32 := by
  obtain ⟨mask, hmask⟩ := List.length_eq_one_iff.mp hlength
  rw [Workspace.maskStack, hmask] at hlast
  rw [Workspace.current, Workspace.maskStack, hmask]
  simpa using hlast

end Leaves

theorem lanes_disjoint {a b taken missed : Lanes} (ha : a &&& taken = a) (hb : b &&& missed = b)
    (h : taken &&& missed = 0) : a &&& b = 0 := by
  calc a &&& b = (a &&& taken) &&& (b &&& missed) := by rw [ha, hb]
    _ = (a &&& b) &&& (taken &&& missed) := by ac_rfl
    _ = 0 := by rw [h]; simp

/-- Whatever the lanes vote, the two masks of an if divide the mask that is current there, and of
the leaves of a nest of branches each lane of that mask is active in one. -/
theorem lane_masks_partition {settings : Settings} {first : Nat} {configured : Bool}
    {steps : List Step} {w : Workspace Notebook} (h : Reaches settings first configured steps w)
    (hsteps : Heedful (startPhase settings configured) steps) (hspares : w.sheet.draft.SparesMasks)
    (hwave : w.sheet.draft.wave32 = true) (o : Votes) :
    ((w.maskStack o).IsChain (fun inner outer => inner &&& outer = inner) ∧
      (w.maskStack o).getLast? = some (BitVec.allOnes 32)) ∧
    (∀ cond, ∃ taken missed : Lanes, taken &&& missed = 0 ∧ taken ||| missed = w.current o ∧
      ∀ spot w', Visits w cond spot w' →
        (w'.laneState o).store ("m_if_" ++ toString w.labels) = taken ∧
        (w'.laneState o).store ("m_else_" ++ toString (w.labels + 1)) = missed ∧
        ∀ share ∈ spot.pick taken missed, w'.current o &&& share = w'.current o) ∧
    (∀ cond p q, Visits w cond .taken p → Visits w cond .missed q →
      p.current o &&& q.current o = 0) ∧
    (∀ inside w', Loops w inside w' →
      (w'.laneState o).store ("m_loop_" ++ toString w.labels) = w.current o ∧
        (inside = true → w'.current o &&& w.current o = w'.current o)) ∧
    ∀ leaves, Leaves w leaves → ∀ lane < 32,
      leaves.countP (fun p => (p.current o).getLsbD lane) = ((w.current o).getLsbD lane).toNat ∧
        (w.sheet.draft.masks.length = 1 →
          leaves.countP (fun p => (p.current o).getLsbD lane) = 1) := by
  have hready := h.ready hsteps hspares hwave
  have hstack := h.maskStack hready o
  refine ⟨hstack, fun cond => ?_, fun cond p q hp hq => ?_,
    fun inside w' hl => loops_copy hready hl o, fun leaves hl lane hlane => ?_⟩
  · obtain ⟨taken, missed, hdisjoint, hcover, hvisits⟩ := visits_divide hready cond o
    refine ⟨taken, missed, hdisjoint, hcover, fun spot w' hv => ?_⟩
    obtain ⟨htaken, hmissed, hshare⟩ := hvisits spot w' hv
    exact ⟨htaken, hmissed, fun share hs => (hshare share hs).1⟩
  · obtain ⟨taken, missed, hdisjoint, -, hvisits⟩ := visits_divide hready cond o
    exact lanes_disjoint ((hvisits _ _ hp).2.2 taken rfl).1 ((hvisits _ _ hq).2.2 missed rfl).1
      hdisjoint
  · have hcount := hl.count hready o lane
    refine ⟨hcount, fun hlength => ?_⟩
    rw [hcount, current_of_single hstack.2 hlength, BitVec.getLsbD_allOnes, decide_eq_true hlane]
    rfl

section Nesting

variable {good : Workspace Notebook → Prop}

theorem heedful_of_heads {p : Phase} {steps : List Step} (hphases : (phaseOf? steps p).isSome = true)
    (hnames : ((partsOf steps).flatMap Part.names).all (fun x => x.toList.head? != some 'm') = true) :
    Heedful p steps := by
  refine ⟨hphases, fun part hpart name hname hmask => ?_⟩
  simp only [List.all_eq_true, bne_iff_ne, List.mem_flatMap] at hnames
  exact hnames name ⟨part, hpart, hname⟩ (head_of_isMaskName hmask)

def LeftWhere (good : Workspace Notebook → Prop) (step : Step) (w : Workspace Notebook) : Prop :=
  Ends step.run w (fun _ _ => False) fun halt w' =>
    halt = .unbound "here" ∧ w'.sheet.draft.sparing = true ∧ good w'

instance [DecidablePred good] (step : Step) (w : Workspace Notebook) :
    Decidable (LeftWhere good step w) := inferInstanceAs (Decidable (Ends ..))

variable {body : List Step}

theorem visits_taken (hbound : (w.notes.bound.lookup cond).isSome = true)
    (hbody : Heedful .masked body) (h : LeftWhere good (branch label cond body (some [])) w) :
    ∃ p, Visits w cond .taken p ∧ good p := by
  obtain ⟨_, p, hrun, rfl, hspares, hgood⟩ := Ends.exists_error _ _ _ h
  exact ⟨p, ⟨hbound, ⟨label, body, _, _, hbody, rfl, hrun⟩, .of_sparing hspares⟩, hgood⟩

theorem visits_missed {other : List Step} (hbound : (w.notes.bound.lookup cond).isSome = true)
    (hbody : Heedful .masked body) (hother : Heedful .masked other)
    (hfirst : Ends (branch label cond body (some [])).run w (fun _ _ => True) fun _ _ => False)
    (h : LeftWhere good (branch label cond body (some other)) w) :
    ∃ q, Visits w cond .missed q ∧ good q := by
  obtain ⟨_, q, hrun, rfl, hspares, hgood⟩ := Ends.exists_error _ _ _ h
  cases hw₁ : (branch label cond body (some [])).run w with
  | error halt w₁ => exact (hfirst.of_error hw₁).elim
  | ok _ w₁ =>
    exact ⟨q, ⟨hbound, ⟨label, body, other, _, w₁, hbody, hother, hw₁, hrun⟩, .of_sparing hspares⟩,
      hgood⟩

def undecided : List Step :=
  [ .act ⟨"enable_wave32", none⟩ (.command .enableWave32),
    .act ⟨"lit", some "c"⟩ (.value (.constant (.bool [true]))),
    .act ⟨"lit", some "d"⟩ (.value (.constant (.bool [false]))),
    .act ⟨"var", some "x"⟩ (.value (.variableOf (.constant (.u32 [7])))),
    abandoned ]

def assigning : Step := .act ⟨"assign", none⟩ (.command (.update .assign "x" (.constant (.u32 [1]))))

def deciding : Step := branch "if_else" "d" [assigning] (some [assigning])

theorem undecided_partitioned :
    ∃ w p q r s, Reaches .default 1 false undecided w ∧
      Heedful (startPhase .default false) undecided ∧ w.sheet.draft.SparesMasks ∧
      w.sheet.draft.wave32 = true ∧ Visits w "c" .taken p ∧ Visits w "c" .missed q ∧
      Leaves w [r, s, q] ∧ ∀ o, p.current o &&& q.current o = 0 ∧ ∀ lane < 32,
        [r, s, q].countP (fun leaf => (leaf.current o).getLsbD lane) = 1 := by
  have hplain {steps : List Step} (h : (phaseOf? steps .masked).isSome = true)
      (hparts : (partsOf steps).flatMap Part.names = []) : Heedful .masked steps :=
    heedful_of_heads h (by rw [hparts]; rfl)
  have hundecided : Heedful (startPhase .default false) undecided := heedful_of_heads rfl rfl
  obtain ⟨_, w, hrun, rfl, hspares, ⟨hwave, hlength, hc⟩, hp, hfirst, hq⟩ := Ends.exists_error
    (program .default false undecided) (.start .default 1 {})
    (fun halt w => halt = .unbound "here" ∧ w.sheet.draft.sparing = true ∧
      (w.sheet.draft.wave32 = true ∧ w.sheet.draft.masks.length = 1 ∧
        (w.notes.bound.lookup "c").isSome = true) ∧
      LeftWhere (fun p =>
        (p.sheet.draft.masks.length = 2 ∧ (p.notes.bound.lookup "d").isSome = true) ∧
        LeftWhere (fun r => r.sheet.draft.masks.length = 3)
          (branch "if_else" "d" [assigning, abandoned] (some [])) p ∧
        Ends (branch "if_else" "d" [assigning] (some [])).run p (fun _ _ => True) (fun _ _ => False) ∧
        LeftWhere (fun s => s.sheet.draft.masks.length = 3)
          (branch "if_else" "d" [assigning] (some [assigning, abandoned])) p)
        (branch "if_else" "c" [abandoned] (some [])) w ∧
      Ends (branch "if_else" "c" [deciding] (some [])).run w (fun _ _ => True) (fun _ _ => False) ∧
      LeftWhere (fun q => q.sheet.draft.masks.length = 2)
        (branch "if_else" "c" [deciding] (some [abandoned])) w)
    (by decide +kernel)
  obtain ⟨p, hp, ⟨hpdepth, hd⟩, hr, hfirst', hs⟩ := visits_taken hc (hplain rfl rfl) hp
  obtain ⟨q, hq, hqdepth⟩ := visits_missed hc (hplain rfl rfl) (hplain rfl rfl) hfirst hq
  obtain ⟨r, hr, hrdepth⟩ := visits_taken hd (hplain rfl rfl) hr
  obtain ⟨s, hs, hsdepth⟩ := visits_missed hd (hplain rfl rfl) (hplain rfl rfl) hfirst' hs
  have hreach : Reaches .default 1 false undecided w := .inr ⟨"here", hrun⟩
  have hleaves : Leaves w [r, s, q] :=
    .split hp hq (by rw [hpdepth, hlength]) (by rw [hqdepth, hlength])
      (.split hr hs (by rw [hrdepth, hpdepth]) (by rw [hsdepth, hpdepth]) (.leaf r) (.leaf s))
      (.leaf q)
  refine ⟨w, p, q, r, s, hreach, hundecided, .of_sparing hspares, hwave, hp, hq, hleaves, fun o => ?_⟩
  obtain ⟨-, -, hopposite, -, hcount⟩ :=
    lane_masks_partition hreach hundecided (.of_sparing hspares) hwave o
  exact ⟨hopposite "c" p q hp hq, fun lane hlane => (hcount _ hleaves lane hlane).2 hlength⟩

end Nesting

end Script

end ComputeKernel
