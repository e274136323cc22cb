import ComputeKernel.Proofs.BracketedFunctions

namespace ComputeKernel

inductive Enclosure where
  | loop
  | switch
  | function
  | other
deriving DecidableEq

def Line.enclosure : Line → Enclosure
  | .openFor .. | .openWhile | .openQueryLoop _ => .loop
  | .openSwitch _ => .switch
  | .openFunction .. => .function
  | _ => .other

def Line.enclosedAfter (line : Line) (around : List Enclosure) : Option (List Enclosure) :=
  match line.bracing, around with
  | .flat, around => some around
  | .opens, around => some (line.enclosure :: around)
  | .closes, _ :: around => some around
  | .turns, _ :: around => some (line.enclosure :: around)
  | .closes, [] | .turns, [] => none

def enclosedAfter (around : List Enclosure) (lines : List Line) : Option (List Enclosure) :=
  lines.foldlM (fun around line => line.enclosedAfter around) around

def ownBlocks (around : List Enclosure) : List Enclosure := around.takeWhile (· ≠ .function)

def Line.MayStand (around : List Enclosure) : Line → Prop
  | .breakLoop => (ownBlocks around).find? (· ≠ .other) = some .loop
  | .continueLoop => .loop ∈ ownBlocks around
  | _ => True

def ExitsStand (lines : List Line) : Prop :=
  ∀ before line after, lines = before ++ line :: after →
    ∃ around, enclosedAfter [] before = some around ∧ line.MayStand around

inductive Stands : List Enclosure → List Line → List Enclosure → Prop
  | nil (around : List Enclosure) : Stands around [] around
  | cons {around next last : List Enclosure} {line : Line} {lines : List Line}
    (hline : line.MayStand around) (hnext : line.enclosedAfter around = some next)
    (hlines : Stands next lines last) : Stands around (line :: lines) last

namespace Stands

variable {around last : List Enclosure} {line : Line} {xs ys : List Line}

theorem enclosedAfter (h : Stands around xs last) :
    ComputeKernel.enclosedAfter around xs = some last := by
  induction h with
  | nil _ => rfl
  | cons _ hnext _ ih =>
    simp only [ComputeKernel.enclosedAfter, List.foldlM_cons, hnext] at ih ⊢
    exact ih

theorem mayStand_of_split (h : Stands around (xs ++ line :: ys) last) :
    ∃ mid, ComputeKernel.enclosedAfter around xs = some mid ∧ line.MayStand mid := by
  induction xs generalizing around with
  | nil =>
    cases h with
    | cons hline _ _ => exact ⟨around, rfl, hline⟩
  | cons x xs ih =>
    cases h with
    | cons _ hnext hlines =>
      obtain ⟨mid, hmid, hline⟩ := ih hlines
      refine ⟨mid, ?_, hline⟩
      simp only [ComputeKernel.enclosedAfter, List.foldlM_cons, hnext] at hmid ⊢
      exact hmid

theorem exitsStand (h : Stands [] xs last) : ExitsStand xs := by
  rintro before line after rfl
  exact h.mayStand_of_split

end Stands

variable {around next : List Enclosure} {xs : List Line} {last : List Enclosure} {line : Line}

theorem enclosedAfter_append (h : enclosedAfter around xs = some next) (ys : List Line) :
    enclosedAfter around (xs ++ ys) = enclosedAfter next ys := by
  simp only [enclosedAfter, List.foldlM_append] at h ⊢
  rw [h]
  rfl

theorem enclosedAfter_snoc (h : enclosedAfter around xs = some next) (line : Line) :
    enclosedAfter around (xs ++ [line]) = line.enclosedAfter next := by
  rw [enclosedAfter_append h]
  simp [enclosedAfter]

theorem exists_of_enclosedAfter (h : enclosedAfter around (line :: xs) = some last) :
    ∃ next, line.enclosedAfter around = some next ∧ enclosedAfter next xs = some last :=
  Option.bind_eq_some_iff.mp h

def Line.isExit : Line → Bool
  | .breakLoop | .continueLoop => true
  | _ => false

theorem Line.isExit_eq_false (h : line ≠ .breakLoop ∧ line ≠ .continueLoop) :
    line.isExit = false := by
  cases line <;> first | rfl | exact absurd rfl h.1 | exact absurd rfl h.2

def exitsIn : List Enclosure → List Line → List (Line × List Enclosure)
  | _, [] => []
  | around, line :: lines =>
    (if line.isExit then [(line, around)] else []) ++
      exitsIn ((line.enclosedAfter around).getD []) lines

theorem exitsIn_append (h : enclosedAfter around xs = some next) (ys : List Line) :
    exitsIn around (xs ++ ys) = exitsIn around xs ++ exitsIn next ys := by
  induction xs generalizing around with
  | nil =>
    obtain rfl : around = next := Option.some.inj h
    rfl
  | cons line xs ih =>
    obtain ⟨mid, hmid, hnext⟩ := exists_of_enclosedAfter h
    rw [List.cons_append, exitsIn, exitsIn, hmid, Option.getD_some, ih hnext, List.append_assoc]

theorem exitsIn_eq_nil
    (h : ∀ line ∈ xs, line ≠ .breakLoop ∧ line ≠ .continueLoop) : exitsIn around xs = [] := by
  induction xs generalizing around with
  | nil => rfl
  | cons line xs ih =>
    obtain ⟨hline, hxs⟩ := List.forall_mem_cons.mp h
    simp [exitsIn, Line.isExit_eq_false hline, ih hxs]

theorem Stands.of_exits (h : ComputeKernel.enclosedAfter around xs = some last)
    (hexits : ∀ x ∈ exitsIn around xs, x.1.MayStand x.2) : Stands around xs last := by
  induction xs generalizing around with
  | nil =>
    cases h
    exact .nil _
  | cons line xs ih =>
    obtain ⟨next, hnext, hlast⟩ := exists_of_enclosedAfter h
    rw [exitsIn, hnext, Option.getD_some] at hexits
    obtain ⟨hline, hxs⟩ := List.forall_mem_append.mp hexits
    refine .cons ?_ hnext (ih hlast hxs)
    cases line <;> first | trivial | exact hline _ (List.mem_singleton_self _)

structure Unbroken (lines : List Line) : Prop where
  level : ∀ around, enclosedAfter around lines = some around
  goesOn : ∀ line ∈ lines, line ≠ .breakLoop ∧ line ≠ .continueLoop

namespace Unbroken

variable {line : Line} {xs ys : List Line}

theorem nil : Unbroken [] := ⟨fun _ => rfl, fun _ h => (List.not_mem_nil h).elim⟩

theorem append (h : Unbroken xs) (h' : Unbroken ys) : Unbroken (xs ++ ys) :=
  ⟨fun around => (enclosedAfter_append (h.level around) ys).trans (h'.level around), fun line hline =>
    (List.mem_append.mp hline).elim (h.goesOn line) (h'.goesOn line)⟩

theorem flat (hflat : line.bracing = .flat) (h : line ≠ .breakLoop ∧ line ≠ .continueLoop) :
    Unbroken [line] := by
  refine ⟨fun around => ?_, fun _ hmem => List.mem_singleton.mp hmem ▸ h⟩
  simp [enclosedAfter, Line.enclosedAfter, hflat]

theorem branches (cond : Spelling) (h : Unbroken xs) (h' : Unbroken ys) :
    Unbroken (.openIf cond :: xs ++ .openElse :: ys ++ [.close]) := by
  refine ⟨fun around => ?_, fun line hline => ?_⟩
  · have hif : enclosedAfter around (.openIf cond :: xs) = some (.other :: around) :=
      @enclosedAfter_append _ _ [.openIf cond] rfl xs |>.trans (h.level _)
    have helse : enclosedAfter (.other :: around) (.openElse :: ys) = some (.other :: around) :=
      @enclosedAfter_append _ _ [.openElse] rfl ys |>.trans (h'.level _)
    rw [enclosedAfter_snoc ((enclosedAfter_append hif _).trans helse)]
    rfl
  · simp only [List.mem_append, List.mem_cons, List.not_mem_nil, or_false] at hline
    rcases hline with ((rfl | hx) | (rfl | hy)) | rfl
    · simp
    · exact h.goesOn line hx
    · simp
    · exact h'.goesOn line hy
    · simp

end Unbroken

inductive Layer where
  | branch
  | loop
  | switch
  | query
  | function
deriving DecidableEq

structure Pending where
  blocks : List Enclosure := []
  targets : List BreakTarget := []
  scopes : Nat := 0

def Pending.within : List Layer → Pending
  | [] => {}
  | .branch :: around =>
    ⟨.other :: (within around).blocks, (within around).targets, (within around).scopes + 1⟩
  | .loop :: around =>
    ⟨.loop :: (within around).blocks, .loop :: (within around).targets, (within around).scopes + 1⟩
  | .switch :: around =>
    ⟨.other :: .switch :: (within around).blocks, .switch :: (within around).targets,
      (within around).scopes + 1⟩
  | .query :: around =>
    ⟨.other :: .loop :: (within around).blocks, (within around).targets,
      (within around).scopes + 1 + 1⟩
  | .function :: _ => ⟨[.function], [], 0⟩

structure Exit where
  line : Line
  around : List Layer

namespace Exit

def blocks (x : Exit) : List Enclosure := (Pending.within x.around).blocks

def Accepted (x : Exit) : Prop :=
  x.line = .breakLoop ∧ (Pending.within x.around).targets.head? = some .loop ∨
    x.line = .continueLoop ∧ .loop ∈ (Pending.within x.around).targets

theorem Accepted.mayStand {x : Exit} (h : x.Accepted) : x.line.MayStand x.blocks := by
  obtain ⟨line, around⟩ := x
  rcases h with ⟨rfl, h⟩ | ⟨rfl, h⟩
  · induction around with
    | nil => cases h
    | cons layer around ih =>
      cases layer with
      | branch => simpa [Line.MayStand, ownBlocks, blocks, Pending.within] using ih h
      | loop | query => simp [Line.MayStand, ownBlocks, blocks, Pending.within]
      | switch | function => cases h
  · induction around with
    | nil => cases h
    | cons layer around ih =>
      cases layer with
      | branch => simpa [Line.MayStand, ownBlocks, blocks, Pending.within] using ih h
      | loop | query => simp [Line.MayStand, ownBlocks, blocks, Pending.within]
      | switch =>
        have htail : BreakTarget.loop ∈ _ := (List.mem_cons.mp h).resolve_left (by simp)
        simpa [Line.MayStand, ownBlocks, blocks, Pending.within] using ih htail
      | function => cases h

end Exit

structure Outline (lines : List Line) (last : List Enclosure) (exits : List Exit) : Prop where
  enclosed : enclosedAfter [] lines = some last
  shown : exitsIn [] lines = exits.map fun x => (x.line, x.blocks)
  accepted : ∀ x ∈ exits, x.Accepted

namespace Outline

variable {xs ys : List Line} {mid last : List Enclosure} {exits more : List Exit}

theorem nil : Outline [] [] [] := ⟨rfl, rfl, fun _ h => (List.not_mem_nil h).elim⟩

theorem append (h : Outline xs [] exits) (h' : Outline ys last more) :
    Outline (xs ++ ys) last (exits ++ more) where
  enclosed := (enclosedAfter_append h.enclosed ys).trans h'.enclosed
  shown := by rw [exitsIn_append h.enclosed, h.shown, h'.shown, List.map_append]
  accepted := List.forall_mem_append.mpr ⟨h.accepted, h'.accepted⟩

theorem goOn (h : Outline xs mid exits) (hys : enclosedAfter mid ys = some last)
    (hgoesOn : ∀ line ∈ ys, line ≠ .breakLoop ∧ line ≠ .continueLoop) :
    Outline (xs ++ ys) last exits where
  enclosed := (enclosedAfter_append h.enclosed ys).trans hys
  shown := by rw [exitsIn_append h.enclosed, h.shown, exitsIn_eq_nil hgoesOn, List.append_nil]
  accepted := h.accepted

theorem exit {x : Exit} (h : Outline xs x.blocks exits) (hx : x.Accepted) :
    Outline (xs ++ [x.line]) x.blocks (exits ++ [x]) := by
  have hline : x.line.isExit = true ∧ x.line.enclosedAfter x.blocks = some x.blocks := by
    rcases hx with ⟨hline, -⟩ | ⟨hline, -⟩ <;> rw [hline] <;> exact ⟨rfl, rfl⟩
  refine ⟨?_, ?_, List.forall_mem_append.mpr ⟨h.accepted, fun _ hy => List.mem_singleton.mp hy ▸ hx⟩⟩
  · rw [enclosedAfter_snoc h.enclosed, hline.2]
  · rw [exitsIn_append h.enclosed, h.shown, List.map_append]
    simp [exitsIn, hline.1]

theorem stands (h : Outline xs last exits) : Stands [] xs last := by
  refine .of_exits h.enclosed fun shown hshown => ?_
  rw [h.shown] at hshown
  obtain ⟨x, hx, rfl⟩ := List.mem_map.mp hshown
  exact (h.accepted x hx).mayStand

end Outline

structure Exits where
  page : List Exit := []
  functions : List Exit := []

namespace Exits

instance : Append Exits := ⟨fun e e' => ⟨e.page ++ e'.page, e.functions ++ e'.functions⟩⟩

def ended (e : Exits) : Exits := ⟨[], e.functions ++ e.page⟩

end Exits

namespace Draft

def beyond (d : Draft) : (List Scopes × List (List Line)) × List (List BreakTarget) :=
  (d.enclosing, d.frames.map Frame.targets)

structure Continued (p : Pending) (e : Exits) (d d' : Draft) : Prop where
  targets : d'.targets = p.targets
  beyond : d'.beyond = d.beyond
  functions : ∃ more, d'.functions = d.functions ++ more ∧ Outline more [] e.functions
  onward : d.lines <+: d'.lines
  lines : Outline d'.lines p.blocks e.page

structure Amid (p : Pending) (S : Exits → Prop) (d d' : Draft) : Prop where
  depth : p.scopes ≤ d'.scopes.depth
  text : d'.scopes.depth = p.scopes → ∃ e, S e ∧ d.Continued p e d'

def aside (d : Draft) := (d.targets, d.beyond, d.functions)

structure Plain (d d' : Draft) : Prop where
  aside : d'.aside = d.aside
  depth : d.scopes.depth ≤ d'.scopes.depth
  text : d'.scopes.depth = d.scopes.depth → ∃ more, d'.lines = d.lines ++ more ∧ Unbroken more

def outlook (d : Draft) :=
  (d.aside, d.scopes.depth, d.lines)

section Plain

variable {d d₁ d₂ : Draft} {line : Line}

theorem Plain.of_outlook (h : d₂.outlook = d₁.outlook) : d₁.Plain d₂ := by
  simp only [outlook, Prod.mk.injEq] at h
  obtain ⟨haside, hdepth, hlines⟩ := h
  exact ⟨haside, Nat.le_of_eq hdepth.symm, fun _ => ⟨[], by rw [hlines, List.append_nil], .nil⟩⟩

theorem Plain.refl (d : Draft) : d.Plain d := .of_outlook rfl

theorem Plain.trans (h : d.Plain d₁) (h' : d₁.Plain d₂) : d.Plain d₂ := by
  have hle := h.depth
  have hle' := h'.depth
  refine ⟨h'.aside.trans h.aside, by omega, fun hd => ?_⟩
  obtain ⟨more, hmore, hunbroken⟩ := h.text (by omega)
  obtain ⟨more', hmore', hunbroken'⟩ := h'.text (by omega)
  exact ⟨more ++ more', by rw [hmore', hmore, List.append_assoc], hunbroken.append hunbroken'⟩

theorem Plain.of_open (haside : d₁.aside = d.aside) (h : d.scopes.depth < d₁.scopes.depth) :
    d.Plain d₁ := ⟨haside, Nat.le_of_lt h, fun heq => absurd heq (Nat.ne_of_gt h)⟩

theorem beyond_write (d : Draft) (line : Line) : (d.write line).beyond = d.beyond := by
  have hout := d.outside_write line
  have htargets : (d.write line).frames.map Frame.targets = d.frames.map Frame.targets :=
    congrArg (·.2.2) hout
  have henclosing : (d.write line).enclosing = d.enclosing := congrArg (·.1.1) hout
  rw [beyond, beyond, htargets, henclosing]

theorem aside_write (d : Draft) (line : Line) : (d.write line).aside = d.aside := by
  have hout := d.outside_write line
  have htargets : (d.write line).targets = d.targets := congrArg (·.2.1) hout
  rw [aside, aside, htargets, beyond_write, functions_of_outside hout]

theorem Plain.write (d : Draft) (hflat : line.bracing = .flat)
    (hgoesOn : line ≠ .breakLoop ∧ line ≠ .continueLoop) : d.Plain (d.write line) :=
  ⟨d.aside_write line, Nat.le_of_eq (by rw [scopes_write]), fun _ => ⟨_, d.lines_write line, .flat hflat hgoesOn⟩⟩

theorem Plain.exitScope {condition : Option Expr} (h : (d.enterScope condition).Plain d₁) :
    Ensures Drafting.exitScope d₁ (fun _ d₂ => d.Plain d₂)
      fun d₂ => d₂.aside = d.aside ∧ d.scopes.depth < d₂.scopes.depth := by
  have hdepth : d.scopes.depth + 1 ≤ d₁.scopes.depth := h.depth
  cases hleave : d₁.scopes.leave? with
  | none => exact ensures_error (exitScope_of_bottom hleave) ⟨h.aside, hdepth⟩
  | some scopes =>
    have hopen := Scopes.depth_leave hleave
    refine ensures_ok (exitScope_of_leave hleave) ⟨h.aside, show d.scopes.depth ≤ scopes.depth by omega,
      fun heq => h.text ?_⟩
    have heq : scopes.depth = d.scopes.depth := heq
    show d₁.scopes.depth = d.scopes.depth + 1
    omega

theorem Plain.choose {cond : Spelling} {d₃ : Draft} (h : (d.write (.openIf cond)).Plain d₁)
    (h' : (d₁.write .openElse).Plain d₃) : d.Plain (d₃.write .close) := by
  have hle := h.depth
  have hle' := h'.depth
  rw [scopes_write] at hle hle'
  refine ⟨?_, by rw [scopes_write]; omega, fun heq => ?_⟩
  · rw [aside_write, h'.aside, aside_write, h.aside, aside_write]
  · rw [scopes_write] at heq
    obtain ⟨more, hmore, hunbroken⟩ := h.text (by rw [scopes_write]; omega)
    obtain ⟨more', hmore', hunbroken'⟩ := h'.text (by rw [scopes_write]; omega)
    refine ⟨_, ?_, Unbroken.branches cond hunbroken hunbroken'⟩
    rw [lines_write, hmore', lines_write, hmore, lines_write]
    simp

end Plain

section Steps

variable {p : Pending} {S S' : Exits → Prop} {e : Exits} {d d₁ d₂ : Draft}

theorem Amid.mono (h : d.Amid p S d₁) (hS : ∀ e, S e → S' e) : d.Amid p S' d₁ := by
  refine ⟨h.depth, fun hd => ?_⟩
  obtain ⟨e, he, htext⟩ := h.text hd
  exact ⟨e, hS e he, htext⟩

theorem Amid.exact (h : d.Amid p S d₁) : ∃ e, d.Amid p (· = e) d₁ := by
  by_cases hd : d₁.scopes.depth = p.scopes
  · obtain ⟨e, -, htext⟩ := h.text hd
    exact ⟨e, h.depth, fun _ => ⟨e, rfl, htext⟩⟩
  · exact ⟨{}, h.depth, fun heq => absurd heq hd⟩

theorem Amid.plain (h : d.Amid p S d₁) (h' : d₁.Plain d₂) : d.Amid p S d₂ := by
  have hle := h.depth
  have hle' := h'.depth
  obtain ⟨htargets, hbeyond, hfunctions⟩ : d₂.targets = d₁.targets ∧ d₂.beyond = d₁.beyond ∧
      d₂.functions = d₁.functions := by simpa [aside] using h'.aside
  refine ⟨by omega, fun hd => ?_⟩
  obtain ⟨e, he, htext⟩ := h.text (by omega)
  obtain ⟨more, hmore, hunbroken⟩ := h'.text (by omega)
  refine ⟨e, he, htargets ▸ htext.targets, hbeyond ▸ htext.beyond, hfunctions ▸ htext.functions, ?_, ?_⟩
  · rw [hmore]
    exact htext.onward.trans (List.prefix_append _ _)
  · rw [hmore]
    exact htext.lines.goOn (hunbroken.level _) hunbroken.goesOn

variable {blocks : List Enclosure} {targets : List BreakTarget} {n : Nat} {line : Line}

theorem Amid.written (h : d.Amid ⟨blocks, targets, n⟩ S d₁) (next : List Enclosure)
    (add : List Exit → List Exit)
    (hline : ∀ exits, d₁.targets = targets → Outline d₁.lines blocks exits →
      Outline (d₁.lines ++ [line]) next (add exits)) :
    d.Amid ⟨next, targets, n⟩ (fun e' => ∃ e, S e ∧ e' = { e with page := add e.page })
      (d₁.write line) := by
  have hout := d₁.outside_write line
  have htargets : (d₁.write line).targets = d₁.targets := congrArg (·.2.1) hout
  refine ⟨d₁.scopes_write line ▸ h.depth, fun hd => ?_⟩
  rw [scopes_write] at hd
  obtain ⟨e, he, htext⟩ := h.text hd
  refine ⟨_, ⟨e, he, rfl⟩, htargets.trans htext.targets, (d₁.beyond_write line).trans htext.beyond, ?_,
    ?_, ?_⟩
  · rw [functions_of_outside hout]
    exact htext.functions
  · rw [lines_write]
    exact htext.onward.trans (List.prefix_append _ _)
  · rw [lines_write]
    exact hline e.page htext.targets htext.lines

theorem Amid.write (h : d.Amid ⟨blocks, targets, n⟩ S d₁)
    (hbracing : line.bracing ≠ .flat) (hnext : line.enclosedAfter blocks = some next) :
    d.Amid ⟨next, targets, n⟩ S (d₁.write line) := by
  refine (h.written next id fun exits _ hlines => hlines.goOn ?_ fun _ hmem => ?_).mono
    fun _ ⟨_, he, heq⟩ => heq ▸ he
  · simpa [enclosedAfter] using hnext
  · cases List.mem_singleton.mp hmem
    constructor <;> rintro rfl <;> exact hbracing rfl

theorem Amid.exit {x : Exit} (h : d.Amid (.within x.around) (· = e) d₁)
    (hx : d₁.targets = (Pending.within x.around).targets → x.Accepted) :
    d.Amid (.within x.around) (· = e ++ ⟨[x], []⟩) (d₁.write x.line) := by
  refine (h.written x.blocks (· ++ [x]) fun exits htargets hlines =>
    hlines.exit (hx htargets)).mono ?_
  rintro _ ⟨_, rfl, rfl⟩
  show _ = Exits.mk _ _
  rw [List.append_nil]

theorem Amid.rescope (h : d.Amid ⟨blocks, targets, n⟩ S d₁) {m : Nat} {scopes : Scopes}
    (hdepth : scopes.depth + n = d₁.scopes.depth + m) :
    d.Amid ⟨blocks, targets, m⟩ S { d₁ with scopes } := by
  have hle : n ≤ d₁.scopes.depth := h.depth
  refine ⟨show m ≤ scopes.depth by omega, fun hd => ?_⟩
  have hd : scopes.depth = m := hd
  obtain ⟨e, he, htext⟩ := h.text (show d₁.scopes.depth = n by omega)
  exact ⟨e, he, htext.targets, htext.beyond, htext.functions, htext.onward, htext.lines⟩

theorem Amid.enterScope (h : d.Amid ⟨blocks, targets, n⟩ S d₁) (condition : Option Expr) :
    d.Amid ⟨blocks, targets, n + 1⟩ S (d₁.enterScope condition) := by
  refine h.rescope ?_
  simp only [Scopes.depth, Scopes.enter, ScopeStack.push, List.length_cons]
  omega

theorem Amid.exitScope (h : d.Amid ⟨blocks, targets, n + 1⟩ S d₁) :
    Ensures Drafting.exitScope d₁ (fun _ d₂ => d.Amid ⟨blocks, targets, n⟩ S d₂) fun _ => True := by
  cases hleave : d₁.scopes.leave? with
  | none => exact ensures_error (exitScope_of_bottom hleave) trivial
  | some scopes =>
    refine ensures_ok (exitScope_of_leave hleave) (h.rescope ?_)
    rw [Scopes.depth_leave hleave]
    omega

theorem Amid.retarget (h : d.Amid ⟨blocks, targets, n⟩ S d₁) {all rest : List BreakTarget}
    (hall : d₁.targets = targets → all = rest) :
    d.Amid ⟨blocks, rest, n⟩ S { d₁ with targets := all } := by
  refine ⟨h.depth, fun hd => ?_⟩
  obtain ⟨e, he, htext⟩ := h.text hd
  exact ⟨e, he, hall htext.targets, htext.beyond, htext.functions, htext.onward, htext.lines⟩

theorem Amid.popTarget {target : BreakTarget} (h : d.Amid ⟨blocks, target :: targets, n⟩ S d₁) :
    Ensures Drafting.popTarget d₁ (fun _ d₂ => d.Amid ⟨blocks, targets, n⟩ S d₂) fun _ => True := by
  refine .bind (ensures_get ?_)
  cases htargets : d₁.targets with
  | nil => exact ensures_throw trivial
  | cons first rest =>
    refine .bind (ensures_set (ensures_pure ?_))
    exact h.retarget fun heq => (List.cons.inj (htargets.symm.trans heq)).2

end Steps

def IsDefinition (p : Prototype) (lines : List Line) : Prop :=
  ∃ header inner, p.header = .ok header ∧ lines = .openFunction p header :: (inner ++ [.close]) ∧
    Stands [.function] inner [.function]

structure Completes (p : Prototype) (e : Exits) (d d' : Draft) : Prop where
  scopes : d'.scopes = d.scopes
  targets : d'.targets = d.targets
  beyond : d'.beyond = d.beyond
  lines : d'.lines = d.lines
  functions : ∃ before definition, d'.functions = d.functions ++ (before ++ definition) ∧
    Outline before [] e.functions ∧ Outline definition [] e.page ∧ IsDefinition p definition

theorem Amid.define {p : Pending} {prototype : Prototype} {e e' : Exits} {d d₁ d₂ : Draft}
    (h : d.Amid p (· = e) d₁) (h' : d₁.Completes prototype e' d₂) :
    d.Amid p (· = e ++ e'.ended) d₂ := by
  refine ⟨h'.scopes ▸ h.depth, fun hd => ?_⟩
  obtain ⟨e, rfl, htext⟩ := h.text (h'.scopes ▸ hd)
  obtain ⟨more, hmore, houtline⟩ := htext.functions
  obtain ⟨before, definition, hfunctions, hbefore, hdefinition, -⟩ := h'.functions
  refine ⟨_, rfl, h'.targets.trans htext.targets, h'.beyond.trans htext.beyond,
    ⟨more ++ (before ++ definition), ?_, houtline.append (hbefore.append hdefinition)⟩,
    h'.lines ▸ htext.onward, ?_⟩
  · rw [hfunctions, hmore, List.append_assoc]
  · rw [h'.lines]
    show Outline _ _ (e.page ++ [])
    rw [List.append_nil]
    exact htext.lines

theorem exitFunction_depth (d : Draft) :
    Ensures Drafting.exitFunction d (fun _ _ => d.scopes.depth = 0) fun _ => True :=
  ensures_exitFunction (fun _ _ _ hdepth => hdepth) trivial fun _ _ _ => trivial

section Functions

variable {p : Prototype} {header : String} {S : Exits → Prop} {d d₁ : Draft}

theorem Amid.enterFunction (d : Draft) (p : Prototype) (header : String) :
    (d.enterFunction.write (.openFunction p header)).Amid (.within [.function]) (· = {})
      (d.enterFunction.write (.openFunction p header)) := by
  have hout := d.enterFunction.outside_write (.openFunction p header)
  refine ⟨Nat.zero_le _, fun _ => ⟨{}, rfl, congrArg (·.2.1) hout, rfl, ⟨[], by simp, .nil⟩,
    List.prefix_rfl, ?_⟩⟩
  rw [lines_write]
  exact ⟨rfl, rfl, fun _ h => (List.not_mem_nil h).elim⟩

theorem Amid.exitFunction (hheader : p.header = .ok header)
    (h : (d.enterFunction.write (.openFunction p header)).Amid (.within [.function]) S d₁) :
    Ensures Drafting.exitFunction (d₁.write .close) (fun _ d₂ => ∃ e, S e ∧ d.Completes p e d₂)
      fun _ => True := by
  refine (exitFunction_depth _).result.imp (fun _ d₂ hend => ?_)
  obtain ⟨hrun, hdepth⟩ := hend
  rw [scopes_write] at hdepth
  obtain ⟨e, he, htext⟩ := h.text hdepth
  have hbeyond := htext.beyond.trans (beyond_write _ _)
  obtain ⟨before, hbefore, houtline⟩ := htext.functions
  obtain ⟨inner, hinner⟩ := htext.onward
  rw [lines_write] at hinner
  have hrejoin := exitFunction_rejoins hdepth
    (congrArg Prod.fst hbeyond) (congrArg Prod.snd hbeyond)
  rw [hrejoin] at hrun
  cases hrun
  have hlines : d₁.lines = .openFunction p header :: inner := hinner.symm
  have hstands : Stands [.function] inner [.function] := by
    have hstands := htext.lines.stands
    rw [hlines] at hstands
    obtain _ | ⟨-, ⟨⟩, hstands⟩ := hstands
    exact hstands
  refine ⟨e, he, rfl, rfl, rfl, rfl, before, d₁.lines ++ [.close], ?_, houtline,
    htext.lines.goOn rfl (by simp), header, inner, hheader, by rw [hlines]; rfl, hstands⟩
  have hopened := functions_of_outside (outside_write d.enterFunction (.openFunction p header))
  show d₁.functions ++ (d₁.lines ++ [.close]) = _
  rw [hbefore, hopened]
  exact List.append_assoc ..

end Functions

end Draft

end ComputeKernel
