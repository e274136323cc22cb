import ComputeKernel.Proofs.DisciplinedEmission

namespace ComputeKernel

def braceDepth (cs : List Char) : Int := cs.count '\x7b' - cs.count '\x7d'

def NeverBelow (cs : List Char) : Prop := ∀ start, start <+: cs → 0 ≤ braceDepth start

def bracingOf (c : Char) : Bracing :=
  if c = '\x7b' then .opens else if c = '\x7d' then .closes else .flat

def scan (n : Nat) (cs : List Char) : Option Nat :=
  cs.foldlM (fun n c => (bracingOf c).after n) n

def bracesAfter (n : Nat) (s : String) : Option Nat := scan n s.toList

section Counting

variable {n m : Nat} {c : Char} {cs : List Char}

theorem braceDepth_append (xs ys : List Char) :
    braceDepth (xs ++ ys) = braceDepth xs + braceDepth ys := by
  simp only [braceDepth, List.count_append]
  omega

theorem braceDepth_of_after (h : (bracingOf c).after n = some m) : (m : Int) = n + braceDepth [c] := by
  unfold bracingOf at h
  split at h
  · cases h
    subst c
    rfl
  · split at h
    · subst c
      cases n with
      | zero => cases h
      | succ n =>
        cases h
        have hclose : braceDepth ['\x7d'] = -1 := rfl
        omega
    · cases h
      have hflat : braceDepth [c] = 0 := by simp [braceDepth, *]
      omega

theorem braceDepth_of_scan (h : scan n cs = some m) : (m : Int) = n + braceDepth cs := by
  induction cs generalizing n with
  | nil =>
    cases h
    rfl
  | cons c cs ih =>
    obtain ⟨k, hk, hrest⟩ := Option.bind_eq_some_iff.mp
      (show ((bracingOf c).after n).bind (scan · cs) = some m from h)
    have hstep := braceDepth_of_after hk
    have htail := ih hrest
    have hsplit := braceDepth_append [c] cs
    rw [List.singleton_append] at hsplit
    omega

theorem scan_append (n : Nat) (xs ys : List Char) :
    scan n (xs ++ ys) = (scan n xs).bind (scan · ys) := by
  simp only [scan, List.foldlM_append]
  rfl

theorem neverBelow_of_scan (h : scan 0 cs = some m) : NeverBelow cs := by
  rintro start ⟨rest, rfl⟩
  rw [scan_append] at h
  obtain ⟨k, hk, -⟩ := Option.bind_eq_some_iff.mp h
  have := braceDepth_of_scan hk
  omega

theorem Bracing.after_add (b : Bracing) (h : b.after n = some m) (k : Nat) :
    b.after (n + k) = some (m + k) := by
  cases b with
  | flat =>
    cases h
    rfl
  | opens =>
    cases h
    simp only [after, Option.some.injEq]
    omega
  | closes | turns =>
    cases n with
    | zero => cases h
    | succ n =>
      cases h
      rw [Nat.succ_add]
      rfl

theorem scan_add (h : scan n cs = some m) (k : Nat) : scan (n + k) cs = some (m + k) := by
  induction cs generalizing n with
  | nil =>
    cases h
    rfl
  | cons c cs ih =>
    obtain ⟨j, hj, hrest⟩ := Option.bind_eq_some_iff.mp
      (show ((bracingOf c).after n).bind (scan · cs) = some m from h)
    change ((bracingOf c).after (n + k)).bind (scan · cs) = some (m + k)
    rw [Bracing.after_add _ hj, Option.bind_some]
    exact ih hrest

end Counting

section Texts

variable {n : Nat} {s t : String}

theorem bracesAfter_ofList (n : Nat) (cs : List Char) : bracesAfter n (.ofList cs) = scan n cs := by
  rw [bracesAfter, String.toList_ofList]

theorem bracesAfter_append (n : Nat) (s t : String) :
    bracesAfter n (s ++ t) = (bracesAfter n s).bind (bracesAfter · t) := by
  simp only [bracesAfter, String.toList_append, scan_append]

theorem scan_plain {cs : List Char} (h : ∀ c ∈ cs, c ≠ '\x7b' ∧ c ≠ '\x7d') (n : Nat) :
    scan n cs = some n := by
  induction cs with
  | nil => rfl
  | cons c cs ih =>
    obtain ⟨⟨hopen, hclose⟩, hrest⟩ := List.forall_mem_cons.mp h
    change ((bracingOf c).after n).bind (scan · cs) = some n
    rw [bracingOf, if_neg hopen, if_neg hclose]
    exact ih hrest

theorem braceFree_ofList {cs : List Char}
    (h : cs.all (fun c => c != '\x7b' && c != '\x7d') = true) : BraceFree (.ofList cs) := by
  intro c hc
  rw [String.toList_ofList] at hc
  simpa using List.all_eq_true.mp h c hc

theorem braceFree_append_iff : BraceFree (s ++ t) ↔ BraceFree s ∧ BraceFree t := by
  simp only [BraceFree, String.toList_append, List.forall_mem_append]

end Texts

def Reads (s : String) (b : Bracing) : Prop := ∀ n, bracesAfter n s = b.after n

namespace Reads

variable {s t : String} {b : Bracing}

theorem ofList {cs : List Char} (h : ∀ n, scan n cs = b.after n) : Reads (.ofList cs) b :=
  fun n => (bracesAfter_ofList n cs).trans (h n)

theorem plain (h : BraceFree s) : Reads s .flat := scan_plain h

theorem after_plain (hs : BraceFree s) (ht : Reads t b) : Reads (s ++ t) b := by
  intro n
  rw [bracesAfter_append, plain hs n]
  exact ht n

theorem opens_closes (hs : Reads s .opens) (ht : Reads t .closes) : Reads (s ++ t) .flat := by
  intro n
  rw [bracesAfter_append, hs n]
  exact ht (n + 1)

theorem closes_opens (hs : Reads s .closes) (ht : Reads t .opens) : Reads (s ++ t) .turns := by
  intro n
  rw [bracesAfter_append, hs n]
  cases n with
  | zero => rfl
  | succ n => exact ht n

theorem flat_append (hs : Reads s .flat) (ht : Reads t b) : Reads (s ++ t) b := by
  intro n
  rw [bracesAfter_append, hs n]
  exact ht n

theorem append_flat (hs : Reads s b) (ht : Reads t .flat) : Reads (s ++ t) b := by
  intro n
  rw [bracesAfter_append, hs n]
  cases h : b.after n with
  | none => rfl
  | some m => exact ht m

end Reads

section Lines

variable {line : Line} {lines : List Line}

theorem braceFree_hitText {hit query : String} (hh : BraceFree hit) (hq : BraceFree query)
    (stage : HitStage) : BraceFree (Line.hitText hit query stage) := by
  have hword : BraceFree stage.word := by cases stage <;> exact braceFree_ofList (by decide)
  have hdistance : BraceFree stage.distance := by cases stage <;> exact braceFree_ofList (by decide)
  unfold Line.hitText
  simp only [braceFree_append_iff]
  and_intros
  all_goals first | with_reducible assumption | exact braceFree_ofList (by decide)

theorem reads_arrayText {elem : Ty} {target : Spelling} (length : UInt32) {init : List String}
    (he : BraceFree elem.name) (ht : BraceFree target.text) (hi : ∀ s ∈ init, BraceFree s) :
    Reads (Line.arrayText elem target length init) .flat := by
  have hhead : BraceFree (elem.name ++ " " ++ target.text ++ "[" ++ toString length.toNat ++ "]") := by
    have hlength := braceFree_nat length.toNat
    simp only [braceFree_append_iff]
    and_intros
    all_goals first | with_reducible assumption | exact braceFree_ofList (by decide)
  refine .after_plain hhead ?_
  split
  · exact .plain (braceFree_ofList (by decide))
  · have hjoin : BraceFree (String.join (init.map (· ++ ",\n"))) := by
      refine Vocabulary.braceFree.join fun s hs => ?_
      obtain ⟨text, htext, rfl⟩ := List.mem_map.mp hs
      exact braceFree_append (hi text htext) (braceFree_ofList (by decide))
    exact .opens_closes (.append_flat (.ofList fun _ => rfl) (.plain hjoin)) (.ofList fun n => by
      cases n <;> rfl)

theorem reads_text (h : line.Within .braceFree) : Reads line.text line.bracing := by
  have hparts : ∀ part ∈ line.parts, BraceFree part := h
  cases line
  all_goals
    simp only [Line.parts, List.mem_cons, List.not_mem_nil, or_false, forall_eq_or_imp, forall_eq,
      false_implies, implies_true] at hparts
  case array elem target length init =>
    exact reads_arrayText length hparts.1 hparts.2.1 fun s hs => hparts.2.2 s hs
  case readHit hit query stage => exact .plain (braceFree_hitText hparts.1 hparts.2 stage)
  case perform callee args text =>
    exact .plain (braceFree_append hparts (braceFree_ofList (by decide)))
  case verbatim text => exact .plain hparts
  case breakLoop | continueLoop | returnVoid | barrier =>
    exact .plain (braceFree_ofList (by decide))
  case openElse | close | closeCase => exact .ofList fun n => by cases n <;> rfl
  case openWhile => exact .ofList fun _ => rfl
  case openFunction callee header => exact .after_plain hparts (.ofList fun _ => rfl)
  case openElseMask mask =>
    exact .closes_opens (.append_flat (.ofList fun n => by cases n <;> rfl) (.plain hparts))
      (.ofList fun _ => rfl)
  case commit cond query =>
    refine .opens_closes (.append_flat (.after_plain (braceFree_append ?_ hparts.1)
      (.ofList fun _ => rfl)) (.plain hparts.2)) (.ofList fun n => by cases n <;> rfl)
    exact braceFree_ofList (by decide)
  -- the words of the other lines, up to the brace that they may end with
  case' declare ty target value =>
    refine .plain (show BraceFree
      (ty.name ++ " " ++ target.text ++ " = " ++ value.text ty ++ ";\n") from ?_)
  case' reserve ty target =>
    refine .plain (show BraceFree (ty.name ++ " " ++ target.text ++ ";\n") from ?_)
  case' assign target op value =>
    have hop := op.symbol_plain
    refine .plain (show BraceFree
      (target.text ++ " " ++ op.symbol ++ " " ++ value.text ++ ";\n") from ?_)
  case' ballot mask taken cond current =>
    have htaken : BraceFree (if taken then "" else "~") := by
      cases taken <;> exact braceFree_ofList (by decide)
    refine .plain (show BraceFree (mask.text ++ " = (" ++ (if taken then "" else "~")
      ++ "WaveActiveBallot(" ++ cond.text ++ ").x) & " ++ current.text ++ ";\n") from ?_)
  case' returnValue value =>
    refine .plain (show BraceFree ("return " ++ value.text ++ ";\n") from ?_)
  case' declareQuery query =>
    refine .plain (show BraceFree ("RayQuery<RAY_FLAG_NONE> " ++ query ++ ";\n") from ?_)
  case' trace query scene ray =>
    refine .plain (show BraceFree (query ++ ".TraceRayInline(" ++ scene.text
      ++ ", RAY_FLAG_NONE, 0xffu, " ++ ray.text ++ ");\n") from ?_)
  case' openIf cond =>
    refine .after_plain (show BraceFree ("if (" ++ cond.text) from ?_) (.ofList fun _ => rfl)
  case' openMask mask =>
    refine .after_plain (show BraceFree ("if (" ++ mask.text) from ?_) (.ofList fun _ => rfl)
  case' openFor counter first last =>
    refine .after_plain (show BraceFree ("for (" ++ counter.text ++ " = " ++ first.text ++ "; "
      ++ counter.text ++ " <= " ++ last.text ++ "; " ++ counter.text) from ?_) (.ofList fun _ => rfl)
  case' openSwitch value =>
    refine .after_plain (show BraceFree ("switch (" ++ value.text) from ?_) (.ofList fun _ => rfl)
  case' openCase label =>
    have hlabel := braceFree_nat label.toNat
    refine .after_plain (show BraceFree ("case " ++ toString label.toNat) from ?_)
      (.ofList fun _ => rfl)
  case' openQueryLoop query =>
    refine .after_plain (show BraceFree ("while (" ++ query) from ?_) (.ofList fun _ => rfl)
  case' openCandidate query =>
    refine .after_plain (show BraceFree ("if (" ++ query) from ?_) (.ofList fun _ => rfl)
  case' openCommitted query =>
    refine .after_plain (show BraceFree ("if (" ++ query) from ?_) (.ofList fun _ => rfl)
  all_goals
    simp only [braceFree_append_iff, hparts, true_and, and_true]
    and_intros
    all_goals first | with_reducible assumption | exact braceFree_ofList (by decide)

theorem bracesAfter_join (n : Nat) (texts : List String) :
    bracesAfter n (String.join texts) = texts.foldlM bracesAfter n := by
  induction texts generalizing n with
  | nil => rfl
  | cons text texts ih =>
    rw [String.join_cons, bracesAfter_append, List.foldlM_cons]
    exact congrArg _ (funext ih)

theorem bracesAfter_textOf (h : ∀ line ∈ lines, line.Within .braceFree) (n : Nat) :
    bracesAfter n (Line.textOf lines) = depthAfter n lines := by
  rw [Line.textOf, bracesAfter_join]
  induction lines generalizing n with
  | nil => rfl
  | cons line lines ih =>
    obtain ⟨hline, hrest⟩ := List.forall_mem_cons.mp h
    rw [List.map_cons, List.foldlM_cons, reads_text hline, depthAfter, List.foldlM_cons]
    exact congrArg _ (funext fun m => ih hrest m)

end Lines

end ComputeKernel
