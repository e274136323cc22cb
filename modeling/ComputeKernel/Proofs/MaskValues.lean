import ComputeKernel.Build.Basic
import ComputeKernel.Proofs.Advance
import ComputeKernel.Proofs.WaveProgram

namespace ComputeKernel

def IsMaskName (x : String) : Prop :=
  ∃ stem ∈ ["m_if", "m_else", "m_loop"], ∃ n : Nat, x = stem ++ "_" ++ toString n

section Names

variable {stem stem' x : String} {n n' : Nat}

theorem head_of_isMaskName (h : IsMaskName x) : x.toList.head? = some 'm' := by
  obtain ⟨stem, hs, n, rfl⟩ := h
  simp only [List.mem_cons, List.not_mem_nil, or_false] at hs
  rcases hs with rfl | rfl | rfl <;> simp

theorem not_isMaskName_temp (id : Nat) : ¬IsMaskName (Spelling.temp id).text := by
  intro h
  have := head_of_isMaskName h
  simp [Spelling.text] at this

theorem maskName_injective (hs : stem ∈ ["m_if", "m_else", "m_loop"])
    (hs' : stem' ∈ ["m_if", "m_else", "m_loop"])
    (h : stem ++ "_" ++ toString n = stem' ++ "_" ++ toString n') : stem = stem' ∧ n = n' := by
  simp only [List.mem_cons, List.not_mem_nil, or_false] at hs hs'
  rcases hs with rfl | rfl | rfl <;> rcases hs' with rfl | rfl | rfl <;>
    first
      | exact ⟨rfl, Spelling.numbered_injective h⟩
      | simp [String.ext_iff] at h

end Names

def Spelling.place? : Spelling → Option String
  | .word x => some x
  | .temp id => some (temp id).text
  | _ => none

namespace Line

def declares : Line → List String
  | .declare _ target _ | .reserve _ target | .array _ target _ _ | .ballot target _ _ _ =>
    target.place?.toList
  | _ => []

def assigns : Line → List String
  | .declare _ _ (.call p args _) | .perform p args _ => p.changed args
  | .assign target _ _ | .readHit target _ _ | .openFor target _ _ => target.root?.toList
  | _ => []

def sets (line : Line) : List String := line.declares ++ line.assigns

def SparesMasks (line : Line) : Prop := ∀ x ∈ line.assigns, ¬IsMaskName x

end Line

theorem Lanes.divided (vote current : Lanes) :
    (vote &&& current) &&& (~~~vote &&& current) = 0 ∧
      (vote &&& current) ||| (~~~vote &&& current) = current := by
  constructor <;> refine ext fun l => ?_ <;>
    simp only [BitVec.getLsbD_and, BitVec.getLsbD_or, BitVec.getLsbD_not, BitVec.ofNat_eq_ofNat,
      BitVec.getLsbD_zero, l.isLt, decide_true, Bool.true_and] <;>
    cases vote.getLsbD l <;> cases current.getLsbD l <;> rfl

structure Votes where
  vote : Nat → Spelling → Lanes
  other : Nat → String → Lanes
  start : String → Lanes

structure LaneState where
  store : String → Lanes
  votes : Nat := 0
  lines : Nat := 0

namespace LaneState

variable (o : Votes)

def value (m : LaneState) : Spelling → Lanes
  | .word x => m.store x
  | .temp id => m.store (Spelling.temp id).text
  | .constant (.u32 [n]) _ => n.toBitVec
  | s => o.other m.lines s.text

def given (m : LaneState) : Line → String → Lanes
  | .declare _ _ (.copy s), _ => m.value o s
  | .ballot _ taken cond current, _ =>
    (if taken then o.vote m.votes cond else ~~~o.vote m.votes cond) &&& m.value o current
  | _, x => o.other m.lines x

def step (m : LaneState) (line : Line) : LaneState where
  store x := if x ∈ line.sets then m.given o line x else m.store x
  votes := match line with
    | .ballot _ false _ _ => m.votes + 1
    | _ => m.votes
  lines := m.lines + 1

def after (lines : List Line) : LaneState := lines.foldl (step o) { store := o.start }

variable {o} {m : LaneState} {line : Line} {lines more : List Line} {x : String} {s : Spelling}

theorem after_append : after o (lines ++ more) = more.foldl (step o) (after o lines) :=
  List.foldl_append ..

theorem after_snoc : after o (lines ++ [line]) = (after o lines).step o line := after_append

theorem store_step (h : x ∉ line.sets) : (m.step o line).store x = m.store x := if_neg h

theorem store_after (h : ∀ line ∈ more, x ∉ line.sets) :
    (after o (lines ++ more)).store x = (after o lines).store x := by
  rw [after_append]
  generalize after o lines = m
  induction more generalizing m with
  | nil => rfl
  | cons line more ih =>
    rw [List.foldl_cons, ih (fun l hl => h l (by simp [hl])), store_step (h line (by simp))]

theorem store_declare (ty : Ty) (x : String) (s : Spelling) :
    (m.step o (.declare ty (.word x) (.copy s))).store x = m.value o s :=
  if_pos (by simp [Line.sets, Line.declares, Spelling.place?])

theorem store_ballot (x : String) (taken : Bool) (cond current : Spelling) :
    (m.step o (.ballot (.word x) taken cond current)).store x =
      (if taken then o.vote m.votes cond else ~~~o.vote m.votes cond) &&& m.value o current :=
  if_pos (by simp [Line.sets, Line.declares, Spelling.place?])

def Direct (s : Spelling) : Prop :=
  (∃ x, s = .word x) ∨ ∃ n text, s = .constant (.u32 [n]) text

theorem value_step (h : Direct s) (hline : ∀ x, s = .word x → x ∉ line.sets) :
    (m.step o line).value o s = m.value o s := by
  rcases h with ⟨x, rfl⟩ | ⟨n, text, rfl⟩
  · exact store_step (hline x rfl)
  · rfl

def ballots (taken missed : String) (cond current : Spelling) : List Line :=
  [.ballot (.word taken) true cond current, .ballot (.word missed) false cond current]

theorem ballots_divide {taken missed : String} {cond current : Spelling} (hne : taken ≠ missed)
    (hd : Direct current) (hcur : current ≠ .word taken) :
    let m' := after o (lines ++ ballots taken missed cond current)
    m'.store taken &&& m'.store missed = 0 ∧
      m'.store taken ||| m'.store missed = (after o lines).value o current := by
  intro m'
  set m := after o lines
  set first := m.step o (.ballot (.word taken) true cond current) with hfirst
  have hm' : m' = first.step o (.ballot (.word missed) false cond current) := after_append
  have hvotes : first.votes = m.votes := rfl
  have hcurrent : first.value o current = m.value o current := by
    refine value_step hd ?_
    rintro x rfl
    simpa [Line.sets, Line.declares, Line.assigns, Spelling.place?] using hcur
  have htaken : m'.store taken = o.vote m.votes cond &&& m.value o current := by
    have hother : taken ∉ (Line.ballot (.word missed) false cond current).sets := by
      simpa [Line.sets, Line.declares, Line.assigns, Spelling.place?] using hne
    rw [hm', store_step hother, hfirst, store_ballot, if_pos rfl]
  have hmissed : m'.store missed = ~~~o.vote m.votes cond &&& m.value o current := by
    rw [hm', store_ballot, if_neg (by decide), hvotes, hcurrent]
  rw [htaken, hmissed]
  exact Lanes.divided _ _

end LaneState

namespace Draft

def everyLine (d : Draft) : List Line := d.functions ++ d.pages.flatten

def SparesMasks (d : Draft) : Prop := ∀ line ∈ d.everyLine, line.SparesMasks

theorem SparesMasks.of_subset {d d' : Draft} (h : d'.SparesMasks)
    (hsub : d.everyLine ⊆ d'.everyLine) : d.SparesMasks := fun line hl => h line (hsub hl)

def sparing (d : Draft) : Bool :=
  d.everyLine.all fun line => line.assigns.all fun x => x.toList.head? != some 'm'

theorem SparesMasks.of_sparing {d : Draft} (h : d.sparing = true) : d.SparesMasks := by
  intro line hline x hx hmask
  simp only [sparing, List.all_eq_true, bne_iff_ne] at h
  exact h line hline x hx (head_of_isMaskName hmask)

end Draft

namespace Workspace

variable {ν : Type}

def laneState (o : Votes) (w : Workspace ν) : LaneState := .after o w.sheet.draft.lines

def laneMask (o : Votes) (w : Workspace ν) (mask : Expr) : Lanes :=
  (w.laneState o).value o (w.sheet.nodes.name mask)

def maskStack (o : Votes) (w : Workspace ν) : List Lanes := w.sheet.draft.masks.map (w.laneMask o)

def current (o : Votes) (w : Workspace ν) : Lanes := (w.maskStack o).head?.getD (BitVec.allOnes 32)

end Workspace

end ComputeKernel
