import ComputeKernel.Draft.Session
import ComputeKernel.Proofs.Divergence

namespace ComputeKernel

variable {dag : Dag}

def Answer.saysDivergent : Answer → Bool
  | .divergence mode => mode == .divergent
  | .uniform isUniform => !isUniform
  | _ => false

inductive Question (dag : Dag) where
  | divergence (e : dag.Node)
  | isUniform (e : dag.Node)

namespace Question

def node : Question dag → Expr
  | .divergence e | .isUniform e => e.1

def ask : Question dag → Diverging Answer
  | .divergence e => return .divergence (← e.1.divergence)
  | .isUniform e => return .uniform ((← e.1.divergence) == .uniform)

theorem contains_node (q : Question dag) : dag.contains q.node := by
  cases q with
  | divergence e | isUniform e => exact e.2

theorem ask_modes (q : Question dag) (modes : IdTable Divergence) :
    (q.ask modes).2 = (q.node.divergence modes).2 := by
  cases q <;> rfl

theorem ask_saysDivergent (q : Question dag) (modes : IdTable Divergence) :
    (q.ask modes).1.saysDivergent = true ↔ (q.node.divergence modes).1 = .divergent := by
  cases q with
  | divergence e => exact beq_iff_eq
  | isUniform e =>
    show (!((e.1.divergence modes).1 == .uniform)) = true ↔ (e.1.divergence modes).1 = .divergent
    cases (e.1.divergence modes).1 <;> decide

theorem ask_tells (q : Question dag) (modes : IdTable Divergence) :
    ((q.ask modes).1.saysDivergent = true ↔ Differs modes q.node) ∧
      SameAnswers dag modes (q.ask modes).2 := by
  obtain ⟨hanswer, hsame⟩ := q.node.divergence_tells q.contains_node modes
  rw [ask_saysDivergent, ask_modes]
  exact ⟨hanswer.trans anyDiffers_singleton, hsame⟩

theorem mapM_ask {first modes : IdTable Divergence} (hsame : SameAnswers dag first modes)
    (asked : List (Question dag)) :
    List.Forall₂ (fun q answer => answer.saysDivergent = true ↔ Differs first q.node) asked
      (asked.mapM ask modes).1 := by
  induction asked generalizing modes with
  | nil =>
    rw [List.mapM_nil]
    exact .nil
  | cons q asked ih =>
    obtain ⟨hanswer, hnext⟩ := q.ask_tells modes
    rw [List.mapM_cons]
    exact .cons (hanswer.trans (hsame _ q.contains_node)) (ih (hsame.trans hnext))

end Question

inductive Inquiry (dag : Dag) where
  | ask (q : Question dag)
  | force (e : dag.Node)

namespace Inquiry

def after (modes : IdTable Divergence) : Inquiry dag → IdTable Divergence
  | .ask q => (q.ask modes).2
  | .force e => (Diverging.force e.1.id modes).2

theorem after_rises (modes : IdTable Divergence) (i : Inquiry dag) :
    Rises dag modes (i.after modes) := by
  cases i with
  | ask q => exact (q.ask_tells modes).2.rises
  | force e => exact rises_force e.1.id

theorem run_rises (modes : IdTable Divergence) (history : List (Inquiry dag)) :
    Rises dag modes (history.foldl after modes) := by
  induction history generalizing modes with
  | nil => exact .refl modes
  | cons i history ih => exact (i.after_rises modes).trans (ih _)

end Inquiry

section Marks

variable {forced : List dag.Node} {modes : IdTable Divergence} {e d : Expr}

def OnlyMarks (forced : List dag.Node) (modes : IdTable Divergence) : Prop :=
  ∀ id, modes.find? id = if id ∈ forced.map (·.1.id) then some .divergent else none

theorem onlyMarks_forM (h : OnlyMarks forced modes) (more : List dag.Node) :
    OnlyMarks (forced ++ more) (more.forM (fun m => Diverging.force m.1.id) modes).2 := by
  induction more generalizing forced modes with
  | nil => rwa [List.append_nil]
  | cons m more ih =>
    have hmark : OnlyMarks (forced ++ [m]) (modes.insert m.1.id .divergent) := by
      intro id
      rw [IdTable.find?_insert, h id]
      by_cases hid : id = m.1.id
      · simp [hid]
      · simp only [hid, List.map_append, List.map_singleton, List.mem_append, List.mem_singleton,
          or_false, if_false]
    rw [List.append_cons]
    exact ih hmark

theorem differs_of_uses (hmodes : OnlyMarks forced modes) (h : e.Uses d) (hd : Differs modes d) :
    Differs modes e := by
  induction h with
  | self => exact hd
  | @operand d c _ hc ih =>
    refine ih ?_
    have hfind := hmodes d.id
    split at hfind
    · exact .marked hfind
    · exact .operand hfind hc hd

theorem differs_iff_reachable (hmodes : OnlyMarks forced modes) (he : dag.contains e) :
    Differs modes e ↔ ∃ d, e.Uses d ∧ (d.isSource = true ∨ ∃ m ∈ forced, m.1 = d) := by
  constructor
  · intro h
    induction h with
    | @marked e hm =>
      rw [hmodes e.id] at hm
      obtain ⟨m, hforced, hid⟩ := List.mem_map.mp (Option.ite_none_right_eq_some.mp hm).1
      exact ⟨e, .self, .inr ⟨m, hforced, dag.numbered m.2 he hid⟩⟩
    | source _ hs => exact ⟨_, .self, .inl hs⟩
    | operand _ hc _ ih =>
      obtain ⟨d, huses, hd⟩ := ih (dag.operands he hc)
      exact ⟨d, huses.of_operand hc, hd⟩
  · rintro ⟨d, huses, hd⟩
    refine differs_of_uses hmodes huses ?_
    have hfind := hmodes d.id
    split at hfind
    · exact .marked hfind
    · rename_i hunmarked
      rcases hd with hs | ⟨m, hforced, rfl⟩
      · exact .source hfind hs
      · exact (hunmarked (List.mem_map_of_mem hforced)).elim

end Marks

/-- A node is divergent when it uses an input, a call of a divergent function or a marked node, and
it is so for good once it was answered so. -/
theorem divergence_is_reachability (dag : Dag) (forced : List dag.Node)
    (asked : List (Question dag)) (earlier later : List (Inquiry dag)) (q q' : Question dag) :
    List.Forall₂ (fun (q : Question dag) answer => answer.saysDivergent = true ↔
        ∃ d, q.node.Uses d ∧ (d.isSource = true ∨ ∃ m ∈ forced, m.1 = d)) asked
      ((do forced.forM fun m => Diverging.force m.1.id; asked.mapM Question.ask :
        Diverging (List Answer)) .empty).1 ∧
    (q'.node = q.node →
      (q.ask (earlier.foldl Inquiry.after .empty)).1.saysDivergent = true →
      (q'.ask ((earlier ++ .ask q :: later).foldl Inquiry.after .empty)).1.saysDivergent = true) := by
  constructor
  · have hnone : OnlyMarks ([] : List dag.Node) .empty := fun _ => rfl
    have hmarks : OnlyMarks forced _ := onlyMarks_forM hnone forced
    refine (Question.mapM_ask (.refl _) asked).imp fun q answer h => ?_
    exact h.trans (differs_iff_reachable hmarks q.contains_node)
  · intro hnode hdivergent
    rw [(q'.ask_tells _).1, hnode, List.foldl_append]
    exact Inquiry.run_rises _ _ _ q.contains_node ((q.ask_tells _).1.mp hdivergent)

namespace Halves

def pair : Expr := .zeroed 1 .u32x2

def low : Expr := .swizzle 2 pair "x"

def high : Expr := .swizzle 3 pair "y"

def total : Expr := .binary 4 .add low high

def graph : Dag :=
  .ofList [pair, low, high, total]
    (by simp [pair, low, high, total]) (by decide)

def node (e : Expr) (h : e ∈ [pair, low, high, total]) : graph.Node := ⟨e, h⟩

theorem total_divergent_for_good :
    let low := node low (by simp)
    let total := node total (by simp)
    let earlier : List (Inquiry graph) := [.ask (.divergence low), .force (node pair (by simp))]
    let later : List (Inquiry graph) := [.ask (.isUniform low), .force low]
    ((Question.divergence low).ask (earlier.foldl Inquiry.after .empty)).1.saysDivergent = false ∧
      ((Question.divergence total).ask (earlier.foldl Inquiry.after .empty)).1.saysDivergent = true ∧
      ((Question.isUniform total).ask ((earlier ++ .ask (.divergence total) :: later).foldl
        Inquiry.after .empty)).1.saysDivergent = true := by
  intro low total earlier later
  refine ⟨by decide +kernel, by decide +kernel, ?_⟩
  exact (divergence_is_reachability graph [] [] earlier later (.divergence total)
    (.isUniform total)).2 rfl (by decide +kernel)

end Halves

end ComputeKernel
