import ComputeKernel.Proofs.PlainTyping

namespace ComputeKernel

variable {dag : Dag}

def reply {ε σ α : Type} : EStateM.Result ε σ α → Except ε α
  | .ok a _ => .ok a
  | .error fault _ => .error fault

inductive TypeRequest (dag : Dag) where
  | infer (e : dag.Node)
  | swizzle (base : dag.Node) (lanes : String)

namespace TypeRequest

def after (n : Nodes) : TypeRequest dag → Nodes
  | .infer e => final (Making.typing e.1.inferType n)
  | .swizzle base lanes => final (Making.swizzle base.1 lanes n)

def afterAll (first : Nat) (requests : List (TypeRequest dag)) : Nodes :=
  requests.foldl after (.start first)

end TypeRequest

variable {e : Expr} {n : Nodes}

theorem faithful_typing (he : dag.contains e) (h : dag.Faithful n.types) : Ensures
    (Making.typing e.inferType) n (fun _ n' => dag.Faithful n'.types) fun n' => dag.Faithful
    n'.types := by
  have hrun := e.inferType_answers he n.types h
  unfold Ensures Making.typing
  cases hx : e.inferType n.types with
  | ok ty types | error fault types =>
    rw [hx] at hrun
    exact hrun.2

theorem reply_typing (he : dag.contains e) (h : dag.Faithful n.types) :
    reply (Making.typing e.inferType n) = e.plainType := by
  have hrun := e.inferType_answers he n.types h
  unfold Making.typing
  cases hx : e.inferType n.types with
  | ok ty types | error fault types =>
    rw [hx] at hrun
    exact hrun.1.symm

-- A selection that is refused has still asked for the type of the whole.
theorem faithful_swizzle {base : Expr} (hb : dag.contains base) (h : dag.Faithful n.types)
    (lanes : String) : Ensures (Making.swizzle base lanes) n (fun _ n' => dag.Faithful n'.types) fun
    n' => dag.Faithful n'.types := by
  refine .bind ((faithful_typing hb h).imp fun ty n' h' => ?_)
  refine ensures_ite (fun _ => .bind (ensures_throw h')) fun _ => ?_
  refine .bind (ensures_orFault (fun _ _ => ?_) fun _ _ => h')
  exact h'

namespace TypeRequest

theorem faithful_after {n : Nodes} (h : dag.Faithful n.types) (request : TypeRequest dag) :
    dag.Faithful (after n request).types := by
  cases request with
  | infer e => exact Ensures.final (p := fun n : Nodes => dag.Faithful n.types) (faithful_typing e.2 h)
  | swizzle base lanes =>
    exact Ensures.final (p := fun n : Nodes => dag.Faithful n.types) (faithful_swizzle base.2 h lanes)

theorem faithful_afterAll (first : Nat) (requests : List (TypeRequest dag)) :
    dag.Faithful (afterAll first requests).types := by
  have hstart : dag.Faithful (Nodes.start first).types := nofun
  exact List.foldlRecOn requests after (motive := fun n => dag.Faithful n.types) hstart
    fun _ h request _ => faithful_after h request

end TypeRequest

theorem types_independent_of_history (dag : Dag) (first : Nat) (earlier later : List (TypeRequest dag))
    (request : TypeRequest dag) (e : dag.Node) :
    reply (Making.typing e.1.inferType (TypeRequest.afterAll first (earlier ++ later))) =
        e.1.plainType ∧
      reply (Making.typing e.1.inferType
          (TypeRequest.afterAll first (earlier ++ request :: later))) =
        reply (Making.typing e.1.inferType (TypeRequest.afterAll first (earlier ++ later))) := by
  have hplain (requests : List (TypeRequest dag)) :
      reply (Making.typing e.1.inferType (TypeRequest.afterAll first requests)) = e.1.plainType :=
    reply_typing e.2 (TypeRequest.faithful_afterAll first requests)
  exact ⟨hplain _, (hplain _).trans (hplain _).symm⟩

end ComputeKernel
