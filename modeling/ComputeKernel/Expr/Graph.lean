import ComputeKernel.Expr.Nodes

namespace ComputeKernel

structure GraphNode where
  expr : Expr
  label : String

structure GraphEdge where
  source : Nat
  target : Nat
  role : Role
deriving DecidableEq, Repr

structure Graph where
  nodes : List GraphNode

namespace Expr

mutual

def weight : Expr → Nat
  | .literal .. | .resource .. | .input .. | .array .. | .storage .. | .zeroed .. => 1
  | .unary _ _ operand => operand.weight + 1
  | .binary _ _ lhs rhs => lhs.weight + rhs.weight + 1
  | .call _ _ args => weights args + 1
  | .swizzle _ base _ | .field _ base _ | .element _ base _ => base.weight + 1
  | .elementAt _ base index => base.weight + index.weight + 1
  | .select _ cond yes no => cond.weight + yes.weight + no.weight + 1
termination_by structural e => e

def weights : List Expr → Nat
  | [] => 0
  | e :: rest => e.weight + weights rest
termination_by structural es => es

end

theorem weights_append (es fs : List Expr) : weights (es ++ fs) = weights es + weights fs := by
  induction es with
  | nil => simp only [List.nil_append, weights, Nat.zero_add]
  | cons e rest ih => simp only [List.cons_append, weights, ih, Nat.add_assoc]

theorem weights_reverse (es : List Expr) : weights es.reverse = weights es := by
  induction es with
  | nil => rfl
  | cons e rest ih =>
    simp only [List.reverse_cons, weights_append, weights, ih]
    omega

theorem weight_pos (e : Expr) : 0 < e.weight := by
  cases e <;> simp [weight]

def operands (e : Expr) : List Expr := e.children.map Prod.snd

theorem weights_operands_lt (e : Expr) : weights e.operands < e.weight := by
  cases e <;>
    simp only [operands, children, weight, weights, List.map_cons, List.map_nil, List.map_map,
      Function.comp_def, List.map_id'] <;> omega

end Expr

namespace Graph

def visit (stack seen : List Expr) : List Expr :=
  match stack with
  | [] => seen
  | e :: rest =>
    if seen.any (·.id == e.id) then visit rest seen
    else visit (e.operands.reverse ++ rest) (seen ++ [e])
termination_by Expr.weights stack
decreasing_by
  · have := Expr.weight_pos e
    simp only [Expr.weights]
    omega
  · have := Expr.weights_operands_lt e
    simp only [Expr.weights_append, Expr.weights_reverse, Expr.weights]
    omega

def ofRoots (nodes : Nodes) (roots : List Expr) : Graph :=
  ⟨(visit roots.reverse []).map fun e => ⟨e, nodes.label e⟩⟩

def position? (g : Graph) (id : Nat) : Option Nat :=
  g.nodes.findIdx? (·.expr.id == id)

def contains (g : Graph) (id : Nat) : Bool :=
  g.nodes.any (·.expr.id == id)

def edgesFrom (g : Graph) (source : Nat) (e : Expr) : List GraphEdge :=
  e.children.filterMap fun (role, operand) =>
    (g.position? operand.id).map fun target => ⟨source, target, role⟩

def edges (g : Graph) : List GraphEdge :=
  g.nodes.zipIdx.flatMap fun (node, source) => g.edgesFrom source node.expr

def successors (edges : List GraphEdge) (i : Nat) : List Nat :=
  (edges.filter (·.source == i)).map GraphEdge.target

-- A node stays on the stack below its successors, and is finished when it is met again.
def finish (count : Nat) (edges : List GraphEdge) (stack discovered finished : List Nat) :
    List Nat :=
  match stack with
  | [] => finished
  | i :: rest =>
    if i < count ∧ i ∉ discovered then
      let below := (successors edges i).filter (· ∉ i :: discovered)
      finish count edges (below ++ i :: rest) (i :: discovered) finished
    else finish count edges rest discovered (if i ∈ finished then finished else finished ++ [i])
termination_by ((List.range count).countP (· ∉ discovered), stack.length)
decreasing_by
  · rename_i hnew
    refine Prod.Lex.left _ _ ?_
    have hless : (List.range count).filter (· ∉ i :: discovered) =
        ((List.range count).filter (· ∉ discovered)).filter (· ≠ i) := by
      simp [List.filter_filter, not_or]
    rw [List.countP_eq_length_filter, List.countP_eq_length_filter, hless,
      List.length_filter_lt_length_iff_exists]
    exact ⟨i, by simp [hnew], by simp⟩
  · exact Prod.Lex.right _ (Nat.lt_succ_self _)

def toposort (g : Graph) : Option (List Nat) :=
  let edges := g.edges
  let order := finish g.nodes.length edges (List.range g.nodes.length) [] []
  if edges.all fun edge => order.idxOf edge.target < order.idxOf edge.source then
    some order.reverse
  else none

def ordered (g : Graph) : List GraphNode :=
  (g.toposort.getD []).reverse.filterMap fun i => g.nodes[i]?

def orderedExprs (g : Graph) : List Expr := g.ordered.map GraphNode.expr

def evaluationOrder (g : Graph) : List String := g.ordered.map GraphNode.label

def isAcyclic (g : Graph) : Bool := g.toposort.isSome

def escapeLabel (label : String) : String :=
  String.ofList (label.toList.flatMap fun c => if c = '\\' ∨ c = '"' then ['\\', c] else [c])

def dot (g : Graph) : String :=
  "digraph kernel \x7b\n    node [shape=box, fontname=monospace];\n"
    ++ String.join (g.nodes.zipIdx.map fun (node, i) =>
        "    n" ++ toString i ++ " [label=\"" ++ escapeLabel node.label ++ "\"];\n")
    ++ String.join (g.edges.map fun e =>
        "    n" ++ toString e.source ++ " -> n" ++ toString e.target ++ " [label=\""
          ++ e.role.word ++ "\"];\n")
    ++ "\x7d\n"

end Graph

end ComputeKernel
