import ComputeKernel.Proofs.Dag
import Mathlib.Logic.Relation

namespace ComputeKernel

variable {dag : Dag}

theorem Dag.mem_of_any_id {e : Expr} {es : List Expr} (he : dag.contains e)
    (hes : ∀ d ∈ es, dag.contains d) (h : es.any (·.id == e.id) = true) : e ∈ es := by
  obtain ⟨d, hd, hid⟩ := List.any_eq_true.mp h
  exact dag.numbered (hes d hd) he (beq_iff_eq.mp hid) ▸ hd

theorem id_notMem_of_not_any {e : Expr} {es : List Expr} (h : ¬es.any (·.id == e.id) = true) :
    e.id ∉ es.map Expr.id := by
  simpa using h

namespace Graph

section Visiting

structure Visiting (dag : Dag) (stack seen : List Expr) : Prop where
  stacked : ∀ e ∈ stack, dag.contains e
  contains : ∀ e ∈ seen, dag.contains e
  distinct : (seen.map Expr.id).Nodup
  pending : ∀ e ∈ seen, ∀ c ∈ e.operands, c ∈ seen ∨ c ∈ stack

variable {e : Expr} {rest stack seen : List Expr}

theorem Visiting.skip (h : Visiting dag (e :: rest) seen) (hv : e ∈ seen) :
    Visiting dag rest seen where
  stacked d hd := h.stacked d (.tail _ hd)
  contains := h.contains
  distinct := h.distinct
  pending d hd c hc := by
    rcases h.pending d hd c hc with hc | hc
    · exact .inl hc
    · rcases List.mem_cons.mp hc with rfl | hc
      · exact .inl hv
      · exact .inr hc

theorem Visiting.take (h : Visiting dag (e :: rest) seen)
    (hv : ¬seen.any (·.id == e.id) = true) :
    Visiting dag (e.operands.reverse ++ rest) (seen ++ [e]) where
  stacked d hd := by
    rcases List.mem_append.mp hd with hd | hd
    · exact dag.operands (h.stacked e (.head _)) (List.mem_reverse.mp hd)
    · exact h.stacked d (.tail _ hd)
  contains d hd := by
    rcases List.mem_append.mp hd with hd | hd
    · exact h.contains d hd
    · exact List.mem_singleton.mp hd ▸ h.stacked e (.head _)
  distinct := by
    rw [List.map_append, List.nodup_append]
    refine ⟨h.distinct, List.nodup_singleton _, fun i hi j hj => ?_⟩
    rw [List.mem_singleton.mp hj]
    exact fun same => id_notMem_of_not_any hv (same ▸ hi)
  pending d hd c hc := by
    simp only [List.mem_append, List.mem_singleton, List.mem_reverse] at hd ⊢
    rcases hd with hd | rfl
    · rcases h.pending d hd c hc with hc | hc
      · exact .inl (.inl hc)
      · exact (List.mem_cons.mp hc).elim (fun hc => .inl (.inr hc)) fun hc => .inr (.inr hc)
    · exact .inr (.inl hc)

theorem Visiting.visit (h : Visiting dag stack seen) :
    Visiting dag [] (visit stack seen) ∧ seen ⊆ visit stack seen ∧ stack ⊆ visit stack seen := by
  fun_induction Graph.visit stack seen with
  | case1 seen => exact ⟨h, fun _ hd => hd, by simp⟩
  | case2 seen e rest hv ih =>
    have hmem := dag.mem_of_any_id (h.stacked e (.head _)) h.contains hv
    obtain ⟨hend, hseen, hrest⟩ := ih (h.skip hmem)
    exact ⟨hend, hseen, List.cons_subset.mpr ⟨hseen hmem, hrest⟩⟩
  | case3 seen e rest hv ih =>
    obtain ⟨hend, hseen, hrest⟩ := ih (h.take hv)
    obtain ⟨hseen, he⟩ := List.append_subset.mp hseen
    exact ⟨hend, hseen, List.cons_subset.mpr ⟨he (.head _), (List.append_subset.mp hrest).2⟩⟩

theorem uses_of_mem_visit {d : Expr} (h : d ∈ visit stack seen) :
    d ∈ seen ∨ ∃ e ∈ stack, e.Uses d := by
  fun_induction visit stack seen with
  | case1 seen => exact .inl h
  | case2 seen e rest hv ih =>
    exact (ih h).imp_right fun ⟨c, hc, hd⟩ => ⟨c, .tail _ hc, hd⟩
  | case3 seen e rest hv ih =>
    rcases ih h with hd | ⟨c, hc, hd⟩
    · rcases List.mem_append.mp hd with hd | hd
      · exact .inl hd
      · exact .inr ⟨e, .head _, List.mem_singleton.mp hd ▸ .self⟩
    · rcases List.mem_append.mp hc with hc | hc
      · exact .inr ⟨e, .head _, .of_operand (List.mem_reverse.mp hc) hd⟩
      · exact .inr ⟨c, .tail _ hc, hd⟩

end Visiting

section Listing

mutual

def orderFrom : Expr → List Expr → List Expr
  | e, listed =>
    if listed.any (·.id == e.id) then listed
    else
      (match e with
        | .literal .. | .resource .. | .input .. | .array .. | .storage .. | .zeroed .. => listed
        | .unary _ _ operand => orderFrom operand listed
        | .binary _ _ lhs rhs => orderFrom rhs (orderFrom lhs listed)
        | .call _ _ args => orderFromAll args listed
        | .swizzle _ base _ | .field _ base _ | .element _ base _ => orderFrom base listed
        | .elementAt _ base index => orderFrom index (orderFrom base listed)
        | .select _ cond yes no => orderFrom no (orderFrom yes (orderFrom cond listed))) ++ [e]
termination_by structural e => e

def orderFromAll : List Expr → List Expr → List Expr
  | [], listed => listed
  | e :: rest, listed => orderFromAll rest (orderFrom e listed)
termination_by structural es => es

end

structure Listing (dag : Dag) (listed : List Expr) : Prop where
  contains : ∀ e ∈ listed, dag.contains e
  distinct : (listed.map Expr.id).Nodup
  before : ∀ {pre e post}, listed = pre ++ e :: post → e.operands ⊆ pre

variable {e : Expr} {listed : List Expr}

theorem listing_nil : Listing dag [] where
  contains _ h := by cases h
  distinct := .nil
  before h := by simp at h

theorem Listing.snoc (h : Listing dag listed) (he : dag.contains e)
    (hid : e.id ∉ listed.map Expr.id) (hops : e.operands ⊆ listed) :
    Listing dag (listed ++ [e]) where
  contains d hd := by
    rcases List.mem_append.mp hd with hd | hd
    · exact h.contains d hd
    · exact List.mem_singleton.mp hd ▸ he
  distinct := by
    rw [List.map_append, List.nodup_append]
    refine ⟨h.distinct, List.nodup_singleton _, fun i hi j hj => ?_⟩
    rw [List.mem_singleton.mp hj]
    exact fun same => hid (same ▸ hi)
  before {pre d post} heq := by
    rcases List.eq_nil_or_concat post with rfl | ⟨post, last, rfl⟩
    · obtain ⟨rfl, hd⟩ := List.append_inj' heq rfl
      obtain rfl : e = d := by simpa using hd
      exact hops
    · rw [List.concat_eq_append, ← List.cons_append, ← List.append_assoc] at heq
      exact h.before (List.append_inj' heq rfl).1

theorem orderFrom_eq (e : Expr) (listed : List Expr) :
    orderFrom e listed =
      if listed.any (·.id == e.id) then listed else orderFromAll e.operands listed ++ [e] := by
  cases e <;> simp [orderFrom, orderFromAll]

theorem orderFrom_of_mem {e : Expr} (h : e ∈ listed) : orderFrom e listed = listed := by
  have hany : listed.any (·.id == e.id) = true :=
    List.any_eq_true.mpr ⟨e, h, beq_self_eq_true _⟩
  rw [orderFrom_eq, if_pos hany]

theorem id_notMem_below {added : List Expr} (he : dag.contains e)
    (hv : ¬listed.any (·.id == e.id) = true)
    (huses : ∀ d ∈ added, ∃ c ∈ e.operands, c.Uses d) :
    e.id ∉ (listed ++ added).map Expr.id := by
  rw [List.map_append, List.mem_append, not_or]
  refine ⟨id_notMem_of_not_any hv, fun hid => ?_⟩
  obtain ⟨d, hd, same⟩ := List.mem_map.mp hid
  obtain ⟨c, hc, hcd⟩ := huses d hd
  exact Dag.id_ne_of_operand_uses he hc hcd same

theorem Listing.orderFromAll {listed : List Expr} (h : Listing dag listed) (es : List Expr)
    (hes : ∀ e ∈ es, dag.contains e) :
    Listing dag (orderFromAll es listed) ∧ es ⊆ orderFromAll es listed ∧
      ∃ added, orderFromAll es listed = listed ++ added ∧ ∀ d ∈ added, ∃ e ∈ es, e.Uses d := by
  match es with
  | [] => exact ⟨h, by simp, [], by simp [Graph.orderFromAll], by simp⟩
  | e :: rest =>
    have he := hes e (.head _)
    -- The node itself, with its operands first.
    have hfirst : Listing dag (orderFrom e listed) ∧ e ∈ orderFrom e listed ∧
        ∃ added, orderFrom e listed = listed ++ added ∧ ∀ d ∈ added, e.Uses d := by
      rw [orderFrom_eq]
      split
      · rename_i hv
        exact ⟨h, dag.mem_of_any_id he h.contains hv, [], by simp, by simp⟩
      · rename_i hv
        obtain ⟨hlist, hops, added, heq, huses⟩ :=
          h.orderFromAll e.operands fun d hd => dag.operands he hd
        refine ⟨hlist.snoc he (heq ▸ id_notMem_below he hv huses) hops, by simp, added ++ [e],
          by simp [heq], fun d hd => ?_⟩
        rcases List.mem_append.mp hd with hd | hd
        · obtain ⟨c, hc, hcd⟩ := huses d hd
          exact .of_operand hc hcd
        · exact List.mem_singleton.mp hd ▸ .self
    obtain ⟨hone, hmem, added, heq, huses⟩ := hfirst
    obtain ⟨hall, hrest, more, hmore, hmoreUses⟩ :=
      hone.orderFromAll rest fun d hd => hes d (.tail _ hd)
    rw [Graph.orderFromAll]
    refine ⟨hall, List.cons_subset.mpr ⟨?_, hrest⟩, added ++ more, by rw [hmore, heq,
      List.append_assoc], fun d hd => ?_⟩
    · exact hmore ▸ List.mem_append_left _ hmem
    · rcases List.mem_append.mp hd with hd | hd
      · exact ⟨e, .head _, huses d hd⟩
      · obtain ⟨c, hc, hcd⟩ := hmoreUses d hd
        exact ⟨c, .tail _ hc, hcd⟩
termination_by Expr.weights es
decreasing_by
  · have := Expr.weights_operands_lt e
    simp only [Expr.weights]
    omega
  · have := Expr.weight_pos e
    simp only [Expr.weights]
    omega

theorem Listing.orderFrom (h : Listing dag listed) (he : dag.contains e) :
    Listing dag (orderFrom e listed) :=
  (h.orderFromAll [e] (by simpa using he)).1

end Listing

section Positions

def exprs (g : Graph) : List Expr := g.nodes.map GraphNode.expr

def exprAt (g : Graph) (i : Nat) : Option Expr := (g.nodes[i]?).map GraphNode.expr

def Joins (g : Graph) (i j : Nat) : Prop := ∃ edge ∈ g.edges, edge.source = i ∧ edge.target = j

variable {nodes : Nodes} {roots : List Expr}

theorem exprs_ofRoots : (ofRoots nodes roots).exprs = visit roots.reverse [] := by
  simp [exprs, ofRoots, Function.comp_def]

theorem visiting_ofRoots (nodes : Nodes) (hr : ∀ r ∈ roots, dag.contains r) :
    Visiting dag [] (ofRoots nodes roots).exprs ∧ roots ⊆ (ofRoots nodes roots).exprs := by
  have hstart : Visiting dag roots.reverse [] :=
    ⟨fun e he => hr e (List.mem_reverse.mp he), by simp, .nil, by simp⟩
  obtain ⟨hend, -, hroots⟩ := hstart.visit
  rw [exprs_ofRoots]
  exact ⟨hend, fun r hr => hroots (List.mem_reverse.mpr hr)⟩

theorem Visiting.operands_subset {es : List Expr} (h : Visiting dag [] es) :
    ∀ e ∈ es, e.operands ⊆ es := fun e he c hc =>
  (h.pending e he c hc).elim (fun hc => hc) fun hc => by cases hc

theorem mem_exprs_iff (hr : ∀ r ∈ roots, dag.contains r) {d : Expr} :
    d ∈ (ofRoots nodes roots).exprs ↔ ∃ r ∈ roots, r.Uses d := by
  obtain ⟨hend, hroots⟩ := visiting_ofRoots nodes hr
  constructor
  · intro hd
    rw [exprs_ofRoots] at hd
    rcases uses_of_mem_visit hd with hd | ⟨r, hr, hd⟩
    · cases hd
    · exact ⟨r, List.mem_reverse.mp hr, hd⟩
  · rintro ⟨r, hr, hd⟩
    exact hd.mem hend.operands_subset (hroots hr)

variable {g : Graph}

theorem Visiting.position? (h : Visiting dag [] g.exprs) {e : Expr} (he : e ∈ g.exprs) :
    ∃ i, g.position? e.id = some i ∧ g.exprAt i = some e := by
  obtain ⟨node, hnode, rfl⟩ := List.mem_map.mp he
  have hsome : (g.position? node.expr.id).isSome = true := by
    rw [Graph.position?, List.findIdx?_isSome]
    exact List.any_eq_true.mpr ⟨node, hnode, beq_self_eq_true _⟩
  obtain ⟨i, hi⟩ := Option.isSome_iff_exists.mp hsome
  obtain ⟨hlt, hid, -⟩ := List.findIdx?_eq_some_iff_getElem.mp hi
  refine ⟨i, hi, ?_⟩
  have hat : g.nodes[i].expr ∈ g.exprs := List.mem_map_of_mem (List.getElem_mem hlt)
  rw [exprAt, List.getElem?_eq_getElem hlt, Option.map_some]
  exact congrArg some
    (dag.numbered (h.contains _ hat) (h.contains _ he) (beq_iff_eq.mp hid))

theorem Visiting.edgesFrom (h : Visiting dag [] g.exprs) {e : Expr} (he : e ∈ g.exprs) (i : Nat) :
    (g.edgesFrom i e).map (fun edge => (edge.source, edge.role, g.exprAt edge.target)) =
      e.children.map fun (role, c) => (i, role, some c) := by
  have heach (p : Role × Expr) (hp : p ∈ e.children) :
      ((g.position? p.2.id).map fun target => (⟨i, target, p.1⟩ : GraphEdge)).map
        (fun edge => (edge.source, edge.role, g.exprAt edge.target)) = some (i, p.1, some p.2) := by
    have hc : p.2 ∈ g.exprs := h.operands_subset e he (List.mem_map_of_mem hp)
    obtain ⟨j, hj, hat⟩ := h.position? hc
    simp [hj, hat]
  rw [Graph.edgesFrom, List.map_filterMap, ← List.filterMap_eq_map]
  exact List.filterMap_congr heach

theorem Visiting.edges (h : Visiting dag [] g.exprs) :
    g.edges.map (fun edge => (g.exprAt edge.source, edge.role, g.exprAt edge.target)) =
      g.exprs.flatMap fun e => e.children.map fun (role, c) => (some e, role, some c) := by
  have heach (p : GraphNode × Nat) (hp : p ∈ g.nodes.zipIdx) :
      (g.edgesFrom p.2 p.1.expr).map
          (fun edge => (g.exprAt edge.source, edge.role, g.exprAt edge.target)) =
        p.1.expr.children.map fun (role, c) => (some p.1.expr, role, some c) := by
    have hat := List.mem_zipIdx_iff_getElem?.mp hp
    have he : p.1.expr ∈ g.exprs := List.mem_map_of_mem (List.mem_of_getElem? hat)
    have hsource : g.exprAt p.2 = some p.1.expr := by simp [exprAt, hat]
    have := congrArg (List.map fun (i, role, c) => (g.exprAt i, role, c)) (h.edgesFrom he p.2)
    simpa [Function.comp_def, hsource] using this
  rw [Graph.edges, List.map_flatMap, exprs, List.flatMap_map]
  conv => rhs; rw [← List.zipIdx_map_fst 0 g.nodes, List.flatMap_map]
  exact List.flatMap_congr heach

theorem Visiting.joins (h : Visiting dag [] g.exprs) {i j : Nat} (hij : g.Joins i j) :
    ∃ e c, g.exprAt i = some e ∧ g.exprAt j = some c ∧ c ∈ e.operands := by
  obtain ⟨edge, hedge, rfl, rfl⟩ := hij
  have hmem := List.mem_map_of_mem
    (f := fun edge => (g.exprAt edge.source, edge.role, g.exprAt edge.target)) hedge
  rw [h.edges] at hmem
  obtain ⟨e, -, hmem⟩ := List.mem_flatMap.mp hmem
  obtain ⟨⟨role, c⟩, hc, heq⟩ := List.mem_map.mp hmem
  simp only [Prod.mk.injEq] at heq
  exact ⟨e, c, heq.1.symm, heq.2.2.symm, List.mem_map_of_mem hc⟩

-- Along edges nodes get lighter.
theorem Visiting.acyclic (h : Visiting dag [] g.exprs) (i : Nat) : ¬Relation.TransGen g.Joins i i := by
  have hlight {i j : Nat} (hij : Relation.TransGen g.Joins i j) :
      ∃ e c, g.exprAt i = some e ∧ g.exprAt j = some c ∧ c.weight < e.weight := by
    induction hij with
    | single hij =>
      obtain ⟨e, c, he, hc, hmem⟩ := h.joins hij
      exact ⟨e, c, he, hc, Expr.weight_lt_of_mem_operands hmem⟩
    | tail _ hjk ih =>
      obtain ⟨e, c, he, hc, hlt⟩ := ih
      obtain ⟨c', d, hc', hd, hmem⟩ := h.joins hjk
      obtain rfl : c = c' := Option.some.inj (hc.symm.trans hc')
      exact ⟨e, d, he, hd, Nat.lt_trans (Expr.weight_lt_of_mem_operands hmem) hlt⟩
  intro hii
  obtain ⟨e, c, he, hc, hlt⟩ := hlight hii
  rw [Option.some.inj (he.symm.trans hc)] at hlt
  exact Nat.lt_irrefl _ hlt

end Positions

section Search

variable {g : Graph}

theorem source_of_mem_edgesFrom {i : Nat} {e : Expr} {edge : GraphEdge}
    (h : edge ∈ g.edgesFrom i e) : edge.source = i := by
  obtain ⟨p, -, hp⟩ := List.mem_filterMap.mp h
  obtain ⟨target, -, rfl⟩ := Option.map_eq_some_iff.mp hp
  rfl

theorem filter_edges (g : Graph) (i : Nat) :
    g.edges.filter (·.source == i) = ((g.exprAt i).map (g.edgesFrom i)).getD [] := by
  have hone (e : Expr) (k : Nat) : (g.edgesFrom k e).filter (·.source == i) =
      if k = i then g.edgesFrom i e else [] := by
    split
    · rename_i same
      subst same
      exact List.filter_eq_self.mpr fun edge h => beq_iff_eq.mpr (source_of_mem_edgesFrom h)
    · rename_i other
      exact List.filter_eq_nil_iff.mpr fun edge h same =>
        other ((source_of_mem_edgesFrom h).symm.trans (beq_iff_eq.mp same))
  have hall (ns : List GraphNode) (k : Nat) :
      ((ns.zipIdx k).flatMap fun p => (g.edgesFrom p.2 p.1.expr).filter (·.source == i)) =
        if k ≤ i then ((ns[i - k]?).map fun node => g.edgesFrom i node.expr).getD [] else [] := by
    induction ns generalizing k with
    | nil => simp
    | cons node rest ih =>
      rw [List.zipIdx_cons, List.flatMap_cons, ih]
      dsimp only
      rw [hone]
      rcases Nat.lt_trichotomy k i with hlt | rfl | hgt
      · obtain ⟨m, rfl⟩ := Nat.exists_eq_add_of_lt hlt
        have hnext : k + m + 1 - k = m + 1 := by omega
        have hrest : k + m + 1 - (k + 1) = m := by omega
        simp [hnext, hrest, show ¬k = k + m + 1 by omega, show k ≤ k + m + 1 by omega]
      · simp [show ¬k + 1 ≤ k by omega]
      · simp [show ¬k = i by omega, show ¬k + 1 ≤ i by omega, show ¬k ≤ i by omega]
  rw [edges, List.filter_flatMap, hall, if_pos (Nat.zero_le _), Nat.sub_zero, exprAt, Option.map_map]
  rfl

theorem mem_exprs {i : Nat} {e : Expr} (he : g.exprAt i = some e) : e ∈ g.exprs := by
  obtain ⟨node, hnode, rfl⟩ := Option.map_eq_some_iff.mp he
  exact List.mem_map_of_mem (List.mem_of_getElem? hnode)

theorem Visiting.successors (h : Visiting dag [] g.exprs) {i : Nat} {e : Expr}
    (he : g.exprAt i = some e) : (successors g.edges i).map g.exprAt = e.operands.map some := by
  have := congrArg (List.map fun p : Nat × Role × Option Expr => p.2.2)
    (h.edgesFrom (mem_exprs he) i)
  simpa [Graph.successors, filter_edges, he, Expr.operands, Function.comp_def] using this

theorem Visiting.exprAt_inj (h : Visiting dag [] g.exprs) {i j : Nat} {e : Expr}
    (hi : g.exprAt i = some e) (hj : g.exprAt j = some e) : i = j := by
  have hnodup : g.exprs.Nodup := List.Nodup.of_map _ h.distinct
  have hat (k : Nat) : g.exprs[k]? = g.exprAt k := List.getElem?_map
  have hlt : i < g.exprs.length := by
    rw [← hat] at hi
    exact (List.getElem?_eq_some_iff.mp hi).1
  exact (List.getElem?_inj hlt hnodup).mp ((hat i).trans (hi.trans (hj.symm.trans (hat j).symm)))

/-- What a search has done when `listed` are its finished nodes, in order. -/
structure Searched (g : Graph) (discovered finished : List Nat) (listed : List Expr) : Prop where
  subset : finished ⊆ discovered
  listed : finished.map g.exprAt = listed.map some

def Waiting (discovered finished : List Nat) (i : Nat) : Prop := i ∈ discovered ∧ i ∉ finished

variable {discovered finished : List Nat} {listed : List Expr}

theorem Visiting.mem_iff (hv : Visiting dag [] g.exprs)
    (h : finished.map g.exprAt = listed.map some) {i : Nat} {e : Expr}
    (he : g.exprAt i = some e) : i ∈ finished ↔ e ∈ listed := by
  constructor
  · intro hi
    have := List.mem_map_of_mem (f := g.exprAt) hi
    rw [h, he] at this
    simpa using this
  · intro hmem
    have := List.mem_map_of_mem (f := some) hmem
    rw [← h] at this
    obtain ⟨j, hj, hat⟩ := List.mem_map.mp this
    exact hv.exprAt_inj he hat ▸ hj

theorem lt_count {i : Nat} {e : Expr} (he : g.exprAt i = some e) : i < g.nodes.length := by
  obtain ⟨node, hnode, -⟩ := Option.map_eq_some_iff.mp he
  exact (List.getElem?_eq_some_iff.mp hnode).1

/-- The nodes still waiting are heavier than every node to be visited, so a discovered one of those is
finished.  `known` are the nodes that were discovered when the list was put on the stack. -/
theorem Searched.finish (hv : Visiting dag [] g.exprs) (es : List Expr) (is rest known : List Nat)
    (discovered finished : List Nat) (listed : List Expr) (hat : is.map g.exprAt = es.map some)
    (hl : Listing dag listed) (h : Searched g discovered finished listed)
    (hknown : known ⊆ discovered)
    (hheavy : ∀ i, Waiting discovered finished i →
      ∃ d, g.exprAt i = some d ∧ ∀ e ∈ es, e.weight < d.weight) :
    ∃ discovered' finished',
      Graph.finish g.nodes.length g.edges (is.filter (· ∉ known) ++ rest) discovered finished =
        Graph.finish g.nodes.length g.edges rest discovered' finished' ∧
      Searched g discovered' finished' (orderFromAll es listed) ∧ discovered ⊆ discovered' ∧
      ∀ i, Waiting discovered' finished' i ↔ Waiting discovered finished i := by
  match is, es with
  | [], [] => exact ⟨discovered, finished, rfl, h, fun _ hi => hi, fun _ => Iff.rfl⟩
  | [], e :: es => simp at hat
  | i :: is, [] => simp at hat
  | i :: is, e :: es =>
    simp only [List.map_cons, List.cons.injEq] at hat
    obtain ⟨hi, his⟩ := hat
    have hin := hv.contains e (mem_exprs hi)
    by_cases hdisc : i ∈ discovered
    · have hfin : i ∈ finished := by
        by_contra hnot
        obtain ⟨d, hd, hlt⟩ := hheavy i ⟨hdisc, hnot⟩
        have hself := hlt e (.head _)
        rw [Option.some.inj (hi.symm.trans hd)] at hself
        exact Nat.lt_irrefl _ hself
      have hskip : Graph.finish g.nodes.length g.edges
          ((i :: is).filter (· ∉ known) ++ rest) discovered finished =
          Graph.finish g.nodes.length g.edges (is.filter (· ∉ known) ++ rest) discovered finished := by
        by_cases hk : i ∈ known
        · simp [hk]
        · rw [List.filter_cons_of_pos (by simpa using hk), List.cons_append, Graph.finish,
            if_neg (by simp [hdisc]), if_pos hfin]
      obtain ⟨D, F, heq, hend⟩ := Searched.finish hv es is rest known discovered finished listed his
        hl h hknown fun j hj => (hheavy j hj).imp fun d hd => ⟨hd.1, fun c hc => hd.2 c (.tail _ hc)⟩
      rw [orderFromAll, orderFrom_of_mem ((hv.mem_iff h.listed hi).mp hfin)]
      exact ⟨D, F, hskip.trans heq, hend⟩
    · have hlisted : e ∉ listed := fun hin => hdisc (h.subset ((hv.mem_iff h.listed hi).mpr hin))
      have hids : ¬listed.any (·.id == e.id) = true := fun hany =>
        hlisted (dag.mem_of_any_id hin hl.contains hany)
      have hk : i ∉ known := fun hk => hdisc (hknown hk)
      -- The operands, with the node itself waiting below them.
      obtain ⟨D, F, heq, hend, hsub, hwait⟩ := Searched.finish hv e.operands
        (Graph.successors g.edges i) (i :: (is.filter (· ∉ known) ++ rest)) (i :: discovered)
        (i :: discovered) finished listed (hv.successors hi) hl
        ⟨fun j hj => .tail _ (h.subset hj), h.listed⟩ (fun _ hj => hj) (by
          rintro j ⟨hj, hnot⟩
          rcases List.mem_cons.mp hj with rfl | hj
          · exact ⟨e, hi, fun c hc => Expr.weight_lt_of_mem_operands hc⟩
          · obtain ⟨d, hd, hlt⟩ := hheavy j ⟨hj, hnot⟩
            exact ⟨d, hd, fun c hc =>
              Nat.lt_trans (Expr.weight_lt_of_mem_operands hc) (hlt e (.head _))⟩)
      have hself : Waiting D F i :=
        (hwait i).mpr ⟨.head _, fun hfin => hdisc (h.subset hfin)⟩
      have hexpand : Graph.finish g.nodes.length g.edges
          ((i :: is).filter (· ∉ known) ++ rest) discovered finished =
          Graph.finish g.nodes.length g.edges (is.filter (· ∉ known) ++ rest) D (F ++ [i]) := by
        rw [List.filter_cons_of_pos (by simpa using hk), List.cons_append, Graph.finish,
          if_pos ⟨lt_count hi, hdisc⟩]
        refine heq.trans ?_
        rw [Graph.finish, if_neg (by simp [hself.1]), if_neg hself.2]
      have hfrom : orderFrom e listed = orderFromAll e.operands listed ++ [e] := by
        rw [orderFrom_eq, if_neg hids]
      have hone : Searched g D (F ++ [i]) (orderFrom e listed) := by
        refine ⟨List.append_subset.mpr ⟨hend.subset, by simpa using hself.1⟩, ?_⟩
        rw [hfrom, List.map_append, List.map_append, hend.listed]
        simp [hi]
      have hback (j : Nat) : Waiting D (F ++ [i]) j ↔ Waiting discovered finished j := by
        have := hwait j
        simp only [Waiting, List.mem_append, List.mem_cons] at this ⊢
        grind
      obtain ⟨D', F', heq', hend', hsub', hwait'⟩ := Searched.finish hv es is rest known D (F ++ [i])
        (orderFrom e listed) his (hl.orderFrom hin) hone
        (fun j hj => hsub (.tail _ (hknown hj))) fun j hj =>
          (hheavy j ((hback j).mp hj)).imp fun d hd => ⟨hd.1, fun c hc => hd.2 c (.tail _ hc)⟩
      rw [orderFromAll]
      exact ⟨D', F', hexpand.trans heq', hend', fun j hj => hsub' (hsub (.tail _ hj)),
        fun j => (hwait' j).trans (hback j)⟩
termination_by Expr.weights es
decreasing_by
  all_goals
    have := Expr.weights_operands_lt e
    have := Expr.weight_pos e
    simp only [Expr.weights]
    omega

theorem Visiting.finish (hv : Visiting dag [] g.exprs) :
    (Graph.finish g.nodes.length g.edges (List.range g.nodes.length) [] []).map g.exprAt =
      (orderFromAll g.exprs []).map some := by
  have hrange : (List.range g.nodes.length).map g.exprAt = g.exprs.map some := by
    refine List.ext_getElem (by simp [exprs]) fun i hi _ => ?_
    have hlt : i < g.nodes.length := by simpa using hi
    simp [exprAt, exprs, hlt]
  obtain ⟨D, F, heq, hend, -⟩ := Searched.finish hv g.exprs (List.range g.nodes.length) [] [] [] [] []
    hrange listing_nil ⟨fun _ hi => hi, rfl⟩ (fun _ hi => hi) fun i hi => by cases hi.1
  rw [List.filter_eq_self.mpr (by simp), List.append_nil] at heq
  rw [heq, Graph.finish]
  exact hend.listed

theorem Visiting.toposort (hv : Visiting dag [] g.exprs) :
    ∃ order, g.toposort = some order ∧
      order.reverse.map g.exprAt = (orderFromAll g.exprs []).map some := by
  obtain ⟨hlist, hall, -⟩ := listing_nil.orderFromAll g.exprs hv.contains
  have hfin := hv.finish
  rw [Graph.toposort]
  generalize Graph.finish g.nodes.length g.edges (List.range g.nodes.length) [] [] = order at hfin ⊢
  have hnodup : order.Nodup := by
    refine List.Nodup.of_map g.exprAt ?_
    rw [hfin]
    exact (List.Nodup.of_map _ hlist.distinct).map fun _ _ same => Option.some.inj same
  have hedges : ∀ edge ∈ g.edges, order.idxOf edge.target < order.idxOf edge.source := by
    intro edge hedge
    obtain ⟨e, c, he, hc, hmem⟩ := hv.joins ⟨edge, hedge, rfl, rfl⟩
    have hsource : edge.source ∈ order := (hv.mem_iff hfin he).mpr (hall (mem_exprs he))
    obtain ⟨pre, post, rfl⟩ := List.append_of_mem hsource
    rw [List.map_append, List.map_cons] at hfin
    obtain ⟨before, after, heq, hpre, hafter⟩ := List.map_eq_append_iff.mp hfin.symm
    obtain ⟨d, after, rfl, hd, -⟩ := List.map_eq_cons_iff.mp hafter
    obtain rfl : d = e := Option.some.inj (hd.trans he)
    have htarget : edge.target ∈ pre := (hv.mem_iff hpre.symm hc).mpr (hlist.before heq hmem)
    have hnot : edge.source ∉ pre := fun hin =>
      (List.nodup_append.mp hnodup).2.2 _ hin _ (.head _) rfl
    rw [List.idxOf_append_of_mem htarget, List.idxOf_append_of_notMem hnot]
    exact Nat.lt_of_lt_of_le (List.idxOf_lt_length_of_mem htarget) (Nat.le_add_right _ _)
  refine ⟨order.reverse, if_pos (List.all_eq_true.mpr fun edge hedge => ?_), ?_⟩
  · exact decide_eq_true (hedges edge hedge)
  · rw [List.reverse_reverse]
    exact hfin

end Search

section Order

variable {g : Graph}

theorem Visiting.orderedExprs (h : Visiting dag [] g.exprs) :
    g.orderedExprs = orderFromAll g.exprs [] := by
  obtain ⟨order, hsome, heq⟩ := h.toposort
  have hat := congrArg (List.filterMap fun e => e) heq
  rw [List.filterMap_map, List.filterMap_map] at hat
  rw [Graph.orderedExprs, ordered, hsome, List.map_filterMap]
  simpa [Function.comp_def, exprAt] using hat

theorem Visiting.ordered (h : Visiting dag [] g.exprs) :
    Listing dag g.orderedExprs ∧ g.orderedExprs.Perm g.exprs := by
  rw [h.orderedExprs]
  obtain ⟨hlist, hall, added, heq, huses⟩ := listing_nil.orderFromAll g.exprs h.contains
  refine ⟨hlist, (List.perm_ext_iff_of_nodup (List.Nodup.of_map _ hlist.distinct)
    (List.Nodup.of_map _ h.distinct)).mpr fun d => ⟨fun hd => ?_, fun hd => hall hd⟩⟩
  rw [heq, List.nil_append] at hd
  obtain ⟨e, he, hed⟩ := huses d hd
  exact hed.mem h.operands_subset he

theorem Visiting.isAcyclic (h : Visiting dag [] g.exprs) : g.isAcyclic = true := by
  obtain ⟨order, hsome, -⟩ := h.toposort
  rw [Graph.isAcyclic, hsome, Option.isSome_some]

theorem evaluationOrder_ofRoots (nodes : Nodes) (roots : List Expr) :
    (ofRoots nodes roots).evaluationOrder = (ofRoots nodes roots).orderedExprs.map nodes.label := by
  rw [evaluationOrder, orderedExprs, List.map_map]
  refine List.map_congr_left fun node hnode => ?_
  obtain ⟨i, -, hi⟩ := List.mem_filterMap.mp hnode
  obtain ⟨e, -, rfl⟩ := List.mem_map.mp (List.mem_of_getElem? hi)
  rfl

end Order

end Graph

theorem graph_of_reachable_nodes (dag : Dag) (nodes : Nodes) (roots : List dag.Node) :
    let g := Graph.ofRoots nodes (roots.map Subtype.val)
    let reachable (d : Expr) := ∃ r ∈ roots, r.1.Uses d
    (g.exprs.Nodup ∧ ∀ d, d ∈ g.exprs ↔ reachable d) ∧
    g.edges.map (fun edge => (g.exprAt edge.source, edge.role, g.exprAt edge.target)) =
      g.exprs.flatMap (fun e => e.children.map fun (role, c) => (some e, role, some c)) ∧
    ((∀ i, ¬Relation.TransGen g.Joins i i) ∧ g.isAcyclic = true) ∧
    (∀ id, g.contains id = true ↔ ∃ d, reachable d ∧ d.id = id) ∧
    g.orderedExprs.Perm g.exprs ∧
    (∀ pre e post, g.orderedExprs = pre ++ e :: post → ∀ c ∈ e.operands, c ∈ pre) ∧
    g.evaluationOrder = g.orderedExprs.map nodes.label := by
  intro g reachable
  have hr : ∀ r ∈ roots.map Subtype.val, dag.contains r := by
    intro r hr
    obtain ⟨node, -, rfl⟩ := List.mem_map.mp hr
    exact node.2
  have hmem (d : Expr) : d ∈ g.exprs ↔ reachable d := by
    rw [Graph.mem_exprs_iff hr]
    simp [reachable]
  have h := (Graph.visiting_ofRoots nodes hr).1
  obtain ⟨hlist, hperm⟩ := h.ordered
  refine ⟨⟨List.Nodup.of_map _ h.distinct, hmem⟩, h.edges, ⟨h.acyclic, h.isAcyclic⟩, fun id => ?_,
    hperm, fun pre e post heq => hlist.before heq, ?_⟩
  · have hcontains : g.contains id = g.exprs.any (·.id == id) := by
      simp [Graph.contains, Graph.exprs, List.any_map, Function.comp_def]
    rw [hcontains, List.any_eq_true]
    simp [hmem]
  · exact Graph.evaluationOrder_ofRoots nodes _

end ComputeKernel
