import ComputeKernel.Proofs.Memoisation
import ComputeKernel.Proofs.ReachableGraph

namespace ComputeKernel

def Event.written? : Event → Option Nat
  | .completed id true => some id
  | _ => none

def Expr.isSelect : Expr → Bool
  | .select .. => true
  | _ => false

structure Unwritten (dag : Dag) (base : List Nat) (e : Expr) : Prop where
  contains : dag.contains e
  selectFree : ∀ d, e.Uses d → d.isSelect = false
  new : ∀ d, e.Uses d → d.id ∉ base

structure Recorded (base : List Nat) (listed : List Expr) (r : Record) : Prop where
  visible : r.scopes.visible = (listed.map Expr.id).reverse ++ base
  written : r.log.filterMap Event.written? = (listed.map Expr.id).reverse

variable {dag : Dag} {base : List Nat} {listed : List Expr} {r : Record} {e d : Expr}

theorem Unwritten.operand (h : Unwritten dag base e) (hd : d ∈ e.operands) :
    Unwritten dag base d where
  contains := dag.operands h.contains hd
  selectFree c hc := h.selectFree c (hc.of_operand hd)
  new c hc := h.new c (hc.of_operand hd)

theorem Quiet.recorded {α : Type} {x : Emit α} (hx : Quiet x) (h : Recorded base listed r) :
    Ensures (Logged.lift x) r (fun _ => Recorded base listed) fun _ => True := by
  refine ensures_lift ((hx r.sheet).mono (fun _ sheet hs => ?_) fun _ _ => trivial)
  have hscopes : sheet.draft.scopes = r.sheet.draft.scopes := (List.cons.inj hs).1
  exact ⟨(congrArg Scopes.visible hscopes).trans h.visible, h.written⟩

theorem recorded_once {body : Ty → Logged Unit} (he : Unwritten dag base e)
    (hl : Graph.Listing dag listed) (h : Recorded base listed r)
    (hbody : ∀ ty r', Recorded base listed r' → Ensures (body ty) r'
      (fun _ => Recorded base (Graph.orderFromAll e.operands listed)) fun _ => True) :
    Ensures (Logged.once e body) r (fun _ => Recorded base (Graph.orderFrom e listed))
      fun _ => True := by
  have hvisible : r.sheet.draft.scopes.isVisible e.id = listed.any (·.id == e.id) := by
    have hbase := he.new e .self
    have := h.visible
    rw [Record.scopes] at this
    rw [Bool.eq_iff_iff, Scopes.isVisible_iff, this]
    simp [hbase]
  rw [Graph.orderFrom_eq, ← hvisible]
  by_cases hv : r.sheet.draft.scopes.isVisible e.id = true
  · rw [if_pos hv]
    exact Ensures.of_eq (Logged.once_of_visible hv) ⟨h.visible, h.written⟩
  · rw [if_neg hv]
    refine Ensures.of_eq (Logged.once_of_hidden hv) ?_
    refine .bind ((Quiet.recorded (keeps_typing _) h).imp fun ty r' h' => ?_)
    refine .bind ((hbody ty r' h').imp fun _ r'' h'' => ?_)
    obtain ⟨-, -, added, heq, huses⟩ :=
      hl.orderFromAll e.operands fun d hd => (he.operand hd).contains
    have hid : e.id ∉ (Graph.orderFromAll e.operands listed).map Expr.id :=
      heq ▸ Graph.id_notMem_below he.contains (hvisible ▸ hv) huses
    have hnew : ¬r''.sheet.draft.scopes.isVisible e.id = true := by
      have hvis : r''.sheet.draft.scopes.visible = _ := h''.visible
      rw [Scopes.isVisible_iff, hvis, List.mem_append, List.mem_reverse]
      exact not_or.mpr ⟨hid, he.new e .self⟩
    refine .bind (ensures_lift (ensures_redraft (ensures_log ⟨?_, ?_⟩)))
    · simpa [Record.scopes, Draft.mark, Scopes.mark, hnew] using h''.visible
    · simpa [Event.written?] using h''.written

namespace Expr

open Logged

mutual

theorem emitLogged_recorded (e : Expr) (he : Unwritten dag base e) (listed : List Expr)
    (hl : Graph.Listing dag listed) (r : Record) (h : Recorded base listed r) :
    Ensures e.emitLogged r (fun _ => Recorded base (Graph.orderFrom e listed)) fun _ => True := by
  have ops {d : Expr} (hd : d ∈ e.operands) : Unwritten dag base d := he.operand hd
  unfold emitLogged
  cases e with
  | literal id value =>
    refine recorded_once he hl h fun _ r1 h1 => Quiet.recorded ?_ h1
    exact .bind (keeps_orFault _) fun _ => quiet_rename _ _
  | unary id op operand =>
    have ho := ops (d := operand) (by simp)
    refine recorded_once he hl h fun _ r1 h1 => ?_
    refine .bind ((emitLogged_recorded operand ho listed hl r1 h1).imp fun _ r2 h2 => ?_)
    refine Quiet.recorded ?_ h2
    exact .bind (quiet_nameOf _) fun _ => .bind (quiet_nameOf _) fun _ => quiet_write _
  | binary id op lhs rhs =>
    have hleft := ops (d := lhs) (by simp)
    have hright := ops (d := rhs) (by simp)
    refine recorded_once he hl h fun _ r1 h1 => ?_
    refine .bind ((emitLogged_recorded lhs hleft listed hl r1 h1).imp fun _ r2 h2 => ?_)
    refine .bind ((emitLogged_recorded rhs hright _ (hl.orderFrom hleft.contains) r2 h2).imp
      fun _ r3 h3 => ?_)
    refine Quiet.recorded ?_ h3
    refine .bind (quiet_nameOf _) fun _ => .bind (quiet_nameOf _) fun _ =>
      keeps_ite (.bind (quiet_write _) fun _ => .bind (quiet_rename _ _) fun _ => ?_)
        (.bind (quiet_nameOf _) fun _ => quiet_write _)
    exact keeps_noteWrite _
  | call id callee args =>
    refine recorded_once he hl h fun _ r1 h1 => ?_
    rw [operands_call]
    refine .bind ((emitArgsLogged_recorded args (fun d hd => ops (by rwa [operands_call])) listed
      hl r1 h1).imp fun given r2 h2 => ?_)
    refine Quiet.recorded ?_ h2
    exact .bind (keeps_orFault _) fun _ => keeps_ite (quiet_write _)
      (.bind (quiet_nameOf _) fun _ => quiet_write _)
  | resource id res =>
    refine recorded_once he hl h fun _ r1 h1 => Quiet.recorded ?_ h1
    refine .bind (keeps_drafting ?_) fun _ => quiet_rename _ _
    exact keeps_registerResource (fun _ _ _ => rfl) (fun _ _ => rfl) res
  | input id i =>
    exact recorded_once he hl h fun _ r1 h1 => Quiet.recorded (quiet_rename _ _) h1
  | array id elem length init =>
    refine recorded_once he hl h fun _ r1 h1 => Quiet.recorded ?_ h1
    exact .bind (quiet_register _) fun _ => .bind (keeps_orFault _) fun _ =>
      .bind (quiet_nameOf _) fun _ => quiet_write _
  | swizzle _ base _ | field _ base _ | element _ base _ =>
    have hb := ops (d := base) (by simp)
    refine recorded_once he hl h fun _ r1 h1 => ?_
    refine .bind ((emitLogged_recorded base hb listed hl r1 h1).imp fun _ r2 h2 => ?_)
    exact Quiet.recorded (.bind (quiet_nameOf _) fun _ => quiet_rename _ _) h2
  | elementAt id base index =>
    have hb := ops (d := base) (by simp)
    have hi := ops (d := index) (by simp)
    refine recorded_once he hl h fun _ r1 h1 => ?_
    refine .bind ((emitLogged_recorded base hb listed hl r1 h1).imp fun _ r2 h2 => ?_)
    refine .bind ((emitLogged_recorded index hi _ (hl.orderFrom hb.contains) r2 h2).imp
      fun _ r3 h3 => ?_)
    exact Quiet.recorded (.bind (quiet_nameOf _) fun _ => .bind (quiet_nameOf _) fun _ =>
      quiet_rename _ _) h3
  | storage id name ty =>
    exact recorded_once he hl h fun _ r1 h1 => Quiet.recorded (quiet_register _) h1
  | zeroed id ty =>
    refine recorded_once he hl h fun _ r1 h1 => Quiet.recorded ?_ h1
    exact .bind (quiet_register _) fun _ => .bind (quiet_nameOf _) fun _ => quiet_write _
  | select id cond yes no => cases he.selectFree _ .self

theorem emitArgsLogged_recorded (es : List Expr) (hes : ∀ e ∈ es, Unwritten dag base e)
    (listed : List Expr) (hl : Graph.Listing dag listed) (r : Record) (h : Recorded base listed r) :
    Ensures (emitArgsLogged es) r (fun _ => Recorded base (Graph.orderFromAll es listed))
      fun _ => True := by
  cases es with
  | nil => exact h
  | cons e rest =>
    rw [emitArgsLogged]
    have he := hes e (by simp)
    refine .bind ((emitLogged_recorded e he listed hl r h).imp fun _ r1 h1 => ?_)
    refine .bind ((Quiet.recorded (quiet_nameOf e) h1).imp fun _ r2 h2 => ?_)
    refine .bind ((Quiet.recorded (keeps_typing _) h2).imp fun _ r3 h3 => ?_)
    exact .bind ((emitArgsLogged_recorded rest (fun d hd => hes d (by simp [hd])) _
      (hl.orderFrom he.contains) r3 h3).imp fun _ _ h4 => h4)

end

end Expr

namespace Graph

theorem exists_visit_eq (stack seen : List Expr) : ∃ more, visit stack seen = seen ++ more := by
  fun_induction visit stack seen with
  | case1 seen => exact ⟨[], by simp⟩
  | case2 seen e rest hv ih => exact ih
  | case3 seen e rest hv ih =>
    obtain ⟨more, hmore⟩ := ih
    exact ⟨e :: more, by simp [hmore]⟩

theorem orderFromAll_of_subset {es : List Expr} (h : es ⊆ listed) :
    orderFromAll es listed = listed := by
  induction es with
  | nil => rfl
  | cons e rest ih =>
    obtain ⟨he, hrest⟩ := List.cons_subset.mp h
    rw [orderFromAll, orderFrom_of_mem he]
    exact ih hrest

theorem Listing.operands_subset (h : Listing dag listed) : ∀ e ∈ listed, e.operands ⊆ listed := by
  intro e he c hc
  obtain ⟨pre, post, rfl⟩ := List.append_of_mem he
  exact List.mem_append_left _ (h.before rfl hc)

theorem orderedExprs_root (nodes : Nodes) (he : dag.contains e) :
    (ofRoots nodes [e]).orderedExprs = orderFrom e [] := by
  have hroots : ∀ r ∈ [e], dag.contains r := by simpa using he
  obtain ⟨more, hmore⟩ := exists_visit_eq (e.operands.reverse ++ []) ([] ++ [e])
  have hexprs : (ofRoots nodes [e]).exprs = e :: more := by
    rw [exprs_ofRoots, List.reverse_singleton, visit]
    simpa using hmore
  have hnil : Listing dag [] := listing_nil
  obtain ⟨hlist, hmem, -⟩ := hnil.orderFromAll [e] hroots
  have hbelow : more ⊆ orderFrom e [] := by
    intro d hd
    obtain ⟨r, hr, hrd⟩ := (mem_exprs_iff hroots).mp (hexprs ▸ List.mem_cons_of_mem e hd)
    rw [List.mem_singleton.mp hr] at hrd
    exact hrd.mem hlist.operands_subset (hmem (.head _))
  rw [(visiting_ofRoots nodes hroots).1.orderedExprs, hexprs, orderFromAll, orderFromAll_of_subset hbelow]

end Graph

theorem emission_follows_graph_order (dag : Dag) (e : dag.Node) (nodes : Nodes) (s s' : Sheet)
    (selectFree : ∀ d, e.1.Uses d → d.isSelect = false)
    (new : ∀ d, e.1.Uses d → d.id ∉ s.draft.scopes.visible)
    (h : e.1.emit s = .ok () s') :
    let g := Graph.ofRoots nodes [e.1]
    let order := g.orderedExprs
    (∃ positions, g.toposort = some positions ∧
      positions.reverse.map g.exprAt = order.map some) ∧
    g.evaluationOrder = order.map nodes.label ∧
    s'.draft.scopes.visible = (order.map Expr.id).reverse ++ s.draft.scopes.visible ∧
      ∃ log, e.1.emitLogged ⟨s, []⟩ = .ok () ⟨s', log⟩ ∧
        log.reverse.filterMap Event.written? = order.map Expr.id := by
  intro g order
  have hroots : ∀ r ∈ [e.1], dag.contains r := by simpa using e.2
  have hv := (Graph.visiting_ofRoots nodes hroots).1
  obtain ⟨positions, hsome, hat⟩ := hv.toposort
  rw [← hv.orderedExprs] at hat
  have hrun := e.1.emitLogged_recorded ⟨e.2, selectFree, new⟩ [] Graph.listing_nil ⟨s, []⟩ ⟨rfl, rfl⟩
  have hfollows := e.1.emitLogged_follows ⟨s, []⟩
  rw [h] at hfollows
  cases hlogged : e.1.emitLogged ⟨s, []⟩ with
  | error fault r =>
    rw [hlogged] at hfollows
    cases hfollows
  | ok _ r =>
    rw [hlogged] at hfollows
    cases hfollows
    obtain ⟨hvisible, hwritten⟩ := hrun.of_ok hlogged
    rw [← Graph.orderedExprs_root nodes e.2] at hvisible hwritten
    refine ⟨⟨positions, hsome, hat⟩, Graph.evaluationOrder_ofRoots nodes _, hvisible, r.log, rfl, ?_⟩
    rw [List.filterMap_reverse, hwritten, List.reverse_reverse]

namespace SharedSum

def value : Expr := .zeroed 1 .u32

def double : Expr := .binary 2 .add value value

def product : Expr := .binary 3 .mul double value

def graph : Dag :=
  .ofList [value, double, product]
    (by simp [value, double, product]) (by decide)

def sheet : Sheet := ⟨.start 4, .start .default⟩

theorem product_emitted_in_order :
    product.emit sheet = .ok () (final (product.emit sheet)) ∧
      (Graph.ofRoots (.start 4) [product]).evaluationOrder =
        [value, double, product].map (Nodes.start 4).label ∧
      (final (product.emit sheet)).draft.scopes.visible = [3, 2, 1] ∧
      ∃ log, product.emitLogged ⟨sheet, []⟩ = .ok () ⟨final (product.emit sheet), log⟩ ∧
        log.reverse.filterMap Event.written? = [1, 2, 3] := by
  have hrun : product.emit sheet = .ok () (final (product.emit sheet)) := by rfl
  have huses {d : Expr} (h : product.Uses d) : d ∈ [value, double, product] :=
    h.mem (by simp [value, double, product]) (by simp)
  have hfree : ∀ d, product.Uses d → d.isSelect = false := fun d hd => by
    have := huses hd
    simp only [List.mem_cons, List.not_mem_nil, or_false] at this
    rcases this with rfl | rfl | rfl <;> rfl
  have hnode : product ∈ [value, double, product] := by simp
  have horder : (Graph.ofRoots (.start 4) [product]).orderedExprs = [value, double, product] :=
    @Graph.orderedExprs_root graph _ _ hnode
  obtain ⟨-, h⟩ := emission_follows_graph_order graph ⟨product, hnode⟩ (.start 4) sheet _ hfree
    (fun _ _ => List.not_mem_nil) hrun
  rw [horder] at h
  exact ⟨hrun, h⟩

end SharedSum

end ComputeKernel
