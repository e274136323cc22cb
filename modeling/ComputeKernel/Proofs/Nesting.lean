import ComputeKernel.Proofs.Advance

namespace ComputeKernel

inductive Bracing where
  | flat
  | opens
  | closes
  | turns
deriving DecidableEq

def Bracing.after : Bracing → Nat → Option Nat
  | .flat, n => some n
  | .opens, n => some (n + 1)
  | .closes, 0 | .turns, 0 => none
  | .closes, n + 1 => some n
  | .turns, n + 1 => some (n + 1)

def Line.bracing : Line → Bracing
  | .openIf _ | .openMask _ | .openFor .. | .openWhile | .openSwitch _ | .openCase _
  | .openFunction .. | .openQueryLoop _ | .openCandidate _ | .openCommitted _ => .opens
  | .openElse | .openElseMask _ => .turns
  | .close | .closeCase => .closes
  | _ => .flat

def depthAfter (n : Nat) (lines : List Line) : Option Nat :=
  lines.foldlM (fun n line => line.bracing.after n) n

theorem depthAfter_append (n : Nat) (xs ys : List Line) :
    depthAfter n (xs ++ ys) = (depthAfter n xs).bind (depthAfter · ys) := by
  simp only [depthAfter, List.foldlM_append]
  rfl

theorem depthAfter_snoc {n m : Nat} {lines : List Line} (h : depthAfter n lines = some m)
    (line : Line) : depthAfter n (lines ++ [line]) = line.bracing.after m := by
  rw [depthAfter_append, h]
  simp [depthAfter]

namespace Draft

def nesting (d : Draft) : Nat :=
  d.scopes.depth + d.targets.count .switch + d.inFunction.toNat

structure Level (k : Nat) (d : Draft) : Prop where
  lines : depthAfter 0 d.lines = some (d.nesting + k)
  functions : depthAfter 0 d.functions = some 0

def outside (d : Draft) :=
  (d.context, d.targets, d.frames.map Frame.targets)

theorem outside_write (d : Draft) (line : Line) : (d.write line).outside = d.outside := by
  have hctx := d.context_write line
  unfold outside
  rw [hctx]
  unfold write
  split <;> simp_all

theorem inFunction_of_outside {d d' : Draft} (h : d'.outside = d.outside) :
    d'.inFunction = d.inFunction := by
  have hframes : d'.frames.map Frame.targets = d.frames.map Frame.targets := congrArg (·.2.2) h
  unfold inFunction
  cases hd : d.frames <;> cases hd' : d'.frames <;> simp_all

theorem nesting_of_outside {d d' : Draft} (h : d'.outside = d.outside)
    (hs : d'.scopes.stack = d.scopes.stack) : d'.nesting = d.nesting := by
  have htargets : d'.targets = d.targets := congrArg (·.2.1) h
  rw [nesting, nesting, Scopes.depth, Scopes.depth, hs, htargets, inFunction_of_outside h]

theorem functions_of_outside {d d' : Draft} (h : d'.outside = d.outside) :
    d'.functions = d.functions :=
  congrArg (·.1.2.1) h

theorem nesting_write (d : Draft) (line : Line) : (d.write line).nesting = d.nesting :=
  nesting_of_outside (d.outside_write line) (congrArg Scopes.stack (d.scopes_write line))

variable {d d' : Draft} {k j : Nat} {line : Line}

theorem Level.write (h : d.Level k)
    (hline : line.bracing.after (d.nesting + k) = some (d.nesting + j)) :
    (d.write line).Level j where
  lines := by rw [lines_write, depthAfter_snoc h.lines, hline, nesting_write]
  functions := by
    rw [functions_of_outside (d.outside_write line)]
    exact h.functions

theorem Level.flat (h : d.Level k) (hline : line.bracing = .flat) : (d.write line).Level k :=
  h.write (by rw [hline]; rfl)

theorem Level.opens (h : d.Level k) (hline : line.bracing = .opens) :
    (d.write line).Level (k + 1) :=
  h.write (by rw [hline]; rfl)

theorem Level.closes (h : d.Level (k + 1)) (hline : line.bracing = .closes) :
    (d.write line).Level k :=
  h.write (by rw [hline]; rfl)

theorem Level.turns (h : d.Level (k + 1)) (hline : line.bracing = .turns) :
    (d.write line).Level (k + 1) :=
  h.write (by rw [hline]; rfl)

theorem Level.of_nesting (h : d.Level k) (hl : d'.lines = d.lines)
    (hf : d'.functions = d.functions) (hn : d'.nesting + j = d.nesting + k) : d'.Level j :=
  ⟨by rw [hl, hn]; exact h.lines, by rw [hf]; exact h.functions⟩

theorem Level.enterScope (h : d.Level (k + 1)) (condition : Option Expr) :
    (d.enterScope condition).Level k := by
  refine h.of_nesting rfl rfl ?_
  simp only [nesting, Draft.enterScope, Scopes.enter, ScopeStack.push, Scopes.depth,
    List.length_cons, inFunction]
  omega

theorem Level.leave (h : d.Level k) {scopes : Scopes} (hs : d.scopes.leave? = some scopes) :
    Level (k + 1) { d with scopes } := by
  refine h.of_nesting rfl rfl ?_
  have hdepth := Scopes.depth_leave hs
  simp only [nesting, inFunction]
  omega

end Draft

end ComputeKernel
