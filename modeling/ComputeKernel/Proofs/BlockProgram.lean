import ComputeKernel.Code.Line

namespace ComputeKernel

structure Meaning (V : Type) where
  constant : String → V
  zero : Ty → V
  array : Ty → UInt32 → List V → V
  unary : Op → V → V
  binary : Op → V → V → V
  call : Prototype → List V → V
  member : V → String → V
  element : V → UInt32 → V
  elementAt : V → V → V
  truth : V → Bool

namespace Spelling

def temps : Spelling → List Nat
  | .temp id => [id]
  | .word _ | .constant _ _ => []
  | .member base _ | .element base _ => base.temps
  | .elementAt base index => base.temps ++ index.temps

def words : Spelling → List String
  | .word name => [name]
  | .temp _ | .constant _ _ => []
  | .member base _ | .element base _ => base.words
  | .elementAt base index => base.words ++ index.words

def variableName? : Spelling → Option String
  | .word name => some name
  | .temp id => some (temp id).text
  | _ => none

theorem numbered_injective {stem : String} {i j : Nat}
    (h : stem ++ toString i = stem ++ toString j) : i = j := by
  have hd : Nat.toDigits 10 i = Nat.toDigits 10 j := by
    simpa [String.ext_iff, Nat.toString_eq_repr] using h
  rw [← Nat.ofDigitChars_ten_toDigits (n := i), hd, Nat.ofDigitChars_ten_toDigits]

theorem text_temp_injective {i j : Nat} (h : (temp i).text = (temp j).text) : i = j :=
  numbered_injective h

end Spelling

structure Block (V : Type) where
  locals : List (String × Option V) := []
  live : Bool
  otherwise : Bool := false

def Block.assign? {V : Type} (b : Block V) (x : String) (v : V) : Option (Block V) :=
  if (b.locals.lookup x).isSome then some { b with locals := (x, some v) :: b.locals } else none

structure Machine (V : Type) where
  outer : String → Option V
  top : Block V
  rest : List (Block V)

namespace Machine

variable {V : Type} (M : Meaning V)

def start (ρ : String → V) : Machine V := ⟨fun x => some (ρ x), { live := true }, []⟩

def locals (m : Machine V) : List (String × Option V) :=
  m.top.locals ++ m.rest.flatMap Block.locals

def read (m : Machine V) (x : String) : Option V :=
  (m.locals.lookup x).getD (m.outer x)

def eval (m : Machine V) : Spelling → Option V
  | .word name => m.read name
  | .temp id => m.read (Spelling.temp id).text
  | .constant _ text => some (M.constant text)
  | .member base name => (m.eval base).map (M.member · name)
  | .element base index => (m.eval base).map (M.element · index)
  | .elementAt base index => do return M.elementAt (← m.eval base) (← m.eval index)

def initial (m : Machine V) (ty : Ty) : Initial → Option V
  | .copy value => m.eval M value
  | .unary op operand => (m.eval M operand).map (M.unary op)
  | .binary op lhs rhs => do return M.binary op (← m.eval M lhs) (← m.eval M rhs)
  | .call callee args _ => (args.mapM (m.eval M)).map (M.call callee)
  | .zero => some (M.zero ty)

def declareAll (m : Machine V) (added : List (String × Option V)) : Machine V :=
  { m with top := { m.top with locals := added ++ m.top.locals } }

def assignIn (x : String) (v : V) : List (Block V) → Option (List (Block V))
  | [] => none
  | b :: rest =>
    match b.assign? x v with
    | some b' => some (b' :: rest)
    | none => (assignIn x v rest).map (b :: ·)

def assign (m : Machine V) (x : String) (v : V) : Option (Machine V) :=
  match m.top.assign? x v with
  | some top => some { m with top }
  | none => (assignIn x v m.rest).map fun rest => { m with rest }

def enter (m : Machine V) (live otherwise : Bool) : Machine V :=
  { m with top := { live, otherwise }, rest := m.top :: m.rest }

def turn (m : Machine V) : Machine V :=
  { m with top := { live := m.top.otherwise } }

def leave? (m : Machine V) : Option (Machine V) :=
  match m.rest with
  | [] => none
  | top :: rest => some { m with top, rest }

def act (m : Machine V) : Line → Option (Machine V)
  | .declare ty target value => do
    return m.declareAll [(← target.variableName?, some (← m.initial M ty value))]
  | .reserve _ target => do return m.declareAll [(← target.variableName?, none)]
  | .array elem target length init => do
    return m.declareAll [(← target.variableName?, some (M.array elem length (init.map M.constant)))]
  | .assign target .assign value => do m.assign (← target.variableName?) (← m.eval M value)
  | .openIf cond => do
    let v ← m.eval M cond
    return m.enter (M.truth v) (!M.truth v)
  | .openElse => some m.turn
  | .close => m.leave?
  | _ => none

def pass (m : Machine V) : Line → Option (Machine V)
  | .declare .. | .reserve .. | .array .. | .assign .. | .perform .. => some m
  | .openIf _ => some (m.enter false false)
  | .openElse => some m.turn
  | .close => m.leave?
  | _ => none

def step (m : Machine V) (line : Line) : Option (Machine V) :=
  if m.top.live then m.act M line else m.pass line

def run (m : Machine V) (lines : List Line) : Option (Machine V) :=
  lines.foldlM (step M) m

variable {M} {m m' : Machine V} {x : String} {v : V} {added more : List (String × Option V)}

@[simp]
theorem run_nil : m.run M [] = some m := rfl

@[simp]
theorem run_cons (line : Line) (lines : List Line) :
    m.run M (line :: lines) = (m.step M line).bind (·.run M lines) := rfl

theorem run_append (lines rest : List Line) :
    m.run M (lines ++ rest) = (m.run M lines).bind (·.run M rest) :=
  List.foldlM_append

theorem step_of_live (h : m.top.live = true) (line : Line) : m.step M line = m.act M line :=
  if_pos h

theorem step_of_not_live (h : m.top.live = false) (line : Line) : m.step M line = m.pass line := by
  simp [step, h]

theorem declareAll_declareAll : (m.declareAll added).declareAll more = m.declareAll (more ++ added) := by
  simp [declareAll]

theorem read_enter (live otherwise : Bool) : (m.enter live otherwise).read x = m.read x := by
  simp [read, locals, enter]

theorem lookup_of_not_mem {β : Type} {entries : List (String × β)} (h : x ∉ entries.map Prod.fst) :
    entries.lookup x = none := by
  refine List.lookup_eq_none_iff.mpr fun entry he => bne_iff_ne.mpr ?_
  rintro rfl
  exact h (List.mem_map_of_mem he)

theorem read_declareAll_of_not_mem (h : x ∉ added.map Prod.fst) :
    (m.declareAll added).read x = m.read x := by
  simp [read, locals, declareAll, List.lookup_append, lookup_of_not_mem h]

theorem read_declareAll_self {value : Option V} :
    (m.declareAll ((x, value) :: added)).read x = value := by
  simp [read, locals, declareAll]

theorem eval_congr {name : Spelling}
    (ht : ∀ id ∈ name.temps, m'.read (Spelling.temp id).text = m.read (Spelling.temp id).text)
    (hw : ∀ word ∈ name.words, m'.read word = m.read word) :
    m'.eval M name = m.eval M name := by
  induction name with
  | word name => exact hw name (by simp [Spelling.words])
  | temp id => exact ht id (by simp [Spelling.temps])
  | constant value text => rfl
  | member base name ih | element base index ih => simp only [eval, ih ht hw]
  | elementAt base index ihb ihi =>
    simp only [Spelling.temps, Spelling.words, List.mem_append] at ht hw
    simp only [eval, ihb (fun id h => ht id (.inl h)) fun w h => hw w (.inl h),
      ihi (fun id h => ht id (.inr h)) fun w h => hw w (.inr h)]

theorem leave?_enter (live otherwise : Bool) :
    ((m.enter live otherwise).declareAll added).leave? = some m := rfl

theorem turn_enter (live otherwise : Bool) :
    ((m.enter live otherwise).declareAll added).turn = m.enter otherwise false := rfl

theorem assign_reserved (h : x ∉ added.map Prod.fst) (live otherwise : Bool) :
    (((m.declareAll [(x, none)]).enter live otherwise).declareAll added).assign x v =
      some (((m.declareAll [(x, some v), (x, none)]).enter live otherwise).declareAll added) := by
  simp [assign, Block.assign?, assignIn, declareAll, enter, lookup_of_not_mem h]

end Machine

def Skipped {V : Type} (M : Meaning V) (lines : List Line) : Prop :=
  ∀ m : Machine V, m.top.live = false → m.run M lines = some m

section Blocks

variable {V : Type} {M : Meaning V} {lines rest : List Line} {ty : Ty} {id : Nat} {cond : Spelling}

theorem Skipped.append (h : Skipped M lines) (h' : Skipped M rest) : Skipped M (lines ++ rest) := by
  intro m hm
  rw [Machine.run_append, h m hm]
  exact h' m hm

theorem Machine.step_openElse (m : Machine V) : m.step M .openElse = some m.turn := by
  unfold step act pass
  split <;> rfl

theorem Machine.step_close (m : Machine V) : m.step M .close = m.leave? := by
  unfold step act pass
  split <;> rfl

theorem Machine.run_branches {m mid last : Machine V} {first second : Bool}
    {added more : List (String × Option V)}
    (hl : (m.enter first second).run M lines = some ((mid.enter first second).declareAll added))
    (hr : (mid.enter second false).run M rest = some ((last.enter second false).declareAll more)) :
    (m.enter first second).run M (lines ++ ([.openElse] ++ (rest ++ [.close]))) = some last := by
  rw [run_append, hl, Option.bind_some, List.singleton_append, run_cons, step_openElse,
    Option.bind_some, turn_enter, run_append, hr, Option.bind_some, run_cons, step_close,
    leave?_enter]
  rfl

theorem Skipped.run_enter (h : Skipped M lines) (m : Machine V) (otherwise : Bool) :
    (m.enter false otherwise).run M lines = some ((m.enter false otherwise).declareAll []) :=
  h _ rfl

theorem Skipped.select (h : Skipped M lines) (h' : Skipped M rest) :
    Skipped M ([.reserve ty (.temp id), .openIf cond] ++
      (lines ++ ([.openElse] ++ (rest ++ [.close])))) := by
  intro m hm
  have hrun : (m.enter false false).run M (lines ++ ([.openElse] ++ (rest ++ [.close]))) = some m :=
    Machine.run_branches (h.run_enter m false) (h'.run_enter m false)
  simpa [Machine.step_of_not_live hm, Machine.pass] using hrun

theorem Machine.run_select {m : Machine V} {c v : V} (hlive : m.top.live = true)
    (hc : (m.declareAll [((Spelling.temp id).text, none)]).eval M cond = some c)
    (hl : Skipped M lines) (hr : Skipped M rest)
    (hyes : M.truth c = true → ∃ added,
      ((m.declareAll [((Spelling.temp id).text, none)]).enter true false).run M lines =
        some (((m.declareAll [((Spelling.temp id).text, some v),
          ((Spelling.temp id).text, none)]).enter true false).declareAll added))
    (hno : M.truth c = false → ∃ added,
      ((m.declareAll [((Spelling.temp id).text, none)]).enter true false).run M rest =
        some (((m.declareAll [((Spelling.temp id).text, some v),
          ((Spelling.temp id).text, none)]).enter true false).declareAll added)) :
    m.run M ([.reserve ty (.temp id), .openIf cond] ++
      (lines ++ ([.openElse] ++ (rest ++ [.close])))) =
      some (m.declareAll [((Spelling.temp id).text, some v), ((Spelling.temp id).text, none)]) := by
  have hstart : m.run M ([.reserve ty (.temp id), .openIf cond] ++
      (lines ++ ([.openElse] ++ (rest ++ [.close])))) =
      ((m.declareAll [((Spelling.temp id).text, none)]).enter (M.truth c) (!M.truth c)).run M
        (lines ++ ([.openElse] ++ (rest ++ [.close]))) := by
    have hlive' : (m.declareAll [((Spelling.temp id).text, none)]).top.live = true := hlive
    simp [step_of_live hlive, step_of_live hlive', act, Spelling.variableName?, hc]
  rw [hstart]
  cases ht : M.truth c with
  | true =>
    obtain ⟨added, hadd⟩ := hyes ht
    exact run_branches hadd (hr.run_enter _ false)
  | false =>
    obtain ⟨added, hadd⟩ := hno ht
    exact run_branches (hl.run_enter _ true) hadd

end Blocks

end ComputeKernel
