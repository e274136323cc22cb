import ComputeKernel.Proofs.BlockProgram

namespace ComputeKernel

variable {V : Type} {line : Line} {lines : List Line}

abbrev Lane := Fin 32

abbrev Lanes := BitVec 32

def Lanes.only (lanes : Lanes) (p : Lane → Bool) : Lanes :=
  (BitVec.iunfoldr (fun l (_ : Unit) => ((), lanes.getLsbD l && p l)) ()).2

namespace Lanes

theorem getLsbD_only (lanes : Lanes) (p : Lane → Bool) (l : Lane) :
    (lanes.only p).getLsbD l = (lanes.getLsbD l && p l) :=
  BitVec.iunfoldr_getLsbD (fun _ => ()) l fun _ => rfl

theorem ext {a b : Lanes} (h : ∀ l : Lane, a.getLsbD l = b.getLsbD l) : a = b :=
  BitVec.eq_of_getLsbD_eq fun i hi => h ⟨i, hi⟩

variable {lanes : Lanes}

theorem only_congr {p q : Lane → Bool}
    (h : ∀ l : Lane, lanes.getLsbD l = true → p l = q l) : lanes.only p = lanes.only q := by
  refine ext fun l => ?_
  rw [getLsbD_only, getLsbD_only]
  cases hl : lanes.getLsbD l with
  | false => rfl
  | true => rw [h l hl]

theorem only_mask (lanes mask : Lanes) : lanes.only (mask.getLsbD ·) = lanes &&& mask :=
  ext fun l => by rw [getLsbD_only, BitVec.getLsbD_and]

def entered (lanes mask : Lanes) : Lanes := if mask = 0 then 0 else lanes

theorem only_ne_zero (lanes mask : Lanes) : (lanes.only fun _ => mask != 0) = lanes.entered mask := by
  refine ext fun l => ?_
  rw [getLsbD_only, entered]
  split
  · simp [*]
  · rw [bne_iff_ne.mpr ‹_›, Bool.and_true]

theorem entered_and_not (lanes mask : Lanes) :
    lanes &&& ~~~lanes.entered mask = if mask = 0 then lanes else 0 := by
  rw [entered]
  split
  · exact (congrArg _ BitVec.not_zero).trans BitVec.and_allOnes
  · simp

theorem getLsbD_of_entered {mask : Lanes} {l : Lane}
    (h : (lanes.entered mask).getLsbD l = true) : lanes.getLsbD l = true := by
  rw [entered] at h
  split at h
  · simp at h
  · exact h

theorem and_bit_ne_zero (mask : Lanes) (l : Lane) :
    (mask &&& 1#32 <<< l.val != 0) = mask.getLsbD l := by
  rw [← BitVec.twoPow_eq, BitVec.and_twoPow]
  split
  · rename_i h
    rw [h, bne_iff_ne]
    intro hz
    have := congrArg (BitVec.getLsbD · l.val) hz
    simp at this
  · simp_all

end Lanes

abbrev Trace := List (Line × Lanes)

structure WaveMeaning (V : Type) where
  lane : Lane → Meaning V
  word : BitVec 32 → V
  effect : Trace → Line → String → Lane → V
  zero : ∀ l, (lane l).constant "u32(0)" = word 0
  bitAnd : ∀ l a b, (lane l).binary .bitAnd (word a) (word b) = word (a &&& b)
  ne : ∀ l a b, (lane l).truth ((lane l).binary .ne (word a) (word b)) = (a != b)
  laneBit : ∀ l p, p.isBuiltin .laneBit = true → (lane l).call p [] = word (1#32 <<< l.val)

namespace Spelling

def mentions : Spelling → List String
  | .word name => [name]
  | .temp id => [(temp id).text]
  | .constant _ _ => []
  | .member base _ | .element base _ => base.mentions
  | .elementAt base index => base.mentions ++ index.mentions

def root? : Spelling → Option String
  | .word name => some name
  | .temp id => some (temp id).text
  | .constant _ _ => none
  | .member base _ | .element base _ | .elementAt base _ => base.root?

def Spares (s : Spelling) (names : List String) : Prop := ∀ x ∈ s.mentions, x ∉ names

theorem Spares.mono {s : Spelling} {names more : List String} (h : s.Spares names)
    (hn : more ⊆ names) : s.Spares more := fun x hx hm => h x hx (hn hm)

end Spelling

def Prototype.changed (p : Prototype) (args : List Spelling) : List String :=
  (p.params.zip args).filterMap fun (q, arg) => if q.mode = .inout then arg.root? else none

namespace Line

def written : Line → List String
  | .declare _ target (.call p args _) => target.root?.toList ++ p.changed args
  | .declare _ target _ | .reserve _ target | .array _ target _ _ | .assign target _ _
  | .ballot target _ _ _ | .readHit target _ _ => target.root?.toList
  | .perform p args _ => p.changed args
  | _ => []

def isStatement : Line → Bool
  | .declare .. | .reserve .. | .assign .. | .perform .. | .array .. | .ballot .. | .barrier
  | .declareQuery _ | .trace .. | .commit .. | .readHit .. | .verbatim _ => true
  | _ => false

end Line

structure Wave (V : Type) where
  store : String → Lane → V
  active : Lanes
  trace : Trace := []

namespace Wave

variable (W : WaveMeaning V)

def eval (m : Wave V) (s : Spelling) (l : Lane) : V :=
  match s with
  | .word name => m.store name l
  | .temp id => m.store (Spelling.temp id).text l
  | .constant _ text => (W.lane l).constant text
  | .member base name => (W.lane l).member (m.eval base l) name
  | .element base index => (W.lane l).element (m.eval base l) index
  | .elementAt base index => (W.lane l).elementAt (m.eval base l) (m.eval index l)

def initial (m : Wave V) (ty : Ty) (value : Initial) (l : Lane) : V :=
  match value with
  | .copy s => m.eval W s l
  | .unary op s => (W.lane l).unary op (m.eval W s l)
  | .binary op a b => (W.lane l).binary op (m.eval W a l) (m.eval W b l)
  | .call callee args _ => (W.lane l).call callee (args.map fun s => m.eval W s l)
  | .zero => (W.lane l).zero ty

def ballot (m : Wave V) (cond : Spelling) : Lanes :=
  m.active.only fun l => (W.lane l).truth (m.eval W cond l)

def nonzero (m : Wave V) (lanes : Lanes) (mask : Spelling) : Lanes :=
  lanes.only fun l =>
    (W.lane l).truth ((W.lane l).binary .ne (m.eval W mask l) ((W.lane l).constant "u32(0)"))

def outcome (m : Wave V) (line : Line) (x : String) (l : Lane) : V :=
  match line with
  | .declare ty target value =>
    if target.root? = some x then m.initial W ty value l else W.effect m.trace line x l
  | .ballot _ taken cond current =>
    let votes := m.ballot W cond
    (W.lane l).binary .bitAnd (W.word (if taken then votes else ~~~votes)) (m.eval W current l)
  | line => W.effect m.trace line x l

def perform (m : Wave V) (line : Line) : Wave V where
  store x l :=
    if m.active.getLsbD l && line.written.contains x then m.outcome W line x l else m.store x l
  active := m.active
  trace := m.trace ++ [(line, m.active)]

def performAll (m : Wave V) (lines : List Line) : Wave V := lines.foldl (perform W) m

def within (m : Wave V) (lanes : Lanes) (f : Wave V → Wave V) : Wave V :=
  { f { m with active := lanes } with active := m.active }

variable {W} {m m' : Wave V} {x : String} {l : Lane} {s : Spelling}

theorem eval_congr (h : ∀ x ∈ s.mentions, m'.store x l = m.store x l) :
    m'.eval W s l = m.eval W s l := by
  induction s with
  | word name => exact h name (by simp [Spelling.mentions])
  | temp id => exact h _ (by simp [Spelling.mentions])
  | constant value text => rfl
  | member base name ih | element base index ih => simp only [eval, ih h]
  | elementAt base index ihb ihi =>
    simp only [Spelling.mentions, List.mem_append] at h
    simp only [eval, ihb fun x hx => h x (.inl hx), ihi fun x hx => h x (.inr hx)]

theorem eval_lanes (lanes : Lanes) : eval W { m with active := lanes } s l = m.eval W s l :=
  eval_congr fun _ _ => rfl

theorem eval_within (lanes : Lanes) (f : Wave V → Wave V) :
    (m.within lanes f).eval W s l = (f { m with active := lanes }).eval W s l :=
  eval_congr fun _ _ => rfl

variable {lanes : Lanes} {f g : Wave V → Wave V} {mask : Lanes} {m'' : Wave V}

theorem within_congr (h : f { m with active := lanes } = g { m with active := lanes }) :
    m.within lanes f = m.within lanes g := by
  rw [within, within, h]

theorem store_perform (h : x ∉ line.written) : (m.perform W line).store x = m.store x := by
  funext l
  simp [perform, h]

theorem store_performAll (h : x ∉ lines.flatMap Line.written) :
    (m.performAll W lines).store x = m.store x := by
  induction lines generalizing m with
  | nil => rfl
  | cons line lines ih =>
    simp only [List.flatMap_cons, List.mem_append, not_or] at h
    exact (ih h.2).trans (store_perform h.1)

theorem active_performAll : (m.performAll W lines).active = m.active := by
  induction lines generalizing m with
  | nil => rfl
  | cons line lines ih => exact ih

theorem eval_performAll (h : s.Spares (lines.flatMap Line.written)) :
    (m.performAll W lines).eval W s l = m.eval W s l :=
  eval_congr fun x hx => congrFun (store_performAll (h x hx)) l

theorem ballot_performAll (h : s.Spares (lines.flatMap Line.written)) :
    (m.performAll W lines).ballot W s = m.ballot W s := by
  rw [ballot, active_performAll]
  exact Lanes.only_congr fun l _ => by rw [eval_performAll h]

theorem store_declare {ty : Ty} {target : Spelling} {value : Initial}
    (ht : target.root? = some x) (hl : m.active.getLsbD l = true) :
    (m.perform W (.declare ty target value)).store x l = m.initial W ty value l := by
  have hx : (Line.declare ty target value).written.contains x = true := by
    cases value <;> simp [Line.written, ht]
  simp only [perform, hl, hx, outcome, ht, Bool.and_true, if_true]

theorem store_ballot {taken : Bool} {cond current : Spelling}
    (hl : m.active.getLsbD l = true) (hc : m.eval W current l = W.word mask) :
    (m.perform W (.ballot (.word x) taken cond current)).store x l =
      W.word ((if taken then m.ballot W cond else ~~~m.ballot W cond) &&& mask) := by
  simp [perform, hl, Line.written, Spelling.root?, outcome, hc, W.bitAnd]

theorem nonzero_of_mask (h : ∀ l : Lane, lanes.getLsbD l = true → m.eval W s l = W.word mask) :
    m.nonzero W lanes s = lanes.entered mask := by
  rw [← Lanes.only_ne_zero, nonzero]
  exact Lanes.only_congr fun l hl => by rw [h l hl, W.zero, W.ne]

def Records (m m' : Wave V) (lines : List Line) : Prop :=
  ∃ more, m'.trace = m.trace ++ more ∧ more.map Prod.fst = lines

theorem Records.refl (m : Wave V) : m.Records m [] := ⟨[], (List.append_nil _).symm, rfl⟩

theorem Records.trans {rest : List Line} (h : m.Records m' lines)
    (h' : m'.Records m'' rest) : m.Records m'' (lines ++ rest) := by
  obtain ⟨more, hm, rfl⟩ := h
  obtain ⟨more', hm', rfl⟩ := h'
  exact ⟨more ++ more', by rw [hm', hm, List.append_assoc], List.map_append⟩

theorem records_performAll (m : Wave V) (lines : List Line) :
    m.Records (m.performAll W lines) lines := by
  induction lines generalizing m with
  | nil => exact .refl m
  | cons line lines ih => exact .trans ⟨[(line, m.active)], rfl, rfl⟩ (ih (m.perform W line))

theorem Records.within (h : Records { m with active := lanes } (f { m with active := lanes }) lines)
    : m.Records (m.within lanes f) lines := h

theorem Records.trace_eq {n n' : Wave V} (h : m.Records m' lines) (h' : n.Records n' lines)
    (heq : m'.trace = n'.trace) : m.trace = n.trace := by
  obtain ⟨more, hm, hl⟩ := h
  obtain ⟨more', hm', hl'⟩ := h'
  rw [hm, hm'] at heq
  refine (List.append_inj' heq ?_).1
  simpa using congrArg List.length (hl.trans hl'.symm)

def Begins (m m' : Wave V) : Prop :=
  ∃ line more, m'.trace = m.trace ++ (line, m.active) :: more

theorem Begins.then (h : m.Begins m') (h' : m'.Records m'' lines) : m.Begins m'' := by
  obtain ⟨line, more, hm⟩ := h
  obtain ⟨more', hm', -⟩ := h'
  exact ⟨line, more ++ more', by simp [hm', hm]⟩

theorem begins_performAll (m : Wave V) (line : Line) (lines : List Line) :
    m.Begins (m.performAll W (line :: lines)) :=
  .then ⟨line, [], rfl⟩ (records_performAll (m.perform W line) lines)

theorem Begins.lanes_eq {lanes' : Lanes}
    (h : Begins { m with active := lanes } (f { m with active := lanes }))
    (h' : Begins { m with active := lanes' } (g { m with active := lanes' }))
    (heq : (m.within lanes f).trace = (m.within lanes' g).trace) : lanes = lanes' := by
  obtain ⟨line, more, hm⟩ := h
  obtain ⟨line', more', hm'⟩ := h'
  rw [within, within, hm, hm', List.append_cancel_left_eq, List.cons.injEq, Prod.mk.injEq] at heq
  exact heq.1.2

end Wave

structure WaveRun (V : Type) where
  wave : Wave V
  frames : List (Lanes × Lanes)

namespace WaveRun

variable (W : WaveMeaning V)

def enter (r : WaveRun V) (lanes : Lanes) : WaveRun V :=
  ⟨{ r.wave with active := lanes }, (r.wave.active, r.wave.active &&& ~~~lanes) :: r.frames⟩

def turn (r : WaveRun V) (choose : Lanes → Lanes) : Option (WaveRun V) :=
  match r.frames with
  | [] => none
  | (after, left) :: rest =>
    let lanes := choose left
    some ⟨{ r.wave with active := lanes }, (after, left &&& ~~~lanes) :: rest⟩

def leave (r : WaveRun V) : Option (WaveRun V) :=
  match r.frames with
  | [] => none
  | (after, _) :: rest => some ⟨{ r.wave with active := after }, rest⟩

def step (r : WaveRun V) (line : Line) : Option (WaveRun V) :=
  match line with
  | .openIf cond => some (r.enter (r.wave.ballot W cond))
  | .openMask mask => some (r.enter (r.wave.nonzero W r.wave.active mask))
  | .openElse => r.turn id
  | .openElseMask mask => r.turn (r.wave.nonzero W · mask)
  | .close => r.leave
  | line => if line.isStatement then some { r with wave := r.wave.perform W line } else none

def run (r : WaveRun V) (lines : List Line) : Option (WaveRun V) := lines.foldlM (step W) r

variable {W} {r : WaveRun V} {rest : List Line}

theorem run_cons : r.run W (line :: lines) = (r.step W line).bind (·.run W lines) := rfl

theorem step_statement (h : line.isStatement = true) :
    r.step W line = some { r with wave := r.wave.perform W line } := by
  cases line <;> first | rfl | cases h

theorem run_statements (h : ∀ line ∈ lines, line.isStatement = true) :
    r.run W (lines ++ rest) = run W { r with wave := r.wave.performAll W lines } rest := by
  induction lines generalizing r with
  | nil => rfl
  | cons line lines ih =>
    rw [List.cons_append, run_cons, step_statement (h line (by simp)), Option.bind_some,
      ih fun line hl => h line (by simp [hl])]
    rfl

variable {m : Wave V} {frames : List (Lanes × Lanes)} {lanes lanes' : Lanes} {f g : Wave V → Wave V}
  {mask mask' : Spelling} {others : List Line}

theorem run_block (hopen : step W ⟨m, frames⟩ line = some (enter ⟨m, frames⟩ lanes))
    (hbody : ∀ frames rest, run W ⟨{ m with active := lanes }, frames⟩ (lines ++ rest) =
      run W ⟨f { m with active := lanes }, frames⟩ rest) :
    run W ⟨m, frames⟩ (line :: (lines ++ .close :: rest)) =
      run W ⟨m.within lanes f, frames⟩ rest := by
  rw [run_cons, hopen, Option.bind_some, enter, hbody, run_cons]
  rfl

theorem run_masks (hlanes : m.nonzero W m.active mask = lanes)
    (hlanes' : (f { m with active := lanes }).nonzero W (m.active &&& ~~~lanes) mask' = lanes')
    (hbody : ∀ frames rest, run W ⟨{ m with active := lanes }, frames⟩ (lines ++ rest) =
      run W ⟨f { m with active := lanes }, frames⟩ rest)
    (hother : ∀ frames rest,
      run W ⟨{ m.within lanes f with active := lanes' }, frames⟩ (others ++ rest) =
        run W ⟨g { m.within lanes f with active := lanes' }, frames⟩ rest) :
    run W ⟨m, frames⟩ (.openMask mask :: (lines ++ .openElseMask mask' :: (others ++
      .close :: rest))) = run W ⟨(m.within lanes f).within lanes' g, frames⟩ rest := by
  have hopen : step W ⟨m, frames⟩ (.openMask mask) = some (enter ⟨m, frames⟩ lanes) := by
    rw [step, hlanes]
  have hturn : step W ⟨f { m with active := lanes }, (m.active, m.active &&& ~~~lanes) :: frames⟩
      (.openElseMask mask') = some ⟨{ m.within lanes f with active := lanes' },
        (m.active, m.active &&& ~~~lanes &&& ~~~lanes') :: frames⟩ := by
    rw [step, turn]
    simp only [hlanes', Wave.within]
  rw [run_cons, hopen, Option.bind_some, enter, hbody, run_cons, hturn, Option.bind_some, hother,
    run_cons]
  rfl

end WaveRun

end ComputeKernel
