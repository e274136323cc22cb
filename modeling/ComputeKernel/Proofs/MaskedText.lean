import ComputeKernel.Proofs.WaveProgram

namespace ComputeKernel

structure LaneTest where
  current : Spelling
  bit : Nat
  own : Nat
  active : Nat
  callee : Prototype
  text : String
  isLaneBit : callee.isBuiltin .laneBit = true

def LaneTest.lines (t : LaneTest) : List Line :=
  [.declare .u32 (.temp t.bit) (.call t.callee [] t.text),
    .declare .u32 (.temp t.own) (.binary .bitAnd t.current (.temp t.bit)),
    .declare .bool (.temp t.active) (.binary .ne (.temp t.own) (.constant (.u32 [0]) "u32(0)"))]

structure Split where
  current : Spelling
  cond : Spelling
  taken : String
  missed : String

def Split.lines (s : Split) : List Line :=
  [.declare .u32 (.word s.taken) (.copy (.constant (.u32 [0]) "u32(0)")),
    .declare .u32 (.word s.missed) (.copy (.constant (.u32 [0]) "u32(0)")),
    .ballot (.word s.taken) true s.cond s.current,
    .ballot (.word s.missed) false s.cond s.current]

inductive MaskedText where
  | done
  | statement (line : Line) (next : MaskedText)
  | guarded (test : LaneTest) (body next : MaskedText)
  | branch (split : Split) (body otherwise next : MaskedText)

namespace MaskedText

def lines : MaskedText → List Line
  | .done => []
  | .statement line next => line :: next.lines
  | .guarded test body next =>
    test.lines ++ .openIf (.temp test.active) :: (body.lines ++ .close :: next.lines)
  | .branch split body otherwise next =>
    split.lines ++ .openMask (.word split.taken) :: (body.lines ++
      .openElseMask (.word split.missed) :: (otherwise.lines ++ .close :: next.lines))

def written : MaskedText → List String
  | .done => []
  | .statement line next => line.written ++ next.written
  | .guarded test body next => test.lines.flatMap Line.written ++ body.written ++ next.written
  | .branch split body otherwise next =>
    split.lines.flatMap Line.written ++ body.written ++ otherwise.written ++ next.written

def executed : MaskedText → List Line
  | .done => []
  | .statement line next => line :: next.executed
  | .guarded test body next => test.lines ++ body.executed ++ next.executed
  | .branch split body otherwise next =>
    split.lines ++ body.executed ++ otherwise.executed ++ next.executed

def Proper (current : Spelling) : MaskedText → Prop
  | .done => True
  | .statement line next =>
    line.isStatement = true ∧ current.Spares line.written ∧ next.Proper current
  | .guarded test body next =>
    test.current = current ∧ current.Spares (test.lines.flatMap Line.written) ∧
      current.Spares body.written ∧ body.Proper current ∧ next.Proper current
  | .branch split body otherwise next =>
    split.current = current ∧ current.Spares (split.lines.flatMap Line.written) ∧
      split.cond.Spares (split.lines.flatMap Line.written) ∧ split.taken ≠ split.missed ∧
      current.Spares body.written ∧ current.Spares otherwise.written ∧
      split.missed ∉ body.written ∧ body.Proper (.word split.taken) ∧
      otherwise.Proper (.word split.missed) ∧ next.Proper current

end MaskedText

inductive Entry where
  | own
  | chained

def Entry.lanes (e : Entry) (lanes first second : Lanes) : Lanes :=
  match e with
  | .own => lanes.entered second
  | .chained => if first = 0 then lanes.entered second else 0

variable {first second : Lanes}

theorem Entry.getLsbD_of_lanes {e : Entry} {lanes : Lanes} {l : Lane}
    (h : (e.lanes lanes first second).getLsbD l = true) : lanes.getLsbD l = true := by
  cases e with
  | own => exact Lanes.getLsbD_of_entered h
  | chained =>
    rw [Entry.lanes] at h
    split at h
    · exact Lanes.getLsbD_of_entered h
    · simp at h

theorem Entry.lanes_chained (lanes first second : Lanes) :
    Entry.chained.lanes lanes first second =
      (lanes &&& ~~~lanes.entered first).entered second := by
  rw [Lanes.entered_and_not, Entry.lanes]
  split
  · rfl
  · simp [Lanes.entered]

theorem Entry.lanes_chained_eq_iff {lanes : Lanes} : Entry.chained.lanes lanes first second =
    Entry.own.lanes lanes first second ↔ first = 0 ∨ second = 0 ∨ lanes = 0 := by
  by_cases hf : first = 0
  · simp [Entry.lanes, hf]
  · by_cases hs : second = 0
    · simp [Entry.lanes, Lanes.entered, hs]
    · simp only [Entry.lanes, Lanes.entered, hf, hs, if_false, false_or]
      exact eq_comm

namespace MaskedText

variable {V : Type} (W : WaveMeaning V)

def exec (e : Entry) : MaskedText → Lanes → Wave V → Wave V
  | .done, _, m => m
  | .statement line next, mask, m => next.exec e mask (m.perform W line)
  | .guarded test body next, mask, m =>
    let tested := m.performAll W test.lines
    next.exec e mask (tested.within (m.active &&& mask) (body.exec e mask))
  | .branch split body otherwise next, mask, m =>
    let votes := m.ballot W split.cond
    let first := votes &&& mask
    let second := ~~~votes &&& mask
    let voted := m.performAll W split.lines
    let halfway := voted.within (m.active.entered first) (body.exec e first)
    next.exec e mask (halfway.within (e.lanes m.active first second) (otherwise.exec e second))

def Uncontested : MaskedText → Lanes → Wave V → Prop
  | .done, _, _ => True
  | .statement line next, mask, m => next.Uncontested mask (m.perform W line)
  | .guarded test body next, mask, m =>
    let tested := m.performAll W test.lines
    body.Uncontested mask { tested with active := m.active &&& mask } ∧
      next.Uncontested mask (tested.within (m.active &&& mask) (body.exec W .own mask))
  | .branch split body otherwise next, mask, m =>
    let votes := m.ballot W split.cond
    let first := votes &&& mask
    let second := ~~~votes &&& mask
    let voted := m.performAll W split.lines
    let halfway := voted.within (m.active.entered first) (body.exec W .own first)
    (otherwise = .done ∨ first = 0 ∨ second = 0 ∨ m.active = 0) ∧
      body.Uncontested first { voted with active := m.active.entered first } ∧
      otherwise.Uncontested second { halfway with active := m.active.entered second } ∧
      next.Uncontested mask
        (halfway.within (m.active.entered second) (otherwise.exec W .own second))

end MaskedText

section Headers

variable {V : Type} {W : WaveMeaning V} {m : Wave V} {mask : Lanes} {l : Lane}

theorem LaneTest.ballot_active (t : LaneTest)
    (hs : t.current.Spares (t.lines.flatMap Line.written))
    (hc : ∀ l : Lane, m.active.getLsbD l = true → m.eval W t.current l = W.word mask) :
    (m.performAll W t.lines).ballot W (.temp t.active) = m.active &&& mask := by
  rw [Wave.ballot, Wave.active_performAll, ← Lanes.only_mask]
  refine Lanes.only_congr fun l hl => ?_
  let m₁ := m.perform W (.declare .u32 (.temp t.bit) (.call t.callee [] t.text))
  let m₂ := m₁.perform W (.declare .u32 (.temp t.own) (.binary .bitAnd t.current (.temp t.bit)))
  have hbit : m₁.eval W (.temp t.bit) l = W.word (1#32 <<< l.val) := by
    refine Eq.trans ?_ (W.laneBit l _ t.isLaneBit)
    exact Wave.store_declare rfl hl
  have hcur : m₁.eval W t.current l = W.word mask := by
    refine (Wave.eval_congr fun x hx => congrFun (Wave.store_perform fun hm => hs x hx ?_) l).trans
      (hc l hl)
    exact List.mem_flatMap.mpr ⟨_, by simp [LaneTest.lines], hm⟩
  have hown : m₂.eval W (.temp t.own) l = W.word (mask &&& 1#32 <<< l.val) := by
    rw [← W.bitAnd l, ← hcur, ← hbit]
    exact Wave.store_declare rfl hl
  have hactive : (m.performAll W t.lines).eval W (.temp t.active) l =
      (W.lane l).binary .ne (W.word (mask &&& 1#32 <<< l.val)) (W.word 0) := by
    rw [← W.zero l, ← hown]
    exact Wave.store_declare rfl hl
  rw [hactive, W.ne, Lanes.and_bit_ne_zero]

theorem Split.store_masks (s : Split) (hne : s.taken ≠ s.missed)
    (hs : s.current.Spares (s.lines.flatMap Line.written))
    (hcond : s.cond.Spares (s.lines.flatMap Line.written)) (hl : m.active.getLsbD l = true)
    (hc : m.eval W s.current l = W.word mask) :
    (m.performAll W s.lines).store s.taken l = W.word (m.ballot W s.cond &&& mask) ∧
      (m.performAll W s.lines).store s.missed l = W.word (~~~m.ballot W s.cond &&& mask) := by
  have before (n : Nat) : ((s.lines.take n).flatMap Line.written) ⊆ s.lines.flatMap Line.written :=
    fun x hx => by
      obtain ⟨line, hline, hx⟩ := List.mem_flatMap.mp hx
      exact List.mem_flatMap.mpr ⟨line, List.mem_of_mem_take hline, hx⟩
  have hcur (n : Nat) : (m.performAll W (s.lines.take n)).eval W s.current l = W.word mask :=
    (Wave.eval_performAll (hs.mono (before n))).trans hc
  have hvotes (n : Nat) : (m.performAll W (s.lines.take n)).ballot W s.cond = m.ballot W s.cond :=
    Wave.ballot_performAll (hcond.mono (before n))
  have hactive (n : Nat) : (m.performAll W (s.lines.take n)).active.getLsbD l = true := by
    rw [Wave.active_performAll]
    exact hl
  have htaken : (m.performAll W (s.lines.take 3)).store s.taken l =
      W.word (m.ballot W s.cond &&& mask) := by
    rw [← hvotes 2]
    exact Wave.store_ballot (hactive 2) (hcur 2)
  have hmissed : (m.performAll W s.lines).store s.missed l =
      W.word (~~~m.ballot W s.cond &&& mask) := by
    rw [← hvotes 3]
    exact Wave.store_ballot (hactive 3) (hcur 3)
  refine ⟨?_, hmissed⟩
  rw [← htaken]
  exact congrFun (Wave.store_perform (by simp [Line.written, Spelling.root?, hne])) l

theorem run_chained {f g : Wave V → Wave V} {a b : String}
    {lines others rest : List Line} {frames : List (Lanes × Lanes)}
    (ha : ∀ l : Lane, m.active.getLsbD l = true → m.store a l = W.word first)
    (hb : ∀ l : Lane, m.active.getLsbD l = true → m.store b l = W.word second)
    (hkeep : ∀ m', (f m').store b = m'.store b)
    (hbody : ∀ frames rest,
      WaveRun.run W ⟨{ m with active := m.active.entered first }, frames⟩ (lines ++ rest) =
        WaveRun.run W ⟨f { m with active := m.active.entered first }, frames⟩ rest)
    (hother : ∀ frames rest,
      WaveRun.run W ⟨{ m.within (m.active.entered first) f with
          active := Entry.chained.lanes m.active first second }, frames⟩ (others ++ rest) =
        WaveRun.run W ⟨g { m.within (m.active.entered first) f with
          active := Entry.chained.lanes m.active first second }, frames⟩ rest) :
    WaveRun.run W ⟨m, frames⟩ (.openMask (.word a) :: (lines ++ .openElseMask (.word b) ::
      (others ++ .close :: rest))) = WaveRun.run W ⟨(m.within (m.active.entered first) f).within
        (Entry.chained.lanes m.active first second) g, frames⟩ rest := by
  refine WaveRun.run_masks (Wave.nonzero_of_mask ha) ?_ hbody hother
  rw [Entry.lanes_chained]
  refine Wave.nonzero_of_mask fun l hl => ?_
  rw [BitVec.getLsbD_and, Bool.and_eq_true] at hl
  rw [Wave.eval, hkeep]
  exact hb l hl.1

end Headers

namespace MaskedText

variable {V : Type} {W : WaveMeaning V} {t : MaskedText} {e : Entry} {m : Wave V} {mask : Lanes}

theorem store_exec {x : String} (h : x ∉ t.written) : (t.exec W e mask m).store x = m.store x := by
  induction t generalizing mask m with
  | done => rfl
  | statement line next ih =>
    simp only [written, List.mem_append, not_or] at h
    exact (ih h.2).trans (Wave.store_perform h.1)
  | guarded test body next ihb ihn =>
    simp only [written, List.mem_append, not_or] at h
    exact (ihn h.2).trans ((ihb h.1.2).trans (Wave.store_performAll h.1.1))
  | branch split body otherwise next ihb iho ihn =>
    simp only [written, List.mem_append, not_or] at h
    exact (ihn h.2).trans ((iho h.1.2).trans ((ihb h.1.1.2).trans (Wave.store_performAll h.1.1.1)))

variable {s : Spelling} {l : Lane}

theorem eval_exec (h : s.Spares t.written) : (t.exec W e mask m).eval W s l = m.eval W s l :=
  Wave.eval_congr fun x hx => congrFun (store_exec (h x hx)) l

theorem eval_within_exec {lanes : Lanes} (h : s.Spares t.written) :
    (m.within lanes (t.exec W e mask)).eval W s l = m.eval W s l := by
  rw [Wave.eval_within, eval_exec h, Wave.eval_lanes]

theorem run_lines {current : Spelling} (ht : t.Proper current)
    (hc : ∀ l : Lane, m.active.getLsbD l = true → m.eval W current l = W.word mask)
    (frames : List (Lanes × Lanes)) (rest : List Line) :
    WaveRun.run W ⟨m, frames⟩ (t.lines ++ rest) =
      WaveRun.run W ⟨t.exec W .chained mask m, frames⟩ rest := by
  induction t generalizing current mask m frames rest with
  | done => rfl
  | statement line next ih =>
    obtain ⟨hline, hs, hnext⟩ := ht
    rw [lines, List.cons_append, WaveRun.run_cons, WaveRun.step_statement hline, Option.bind_some]
    refine ih hnext (fun l hl => ?_) frames rest
    exact (Wave.eval_congr fun x hx => congrFun (Wave.store_perform (hs x hx)) l).trans (hc l hl)
  | guarded test body next ihb ihn =>
    obtain ⟨rfl, hs, hsb, hbody, hnext⟩ := ht
    have hcur (l : Lane) (hl : m.active.getLsbD l = true) :
        (m.performAll W test.lines).eval W test.current l = W.word mask :=
      (Wave.eval_performAll hs).trans (hc l hl)
    rw [lines, List.append_assoc, WaveRun.run_statements (by simp [LaneTest.lines, Line.isStatement]),
      List.cons_append, List.append_assoc, List.cons_append]
    refine (WaveRun.run_block (f := body.exec W .chained mask) ?_ fun frames rest => ?_).trans
      (ihn hnext (fun l hl => ?_) frames rest)
    · rw [WaveRun.step, test.ballot_active hs hc]
    · refine ihb hbody (fun l hl => ?_) frames rest
      rw [BitVec.getLsbD_and, Bool.and_eq_true] at hl
      rw [Wave.eval_lanes, hcur l hl.1]
    · rw [Wave.within, Wave.active_performAll] at hl
      rw [eval_within_exec hsb, hcur l hl]
  | branch split body otherwise next ihb iho ihn =>
    obtain ⟨rfl, hs, hcond, hne, hsb, hso, hmissed, hbody, hother, hnext⟩ := ht
    have hactive : (m.performAll W split.lines).active = m.active := Wave.active_performAll
    have hcur (l : Lane) (hl : m.active.getLsbD l = true) :
        (m.performAll W split.lines).eval W split.current l = W.word mask :=
      (Wave.eval_performAll hs).trans (hc l hl)
    have hmasks (l : Lane) (hl : m.active.getLsbD l = true) :=
      split.store_masks hne hs hcond hl (hc l hl)
    rw [lines, List.append_assoc, WaveRun.run_statements (by simp [Split.lines, Line.isStatement])]
    simp only [List.cons_append, List.append_assoc]
    rw [run_chained (f := body.exec W .chained (m.ballot W split.cond &&& mask))
      (g := otherwise.exec W .chained (~~~m.ballot W split.cond &&& mask))
      (fun l hl => (hmasks l (hactive ▸ hl)).1) (fun l hl => (hmasks l (hactive ▸ hl)).2)
      (fun _ => store_exec hmissed) (fun frames rest => ?_) fun frames rest => ?_]
    · rw [hactive]
      refine ihn hnext (fun l hl => ?_) frames rest
      rw [Wave.within, Wave.within, hactive] at hl
      rw [eval_within_exec hso, eval_within_exec hsb, hcur l hl]
    · refine ihb hbody (fun l hl => ?_) frames rest
      exact (hmasks l (hactive ▸ Lanes.getLsbD_of_entered hl)).1
    · refine iho hother (fun l hl => ?_) frames rest
      rw [Wave.eval_lanes, eval_within_exec (by simpa [Spelling.Spares, Spelling.mentions])]
      exact (hmasks l (hactive ▸ Entry.getLsbD_of_lanes hl)).2

theorem records_exec : m.Records (t.exec W e mask m) t.executed := by
  induction t generalizing mask m with
  | done => exact .refl m
  | statement line next ih => exact (Wave.records_performAll m [line]).trans ih
  | guarded test body next ihb ihn =>
    exact ((Wave.records_performAll m _).trans (.within ihb)).trans ihn
  | branch split body otherwise next ihb iho ihn =>
    exact (((Wave.records_performAll m _).trans (.within ihb)).trans (.within iho)).trans ihn

theorem begins_exec (h : t ≠ .done) : m.Begins (t.exec W e mask m) := by
  cases t with
  | done => exact absurd rfl h
  | statement line next => exact (Wave.begins_performAll m line []).then records_exec
  | guarded test body next =>
    exact ((Wave.begins_performAll m _ _).then (.within records_exec)).then records_exec
  | branch split body otherwise next =>
    exact (((Wave.begins_performAll m _ _).then (.within records_exec)).then
      (.within records_exec)).then records_exec

theorem exec_of_uncontested (h : t.Uncontested W mask m) :
    t.exec W .chained mask m = t.exec W .own mask m := by
  induction t generalizing mask m with
  | done => rfl
  | statement line next ih => exact ih h
  | guarded test body next ihb ihn =>
    obtain ⟨hb, hn⟩ := h
    simp only [exec]
    rw [Wave.within_congr (ihb hb), ihn hn]
  | branch split body otherwise next ihb iho ihn =>
    obtain ⟨hfree, hb, ho, hn⟩ := h
    simp only [exec]
    rw [Wave.within_congr (ihb hb)]
    rcases hfree with rfl | hfree
    · exact ihn hn
    · rw [Entry.lanes_chained_eq_iff.mpr hfree, Entry.lanes, Wave.within_congr (iho ho), ihn hn]

theorem uncontested_of_trace
    (h : (t.exec W .chained mask m).trace = (t.exec W .own mask m).trace) :
    t.Uncontested W mask m := by
  induction t generalizing mask m with
  | done => trivial
  | statement line next ih => exact ih h
  | guarded test body next ihb ihn =>
    simp only [exec] at h
    have hmid := Wave.Records.trace_eq (records_exec (t := next)) records_exec h
    have hb := ihb (m := { m.performAll W test.lines with active := m.active &&& mask }) hmid
    rw [Wave.within_congr (exec_of_uncontested hb)] at h
    exact ⟨hb, ihn h⟩
  | branch split body otherwise next ihb iho ihn =>
    simp only [exec] at h
    -- The records agree after each branch, so each branch agrees.
    have hafter := Wave.Records.trace_eq (records_exec (t := next)) records_exec h
    have hmid := Wave.Records.trace_eq (.within (records_exec (t := otherwise)))
      (.within records_exec) hafter
    have hb := ihb (m := { m.performAll W split.lines with
      active := m.active.entered (m.ballot W split.cond &&& mask) }) hmid
    rw [Wave.within_congr (exec_of_uncontested hb)] at h hafter
    by_cases hdone : otherwise = .done
    · subst hdone
      exact ⟨.inl rfl, hb, trivial, ihn h⟩
    · have hlanes := Wave.Begins.lanes_eq (begins_exec hdone) (begins_exec hdone) hafter
      have hfree := Entry.lanes_chained_eq_iff.mp hlanes
      rw [Entry.lanes_chained_eq_iff.mpr hfree] at h hafter
      have ho := iho hafter
      rw [Wave.within_congr (exec_of_uncontested ho)] at h
      exact ⟨.inr hfree, hb, ho, ihn h⟩

end MaskedText

end ComputeKernel
