import ComputeKernel.Proofs.BlockProgram
import ComputeKernel.Proofs.KnownTypes
import ComputeKernel.Proofs.Memoisation

namespace ComputeKernel

def Literal.written (l : Literal) : String := l.text.toOption.getD ""

namespace Expr

def spelling : Expr → Spelling
  | .literal _ value => .constant value value.written
  | .resource _ res => .word res.name
  | .input _ i => .word i.name
  | .storage _ name _ => .word name
  | .swizzle _ base lanes => .member base.spelling lanes
  | .field _ base name => .member base.spelling name
  | .element _ base index => .element base.spelling index
  | .elementAt _ base index => .elementAt base.spelling index.spelling
  | e => .temp e.id

section Value

variable {V : Type} (M : Meaning V) (ρ : String → V)

mutual

def denote : Expr → V
  | .literal _ value => M.constant value.written
  | .unary _ op operand =>
    if op = .assign then denote operand else M.unary op (denote operand)
  | .binary _ op lhs rhs => M.binary op (denote lhs) (denote rhs)
  | .call _ callee args => M.call callee (denoteAll args)
  | .resource _ res => ρ res.name
  | .input _ i => ρ i.name
  | .array _ elem length init => M.array elem length (init.map fun l => M.constant l.written)
  | .swizzle _ base lanes => M.member (denote base) lanes
  | .field _ base name => M.member (denote base) name
  | .element _ base index => M.element (denote base) index
  | .elementAt _ base index => M.elementAt (denote base) (denote index)
  | .storage _ name _ => ρ name
  | .zeroed _ ty => M.zero ty
  | .select _ cond yes no => if M.truth (denote cond) then denote yes else denote no

def denoteAll : List Expr → List V
  | [] => []
  | e :: rest => denote e :: denoteAll rest

end

end Value

def isAssignment : Expr → Bool
  | .binary _ op _ _ => op.isAssign
  | _ => false

end Expr

structure PlainDag extends Dag where
  plain : ∀ {e}, contains e → e.isAssignment = false
  worded : ∀ {e name}, contains e → e.defaultName = .word name → ∀ id, name ≠ (Spelling.temp id).text

structure Named (dag : PlainDag) (s : Sheet) : Prop where
  either : ∀ e, dag.contains e → s.nodes.name e = e.defaultName ∨ s.nodes.name e = e.spelling
  visible : ∀ e, dag.contains e → e.id ∈ s.draft.scopes.visible → s.nodes.name e = e.spelling
  closed : dag.Closed s.draft.scopes.visible

def Valued (dag : PlainDag) (types : IdTable Ty) : Prop :=
  ∀ id callee args, dag.contains (.call id callee args) → types.find? id ≠ some .void

section Running

variable {V : Type} (M : Meaning V) (ρ : String → V) (dag : PlainDag)

structure Holds (s : Sheet) (m : Machine V) : Prop where
  live : m.top.live = true
  words : ∀ e name, dag.contains e → e.defaultName = .word name → m.read name = some (ρ name)
  values : ∀ e, dag.contains e → e.id ∈ s.draft.scopes.visible →
    m.eval M (s.nodes.name e) = some (e.denote M ρ)

def Computes (es : List Expr) (s s' : Sheet) (lines : List Line) : Prop :=
  ∀ m, Holds M ρ dag s m → ∃ added, m.run M lines = some (m.declareAll added) ∧
    Holds M ρ dag s' (m.declareAll added) ∧
    ∀ x ∈ added.map Prod.fst, ∃ id, x = (Spelling.temp id).text ∧ UsedBy es id

structure Produces (es : List Expr) (s s' : Sheet) : Prop where
  named : Named dag s'
  grown : Grown es s.draft.scopes s'.draft.scopes
  types : s.nodes.types.Extends s'.nodes.types
  text : ∃ lines, s'.draft.lines = s.draft.lines ++ lines ∧ Skipped M lines ∧
    (Valued dag s'.nodes.types → Computes M ρ dag es s s' lines)

end Running

section Names

variable {dag : PlainDag} {e d : Expr} {visible : List Nat}

theorem Dag.Closed.prerequisite {dag : Dag} (hc : dag.Closed visible) (he : dag.contains e)
    (hv : e.id ∈ visible) (hd : d ∈ e.prerequisites) : dag.contains d ∧ d.id ∈ visible :=
  ⟨dag.operands he (e.prerequisites_subset hd), hc e he hv d hd⟩

theorem temps_spelling_visible (hc : dag.Closed visible) (he : dag.contains e)
    (hv : e.id ∈ visible) : ∀ id ∈ e.spelling.temps, id ∈ visible := by
  fun_induction Expr.spelling e with
  | case5 _ base _ ih | case6 _ base _ ih | case7 _ base _ ih =>
    obtain ⟨hb, hbv⟩ := hc.prerequisite he hv (.head _)
    exact ih hb hbv
  | case8 _ base index ihb ihi =>
    obtain ⟨hb, hbv⟩ := hc.prerequisite he hv (.head _)
    obtain ⟨hi, hiv⟩ := hc.prerequisite he hv (.tail _ (.head _))
    intro id hid
    exact (List.mem_append.mp hid).elim (ihb hb hbv id) (ihi hi hiv id)
  | case9 e => simpa [Spelling.temps] using hv
  | _ => simp [Spelling.temps]

theorem words_spelling_ne_temp (he : dag.contains e) :
    ∀ word ∈ e.spelling.words, ∀ id, word ≠ (Spelling.temp id).text := by
  fun_induction Expr.spelling e with
  | case2 | case3 | case4 =>
    intro word hw
    rw [List.mem_singleton.mp hw]
    exact dag.worded he rfl
  | case5 _ base _ ih | case6 _ base _ ih | case7 _ base _ ih =>
    exact ih (dag.operands he (by simp))
  | case8 _ base index ihb ihi =>
    intro word hw
    refine (List.mem_append.mp hw).elim (ihb (dag.operands he ?_) word)
      (ihi (dag.operands he ?_) word) <;> simp
  | _ => simp [Spelling.words]

end Names

def Sheet.mark (s : Sheet) (id : Nat) : Sheet := { s with draft := s.draft.mark id }

section Steps

variable {V : Type} {M : Meaning V} {ρ : String → V} {dag : PlainDag} {e : Expr}
  {es fs : List Expr} {s s' s'' : Sheet} {m m' : Machine V} {lines rest : List Line}

namespace Named

theorem redraft (h : Named dag s) {d : Draft} (hs : d.scopes = s.draft.scopes) :
    Named dag { s with draft := d } where
  either := h.either
  visible e he hv := h.visible e he (hs ▸ hv)
  closed := hs.symm ▸ h.closed

theorem mark (h : Named dag s) (he : dag.contains e) (hname : s.nodes.name e = e.spelling)
    (hp : ∀ d ∈ e.prerequisites, d.id ∈ s.draft.scopes.visible) : Named dag (s.mark e.id) where
  either := h.either
  visible d hd hv := by
    rcases Memo.mem_visible_mark.mp hv with same | hv
    · rw [dag.numbered hd he same]
      exact hname
    · exact h.visible d hd hv
  closed := Memo.closed_mark he h.closed hp

theorem rename (h : Named dag s) (he : dag.contains e) :
    Named dag { s with nodes := s.nodes.rename e.id e.spelling } where
  either d hd := by
    by_cases same : d.id = e.id
    · rw [dag.numbered hd he same]
      exact .inr (by simp [Nodes.name, Nodes.rename])
    · simpa [Nodes.name, Nodes.rename, same] using h.either d hd
  visible d hd hv := by
    by_cases same : d.id = e.id
    · rw [dag.numbered hd he same]
      simp [Nodes.name, Nodes.rename]
    · simpa [Nodes.name, Nodes.rename, same] using h.visible d hd hv
  closed := h.closed

theorem start (first : Nat) (settings : Settings) : Named dag ⟨.start first, .start settings⟩ where
  either _ _ := .inl rfl
  visible _ _ hv := by cases hv
  closed _ _ hv := by cases hv

theorem name_eq (h : Named dag s) (he : dag.contains e) (hd : e.defaultName = e.spelling) :
    s.nodes.name e = e.spelling :=
  (h.either e he).elim (fun h => h.trans hd) fun h => h

end Named

namespace Holds

theorem start (first : Nat) (settings : Settings) :
    Holds M ρ dag ⟨.start first, .start settings⟩ (.start ρ) where
  live := rfl
  words _ _ _ _ := rfl
  values _ _ hv := by cases hv

theorem value (h : Holds M ρ dag s m) (hn : Named dag s) (he : dag.contains e)
    (hv : e.id ∈ s.draft.scopes.visible) : m.eval M e.spelling = some (e.denote M ρ) := by
  rw [← hn.visible e he hv]
  exact h.values e he hv

theorem of_sheet (h : Holds M ρ dag s m) (hn : Named dag s) (hn' : Named dag s')
    (hs : s'.draft.scopes.visible ⊆ s.draft.scopes.visible) : Holds M ρ dag s' m where
  live := h.live
  words := h.words
  values e he hv := by
    rw [hn'.visible e he hv]
    exact h.value hn he (hs hv)

theorem of_read (h : Holds M ρ dag s m) (hlive : m'.top.live = true)
    (hr : ∀ x, m'.read x = m.read x) : Holds M ρ dag s m' where
  live := hlive
  words e name he hd := (hr name).trans (h.words e name he hd)
  values e he hv := by
    rw [Machine.eval_congr (fun id _ => hr _) fun word _ => hr word]
    exact h.values e he hv

theorem declareAll (h : Holds M ρ dag s m) (hn : Named dag s) {added : List (String × Option V)}
    (hnew : ∀ x ∈ added.map Prod.fst,
      ∃ id, x = (Spelling.temp id).text ∧ id ∉ s.draft.scopes.visible) :
    Holds M ρ dag s (m.declareAll added) where
  live := h.live
  words e name he hd := by
    rw [Machine.read_declareAll_of_not_mem, h.words e name he hd]
    intro hm
    obtain ⟨id, hid, -⟩ := hnew name hm
    exact dag.worded he hd id hid
  values e he hv := by
    rw [← h.values e he hv, hn.visible e he hv]
    refine Machine.eval_congr (fun id hid => ?_) fun word hw => ?_
    · refine Machine.read_declareAll_of_not_mem fun hm => ?_
      obtain ⟨other, htext, hother⟩ := hnew _ hm
      rw [← Spelling.text_temp_injective htext] at hother
      exact hother (temps_spelling_visible hn.closed he hv id hid)
    · refine Machine.read_declareAll_of_not_mem fun hm => ?_
      obtain ⟨id, hid, -⟩ := hnew word hm
      exact words_spelling_ne_temp he word hw id hid

end Holds

theorem Valued.of_extends {t t' : IdTable Ty} (h : Valued dag t') (ht : t.Extends t') :
    Valued dag t := fun id callee args hc hf => h id callee args hc (ht id .void hf)

namespace Produces

theorem refl (hn : Named dag s) (es : List Expr) : Produces M ρ dag es s s where
  named := hn
  grown := .refl es _
  types := .refl _
  text := ⟨[], (List.append_nil _).symm, fun _ _ => rfl, fun _ _ h => ⟨[], rfl, h, by simp⟩⟩

theorem retype (hn : Named dag s) {t : IdTable Ty} (ht : s.nodes.types.Extends t)
    (es : List Expr) : Produces M ρ dag es s { s with nodes := { s.nodes with types := t } } where
  named := ⟨hn.either, hn.visible, hn.closed⟩
  grown := .refl es _
  types := ht
  text := ⟨[], (List.append_nil _).symm, fun _ _ => rfl, fun _ _ h => ⟨[], rfl, ⟨h.live, h.words,
    h.values⟩, by simp⟩⟩

theorem redraft (hn : Named dag s) {d : Draft} (hs : d.scopes = s.draft.scopes)
    (hl : d.lines = s.draft.lines) (es : List Expr) :
    Produces M ρ dag es s { s with draft := d } where
  named := hn.redraft hs
  grown := hs.symm ▸ .refl es _
  types := .refl _
  text := by
    refine ⟨[], by simpa using hl, fun _ _ => rfl, fun _ m h => ⟨[], rfl, ?_, by simp⟩⟩
    exact h.of_sheet hn (hn.redraft hs) (hs.symm ▸ fun _ hm => hm)

theorem mono (h : Produces M ρ dag es s s') (hs : es ⊆ fs) : Produces M ρ dag fs s s' where
  named := h.named
  grown := h.grown.mono hs
  types := h.types
  text := by
    obtain ⟨lines, hl, hskip, hrun⟩ := h.text
    refine ⟨lines, hl, hskip, fun hv m hm => ?_⟩
    obtain ⟨added, hadd, hh, hx⟩ := hrun hv m hm
    refine ⟨added, hadd, hh, fun x hxm => ?_⟩
    obtain ⟨id, hid, d, hd, hu⟩ := hx x hxm
    exact ⟨id, hid, d, hs hd, hu⟩

theorem trans (h : Produces M ρ dag es s s') (h' : Produces M ρ dag es s' s'') :
    Produces M ρ dag es s s'' where
  named := h'.named
  grown := h.grown.trans h'.grown
  types := h.types.trans h'.types
  text := by
    obtain ⟨lines, hl, hskip, hrun⟩ := h.text
    obtain ⟨rest, hl', hskip', hrun'⟩ := h'.text
    refine ⟨lines ++ rest, by rw [hl', hl, List.append_assoc], hskip.append hskip', ?_⟩
    intro hv m hm
    obtain ⟨added, hadd, hh, hx⟩ := hrun (hv.of_extends h'.types) m hm
    obtain ⟨more, hadd', hh', hx'⟩ := hrun' hv _ hh
    rw [Machine.declareAll_declareAll] at hadd' hh'
    refine ⟨more ++ added, ?_, hh', fun x hxm => ?_⟩
    · rw [Machine.run_append, hadd]
      exact hadd'
    · rw [List.map_append] at hxm
      exact (List.mem_append.mp hxm).elim (hx' x) (hx x)

theorem not_visible (h : Produces M ρ dag es s s') (he : dag.contains e) (hs : es ⊆ e.operands)
    (hid : e.id ∉ s.draft.scopes.visible) : e.id ∉ s'.draft.scopes.visible := by
  intro hm
  rcases h.grown.used _ hm with hold | ⟨c, hc, d, hd, hdid⟩
  · exact hid hold
  · exact Dag.id_ne_of_operand_uses he (hs hc) hd hdid

theorem finish (h : Produces M ρ dag e.operands s s') (he : dag.contains e)
    (hid : e.id ∉ s.draft.scopes.visible) (hn : Named dag s'')
    (hname : s''.nodes.name e = e.spelling) (hs : s''.draft.scopes = s'.draft.scopes)
    (hp : ∀ d ∈ e.prerequisites, d.id ∈ s'.draft.scopes.visible)
    (ht : s'.nodes.types.Extends s''.nodes.types)
    (hl : s''.draft.lines = s'.draft.lines ++ lines) (hskip : Skipped M lines)
    (hrun : Valued dag s''.nodes.types → ∀ m, Holds M ρ dag s' m →
      ∃ added, m.run M lines = some (m.declareAll added) ∧
        (∀ x ∈ added.map Prod.fst, x = (Spelling.temp e.id).text) ∧
        (m.declareAll added).eval M e.spelling = some (e.denote M ρ)) :
    Produces M ρ dag [e] s (s''.mark e.id) := by
  have hid' : e.id ∉ s'.draft.scopes.visible := h.not_visible he (fun _ hd => hd) hid
  have hmarked : Named dag (s''.mark e.id) := hn.mark he hname (hs ▸ hp)
  have hgrown : Grown [e] s.draft.scopes (s''.mark e.id).draft.scopes := by
    simpa only [Sheet.mark, Draft.mark, hs] using h.grown.mark
  refine ⟨hmarked, hgrown, h.types.trans ht, ?_⟩
  obtain ⟨front, hfront, hskipf, hrunf⟩ := h.text
  refine ⟨front ++ lines, ?_, hskipf.append hskip, fun hv m hm => ?_⟩
  · rw [← List.append_assoc, ← hfront]
    exact hl
  · obtain ⟨added, hadd, hh, hx⟩ := hrunf (hv.of_extends ht) m hm
    obtain ⟨more, hmore, hxm, hval⟩ := hrun hv _ hh
    have hlater : Holds M ρ dag s' ((m.declareAll added).declareAll more) :=
      hh.declareAll h.named fun x hx => ⟨e.id, hxm x hx, hid'⟩
    rw [Machine.declareAll_declareAll] at hmore hval hlater
    refine ⟨more ++ added, ?_, ⟨hlater.live, hlater.words, fun d hd hdv => ?_⟩, fun x hx' => ?_⟩
    · rw [Machine.run_append, hadd]
      exact hmore
    · rw [hmarked.visible d hd hdv]
      rcases Memo.mem_visible_mark.mp hdv with same | hdv
      · rw [dag.numbered hd he same]
        exact hval
      · exact hlater.value h.named hd (hs ▸ hdv)
    · rw [List.map_append] at hx'
      rcases List.mem_append.mp hx' with hx' | hx'
      · exact ⟨e.id, hxm x hx', e, by simp, e, .self, rfl⟩
      · obtain ⟨id, hidx, c, hc, d, hd, hdid⟩ := hx x hx'
        exact ⟨id, hidx, e, by simp, d, .of_operand hc hd, hdid⟩

theorem finish_rename (h : Produces M ρ dag e.operands s s') (he : dag.contains e)
    (hid : e.id ∉ s.draft.scopes.visible)
    (hp : ∀ d ∈ e.prerequisites, d.id ∈ s'.draft.scopes.visible)
    (hval : ∀ m, Holds M ρ dag s' m → m.eval M e.spelling = some (e.denote M ρ)) :
    Produces M ρ dag [e] s
      (Sheet.mark { s' with nodes := s'.nodes.rename e.id e.spelling } e.id) := by
  refine h.finish he hid (h.named.rename he) (by simp [Nodes.name, Nodes.rename]) rfl hp (.refl _)
    (List.append_nil _).symm (fun m _ => rfl) fun _ m hm => ⟨[], rfl, by simp, ?_⟩
  exact hval m hm

theorem finish_line (h : Produces M ρ dag e.operands s s') (he : dag.contains e)
    (hid : e.id ∉ s.draft.scopes.visible) (hsp : e.spelling = .temp e.id)
    (hd : e.defaultName = e.spelling)
    (hp : ∀ d ∈ e.prerequisites, d.id ∈ s'.draft.scopes.visible) {line : Line}
    (hskip : ∀ m : Machine V, m.top.live = false → m.step M line = some m)
    (hstep : Valued dag s'.nodes.types → ∀ m, Holds M ρ dag s' m →
      m.step M line = some (m.declareAll [((Spelling.temp e.id).text, some (e.denote M ρ))])) :
    Produces M ρ dag [e] s (Sheet.mark { s' with draft := s'.draft.write line } e.id) := by
  have hn : Named dag { s' with draft := s'.draft.write line } :=
    h.named.redraft (Draft.scopes_write _ _)
  refine h.finish he hid hn (hn.name_eq he hd) (Draft.scopes_write _ _) hp (.refl _) (Draft.lines_write _ _)
    (fun m hm => ?_) fun hv m hm =>
      ⟨[((Spelling.temp e.id).text, some (e.denote M ρ))], ?_, ?_, ?_⟩
  · simp [hskip m hm]
  · simp [hstep hv m hm]
  · simp
  · rw [hsp]
    exact Machine.read_declareAll_self

theorem finish_declare (h : Produces M ρ dag e.operands s s') (he : dag.contains e)
    (hid : e.id ∉ s.draft.scopes.visible) (hsp : e.spelling = .temp e.id)
    (hd : e.defaultName = e.spelling)
    (hp : ∀ d ∈ e.prerequisites, d.id ∈ s'.draft.scopes.visible) {ty : Ty} {value : Initial}
    (hval : ∀ m, Holds M ρ dag s' m → m.initial M ty value = some (e.denote M ρ)) :
    Produces M ρ dag [e] s
      (Sheet.mark { s' with draft := s'.draft.write (.declare ty e.spelling value) } e.id) := by
  refine h.finish_line he hid hsp hd hp (fun m hm => ?_) fun _ m hm => ?_
  · simp [Machine.step_of_not_live hm, Machine.pass]
  · simp [Machine.step_of_live hm.live, Machine.act, hsp, Spelling.variableName?, hval m hm]

end Produces

end Steps

section Emission

variable {V : Type} {M : Meaning V} {ρ : String → V} {dag : PlainDag} {e : Expr}
  {s s' : Sheet} {m : Machine V}

theorem once_produces {body : Ty → Emit Unit} (hn : Named dag s)
    (hbody : ∀ ty s', Named dag s' → e.id ∉ s'.draft.scopes.visible →
      s'.nodes.types.find? e.id = some ty →
      Ensures (body ty) s' (fun _ s'' => Produces M ρ dag [e] s' (s''.mark e.id)) fun _ => True) :
    Ensures (Emit.once e body) s
      (fun _ s' => Produces M ρ dag [e] s s' ∧ e.id ∈ s'.draft.scopes.visible) fun _ => True := by
  by_cases hv : s.draft.scopes.isVisible e.id = true
  · exact ensures_ok (once_of_visible hv)
      ⟨.refl hn _, Scopes.isVisible_iff.mp hv⟩
  · have hid : e.id ∉ s.draft.scopes.visible := fun h => hv (Scopes.isVisible_iff.mpr h)
    refine Ensures.of_eq (once_of_hidden hv) (.bind (ensures_typing ?_))
    refine (e.inferType_spec s.nodes.types).mono (fun ty t ht => ?_) fun _ _ => trivial
    have h1 : Produces M ρ dag [e] s { s with nodes := { s.nodes with types := t } } :=
      .retype hn ht.1 _
    refine .bind ((hbody ty _ h1.named hid ht.2).imp fun _ s2 h2 => ?_)
    exact ensures_redraft ⟨h1.trans h2, Memo.mem_visible_mark.mpr (.inl rfl)⟩

variable (M ρ) in
theorem drafting_produces {α : Type} {x : Drafting α} (es : List Expr)
    (hx : Keeps (fun d => (d.scopes, d.lines)) x) (hn : Named dag s) :
    Ensures (Emit.drafting x) s (fun _ s' => Produces M ρ dag es s s') fun _ => True := by
  refine ensures_drafting ((hx s.draft).mono (fun _ d hd => ?_) fun _ _ => trivial)
  obtain ⟨hs, hl⟩ := Prod.mk.inj hd
  exact .redraft hn hs hl es

structure Branches (M : Meaning V) (ρ : String → V) (dag : PlainDag) (target value : Expr)
    (s s' : Sheet) : Prop where
  named : Named dag s'
  scopes : s'.draft.scopes = s.draft.scopes
  types : s.nodes.types.Extends s'.nodes.types
  text : ∃ lines, s'.draft.lines = s.draft.lines ++ lines ∧ Skipped M lines ∧
    (Valued dag s'.nodes.types → ∀ m, Holds M ρ dag s m → ∀ otherwise, ∃ added,
      ((m.declareAll [((Spelling.temp target.id).text, none)]).enter true otherwise).run M lines =
        some (((m.declareAll [((Spelling.temp target.id).text, some (value.denote M ρ)),
          ((Spelling.temp target.id).text, none)]).enter true otherwise).declareAll added))

theorem branch_branches {cond target value : Expr} {body : Emit Unit} (ht : dag.contains target)
    (hsp : target.spelling = .temp target.id) (hd : target.defaultName = target.spelling)
    (hv : value ∈ target.operands) (hid : target.id ∉ s.draft.scopes.visible) (hn : Named dag s)
    (hbody : ∀ s, Named dag s → Ensures body s (fun _ s' =>
      Produces M ρ dag [value] s s' ∧ value.id ∈ s'.draft.scopes.visible) fun _ => True) :
    Ensures (Emit.branch cond target value body) s
      (fun _ s' => Branches M ρ dag target value s s') fun _ => True := by
  let s1 : Sheet := { s with draft := s.draft.enterScope (some cond) }
  have hn1 : Named dag s1 := ⟨hn.either, hn.visible, hn.closed⟩
  refine .bind (ensures_redraft (.bind ((hbody s1 hn1).imp ?_)))
  rintro _ s2 ⟨h2, hv2⟩
  refine .bind (ensures_nameOf (.bind (ensures_nameOf ?_)))
  refine .bind (ensures_write (ensures_drafting ?_))
  rw [h2.named.name_eq ht hd, hsp, h2.named.visible value (dag.operands ht hv) hv2]
  have hleave : (s2.draft.write (.assign (.temp target.id) .assign value.spelling)).scopes.leave? =
      some s.draft.scopes := by
    rw [Draft.scopes_write]
    exact Memo.leave_of_push h2.grown.stack
  refine ensures_ok (exitScope_of_leave hleave) ?_
  have hvis : s.draft.scopes.visible ⊆ s2.draft.scopes.visible := h2.grown.visible
  refine ⟨⟨h2.named.either, fun e he hev => h2.named.visible e he (hvis hev), hn.closed⟩, rfl,
    h2.types, ?_⟩
  obtain ⟨lines, hl, hskip, hrun⟩ := h2.text
  refine ⟨lines ++ [.assign (.temp target.id) .assign value.spelling], ?_, ?_, ?_⟩
  · rw [← List.append_assoc]
    exact (Draft.lines_write _ _).trans (congrArg (· ++ _) hl)
  · refine hskip.append fun m hm => ?_
    simp [Machine.step_of_not_live hm, Machine.pass]
  · intro hvalued m hm otherwise
    have hr : Holds M ρ dag s (m.declareAll [((Spelling.temp target.id).text, none)]) :=
      hm.declareAll hn (by simpa using ⟨target.id, rfl, hid⟩)
    have hin : Holds M ρ dag s1
        ((m.declareAll [((Spelling.temp target.id).text, none)]).enter true otherwise) :=
      ⟨rfl, (hr.of_read rfl fun x => Machine.read_enter _ _).words,
        (hr.of_read rfl fun x => Machine.read_enter _ _).values⟩
    obtain ⟨added, hadd, hh, hx⟩ := hrun hvalued _ hin
    have hfresh : (Spelling.temp target.id).text ∉ added.map Prod.fst := by
      intro hmem
      obtain ⟨id, hid', c, hc, d, hd', hdid⟩ := hx _ hmem
      rw [List.mem_singleton.mp hc] at hd'
      have := Spelling.text_temp_injective hid'
      exact Dag.id_ne_of_operand_uses ht hv hd' (hdid.trans this.symm)
    refine ⟨added, ?_⟩
    rw [Machine.run_append, hadd]
    have hval := hh.value h2.named (dag.operands ht hv) hv2
    simp [Machine.step_of_live hh.live, Machine.act, Spelling.variableName?, hval,
      Machine.assign_reserved hfresh]

theorem select_produces {id : Nat} {cond yes no : Expr} {ty : Ty} {s1 s2 s3 : Sheet}
    (he : dag.contains (.select id cond yes no)) (hid : id ∉ s.draft.scopes.visible)
    (h1 : Produces M ρ dag [cond] s s1) (hc : cond.id ∈ s1.draft.scopes.visible)
    (hyes : Branches M ρ dag (.select id cond yes no) yes
      { s1 with draft := (s1.draft.write (.reserve ty (.temp id))).write (.openIf cond.spelling) } s2)
    (hno : Branches M ρ dag (.select id cond yes no) no
      { s2 with draft := s2.draft.write .openElse } s3) :
    Produces M ρ dag [.select id cond yes no] s
      (Sheet.mark { s3 with draft := s3.draft.write .close } id) := by
  obtain ⟨first, hl2, hskip2, hrun2⟩ := hyes.text
  obtain ⟨second, hl3, hskip3, hrun3⟩ := hno.text
  have hcond : dag.contains cond := dag.operands he (by simp)
  have hs2 : s2.draft.scopes = s1.draft.scopes := by
    simpa only [Draft.scopes_write] using hyes.scopes
  have hs3 : s3.draft.scopes = s1.draft.scopes := by
    simpa only [Draft.scopes_write, hs2] using hno.scopes
  have hn4 : Named dag { s3 with draft := s3.draft.write .close } :=
    hno.named.redraft (Draft.scopes_write _ _)
  have hl4 : (s3.draft.write .close).lines = s1.draft.lines ++
      ([.reserve ty (.temp id), .openIf cond.spelling] ++
        (first ++ ([.openElse] ++ (second ++ [.close])))) := by
    simp only [Draft.lines_write, hl3, hl2, List.append_assoc, List.cons_append, List.nil_append]
  refine Produces.finish (h1.mono (by simp)) he hid hn4
    (hn4.name_eq he rfl) ((Draft.scopes_write _ _).trans hs3)
    (by simpa [Expr.prerequisites] using hc) (hyes.types.trans hno.types) hl4
    (Skipped.select hskip2 hskip3) fun hv m hm => ?_
  have hid1 : id ∉ s1.draft.scopes.visible :=
    h1.not_visible he (by simp) hid
  have hr : Holds M ρ dag s1 (m.declareAll [((Spelling.temp id).text, none)]) :=
    hm.declareAll h1.named (by simpa using ⟨id, rfl, hid1⟩)
  have hvis (t : Sheet) (hn : Named dag t) (hs : t.draft.scopes = s1.draft.scopes) :
      Holds M ρ dag t m := hm.of_sheet h1.named hn (hs ▸ fun _ h => h)
  refine ⟨_, Machine.run_select hm.live (hr.value h1.named hcond hc) hskip2 hskip3
    (fun ht => ?_) (fun hf => ?_), ?_, Machine.read_declareAll_self⟩
  · rw [Expr.denote, if_pos ht]
    have hs : ((s1.draft.write (.reserve ty (.temp id))).write (.openIf cond.spelling)).scopes =
        s1.draft.scopes := by rw [Draft.scopes_write, Draft.scopes_write]
    exact hrun2 (hv.of_extends hno.types) m (hvis _ (h1.named.redraft hs) hs) false
  · rw [Expr.denote, if_neg (by simp [hf])]
    exact hrun3 hv m (hvis _ (hyes.named.redraft (Draft.scopes_write _ _))
      ((Draft.scopes_write _ _).trans hs2)) false
  · simp [Expr.id]

end Emission

namespace Expr

variable {V : Type} {M : Meaning V} {ρ : String → V} {dag : PlainDag}

theorem mapM_written {init : List Literal} {texts : List String}
    (h : init.mapM Literal.text = .ok texts) : init.map Literal.written = texts := by
  induction init generalizing texts with
  | nil =>
    cases h
    rfl
  | cons l rest ih =>
    rw [List.mapM_cons] at h
    cases hl : l.text with
    | error fault => simp [hl, Bind.bind, Except.bind] at h
    | ok text =>
      cases hr : rest.mapM Literal.text with
      | error fault => simp [hl, hr, Bind.bind, Except.bind] at h
      | ok others =>
        simp only [hl, hr, Bind.bind, Except.bind, Pure.pure, Except.pure, Except.ok.injEq] at h
        rw [← h, List.map_cons, ih hr, Literal.written, hl]
        rfl

theorem mapM_eval {m : Machine V} {es : List Expr}
    (h : ∀ e ∈ es, m.eval M e.spelling = some (e.denote M ρ)) :
    (es.map spelling).mapM (m.eval M) = some (denoteAll M ρ es) := by
  induction es with
  | nil => rfl
  | cons e rest ih =>
    simp [denoteAll, h e (by simp), ih fun d hd => h d (by simp [hd])]

/-- From a sheet with proper names the emission of `e` writes lines that compute its value. -/
def Producing (M : Meaning V) (ρ : String → V) (dag : PlainDag) (e : Expr) : Prop :=
  ∀ s, Named dag s → Ensures e.emit s
    (fun _ s' => Produces M ρ dag [e] s s' ∧ e.id ∈ s'.draft.scopes.visible) fun _ => True

def ProducesAll (M : Meaning V) (ρ : String → V) (dag : PlainDag) (es : List Expr) : Prop :=
  ∀ s, Named dag s → Ensures (emitArgs es) s (fun given s' => Produces M ρ dag es s s' ∧
    (∀ e ∈ es, e.id ∈ s'.draft.scopes.visible) ∧ given.map Prod.fst = es.map spelling)
    fun _ => True

theorem producing_literal {id : Nat} {value : Literal}
    (he : dag.contains (.literal id value)) :
    Producing M ρ dag (.literal id value) := by
  intro s hn
  unfold emit
  refine once_produces hn fun _ s1 hn1 hid _ => .bind (ensures_orFault ?_ fun _ _ => trivial)
  intro text htext
  have hw : value.written = text := by simp [Literal.written, htext, Except.toOption]
  refine ensures_rename ?_
  rw [← hw]
  exact Produces.finish_rename (.refl hn1 _) he hid (by simp [prerequisites])
    fun _ _ => rfl

theorem producing_unary {id : Nat} {op : Op} {operand : Expr}
    (he : dag.contains (.unary id op operand)) (ih : Producing M ρ dag operand) :
    Producing M ρ dag (.unary id op operand) := by
  intro s hn
  have ops {d : Expr} := dag.operands (d := d) he
  unfold emit
  have ho : dag.contains operand := ops (by simp)
  refine once_produces hn fun ty s1 hn1 hid _ => ?_
  refine .bind ((ih s1 hn1).imp ?_)
  rintro _ s2 ⟨h2, hv2⟩
  refine .bind (ensures_nameOf (.bind (ensures_nameOf (ensures_write ?_))))
  rw [h2.named.name_eq he rfl, h2.named.visible operand ho hv2]
  refine Produces.finish_declare h2 he hid rfl rfl
    (by simpa [prerequisites] using hv2) fun m hm => ?_
  have hval := hm.value h2.named ho hv2
  split <;> simp [Machine.initial, denote, *]

theorem producing_binary {id : Nat} {op : Op} {lhs rhs : Expr}
    (he : dag.contains (.binary id op lhs rhs)) (ihl : Producing M ρ dag lhs) (ihr : Producing M ρ dag rhs) :
    Producing M ρ dag (.binary id op lhs rhs) := by
  intro s hn
  have ops {d : Expr} := dag.operands (d := d) he
  unfold emit
  have hl : dag.contains lhs := ops (by simp)
  have hr : dag.contains rhs := ops (by simp)
  refine once_produces hn fun ty s1 hn1 hid _ => ?_
  refine .bind ((ihl s1 hn1).imp ?_)
  rintro _ s2 ⟨h2, hv2⟩
  refine .bind ((ihr s2 h2.named).imp ?_)
  rintro _ s3 ⟨h3, hv3⟩
  have hv2' := h3.grown.visible hv2
  refine .bind (ensures_nameOf (.bind (ensures_nameOf ?_)))
  refine ensures_ite (fun ha => ?_) fun _ => ?_
  · rw [show op.isAssign = false from dag.plain he] at ha
    cases ha
  · refine .bind (ensures_nameOf (ensures_write ?_))
    rw [h3.named.name_eq he rfl, h3.named.visible lhs hl hv2', h3.named.visible rhs hr hv3]
    refine Produces.finish_declare ((h2.mono (by simp)).trans
      (h3.mono (by simp))) he hid rfl rfl
      (by simpa [prerequisites] using ⟨hv2', hv3⟩) fun m hm => ?_
    simp [Machine.initial, denote, hm.value h3.named hl hv2', hm.value h3.named hr hv3]

theorem producing_call {id : Nat} {callee : Prototype} {args : List Expr}
    (he : dag.contains (.call id callee args)) (ih : ProducesAll M ρ dag args) :
    Producing M ρ dag (.call id callee args) := by
  intro s hn
  have ops {d : Expr} := dag.operands (d := d) he
  unfold emit
  have ha : ∀ d ∈ args, dag.contains d := fun d hd => ops (by rwa [operands_call])
  refine once_produces hn fun ty s1 hn1 hid hty => ?_
  refine .bind ((ih s1 hn1).imp ?_)
  rintro given s2 ⟨h2, hv2, hg⟩
  have h2' : Produces M ρ dag (operands (.call id callee args)) s1 s2 := by rwa [operands_call]
  have hp : ∀ d ∈ prerequisites (.call id callee args), d.id ∈ s2.draft.scopes.visible := by
    simpa only [prerequisites, operands_call] using hv2
  refine .bind (ensures_orFault (fun text _ => ensures_ite (fun hvoid => ?_) fun _ => ?_)
    fun _ _ => trivial)
  · refine ensures_write (Produces.finish_line h2' he hid rfl rfl hp (fun m hm => ?_) ?_)
    · simp [Machine.step_of_not_live hm, Machine.pass]
    · intro hvalued
      refine absurd ?_ (hvalued id callee args he)
      rw [h2.types id ty hty]
      cases ty <;> simp_all [Ty.isVoid]
  · refine .bind (ensures_nameOf (ensures_write ?_))
    rw [h2.named.name_eq he rfl, hg]
    refine Produces.finish_declare h2' he hid rfl rfl hp fun m hm => ?_
    have hvals := mapM_eval fun d hd => hm.value h2.named (ha d hd) (hv2 d hd)
    simp [Machine.initial, denote, hvals]

theorem producing_array {id : Nat} {elem : Ty} {length : UInt32} {init : List Literal}
    (he : dag.contains (.array id elem length init)) :
    Producing M ρ dag (.array id elem length init) := by
  intro s hn
  unfold emit
  refine once_produces hn fun _ s1 hn1 hid _ => ?_
  refine .bind ((drafting_produces M ρ [] (keeps_registerType (fun _ _ _ => rfl) elem)
    hn1).imp fun _ s2 h2 => ?_)
  refine .bind (ensures_orFault (fun texts htexts => ?_) fun _ _ => trivial)
  refine .bind (ensures_nameOf (ensures_write ?_))
  rw [h2.named.name_eq he rfl, ← mapM_written htexts]
  refine Produces.finish_line h2 he hid rfl rfl (by simp [prerequisites])
    (fun m hm => ?_) fun _ m hm => ?_
  · simp [Machine.step_of_not_live hm, Machine.pass]
  · simp [Machine.step_of_live hm.live, Machine.act, spelling, Spelling.variableName?, denote,
      Expr.id, Function.comp_def]

theorem producing_elementAt {id : Nat} {base index : Expr}
    (he : dag.contains (.elementAt id base index)) (ihb : Producing M ρ dag base) (ihi : Producing M ρ dag index) :
    Producing M ρ dag (.elementAt id base index) := by
  intro s hn
  have ops {d : Expr} := dag.operands (d := d) he
  unfold emit
  have hb : dag.contains base := ops (by simp)
  have hi : dag.contains index := ops (by simp)
  refine once_produces hn fun ty s1 hn1 hid _ => ?_
  refine .bind ((ihb s1 hn1).imp ?_)
  rintro _ s2 ⟨h2, hv2⟩
  refine .bind ((ihi s2 h2.named).imp ?_)
  rintro _ s3 ⟨h3, hv3⟩
  have hv2' := h3.grown.visible hv2
  refine .bind (ensures_nameOf (.bind (ensures_nameOf (ensures_rename ?_))))
  rw [h3.named.visible base hb hv2', h3.named.visible index hi hv3]
  refine Produces.finish_rename ((h2.mono (by simp)).trans
    (h3.mono (by simp))) he hid
    (by simpa [prerequisites] using ⟨hv2', hv3⟩) fun m hm => ?_
  simp [spelling, Machine.eval, denote, hm.value h3.named hb hv2', hm.value h3.named hi hv3]

theorem producing_select {id : Nat} {cond yes no : Expr}
    (he : dag.contains (.select id cond yes no)) (ihc : Producing M ρ dag cond) (ihy : Producing M ρ dag yes) (ihn : Producing M ρ dag no) :
    Producing M ρ dag (.select id cond yes no) := by
  intro s hn
  have ops {d : Expr} := dag.operands (d := d) he
  unfold emit
  have hc : dag.contains cond := ops (by simp)
  have hy : dag.contains yes := ops (by simp)
  have hno : dag.contains no := ops (by simp)
  refine once_produces hn fun ty s1 hn1 hid _ => ?_
  refine .bind ((ihc s1 hn1).imp ?_)
  rintro _ s2 ⟨h2, hv2⟩
  have hid2 : id ∉ s2.draft.scopes.visible := h2.not_visible he (by simp) hid
  refine .bind (ensures_nameOf (.bind (ensures_write (Ensures.bind
    (ensures_nameOf (.bind (ensures_write ?_)))))))
  change Ensures _ (Sheet.mk s2.nodes ((s2.draft.write (.reserve ty
    (s2.nodes.name (.select id cond yes no)))).write (.openIf (s2.nodes.name cond)))) _ _
  rw [h2.named.name_eq he rfl, h2.named.visible cond hc hv2]
  have hs3 : ((s2.draft.write (.reserve ty (.temp id))).write (.openIf cond.spelling)).scopes =
      s2.draft.scopes := by rw [Draft.scopes_write, Draft.scopes_write]
  refine .bind ((branch_branches he rfl rfl (by simp)
    (hs3.symm ▸ hid2) (h2.named.redraft hs3) ihy).imp fun _ s4 h4 => ?_)
  refine .bind (ensures_write ?_)
  have hs5 : (s4.draft.write .openElse).scopes = s2.draft.scopes :=
    (Draft.scopes_write _ _).trans (h4.scopes.trans hs3)
  refine .bind ((branch_branches he rfl rfl (by simp)
    (hs5.symm ▸ hid2) (h4.named.redraft (Draft.scopes_write _ _)) ihn).imp fun _ s6 h6 => ?_)
  exact ensures_write (select_produces he hid h2 hv2 h4 h6)

mutual

theorem emit_produces (e : Expr) (he : dag.contains e) (s : Sheet) (hn : Named dag s) :
    Ensures e.emit s (fun _ s' => Produces M ρ dag [e] s s' ∧ e.id ∈ s'.draft.scopes.visible)
      fun _ => True := by
  have ops {d : Expr} := dag.operands (d := d) he
  cases e with
  | literal id value =>
    exact producing_literal he s hn
  | unary id op operand =>
    exact producing_unary he (emit_produces operand (ops (by simp))) s hn
  | binary id op lhs rhs =>
    exact producing_binary he (emit_produces lhs (ops (by simp))) (emit_produces rhs (ops (by simp))) s hn
  | call id callee args =>
    exact producing_call he (emitArgs_produces args fun d hd => ops (by rwa [operands_call])) s hn
  | resource id res =>
    unfold emit
    refine once_produces hn fun _ s1 hn1 hid _ => ?_
    refine .bind ((drafting_produces M ρ [] (keeps_registerResource (fun _ _ _ => rfl)
      (fun _ _ => rfl) res) hn1).imp fun _ s2 h2 => ?_)
    refine ensures_rename (Produces.finish_rename h2 he hid
      (by simp [prerequisites]) fun m hm => ?_)
    exact hm.words _ res.name he rfl
  | input id i =>
    unfold emit
    refine once_produces hn fun _ s1 hn1 hid _ => ?_
    refine ensures_rename (Produces.finish_rename (.refl hn1 _) he hid
      (by simp [prerequisites]) fun m hm => ?_)
    exact hm.words _ i.name he rfl
  | array id elem length init =>
    exact producing_array he s hn
  | swizzle _ base _ | field _ base _ | element _ base _ =>
    unfold emit
    have hb : dag.contains base := ops (by simp)
    refine once_produces hn fun ty s1 hn1 hid _ => ?_
    refine .bind ((emit_produces base hb s1 hn1).imp ?_)
    rintro _ s2 ⟨h2, hv2⟩
    refine .bind (ensures_nameOf (ensures_rename ?_))
    rw [h2.named.visible base hb hv2]
    refine Produces.finish_rename h2 he hid
      (by simpa [prerequisites] using hv2) fun m hm => ?_
    simp [spelling, Machine.eval, denote, hm.value h2.named hb hv2]
  | elementAt id base index =>
    exact producing_elementAt he (emit_produces base (ops (by simp))) (emit_produces index (ops (by simp))) s hn
  | storage id name ty =>
    unfold emit
    refine once_produces hn fun _ s1 hn1 hid _ => ?_
    refine (drafting_produces M ρ [] (keeps_registerType (fun _ _ _ => rfl) ty) hn1).mono
      (fun _ s2 h2 => ?_) fun _ h => h
    refine h2.finish he hid h2.named (h2.named.name_eq he rfl) rfl
      (by simp [prerequisites]) (.refl _) (List.append_nil _).symm
      (fun m _ => rfl) fun _ m hm => ⟨[], rfl, by simp, ?_⟩
    exact hm.words _ name he rfl
  | zeroed id ty =>
    unfold emit
    refine once_produces hn fun _ s1 hn1 hid _ => ?_
    refine .bind ((drafting_produces M ρ [] (keeps_registerType (fun _ _ _ => rfl) ty)
      hn1).imp fun _ s2 h2 => ?_)
    refine .bind (ensures_nameOf (ensures_write ?_))
    rw [h2.named.name_eq he rfl]
    exact Produces.finish_declare h2 he hid rfl rfl (by simp [prerequisites])
      fun _ _ => rfl
  | select id cond yes no =>
    exact producing_select he (emit_produces cond (ops (by simp))) (emit_produces yes (ops (by simp))) (emit_produces no (ops (by simp))) s hn

theorem emitArgs_produces (es : List Expr) (he : ∀ e ∈ es, dag.contains e) :
    ProducesAll M ρ dag es := by
  intro s hn
  cases es with
  | nil =>
    rw [emitArgs]
    exact ⟨.refl hn _, by simp, rfl⟩
  | cons e rest =>
    rw [emitArgs]
    refine .bind ((emit_produces e (he e (by simp)) s hn).imp ?_)
    rintro _ s1 ⟨h1, hv1⟩
    refine .bind (ensures_nameOf (.bind (ensures_typing ?_)))
    refine (e.inferType_spec s1.nodes.types).mono (fun ty t ht => ?_) fun _ _ => trivial
    have h2 : Produces M ρ dag [e] s1 { s1 with nodes := { s1.nodes with types := t } } :=
      .retype h1.named ht.1 _
    refine .bind ((emitArgs_produces rest (fun d hd => he d (by simp [hd])) _
      h2.named).imp ?_)
    rintro given s3 ⟨h3, hv3, hg⟩
    refine ⟨((h1.trans h2).mono (by simp)).trans (h3.mono (by simp)), fun d hd => ?_, ?_⟩
    · rcases List.mem_cons.mp hd with rfl | hd
      · exact h3.grown.visible hv1
      · exact hv3 d hd
    · rw [List.map_cons, List.map_cons, hg, h1.named.visible e (he e (by simp)) hv1]

end

end Expr

theorem emit_computes_denotation {V : Type} (M : Meaning V) (ρ : String → V) (dag : PlainDag)
    (root : Expr) (hroot : dag.contains root) (s s' : Sheet) (m : Machine V) (hn : Named dag s)
    (hm : Holds M ρ dag s m) (hs : root.emit s = .ok () s') (hv : Valued dag s'.nodes.types) :
    ∃ lines m', s'.draft.lines = s.draft.lines ++ lines ∧ m.run M lines = some m' ∧
      m'.eval M (s'.nodes.name root) = some (root.denote M ρ) ∧
      Named dag s' ∧ Holds M ρ dag s' m' := by
  obtain ⟨h, hvisible⟩ := (root.emit_produces hroot s hn).of_ok hs
  obtain ⟨lines, hl, -, hrun⟩ := h.text
  obtain ⟨added, hadd, hh, -⟩ := hrun hv m hm
  exact ⟨lines, _, hl, hadd, hh.values root hroot hvisible, h.named, hh⟩

namespace Sample

def flag : Expr := .input 0 (.custom "flag" .bool)

def x : Expr := .input 1 (.custom "x" .f32)

def double : Expr := .binary 2 .add x x

def square : Expr := .call 3 (.fixed "square" .f32 [{ name := "a", ty := .f32 }]) [double]

def chosen : Expr := .select 4 flag double square

def total : Expr := .binary 5 .add chosen double

def nodes : PlainDag where
  toDag := .ofList [flag, x, double, square, chosen, total]
    (by simp [flag, x, double, square, chosen, total]) (by decide)
  plain he := by
    simp only [Dag.ofList, List.mem_cons, List.not_mem_nil, or_false] at he
    rcases he with rfl | rfl | rfl | rfl | rfl | rfl <;> rfl
  worded he hd id := by
    simp only [Dag.ofList, List.mem_cons, List.not_mem_nil, or_false] at he
    rcases he with rfl | rfl | rfl | rfl | rfl | rfl <;> cases hd <;>
      simp [Spelling.text, String.ext_iff, Input.name]

def numbers : Meaning Nat where
  constant _ := 0
  zero _ := 0
  array _ _ := List.length
  unary _ v := v
  binary op a b := if op = .add then a + b else a * b
  call _ := List.length
  member v _ := v
  element v _ := v
  elementAt v _ := v
  truth v := v != 0

def values (name : String) : Nat := if name = "x" then 3 else 1

end Sample

open Sample in
theorem total_computes : ∃ s' lines m',
    total.emit ⟨.start 6, .start .default⟩ = .ok () s' ∧ s'.draft.lines = lines ∧
      (Machine.start values).run numbers lines = some m' ∧
      m'.eval numbers (s'.nodes.name total) = some 12 := by
  have hok : (total.emit ⟨.start 6, .start .default⟩).casesOn (motive := fun _ => Bool)
      (fun _ s' => s'.nodes.types.find? 3 == some .f32) (fun _ _ => false) = true := by
    decide +kernel
  cases hs : total.emit ⟨.start 6, .start .default⟩ with
  | error fault s' =>
    rw [hs] at hok
    cases hok
  | ok _ s' =>
    rw [hs] at hok
    have hv : Valued nodes s'.nodes.types := by
      intro id callee args hc
      have hid : id = 3 := by
        simp [nodes, Dag.ofList, flag, x, double, square, chosen, total] at hc
        exact hc.1
      rw [hid, beq_iff_eq.mp hok]
      simp
    obtain ⟨lines, m', hl, hrun, hval, -⟩ := emit_computes_denotation numbers values nodes total
      (by simp [nodes, Dag.ofList]) _ _ _ (.start 6 .default) (.start 6 .default) hs hv
    exact ⟨s', lines, m', rfl, hl, hrun, hval⟩

end ComputeKernel
