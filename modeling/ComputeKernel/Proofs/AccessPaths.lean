import ComputeKernel.Proofs.AssignedStorage

namespace ComputeKernel

namespace Expr

def base? : Expr → Option Expr
  | .swizzle _ base _ | .field _ base _ | .element _ base _ | .elementAt _ base _ => some base
  | _ => none

inductive Link : Expr → Expr → Prop where
  | self {e base : Expr} : e.base? = some base → Link e e
  | inner {e base l : Expr} : e.base? = some base → Link base l → Link e l

variable {e base l d : Expr} {modes modes' : IdTable Divergence} {dag : Dag}

theorem lvalueRoot_of_base (h : e.base? = some base) : e.lvalueRoot = base.lvalueRoot := by
  cases e <;> cases h <;> rw [lvalueRoot]

theorem mem_operands_of_base (h : e.base? = some base) : base ∈ e.operands := by
  cases e <;> cases h <;> simp

theorem isSource_of_base (h : e.base? = some base) : e.isSource = false := by
  cases e <;> cases h <;> rfl

theorem Link.lvalueRoot (h : e.Link l) : l.lvalueRoot = e.lvalueRoot := by
  induction h with
  | self => rfl
  | inner hb _ ih => rw [ih, lvalueRoot_of_base hb]

theorem Link.uses (h : e.Link l) : e.Uses l := by
  induction h with
  | self => exact .self
  | inner hb _ ih => exact .of_operand (mem_operands_of_base hb) ih

theorem Link.trans (h : e.Link l) (h' : l.Link d) : e.Link d := by
  induction h with
  | self => exact h'
  | inner hb _ ih => exact .inner hb (ih h')

inductive Outdated (modes : IdTable Divergence) : Expr → Prop where
  | known {e base : Expr} : e.base? = some base → modes.find? e.id = some .uniform → Outdated modes e
  | through {e base : Expr} : e.base? = some base → modes.find? e.id = none →
    (∀ c ∈ e.operands, c = base ∨ ¬Differs modes c) → Outdated modes base → Outdated modes e

def Stale (modes : IdTable Divergence) (e : Expr) : Prop :=
  ∃ l, e.Link l ∧ modes.find? l.id = some .uniform

theorem Outdated.stale (h : e.Outdated modes) : e.Stale modes := by
  induction h with
  | known hb hfind => exact ⟨_, .self hb, hfind⟩
  | through hb _ _ _ ih =>
    obtain ⟨l, hlink, hfind⟩ := ih
    exact ⟨l, .inner hb hlink, hfind⟩

theorem differs_iff_of_base (hb : e.base? = some base)
    (ih : Differs modes base ↔ ¬base.Outdated modes) : Differs modes e ↔ ¬e.Outdated modes := by
  cases hfind : modes.find? e.id with
  | some mode =>
    rw [differs_iff_of_known hfind]
    cases mode with
    | uniform => exact iff_of_false (by simp) (not_not_intro (.known hb hfind))
    | divergent =>
      refine iff_of_true rfl fun h => ?_
      cases h with
      | known _ hknown | through _ hknown _ _ =>
        rw [hfind] at hknown
        cases hknown
  | none =>
    rw [differs_iff_of_unknown hfind, isSource_of_base hb]
    constructor
    · rintro (hsource | ⟨c, hc, hdiffers⟩) h
      · cases hsource
      · cases h with
        | known _ hknown =>
          rw [hfind] at hknown
          cases hknown
        | through hb' _ hothers hbase =>
          cases hb.symm.trans hb'
          rcases hothers c hc with rfl | huniform
          · exact ih.mp hdiffers hbase
          · exact huniform hdiffers
    · intro h
      by_contra hno
      have huniform : ∀ c ∈ e.operands, ¬Differs modes c := fun c hc hdiffers =>
        hno (.inr ⟨c, hc, hdiffers⟩)
      refine h (.through hb hfind (fun c hc => .inr (huniform c hc)) ?_)
      exact not_not.mp (mt ih.mpr (huniform base (mem_operands_of_base hb)))

theorem differs_iff_not_outdated (e : Expr) (h : Differs modes e.lvalueRoot) :
    Differs modes e ↔ ¬e.Outdated modes := by
  fun_induction lvalueRoot e with
  | case1 id base _ ih | case2 id base _ ih | case3 id base _ ih | case4 id base _ ih =>
    exact differs_iff_of_base rfl (ih h)
  | case5 e hroot =>
    refine iff_of_true h fun houtdated => ?_
    obtain ⟨base, hb⟩ : ∃ base, e.base? = some base := by cases houtdated <;> exact ⟨_, ‹_›⟩
    cases e with
    | swizzle | field | element | elementAt => simp_all
    | _ => cases hb

theorem Stale.of_rises (hrises : Rises dag modes modes') (he : dag.contains e)
    (h : e.Stale modes') : e.Stale modes ∨ ¬Differs modes e.lvalueRoot := by
  by_contra hno
  obtain ⟨hfresh, hroot⟩ := not_or.mp hno
  obtain ⟨l, hlink, hfind⟩ := h
  have hdiffers : Differs modes l := by
    refine (l.differs_iff_not_outdated (hlink.lvalueRoot ▸ not_not.mp hroot)).mpr fun h => hfresh ?_
    obtain ⟨d, hd, huniform⟩ := h.stale
    exact ⟨d, hlink.trans hd, huniform⟩
  cases (differs_iff_of_known hfind).mp (hrises l (dag.uses he hlink.uses) hdiffers)

end Expr

namespace Session

variable {dag : Dag} {s : Session} {e : Expr}

theorem stale_since (hs : s.Rooted dag) (he : dag.contains e) (later : List Step)
    (h : e.Stale (later.foldl after s).sheet.nodes.modes) :
    e.Stale s.sheet.nodes.modes ∨ ∃ earlier step rest, later = earlier ++ step :: rest ∧
      ¬e.Stale (earlier.foldl after s).sheet.nodes.modes ∧
      e.Stale ((earlier.foldl after s).after step).sheet.nodes.modes ∧
      (earlier.foldl after s).sheet.reports e.lvalueRoot = .uniform := by
  induction later generalizing dag s with
  | nil => exact .inl h
  | cons step later ih =>
    obtain ⟨dag', hsub, hs', -, hrises⟩ := after_leads hs step
    rcases ih hs' (hsub e he) h with hstale | ⟨earlier, next, rest, rfl, hwas⟩
    · by_cases hfirst : e.Stale s.sheet.nodes.modes
      · exact .inl hfirst
      · have huniform := (hstale.of_rises hrises he).resolve_left hfirst
        rw [← Sheet.reports_eq_divergent_iff (dag.uses he e.uses_lvalueRoot)] at huniform
        refine .inr ⟨[], step, later, rfl, hfirst, hstale, ?_⟩
        cases hmode : s.sheet.reports e.lvalueRoot with
        | uniform => exact hmode
        | divergent => exact (huniform hmode).elim
    · exact .inr ⟨step :: earlier, next, rest, rfl, hwas⟩

theorem path_divergent_iff (settings : Settings) (first : Nat) (before later : List Step)
    (name : String) (e : Expr) :
    let s := before.foldl after (start settings first)
    let t := later.foldl after s
    s.bound.lookup name = some e → t.sheet.reports e.lvalueRoot = .divergent →
    (t.sheet.reports e = .divergent ↔ ¬e.Outdated t.sheet.nodes.modes) ∧
    (e.Outdated t.sheet.nodes.modes → e.Stale s.sheet.nodes.modes ∨
      ∃ earlier step rest, later = earlier ++ step :: rest ∧
        ¬e.Stale (earlier.foldl after s).sheet.nodes.modes ∧
        e.Stale ((earlier.foldl after s).after step).sheet.nodes.modes ∧
        (earlier.foldl after s).sheet.reports e.lvalueRoot = .uniform) := by
  intro s t hname hroot
  obtain ⟨dag, -, hs, -, -⟩ := run_leads (start_rooted settings first) before
  obtain ⟨_, _, hbound, -⟩ := List.lookup_eq_some_iff.mp hname
  have he : dag.contains e := hs.bound (name, e) (by simp [s, hbound])
  refine ⟨?_, fun h => stale_since hs he later h.stale⟩
  rw [Sheet.reports_eq_divergent_iff (dag.uses he e.uses_lvalueRoot)] at hroot
  rw [Sheet.reports_eq_divergent_iff he]
  exact e.differs_iff_not_outdated hroot

def part : Expr := .swizzle 2 (.zeroed 1 .u32x2) "x"

def parted : List Step := [⟨.zeroed (.ok .u32x2), some "pair"⟩, ⟨.swizzle "pair" "x", some "part"⟩]

def markedLater : List Step := [⟨.divergence "part", none⟩, ⟨.force "pair", none⟩]

theorem part_outdated :
    ∃ earlier step rest, markedLater = earlier ++ step :: rest ∧
      ((earlier.foldl after (parted.foldl after (start .default 1))).sheet.reports
        part.lvalueRoot = .uniform) ∧
      ¬(markedLater.foldl after (parted.foldl after (start .default 1))).sheet.reports part =
        .divergent := by
  obtain ⟨hiff, hsince⟩ := path_divergent_iff .default 1 parted markedLater "part" part
    rfl (by decide +kernel)
  have houtdated : part.Outdated (markedLater.foldl after
      (parted.foldl after (start .default 1))).sheet.nodes.modes := .known rfl (by decide +kernel)
  rcases hsince houtdated with ⟨l, -, hfind⟩ | ⟨earlier, step, rest, hsplit, -, -, huniform⟩
  · cases hfind
  · exact ⟨earlier, step, rest, hsplit, huniform, mt hiff.mp (not_not_intro houtdated)⟩

theorem part_uniform :
    let t := (parted ++ markedLater).foldl after (start .default 1)
    t.bound.lookup "part" = some part ∧ t.sheet.reports part.lvalueRoot = .divergent ∧
      t.sheet.reports part = .uniform :=
  ⟨rfl, by decide +kernel, by decide +kernel⟩

end Session

end ComputeKernel
