import ComputeKernel.Proofs.MaskedBuild
import ComputeKernel.Proofs.MaskedText

namespace ComputeKernel

variable {ν : Type} {current : Spelling} {lines : List Line} {fails : Prop}

def IsMask (n : Nat) (x : String) : Prop :=
  ∃ stem ∈ ["m_if", "m_else"], ∃ k < n, x = stem ++ "_" ++ toString k

variable {n : Nat} {x stem : String} {k : Nat}

theorem IsMask.mono {n' : Nat} (h : IsMask n x) (hn : n ≤ n') : IsMask n' x := by
  obtain ⟨stem, hs, k, hk, rfl⟩ := h
  exact ⟨stem, hs, k, Nat.lt_of_lt_of_le hk hn, rfl⟩

theorem mask_label_injective {stem' : String} {k' : Nat} (hs : stem ∈ ["m_if", "m_else"])
    (hs' : stem' ∈ ["m_if", "m_else"])
    (h : stem ++ "_" ++ toString k = stem' ++ "_" ++ toString k') : stem = stem' ∧ k = k' := by
  simp only [List.mem_cons, List.not_mem_nil, or_false] at hs hs'
  rcases hs with rfl | rfl <;> rcases hs' with rfl | rfl
  · exact ⟨rfl, Spelling.numbered_injective h⟩
  · simp [String.ext_iff] at h
  · simp [String.ext_iff] at h
  · exact ⟨rfl, Spelling.numbered_injective h⟩

def NoMask (x : String) : Prop := ∀ n, ¬IsMask n x

theorem noMask_temp (id : Nat) : NoMask (Spelling.temp id).text := by
  rintro n ⟨stem, hs, k, -, h⟩
  simp only [List.mem_cons, List.not_mem_nil, or_false] at hs
  rcases hs with rfl | rfl <;> simp [Spelling.text, String.ext_iff] at h

theorem not_isMask_label (hs : stem ∈ ["m_if", "m_else"]) (hk : n ≤ k) :
    ¬IsMask n (stem ++ "_" ++ toString k) := by
  rintro ⟨stem', hs', k', hk', h⟩
  have := (mask_label_injective hs hs' h).2
  omega

structure Ready {ν : Type} (w : Workspace ν) (current : Spelling) : Prop where
  tidy : Tidy w
  wave32 : w.sheet.draft.wave32 = true
  mask : ∃ e masks, w.sheet.draft.masks = e :: masks ∧ Shows w e .u32 current
  label : ∀ x ∈ current.mentions, IsMask w.labels x

section Rules

variable {w w' : Workspace ν} {e : Expr}

theorem Ready.later (h : Ready w current) (ha : Added w lines w') : Ready w' current where
  tidy := ha.tidy
  wave32 := ha.wave32.trans h.wave32
  mask :=
    have ⟨e, masks, hm, he⟩ := h.mask
    ⟨e, masks, ha.masks.trans hm, he.later ha⟩
  label x hx := (h.label x hx).mono ha.labels

theorem Ready.enterScope (h : Ready w current) (condition : Option Expr) :
    Ready { w with sheet := { w.sheet with draft := w.sheet.draft.enterScope condition } } current where
  tidy := ⟨h.tidy.visible, h.tidy.names, h.tidy.types⟩
  wave32 := h.wave32
  mask :=
    have ⟨e, masks, hm, he⟩ := h.mask
    ⟨e, masks, hm, he.visible, he.typed, he.name⟩
  label := h.label

theorem Ready.underMask (h : Ready w current) {x : String} (he : Shows w e .u32 (.word x))
    (hx : IsMask w.labels x) : Ready (Build.underMask w e) (.word x) where
  tidy := ⟨h.tidy.visible, h.tidy.names, h.tidy.types⟩
  wave32 := h.wave32
  mask := ⟨e, _, rfl, he.visible, he.typed, he.name⟩
  label y hy := by
    obtain rfl := List.mem_singleton.mp hy
    exact hx

structure Inside (w : Workspace ν) (n : Nat) (w' : Workspace ν) : Prop where
  shows_of_shows : ∀ {e ty name}, Shows w e ty name → Shows w' e ty name
  labels : n ≤ w'.labels

theorem Inside.of_added {w'' : Workspace ν} {n : Nat} (ha : Added w lines w')
    (h : Inside w' n w'') : Inside w n w'' :=
  ⟨fun hs => h.shows_of_shows (hs.later ha), h.labels⟩

namespace Build

variable {done : Unit → Workspace ν → Prop} {body other : Build ν Unit} {P : MaskedText → Prop}

theorem ensures_currentMask {masks : List Expr} {done : Expr → Workspace ν → Prop}
    {failed : Workspace ν → Prop} (hm : w.sheet.draft.masks = e :: masks) (h : done e w) :
    Ensures currentMask w done failed := by
  refine ensures_drafting (.bind (ensures_get ?_))
  rw [hm]
  exact h

theorem ensures_ifLaneActive (hr : Ready w current)
    (hbody : ∀ w', Ready w' current → Inside w w.labels w' →
      Ensures body w' (fun _ w'' => ∃ t, P t ∧ Added w' t.lines w'') fun _ => fails)
    (hdone : ∀ (test : LaneTest) (t : MaskedText) w', test.current = current → P t →
      Added w (test.lines ++ .openIf (.temp test.active) :: (t.lines ++ [.close])) w' → done () w') :
    Ensures (ifLaneActive body) w done fun _ => fails := by
  obtain ⟨e, masks, hm, he⟩ := hr.mask
  refine .bind (ensures_currentMask hm (.bind (ensures_laneBit hr.tidy
    fun bit w₁ p hp h₁ hbit => .bind (ensures_binary h₁.tidy rfl rfl (he.later h₁) hbit
      fun own w₂ h₂ hown => .bind (ensures_nonzero h₂.tidy hown
        fun active w₃ n h₃ hactive => ?_)))))
  refine .bind (ensures_shownName hactive (.bind (ensures_addLine h₃.tidy
    fun w₄ h₄ _ => Ensures.bind ?_)))
  have h := ((h₁.trans h₂).trans h₃).trans h₄
  have hinside : Inside w w.labels
      { w₄ with sheet := { w₄.sheet with draft := w₄.sheet.draft.enterScope (some active) } } :=
    .of_added h ⟨fun hs => ⟨hs.visible, hs.typed, hs.name⟩, h.labels⟩
  refine ensures_inScope (P := fun lines => ∃ t : MaskedText, P t ∧ t.lines = lines) (some active)
    ((hbody _ ((hr.later h).enterScope _) hinside).imp ?_) h₄.tidy
    fun lines w₅ hp' h₅ => ensures_addLine h₅.tidy fun w₆ h₆ _ => ?_
  · rintro _ w' ⟨t, ht, ha⟩
    exact ⟨t.lines, ⟨t, ht, rfl⟩, ha⟩
  · obtain ⟨t, ht, rfl⟩ := hp'
    refine hdone ⟨current, w.sheet.nodes.next, w₁.sheet.nodes.next, n, p, plainCall p.name [], hp⟩ t _
      rfl ht ?_
    simpa [LaneTest.lines] using (h.trans h₅).trans h₆

theorem ensures_underMask {x : String} (hr : Ready w current) (he : Shows w e .u32 (.word x))
    (hx : IsMask w.labels x)
    (hbody : ∀ w', Ready w' (.word x) → Inside w w.labels w' →
      Ensures body w' (fun _ w'' => ∃ t, P t ∧ Added w' t.lines w'') fun _ => fails)
    (hdone : ∀ (t : MaskedText) w', P t → Added w t.lines w' → done () w') :
    Ensures (maskedBranch e body) w done fun _ => fails := by
  obtain ⟨outer, masks, hm, -⟩ := hr.mask
  have hinside : Inside w w.labels (underMask w e) :=
    ⟨fun hs => ⟨hs.visible, hs.typed, hs.name⟩, Nat.le_refl _⟩
  refine ensures_maskedBranch (P := fun lines => ∃ t : MaskedText, P t ∧ t.lines = lines) hm
    ((hbody _ (hr.underMask he hx) hinside).imp ?_) hr.tidy fun lines w' hp ha => ?_
  · rintro _ w' ⟨t, ht, ha⟩
    exact ⟨t.lines, ⟨t, ht, rfl⟩, ha⟩
  · obtain ⟨t, ht, rfl⟩ := hp
    exact hdone t w' ht ha

theorem ensures_ifElse_of_shows {cond : Expr} {name : Spelling} (hr : Ready w current)
    (hc : Shows w cond .bool name)
    (h : Ensures (maskedIf cond body (some other)) w done fun _ => fails) :
    Ensures (ifElse cond body other) w done fun _ => fails := by
  refine .bind (.bind (ensures_emitting (ensures_typing (ensures_ok
    (Expr.inferType_known hc.typed) (ensures_ite (fun h => absurd rfl h) fun _ =>
      ensures_pure (.bind (ensures_isWave32 ?_)))))))
  rw [hr.wave32]
  exact h

end Build

def Split.fresh (current cond : Spelling) (n : Nat) : Split :=
  ⟨current, cond, "m_if" ++ "_" ++ toString n, "m_else" ++ "_" ++ toString (n + 1)⟩

namespace Build

variable {done : Unit → Workspace ν → Prop} {body other : Build ν Unit} {P Q : MaskedText → Prop}

theorem ensures_maskedIf {cond : Expr} {name : Spelling} (hr : Ready w current)
    (hc : Shows w cond .bool name)
    (hbody : ∀ w', Ready w' (.word (Split.fresh current name w.labels).taken) →
      Inside w (w.labels + 2) w' →
      Ensures body w' (fun _ w'' => ∃ t, P t ∧ Added w' t.lines w'') fun _ => fails)
    (hother : ∀ w', Ready w' (.word (Split.fresh current name w.labels).missed) →
      Inside w (w.labels + 2) w' →
      Ensures other w' (fun _ w'' => ∃ t, Q t ∧ Added w' t.lines w'') fun _ => fails)
    (hdone : ∀ (t u : MaskedText) w', P t → Q u →
      Added w ((Split.fresh current name w.labels).lines ++
        .openMask (.word (Split.fresh current name w.labels).taken) :: (t.lines ++
          .openElseMask (.word (Split.fresh current name w.labels).missed) ::
            (u.lines ++ [.close]))) w' → done () w') :
    Ensures (maskedIf cond body (some other)) w done fun _ => fails := by
  obtain ⟨e, masks, hm, he⟩ := hr.mask
  refine .bind (ensures_currentMask hm (.bind (ensures_maskVariable hr.tidy "m_if"
    fun taken w₁ h₁ ht hl₁ => .bind (ensures_maskVariable h₁.tidy "m_else"
      fun missed w₂ h₂ hs hl₂ => ?_))))
  have h := h₁.trans h₂
  rw [hl₁] at hs
  refine .bind (ensures_shownName (ht.later h₂) (.bind (ensures_shownName (hc.later h)
    (.bind (ensures_shownName (he.later h) (.bind (ensures_addLine h.tidy
      fun w₃ h₃ hl₃ => ?_)))))))
  have h := h.trans h₃
  refine .bind (ensures_shownName (hs.later h₃) (.bind (ensures_shownName (hc.later h)
    (.bind (ensures_shownName (he.later h) (.bind (ensures_addLine h.tidy
      fun w₄ h₄ hl₄ => ?_)))))))
  have h := h.trans h₄
  refine .bind (ensures_shownName (((ht.later h₂).later h₃).later h₄) (Ensures.bind
    (ensures_addLine h.tidy fun w₅ h₅ hl₅ => Ensures.bind ?_)))
  have h := h.trans h₅
  have hl : w₅.labels = w.labels + 2 := by rw [hl₅, hl₄, hl₃, hl₂, hl₁]
  have ht := (((ht.later h₂).later h₃).later h₄).later h₅
  have hs := ((hs.later h₃).later h₄).later h₅
  refine ensures_underMask (P := P) (hr.later h) ht ⟨"m_if", by simp, w.labels, by omega, rfl⟩
    (fun w' hr' hi => hbody w' hr' (.of_added h (hl ▸ hi))) fun t w₆ hp h₆ => ?_
  refine .bind (ensures_shownName (hs.later h₆) (.bind (ensures_addLine h₆.tidy
    fun w₇ h₇ hl₇ => Ensures.bind ?_)))
  have h := (h.trans h₆).trans h₇
  have hl : w.labels + 2 ≤ w₇.labels := hl₇ ▸ hl ▸ h₆.labels
  refine ensures_underMask (P := Q) (hr.later h) ((hs.later h₆).later h₇)
    ⟨"m_else", by simp, w.labels + 1, by omega, rfl⟩
    (fun w' hr' hi => hother w' hr' (.of_added h ⟨hi.shows_of_shows, Nat.le_trans hl hi.labels⟩))
    fun u w₈ hq h₈ => ensures_addLine h₈.tidy fun w₉ h₉ _ => ?_
  refine hdone t u w₉ hp hq ?_
  rw [hl₁] at h
  simpa [Split.lines, Split.fresh] using (h.trans h₈).trans h₉

end Build

end Rules

inductive MaskedFlow (ν : Type) : Type 1 where
  | done
  | compute {α : Type} (x : Build ν α) (next : α → MaskedFlow ν)
  | guarded (body next : MaskedFlow ν)
  | branch (cond : Expr) (body otherwise next : MaskedFlow ν)

def MaskedFlow.build {ν : Type} : MaskedFlow ν → Build ν Unit
  | .done => pure ()
  | .compute x next => do (next (← x)).build
  | .guarded body next => do
    Build.ifLaneActive body.build
    next.build
  | .branch cond body otherwise next => do
    Build.ifElse cond body.build otherwise.build
    next.build

abbrev Conditions := List (Expr × Spelling)

def Conditions.Shown {ν : Type} (known : Conditions) (w : Workspace ν) : Prop :=
  ∀ k ∈ known, Shows w k.1 .bool k.2 ∧ ∀ x ∈ k.2.mentions, NoMask x

def Line.Plain (line : Line) : Prop := line.isStatement = true ∧ ∀ x ∈ line.written, NoMask x

def MaskedText.after (lines : List Line) (rest : MaskedText) : MaskedText :=
  lines.foldr .statement rest

namespace MaskedFlow

def Plain (fails : Prop) : MaskedFlow ν → Conditions → Prop
  | .done, _ => True
  | .compute x next, known => ∀ w, Tidy w → known.Shown w →
    Ensures x w (fun a w' => ∃ lines more, Added w lines w' ∧ (∀ line ∈ lines, line.Plain) ∧
      Conditions.Shown more w' ∧ (next a).Plain fails (more ++ known)) fun _ => fails
  | .guarded body next, known => body.Plain fails known ∧ next.Plain fails known
  | .branch cond body otherwise next, known => (∃ name, (cond, name) ∈ known) ∧
    body.Plain fails known ∧ otherwise.Plain fails known ∧ next.Plain fails known

inductive Prints : Conditions → MaskedFlow ν → MaskedText → Prop where
  | done {known : Conditions} : Prints known .done .done
  | compute {α : Type} {x : Build ν α} {next : α → MaskedFlow ν} {w w' : Workspace ν} {a : α}
    {lines : List Line} {known more : Conditions} {t : MaskedText} (hx : x w = .ok a w')
    (ha : Added w lines w') (hm : more.Shown w') (hn : Prints (more ++ known) (next a) t) :
    Prints known (.compute x next) (.after lines t)
  | guarded {known : Conditions} {body next : MaskedFlow ν} {test : LaneTest} {t u : MaskedText}
    (hb : Prints known body t) (hn : Prints known next u) :
    Prints known (.guarded body next) (.guarded test t u)
  | branch {known : Conditions} {cond : Expr} {body otherwise next : MaskedFlow ν} {split : Split}
    {t u v : MaskedText} (hc : (cond, split.cond) ∈ known) (hb : Prints known body t)
    (ho : Prints known otherwise u) (hn : Prints known next v) :
    Prints known (.branch cond body otherwise next) (.branch split t u v)

end MaskedFlow

namespace MaskedText

theorem lines_after (lines : List Line) (t : MaskedText) : (after lines t).lines = lines ++ t.lines := by
  induction lines with
  | nil => rfl
  | cons line lines ih => exact congrArg (line :: ·) ih

theorem written_after (lines : List Line) (t : MaskedText) :
    (after lines t).written = lines.flatMap Line.written ++ t.written := by
  induction lines with
  | nil => rfl
  | cons line lines ih =>
    rw [List.flatMap_cons, List.append_assoc, ← ih]
    rfl

theorem proper_after {t : MaskedText}
    (hl : ∀ line ∈ lines, line.isStatement = true ∧ current.Spares line.written)
    (ht : t.Proper current) : (after lines t).Proper current := by
  induction lines with
  | nil => exact ht
  | cons line lines ih =>
    exact ⟨(hl line (by simp)).1, (hl line (by simp)).2, ih fun line h => hl line (by simp [h])⟩

end MaskedText

theorem LaneTest.noMask_of_written (t : LaneTest)
    (hx : x ∈ t.lines.flatMap Line.written) : NoMask x := by
  simp only [lines, Line.written, Prototype.changed, List.zip_nil_right, List.filterMap_nil,
    Spelling.root?, Option.toList_some, List.append_nil, List.flatMap_cons, List.flatMap_nil,
    List.cons_append, List.nil_append, List.mem_cons, List.not_mem_nil, or_false] at hx
  rcases hx with rfl | rfl | rfl <;> exact noMask_temp _

namespace Split

variable {cond : Spelling} {n : Nat} {x : String}

theorem fresh_taken_ne : (fresh current cond n).taken ≠ (fresh current cond n).missed := fun h =>
  absurd (mask_label_injective (by simp) (by simp) h).1 (by decide)

theorem isMask_missed (current cond : Spelling) (n : Nat) :
    IsMask (n + 2) (fresh current cond n).missed :=
  ⟨"m_else", by simp, n + 1, by omega, rfl⟩

theorem written_fresh (hx : x ∈ (fresh current cond n).lines.flatMap Line.written) :
    IsMask (n + 2) x ∧ ¬IsMask n x := by
  have hx : x = "m_if" ++ "_" ++ toString n ∨ x = "m_else" ++ "_" ++ toString (n + 1) := by
    simp only [fresh, lines, Line.written, Spelling.root?, Option.toList_some, List.flatMap_cons,
      List.flatMap_nil, List.cons_append, List.nil_append, List.mem_cons, List.not_mem_nil,
      or_false] at hx
    tauto
  rcases hx with rfl | rfl
  · exact ⟨⟨"m_if", by simp, n, by omega, rfl⟩, not_isMask_label (by simp) (Nat.le_refl _)⟩
  · exact ⟨isMask_missed current cond n, not_isMask_label (by simp) (Nat.le_succ _)⟩

end Split

namespace MaskedFlow

structure Fits {ν : Type} (p : MaskedFlow ν) (known : Conditions) (current : Spelling) (n : Nat)
    (t : MaskedText) : Prop where
  prints : Prints known p t
  proper : t.Proper current
  spares : ∀ x ∈ t.written, ¬IsMask n x

variable {p : MaskedFlow ν} {known : Conditions} {w w' : Workspace ν}

variable {n : Nat}

theorem Fits.mono {n' : Nat} {t : MaskedText} (h : p.Fits known current n' t) (hn : n ≤ n') :
    p.Fits known current n t :=
  ⟨h.prints, h.proper, fun x hx hm => h.spares x hx (hm.mono hn)⟩

theorem spares_of_ready (hr : Ready w current) {names : List String}
    (h : ∀ x ∈ names, ¬IsMask w.labels x) : current.Spares names := fun x hx hm =>
  h x hm (hr.label x hx)

theorem shown_later (hk : known.Shown w) (ha : Added w lines w') :
    known.Shown w' := fun k hm => ⟨(hk k hm).1.later ha, (hk k hm).2⟩

theorem shown_inside (hk : known.Shown w) (hi : Inside w n w') : known.Shown w' :=
  fun k hm => ⟨hi.shows_of_shows (hk k hm).1, (hk k hm).2⟩

section Texts

variable {t u v : MaskedText} {cond : Expr} {name : Spelling} {body otherwise next : MaskedFlow ν}

theorem Fits.after {α : Type} {x : Build ν α} {a : α} {more : Conditions} {next : α → MaskedFlow ν}
    (hr : Ready w current) (hx : x w = .ok a w') (ha : Added w lines w')
    (hl : ∀ line ∈ lines, line.Plain) (hm : more.Shown w')
    (ht : (next a).Fits (more ++ known) current w.labels t) :
    (compute x next).Fits known current w.labels (.after lines t) where
  prints := .compute hx ha hm ht.prints
  proper := MaskedText.proper_after (fun line h => ⟨(hl line h).1, spares_of_ready hr fun x hx =>
    (hl line h).2 x hx _⟩) ht.proper
  spares x hx := by
    rw [MaskedText.written_after, List.mem_append, List.mem_flatMap] at hx
    rcases hx with ⟨line, hline, hx⟩ | hx
    · exact (hl line hline).2 x hx _
    · exact ht.spares x hx

theorem Fits.guarded {test : LaneTest} (hr : Ready w current) (hc : test.current = current)
    (ht : body.Fits known current w.labels t) (hu : next.Fits known current w.labels u) :
    (guarded body next).Fits known current w.labels (.guarded test t u) where
  prints := .guarded ht.prints hu.prints
  proper := ⟨hc, spares_of_ready hr fun x hx => test.noMask_of_written hx _,
    spares_of_ready hr ht.spares, ht.proper, hu.proper⟩
  spares x hx := by
    simp only [MaskedText.written, List.mem_append] at hx
    rcases hx with (hx | hx) | hx
    · exact test.noMask_of_written hx _
    · exact ht.spares x hx
    · exact hu.spares x hx

theorem Fits.branch {split : Split} (hs : split = .fresh current name w.labels) (hr : Ready w current)
    (hc : (cond, name) ∈ known) (hname : ∀ x ∈ name.mentions, NoMask x)
    (ht : body.Fits known (.word split.taken) (w.labels + 2) t)
    (hu : otherwise.Fits known (.word split.missed) (w.labels + 2) u)
    (hv : next.Fits known current w.labels v) :
    (branch cond body otherwise next).Fits known current w.labels (.branch split t u v) := by
  have ht' := ht.mono (Nat.le_add_right w.labels 2)
  have hu' := hu.mono (Nat.le_add_right w.labels 2)
  subst hs
  have hmissed : (Split.fresh current name w.labels).missed ∉ t.written := fun hm =>
    ht.spares _ hm (Split.isMask_missed current name w.labels)
  refine ⟨.branch hc ht.prints hu.prints hv.prints, ⟨rfl, ?_, ?_, Split.fresh_taken_ne, ?_, ?_, hmissed,
    ht.proper, hu.proper, hv.proper⟩, fun x hx => ?_⟩
  · exact spares_of_ready hr fun x hx => (Split.written_fresh hx).2
  · exact fun x hx hm => hname x hx _ (Split.written_fresh hm).1
  · exact spares_of_ready hr ht'.spares
  · exact spares_of_ready hr hu'.spares
  · simp only [MaskedText.written, List.mem_append] at hx
    rcases hx with ((hx | hx) | hx) | hx
    · exact (Split.written_fresh hx).2
    · exact ht'.spares x hx
    · exact hu'.spares x hx
    · exact hv.spares x hx

end Texts

theorem ensures_build (hp : p.Plain fails known) (hr : Ready w current) (hk : known.Shown w) :
    Ensures p.build w (fun _ w' => ∃ t, p.Fits known current w.labels t ∧ Added w t.lines w')
      fun _ => fails := by
  induction p generalizing known current w with
  | done => exact ensures_pure ⟨.done, ⟨.done, trivial, by simp [MaskedText.written]⟩, .refl hr.tidy⟩
  | compute x next ih =>
    refine .bind ((hp w hr.tidy hk).result.imp fun a w₁ h => ?_)
    obtain ⟨hx, lines, more, ha, hl, hm, hn⟩ := h
    have hk' : Conditions.Shown (more ++ known) w₁ := fun k hmem =>
      (List.mem_append.mp hmem).elim (hm k) (shown_later hk ha k)
    refine (ih a hn (hr.later ha) hk').imp (fun _ w₂ h => ?_)
    obtain ⟨t, ht, hadd⟩ := h
    refine ⟨.after lines t, .after hr hx ha hl hm (ht.mono ha.labels), ?_⟩
    rw [MaskedText.lines_after]
    exact ha.trans hadd
  | guarded body next ihb ihn =>
    refine .bind (Build.ensures_ifLaneActive (P := body.Fits known current w.labels) hr
      (fun w₁ hr₁ hi => ?_) fun test t w₁ hcur ht ha => ?_)
    · refine (ihb hp.1 hr₁ (shown_inside hk hi)).imp (fun _ w₂ h => ?_)
      obtain ⟨t, ht, ha⟩ := h
      exact ⟨t, ht.mono hi.labels, ha⟩
    · refine (ihn hp.2 (hr.later ha) (shown_later hk ha)).imp (fun _ w₂ h => ?_)
      obtain ⟨u, hu, hb⟩ := h
      refine ⟨.guarded test t u, .guarded hr hcur ht (hu.mono ha.labels), ?_⟩
      simpa [MaskedText.lines] using ha.trans hb
  | branch cond body otherwise next ihb iho ihn =>
    obtain ⟨⟨name, hc⟩, hpb, hpo, hpn⟩ := hp
    obtain ⟨hshow, hname⟩ := hk _ hc
    let split := Split.fresh current name w.labels
    refine .bind (Build.ensures_ifElse_of_shows hr hshow (Build.ensures_maskedIf
      (P := body.Fits known (.word split.taken) (w.labels + 2))
      (Q := otherwise.Fits known (.word split.missed) (w.labels + 2)) hr hshow
      (fun w₁ hr₁ hi => ?_) (fun w₁ hr₁ hi => ?_) fun t u w₁ ht hu ha => ?_))
    · refine (ihb hpb hr₁ (shown_inside hk hi)).imp (fun _ w₂ h => ?_)
      obtain ⟨t, ht, ha⟩ := h
      exact ⟨t, ht.mono hi.labels, ha⟩
    · refine (iho hpo hr₁ (shown_inside hk hi)).imp (fun _ w₂ h => ?_)
      obtain ⟨u, hu, ha⟩ := h
      exact ⟨u, hu.mono hi.labels, ha⟩
    · refine (ihn hpn (hr.later ha) (shown_later hk ha)).imp (fun _ w₂ h => ?_)
      obtain ⟨v, hv, hb⟩ := h
      refine ⟨.branch split t u v, .branch rfl hr hc hname ht hu (hv.mono ha.labels), ?_⟩
      simpa [MaskedText.lines] using ha.trans hb

theorem build_obeys_masks_iff (hp : p.Plain fails known) (hr : Ready w current)
    (hk : known.Shown w) :
    Ensures p.build w (fun _ w' => ∃ t, Prints known p t ∧
        w'.sheet.draft.lines = w.sheet.draft.lines ++ t.lines ∧
        ∀ (V : Type) (W : WaveMeaning V) (mask : Lanes) (m : Wave V) (frames : List (Lanes × Lanes)),
          (∀ l : Lane, m.active.getLsbD l = true → m.eval W current l = W.word mask) →
          WaveRun.run W ⟨m, frames⟩ t.lines = some ⟨t.exec W .chained mask m, frames⟩ ∧
            ((t.exec W .chained mask m).trace = (t.exec W .own mask m).trace ↔
              t.Uncontested W mask m))
      fun _ => fails := by
  refine (ensures_build hp hr hk).mono (fun _ w' h => ?_) fun _ h => h
  obtain ⟨t, ht, ha⟩ := h
  refine ⟨t, ht.prints, ha.text, fun V W mask m frames hc => ⟨?_, ?_⟩⟩
  · have hrun := MaskedText.run_lines ht.proper hc frames []
    rw [List.append_nil] at hrun
    exact hrun
  · exact ⟨MaskedText.uncontested_of_trace, fun h =>
      congrArg Wave.trace (MaskedText.exec_of_uncontested h)⟩

end MaskedFlow

theorem Tidy.start (settings : Settings) (first : Nat) (notes : ν) :
    Tidy (Workspace.start settings first notes) where
  visible _ h := by cases h
  names _ _ := rfl
  types _ _ := rfl

def allLanes : Spelling := .constant (.u32 [0xffffffff]) "u32(4294967295)"

def maskedKernel (p : MaskedFlow ν) : Build ν Unit := do
  Build.enableWave32
  p.build

theorem ensures_maskedKernel {w : Workspace ν} {p : MaskedFlow ν} {done : Unit → Workspace ν → Prop}
    {failed : Workspace ν → Prop} (hw : Tidy w)
    (h : ∀ w', Ready w' allLanes → w'.sheet.draft.lines = w.sheet.draft.lines →
      Ensures p.build w' done failed) : Ensures (maskedKernel p) w done failed := by
  refine .bind (.bind (Build.ensures_constant hw rfl rfl fun e w' ha he _ => ?_))
  refine Build.ensures_redraft (h _ ⟨⟨ha.tidy.visible, ha.tidy.names, ha.tidy.types⟩, rfl, ?_, ?_⟩ ?_)
  · exact ⟨e, [], rfl, he.visible, he.typed, he.name⟩
  · rintro x ⟨⟩
  · exact ha.text.trans (List.append_nil _)

def lowerHalf : Build ν Expr := do
  let bit ← Build.apply .laneBit []
  let low ← Build.constant (.u32 [0xffff])
  let own ← Build.binary .bitAnd bit low
  Build.binary .ne own (Literal.u32 [0])

def halves : MaskedFlow Unit :=
  .compute lowerHalf fun c => .branch c
    (.guarded (.compute (Build.named c "low") fun _ => .done) .done)
    (.branch c .done (.guarded (.compute (Build.named c "high") fun _ => .done) .done) .done) .done

theorem noMask_of_head (h : x.toList.head? ≠ some 'm') : NoMask x := by
  rintro n ⟨stem, hs, k, -, rfl⟩
  simp only [List.mem_cons, List.not_mem_nil, or_false] at hs
  rcases hs with rfl | rfl <;> simp at h

theorem plain_declare_temp {ty : Ty} {value : Initial}
    (hv : ∀ p args text, value = .call p args text → args = []) :
    (Line.declare ty (.temp n) value).Plain := by
  refine ⟨rfl, fun x hx => ?_⟩
  obtain rfl : x = (Spelling.temp n).text := by
    cases value with
    | call p args text =>
      obtain rfl := hv p args text rfl
      simpa [Line.written, Prototype.changed, Spelling.root?] using hx
    | _ => simpa [Line.written, Spelling.root?] using hx
  exact noMask_temp n

theorem plain_named {known : Conditions} {c : Expr} {name : Spelling} {word : String}
    (hc : (c, name) ∈ known) (hword : NoMask word) :
    (MaskedFlow.compute (Build.named c word) fun _ => .done : MaskedFlow ν).Plain fails known := by
  refine fun w hw hk => Build.ensures_named hw (hk _ hc).1 word fun e w' ha he _ => ?_
  refine ⟨_, [], ha, fun line hline => ?_, fun _ h => absurd h List.not_mem_nil, trivial⟩
  obtain rfl := List.mem_singleton.mp hline
  refine ⟨rfl, fun x hx => ?_⟩
  obtain rfl : x = word := by simpa [Line.written, Spelling.root?] using hx
  exact hword

theorem plain_halves (fails : Prop) : halves.Plain fails [] := by
  refine fun w hw _ => .bind (Build.ensures_laneBit hw fun bit w₁ p hp h₁ hbit =>
    .bind (Build.ensures_constant h₁.tidy rfl rfl fun low w₂ h₂ hlow _ => Ensures.bind
      (Build.ensures_binary h₂.tidy rfl rfl (hbit.later h₂) hlow fun own w₃ h₃ hown =>
        Build.ensures_nonzero h₃.tidy hown fun c w₄ n h₄ hc => ?_)))
  have hlow : NoMask "low" := noMask_of_head (by decide)
  have hhigh : NoMask "high" := noMask_of_head (by decide)
  have hmem : (c, Spelling.temp n) ∈ [(c, Spelling.temp n)] ++ ([] : Conditions) := by simp
  refine ⟨_, [(c, .temp n)], ((h₁.trans h₂).trans h₃).trans h₄, fun line hline => ?_,
    fun k hk => ?_, ⟨_, hmem⟩, ⟨plain_named hmem hlow, trivial⟩,
    ⟨⟨_, hmem⟩, trivial, ⟨plain_named hmem hhigh, trivial⟩, trivial⟩, trivial⟩
  · simp only [List.append_nil, List.cons_append, List.nil_append, List.mem_cons, List.not_mem_nil,
      or_false] at hline
    rcases hline with rfl | rfl | rfl <;> exact plain_declare_temp (by simp)
  · obtain rfl := List.mem_singleton.mp hk
    exact ⟨hc, fun x hx => (List.mem_singleton.mp hx) ▸ noMask_temp n⟩

def words : WaveMeaning (BitVec 32) where
  lane l :=
    { constant := fun text =>
        if text = "u32(0)" then 0 else if text = "u32(65535)" then 0xffff else .allOnes 32
      zero := fun _ => 0
      array := fun _ _ _ => 0
      unary := fun _ a => a
      binary := fun op a b => if op = .bitAnd then a &&& b else if a = b then 0 else 1
      call := fun p _ => if p.isBuiltin .laneBit then 1#32 <<< l.val else 0
      member := fun a _ => a
      element := fun a _ => a
      elementAt := fun a _ => a
      truth := (· != 0) }
  word := id
  effect _ _ _ _ := 0
  zero _ := rfl
  bitAnd _ _ _ := rfl
  ne l a b := by by_cases h : a = b <;> simp [h]
  laneBit l p h := if_pos h

theorem halves_obey_masks_iff :
    Ensures (maskedKernel halves) (.start .default 1 ()) (fun _ w => ∃ t,
        MaskedFlow.Prints [] halves t ∧ w.sheet.draft.lines = t.lines ∧
        ∀ m frames, WaveRun.run words ⟨m, frames⟩ t.lines =
            some ⟨t.exec words .chained (.allOnes 32) m, frames⟩ ∧
          ((t.exec words .chained (.allOnes 32) m).trace = (t.exec words .own (.allOnes 32) m).trace ↔
            t.Uncontested words (.allOnes 32) m))
      fun _ => False := by
  have htidy := Tidy.start .default 1 ()
  have hstart : (Workspace.start .default 1 ()).sheet.draft.lines = [] := rfl
  generalize Workspace.start .default 1 () = start at htidy hstart ⊢
  refine ensures_maskedKernel htidy fun w hr hempty => ?_
  refine (MaskedFlow.build_obeys_masks_iff (plain_halves False) hr fun _ h => absurd h
    List.not_mem_nil).mono (fun _ w' h => ?_) fun _ h => h
  obtain ⟨t, hprints, htext, hrun⟩ := h
  have hlines : w'.sheet.draft.lines = t.lines := by
    rw [htext, hempty, hstart, List.nil_append]
  exact ⟨t, hprints, hlines, fun m frames => hrun _ words _ m frames fun l _ => by
    simp [Wave.eval, allLanes, words]⟩

def Trace.lanesOf (t : Trace) (x : String) : List Lanes :=
  t.filterMap fun (line, lanes) => if line.written.contains x then some lanes else none

theorem halves_upper_lost :
    ∃ w r, maskedKernel halves (Workspace.start .default 1 ()) = .ok () w ∧
      WaveRun.run words ⟨⟨fun _ _ => 0, .allOnes 32, []⟩, []⟩ w.sheet.draft.lines = some r ∧
      r.wave.trace.lanesOf "low" = [0x0000ffff] ∧ r.wave.trace.lanesOf "high" = [0] := by
  obtain ⟨_, w, hbuild, r, hrun, hlow, hhigh⟩ := exists_ok_of_ensures (maskedKernel halves)
    (.start .default 1 ()) (fun _ w => ∃ r ∈ WaveRun.run words ⟨⟨fun _ _ => 0, .allOnes 32, []⟩, []⟩
      w.sheet.draft.lines, r.wave.trace.lanesOf "low" = [0x0000ffff] ∧
        r.wave.trace.lanesOf "high" = [0]) (by decide +kernel)
  exact ⟨w, r, hbuild, hrun, hlow, hhigh⟩

end ComputeKernel
