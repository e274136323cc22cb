import ComputeKernel.Proofs.ManifestText

namespace ComputeKernel

namespace GroupSize

def Occupied (g : GroupSize) : Prop := g.x ≠ 0 ∧ g.y ≠ 0 ∧ g.z ≠ 0

def volume (g : GroupSize) : Nat := g.x.toNat * g.y.toNat * g.z.toNat

def Accepted (g : GroupSize) : Prop := g.Occupied ∧ g.volume < UInt64.size ∧ 32 ∣ g.volume

def Overflows (g : GroupSize) : Prop := g.Occupied ∧ UInt64.size ≤ g.volume

theorem plane_lt (g : GroupSize) : g.x.toNat * g.y.toNat < UInt64.size :=
  calc g.x.toNat * g.y.toNat
    _ ≤ (UInt32.size - 1) * (UInt32.size - 1) :=
      Nat.mul_le_mul (Nat.le_sub_one_of_lt g.x.toNat_lt) (Nat.le_sub_one_of_lt g.y.toNat_lt)
    _ < UInt64.size := by decide

-- The product of two axes always fits, so that only the third can lead past the limit.
theorem threads?_eq (g : GroupSize) :
    g.threads? = if g.volume < UInt64.size then some g.volume else none := by
  simp only [threads?, g.plane_lt, if_true, volume]
  rfl

theorem check_empty {g : GroupSize} (h : ¬g.Occupied) :
    g.check = .error (.fault (.emptyAxis g.x g.y g.z)) := by
  rw [check, if_pos]
  simpa only [Occupied, not_and_or, not_not] using h

theorem check_occupied {g : GroupSize} (h : g.Occupied) :
    g.check = if g.volume < UInt64.size then
      if 32 ∣ g.volume then .ok () else .error (.fault (.partialWave g.x g.y g.z g.volume))
    else .error (.overflow .multiply) := by
  rw [check, if_neg (by simpa only [Occupied, not_or] using h), threads?_eq]
  by_cases hfits : g.volume < UInt64.size
  · simp only [hfits, if_true, Nat.dvd_iff_mod_eq_zero]
  · simp only [hfits, if_false]

theorem check_cases (g : GroupSize) :
    (g.Accepted ∧ ¬g.Overflows ∧ g.check = .ok ()) ∨
      (g.Overflows ∧ ¬g.Accepted ∧ g.check = .error (.overflow .multiply)) ∨
      ¬g.Accepted ∧ ¬g.Overflows ∧ ∃ fault, g.check = .error (.fault fault) := by
  by_cases hocc : g.Occupied
  · rw [check_occupied hocc]
    by_cases hfits : g.volume < UInt64.size
    · have hover : ¬g.Overflows := fun h => absurd h.2 (Nat.not_le.mpr hfits)
      rw [if_pos hfits]
      by_cases hwhole : 32 ∣ g.volume
      · exact .inl ⟨⟨hocc, hfits, hwhole⟩, hover, if_pos hwhole⟩
      · exact .inr (.inr ⟨fun h => hwhole h.2.2, hover, _, if_neg hwhole⟩)
    · exact .inr (.inl ⟨⟨hocc, Nat.not_lt.mp hfits⟩, fun h => hfits h.2.1, if_neg hfits⟩)
  · exact .inr (.inr ⟨fun h => hocc h.1, fun h => hocc h.1, _, check_empty hocc⟩)

theorem default_accepted : default.Accepted :=
  ⟨⟨by decide, by decide, by decide⟩, by decide, by decide⟩

end GroupSize

namespace Draft

def resized (d : Draft) (size : GroupSize) : Draft := { d with groupSize := size }

theorem setGroupSize_eq (d : Draft) (size : GroupSize) :
    d.setGroupSize size = size.check.map fun _ => d.resized size := by
  rw [setGroupSize]
  cases size.check <;> rfl

variable {d : Draft}

theorem groupSize_apply (c : Change) (d : Draft) :
    (c.apply d).groupSize = d.groupSize ∨
      (c.apply d).groupSize.Accepted := by
  cases c with
  | setGroupSize size =>
    rw [Change.apply, setGroupSize_eq]
    rcases size.check_cases with ⟨haccepted, -, h⟩ | ⟨-, -, h⟩ | ⟨-, -, fault, h⟩
    · rw [h]
      exact .inr haccepted
    · rw [h]
      exact .inl rfl
    · rw [h]
      exact .inl rfl
  | write line =>
    refine .inl ?_
    rw [Change.apply, write]
    split <;> rfl
  | exitFunction =>
    have hkeeps : Keeps Draft.groupSize Drafting.exitFunction := fun _ =>
      ensures_exitFunction (fun _ _ _ _ => rfl) rfl fun _ _ _ => rfl
    exact .inl (hkeeps d).final
  | exitScope => exact .inl (keeps_exitScope (fun _ _ => rfl) d).final
  | popTarget => exact .inl (keeps_popTarget (fun _ _ => rfl) d).final
  | popMask => exact .inl (keeps_popMask (fun _ _ => rfl) d).final
  | registerType ty => exact .inl (keeps_registerType (fun _ _ _ => rfl) ty d).final
  | registerResource res =>
    exact .inl (keeps_registerResource (fun _ _ _ => rfl) (fun _ _ => rfl) res d).final
  | addShared name ty =>
    exact .inl (keeps_addShared (fun _ _ _ => rfl) (fun _ _ => rfl) name ty d).final
  | _ => exact .inl rfl

theorem Reached.accepted (h : d.Reached) : d.groupSize.Accepted := by
  obtain ⟨settings, hleads⟩ := h.leads
  refine hleads.keeps (P := fun d => d.groupSize.Accepted) (fun c d hd => ?_) ?_
  · rcases groupSize_apply c d with heq | haccepted
    · exact heq ▸ hd
    · exact haccepted
  · exact GroupSize.default_accepted

theorem finish_prints_size {text : String} (h : d.finish = .ok text) :
    ∃ before after, text = before ++ "[numthreads(" ++ d.groupSize.text
      ++ ")] void main(u32x3 __tid : SV_DispatchThreadID, " ++ after := by
  obtain ⟨-, -, resources, -, rfl⟩ := finish_eq_ok h
  refine ⟨Prologue.text ++ d.structSection ++ d.sharedSection ++ resources ++ d.header
    ++ Line.textOf d.functions, "u32x3 __gid : SV_GroupThreadID, u32x3 __group_id : SV_GroupID)\n\x7b\n"
    ++ Line.textOf d.body ++ "\x7d\n", ?_⟩
  simp only [entryHeader, String.append_assoc]

end Draft

section Setting

variable {ν : Type} {size : GroupSize} {failure : Failure} {fault : Fault} {overflow : Overflow}

def Session.resized (s : Session) (size : GroupSize) : Session :=
  { s with sheet := { s.sheet with draft := s.sheet.draft.resized size } }

def Workspace.resized (w : Workspace ν) (size : GroupSize) : Workspace ν :=
  { w with sheet := { w.sheet with draft := w.sheet.draft.resized size } }

theorem Session.perform_accepted (h : size.check = .ok ()) (s : Session) :
    perform (.setGroupSize size) s = .ok .done (s.resized size) := by
  simp only [perform, bind_get, Draft.setGroupSize_eq, h]
  rfl

theorem Session.perform_refused (h : size.check = .error failure) (s : Session) :
    perform (.setGroupSize size) s = .error (.ofFailure failure) s := by
  simp only [perform, bind_get, Draft.setGroupSize_eq, h]
  rfl

theorem Build.setGroupSize_accepted (h : size.check = .ok ()) (w : Workspace ν) :
    setGroupSize size w = .ok (.ok ()) (w.resized size) := by
  simp only [setGroupSize, draft, bind_assoc, bind_get, pure_bind, Draft.setGroupSize_eq, h]
  rfl

theorem Build.setGroupSize_faulty (h : size.check = .error (.fault fault)) (w : Workspace ν) :
    setGroupSize size w = .ok (.error fault) w := by
  simp only [setGroupSize, draft, bind_assoc, bind_get, pure_bind, Draft.setGroupSize_eq, h]
  rfl

theorem Build.setGroupSize_overflow (h : size.check = .error (.overflow overflow))
    (w : Workspace ν) : setGroupSize size w = .error (.overflow overflow) w := by
  simp only [setGroupSize, draft, bind_assoc, bind_get, pure_bind, Draft.setGroupSize_eq, h]
  rfl

theorem Session.setGroupSize_iff (size : GroupSize) (s : Session) :
    (size.Accepted ↔ perform (.setGroupSize size) s = .ok .done (s.resized size)) ∧
    (size.Overflows ↔ perform (.setGroupSize size) s = .error (.overflow .multiply) s) ∧
    (¬size.Accepted ∧ ¬size.Overflows ↔
      ∃ fault, perform (.setGroupSize size) s = .error (.fault fault) s) := by
  rcases size.check_cases with ⟨ha, ho, h⟩ | ⟨ho, ha, h⟩ | ⟨ha, ho, fault, h⟩
  · simp [ha, ho, perform_accepted h]
  · simp [ha, ho, perform_refused h, Stop.ofFailure]
  · simp [ha, ho, perform_refused h, Stop.ofFailure]

theorem Build.setGroupSize_iff (size : GroupSize) (w : Workspace ν) :
    (size.Accepted ↔ setGroupSize size w = .ok (.ok ()) (w.resized size)) ∧
    (size.Overflows ↔ setGroupSize size w = .error (.overflow .multiply) w) ∧
    (¬size.Accepted ∧ ¬size.Overflows ↔ ∃ fault, setGroupSize size w = .ok (.error fault) w) := by
  rcases size.check_cases with ⟨ha, ho, h⟩ | ⟨ho, ha, h⟩ | ⟨ha, ho, fault, h⟩
  · simp [ha, ho, setGroupSize_accepted h]
  · simp [ha, ho, setGroupSize_overflow h]
  · simp [ha, ho, setGroupSize_faulty h]

end Setting

/-- A group size is taken exactly when its axes are not empty and their exact product fits and is a
multiple of 32; else nothing changes. So every kernel has groups of whole waves. -/
theorem groups_are_whole_waves {ν : Type} (size : GroupSize) (s : Session) (w : Workspace ν)
    (d : Draft) (hd : d.Reached) :
    size.x.toNat * size.y.toNat < UInt64.size ∧
    ((size.Accepted ↔ Session.perform (.setGroupSize size) s = .ok .done (s.resized size)) ∧
      (size.Overflows ↔
        Session.perform (.setGroupSize size) s = .error (.overflow .multiply) s) ∧
      (¬size.Accepted ∧ ¬size.Overflows ↔
        ∃ fault, Session.perform (.setGroupSize size) s = .error (.fault fault) s)) ∧
    ((size.Accepted ↔ Build.setGroupSize size w = .ok (.ok ()) (w.resized size)) ∧
      (size.Overflows ↔ Build.setGroupSize size w = .error (.overflow .multiply) w) ∧
      (¬size.Accepted ∧ ¬size.Overflows ↔
        ∃ fault, Build.setGroupSize size w = .ok (.error fault) w)) ∧
    Overflow.multiply.message = "attempt to multiply with overflow" ∧
    d.groupSize.Occupied ∧ 32 ∣ d.groupSize.volume ∧
    (∀ m, d.manifest = .ok m → m.groupSize = d.groupSize) ∧
    ∀ text, d.finish = .ok text → ∃ before after, text = before ++ "[numthreads("
      ++ d.groupSize.text ++ ")] void main(u32x3 __tid : SV_DispatchThreadID, " ++ after := by
  have hmanifest (m : Manifest) (hm : d.manifest = .ok m) : m.groupSize = d.groupSize := by
    obtain ⟨_, -, rfl⟩ := Draft.manifest_eq_ok hm
    rfl
  obtain ⟨hoccupied, -, hwhole⟩ := hd.accepted
  exact ⟨size.plane_lt, Session.setGroupSize_iff size s, Build.setGroupSize_iff size w, rfl,
    hoccupied, hwhole, hmanifest, fun _ => Draft.finish_prints_size⟩

def regrouped : List Session.Step :=
  [⟨.setGroupSize ⟨64, 2, 1⟩, none⟩, ⟨.setGroupSize ⟨5, 5, 1⟩, none⟩]

theorem regrouped_whole :
    ∃ d : Draft, d.Reached ∧ d.groupSize = ⟨64, 2, 1⟩ ∧ 32 ∣ d.groupSize.volume ∧
      Session.perform (.setGroupSize ⟨4294967295, 4294967295, 2⟩) (.start .default 1) =
        .error (.overflow .multiply) (.start .default 1) := by
  have hreached := Draft.Reached.session .default 1 regrouped
  obtain ⟨-, ⟨-, hover, -⟩, -, -, -, hwhole, -⟩ := groups_are_whole_waves
    ⟨4294967295, 4294967295, 2⟩ (.start .default 1) (.start .default 1 ()) _ hreached
  refine ⟨_, hreached, by decide +kernel, hwhole, hover.mp ⟨⟨?_, ?_, ?_⟩, ?_⟩⟩ <;> decide

end ComputeKernel
