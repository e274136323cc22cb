import ComputeKernel.Proofs.ManifestText
import Mathlib.Data.List.Pairwise

namespace ComputeKernel

namespace Ty

mutual

def structs : Ty → List Ty
  | .struct name fields builtin => fieldStructs fields ++ [.struct name fields builtin]
  | .array elem _ => elem.structs
  | .resource _ (some elem) _ _ => elem.structs
  | .resource _ none _ _ | .void | .numeric _ | .wildcard _ | .value .. => []

def fieldStructs : List (String × Ty) → List Ty
  | [] => []
  | (_, ty) :: rest => ty.structs ++ fieldStructs rest

end

def inner (ty : Ty) : List Ty := fieldStructs ty.fields

mutual

theorem sizeOf_structs : (ty : Ty) → ∀ s ∈ ty.structs, sizeOf s ≤ sizeOf ty
  | .struct name fields builtin, s, h => by
    rw [structs, List.mem_append, List.mem_singleton] at h
    rcases h with h | rfl
    · have := sizeOf_fieldStructs fields s h
      simp only [struct.sizeOf_spec]
      omega
    · exact Nat.le_refl _
  | .array elem _, s, h => by
    rw [structs] at h
    have := sizeOf_structs elem s h
    simp only [array.sizeOf_spec]
    omega
  | .resource _ (some elem) _ _, s, h => by
    rw [structs] at h
    have := sizeOf_structs elem s h
    simp only [resource.sizeOf_spec, Option.some.sizeOf_spec]
    omega
  | .resource _ none _ _, _, h | .void, _, h | .numeric _, _, h | .wildcard _, _, h
  | .value .., _, h => by
    rw [structs] at h
    cases h

theorem sizeOf_fieldStructs : (fields : List (String × Ty)) →
    ∀ s ∈ fieldStructs fields, sizeOf s < sizeOf fields
  | [], _, h => by
    rw [fieldStructs] at h
    cases h
  | (_, ty) :: rest, s, h => by
    rw [fieldStructs, List.mem_append] at h
    simp only [List.cons.sizeOf_spec, Prod.mk.sizeOf_spec]
    rcases h with h | h
    · have := sizeOf_structs ty s h
      omega
    · have := sizeOf_fieldStructs rest s h
      omega

end

theorem not_mem_fieldStructs (name : String) (fields : List (String × Ty)) (builtin : Bool) :
    .struct name fields builtin ∉ fieldStructs fields := by
  intro h
  have := sizeOf_fieldStructs fields _ h
  simp only [struct.sizeOf_spec] at this
  omega

end Ty

namespace Draft

variable {d d' : Draft}

structure Declared (d : Draft) : Prop where
  known : ∀ name ty, d.types.find? name = some ty → ty ∈ d.structs
  named : ∀ ty ∈ d.structs, d.types.find? ty.name ≠ none
  nodup : d.structs.Nodup
  ordered : ∀ before ty after, d.structs = before ++ ty :: after → ∀ s ∈ ty.inner, s ∈ before
  nested : d.structs.Pairwise fun a b => a.name = b.name → a ∈ b.inner

theorem declared_start (settings : Settings) : (start settings).Declared where
  known _ _ h := by cases h
  named _ h := by cases h
  nodup := .nil
  ordered before ty after h := by cases before <;> cases h
  nested := .nil

theorem Declared.of_eq (h : d.Declared) (htypes : d'.types = d.types)
    (hstructs : d'.structs = d.structs) : d'.Declared where
  known := htypes ▸ hstructs ▸ h.known
  named := htypes ▸ hstructs ▸ h.named
  nodup := hstructs ▸ h.nodup
  ordered := hstructs ▸ h.ordered
  nested := hstructs ▸ h.nested

theorem Declared.inner_subset (h : d.Declared) {ty : Ty} (hty : ty ∈ d.structs) :
    ty.inner ⊆ d.structs := by
  obtain ⟨before, after, heq⟩ := List.append_of_mem hty
  intro s hs
  rw [heq]
  exact List.mem_append_left _ (h.ordered before ty after heq s hs)

variable {name : String} {fields : List (String × Ty)} {builtin : Bool}

theorem Declared.record (h : d.Declared) (hfields : Ty.fieldStructs fields ⊆ d.structs)
    (hsame : ∀ s ∈ d.structs, s.name = name → s ∈ Ty.fieldStructs fields) :
    Declared { d with
      types := d.types.insert name (.struct name fields builtin)
      structs := d.structs ++ [.struct name fields builtin] } where
  known key ty hfind := by
    simp only [NameTable.find?_insert] at hfind
    split at hfind
    · cases hfind
      simp
    · exact List.mem_append_left _ (h.known key ty hfind)
  named ty hty := by
    simp only [NameTable.find?_insert]
    split
    · simp
    · rename_i hname
      rcases List.mem_append.mp hty with hty | hty
      · exact h.named ty hty
      · rw [List.mem_singleton.mp hty] at hname
        exact absurd rfl hname
  nodup := by
    refine List.nodup_append.mpr ⟨h.nodup, List.nodup_singleton _, fun s hs t ht heq => ?_⟩
    rw [List.mem_singleton.mp ht] at heq
    subst heq
    exact Ty.not_mem_fieldStructs name fields builtin (hsame _ hs rfl)
  ordered before ty after heq s hs := by
    rcases List.append_eq_append_iff.mp heq with ⟨mid, rfl, hmid⟩ | ⟨mid, hmid, hrest⟩
    · cases mid with
      | nil =>
        cases hmid
        simpa using hfields hs
      | cons first rest => simp at hmid
    · cases mid with
      | nil =>
        cases hrest
        rw [List.append_nil] at hmid
        exact hmid ▸ hfields hs
      | cons first rest =>
        cases hrest
        exact h.ordered before ty rest hmid s hs
  nested := by
    refine List.pairwise_append.mpr ⟨h.nested, List.pairwise_singleton _ _, fun s hs t ht => ?_⟩
    rw [List.mem_singleton.mp ht]
    exact hsame s hs

structure Gained (structs : List Ty) (d d' : Draft) : Prop where
  declared : d'.Declared
  kept : d.structs ⊆ d'.structs
  added : ∀ s ∈ d'.structs, s ∈ d.structs ∨ s ∈ structs ∧ ∀ t ∈ d.structs, t.name ≠ s.name

theorem Gained.refl (h : d.Declared) (structs : List Ty) : Gained structs d d where
  declared := h
  kept := List.Subset.refl _
  added _ := .inl

theorem Gained.mono {structs more : List Ty} (h : Gained structs d d') (hsub : structs ⊆ more) :
    Gained more d d' where
  declared := h.declared
  kept := h.kept
  added s hs := (h.added s hs).imp_right fun hs => ⟨hsub hs.1, hs.2⟩

theorem Gained.trans {structs : List Ty} {d'' : Draft} (h : Gained structs d d')
    (h' : Gained structs d' d'') : Gained structs d d'' where
  declared := h'.declared
  kept := List.Subset.trans h.kept h'.kept
  added s hs := (h'.added s hs).elim (h.added s) fun hs =>
    .inr ⟨hs.1, fun t ht => hs.2 t (h.kept ht)⟩

def Records (structs : List Ty) (x : Drafting Unit) : Prop :=
  ∀ d : Draft, d.Declared → Ends x d (fun _ d' => Gained structs d d' ∧ structs ⊆ d'.structs)
    fun fault d' => (∃ name, fault = .structConflict name) ∧ Gained structs d d'

theorem records_nothing : Records [] (pure ()) := fun _ hd =>
  ⟨.refl hd [], List.nil_subset _⟩

theorem Records.append {first rest : List Ty} {x y : Drafting Unit} (hx : Records first x)
    (hy : Records rest y) : Records (first ++ rest) (x >>= fun _ => y) := by
  have hfirst : first ⊆ first ++ rest := List.subset_append_left ..
  have hrest : rest ⊆ first ++ rest := List.subset_append_right ..
  intro d hd
  refine .bind ((hx d hd).mono (fun _ d₁ h₁ => ?_) fun _ _ h₁ => ⟨h₁.1, h₁.2.mono hfirst⟩)
  obtain ⟨hgained, hall⟩ := h₁
  refine (hy d₁ hgained.declared).mono (fun _ d₂ h₂ => ⟨?_, ?_⟩) fun _ d₂ h₂ => ⟨h₂.1, ?_⟩
  · exact (hgained.mono hfirst).trans (h₂.1.mono hrest)
  · exact List.append_subset.mpr ⟨List.Subset.trans hall h₂.1.kept, h₂.2⟩
  · exact (hgained.mono hfirst).trans (h₂.2.mono hrest)

theorem Declared.structs_subset (h : d.Declared)
    (hfind : d.types.find? name = some (.struct name fields builtin)) :
    Ty.structs (.struct name fields builtin) ⊆ d.structs := by
  have hmem := h.known name _ hfind
  rw [Ty.structs]
  exact List.append_subset.mpr ⟨h.inner_subset hmem, fun s hs => List.mem_singleton.mp hs ▸ hmem⟩

theorem records_struct (hfields : Records (Ty.fieldStructs fields) (Drafting.registerFields fields))
    : Records (Ty.structs (.struct name fields builtin))
    (Drafting.registerType (.struct name fields builtin)) := by
  intro d hd
  rw [Drafting.registerType]
  refine .bind (.get ?_)
  cases hfind : d.types.find? name with
  | some existing =>
    refine .ite (fun _ => .throw ⟨⟨name, rfl⟩, .refl hd _⟩) fun hsame => .pure ⟨.refl hd _, ?_⟩
    rw [not_not.mp hsame] at hfind
    exact hd.structs_subset hfind
  | none =>
    have hfresh : ∀ s ∈ d.structs, s.name ≠ name := by
      rintro s hs rfl
      exact hd.named s hs hfind
    rw [Ty.structs]
    have hsub : Ty.fieldStructs fields ⊆ Ty.fieldStructs fields ++ [.struct name fields builtin] :=
      List.subset_append_left ..
    refine .bind ((hfields d hd).mono (fun _ d₁ h₁ => ?_) fun _ _ h₁ => ⟨h₁.1, h₁.2.mono hsub⟩)
    obtain ⟨hgained, hall⟩ := h₁
    have hnested : ∀ s ∈ d₁.structs, s.name = name → s ∈ Ty.fieldStructs fields :=
      fun s hs hname => ((hgained.added s hs).resolve_left fun hold => hfresh s hold hname).1
    have hkept : d₁.structs ⊆ d₁.structs ++ [.struct name fields builtin] :=
      List.subset_append_left ..
    refine .modify ⟨⟨hgained.declared.record hall hnested, ?_, fun s hs => ?_⟩, ?_⟩
    · exact List.Subset.trans hgained.kept hkept
    · rcases List.mem_append.mp hs with hs | hs
      · exact (hgained.added s hs).imp_right fun hs => ⟨List.mem_append_left _ hs.1, hs.2⟩
      · refine .inr ⟨List.mem_append_right _ hs, ?_⟩
        rw [List.mem_singleton.mp hs]
        exact hfresh
    · exact List.append_subset.mpr
        ⟨List.Subset.trans hall hkept, List.subset_append_right ..⟩

mutual

theorem records_registerType : (ty : Ty) → Records ty.structs (Drafting.registerType ty)
  | .struct _ fields _ => records_struct (records_registerFields fields)
  | .array elem _ => by
    rw [Drafting.registerType, Ty.structs]
    exact records_registerType elem
  | .resource _ (some elem) _ _ => by
    rw [Drafting.registerType, Ty.structs]
    exact records_registerType elem
  | .resource _ none _ _ | .void | .numeric _ | .wildcard _ | .value .. => by
    rw [Drafting.registerType, Ty.structs]
    exact records_nothing

theorem records_registerFields : (fields : List (String × Ty)) →
    Records (Ty.fieldStructs fields) (Drafting.registerFields fields)
  | [] => by
    rw [Drafting.registerFields, Ty.fieldStructs]
    exact records_nothing
  | (_, ty) :: rest => by
    rw [Drafting.registerFields, Ty.fieldStructs]
    exact (records_registerType ty).append (records_registerFields rest)

end

theorem declared_registerType (ty : Ty) (h : d.Declared) :
    Ensures (Drafting.registerType ty) d (fun _ => Declared) Declared := by
  unfold Ensures
  cases hrun : Drafting.registerType ty d with
  | ok _ d' => exact ((records_registerType ty d h).of_ok hrun).1.declared
  | error _ d' => exact ((records_registerType ty d h).of_error hrun).2.declared

open Drafting in
theorem declared_registerResource (res : Resource) (h : d.Declared) :
    Ensures (registerResource res) d (fun _ => Declared) Declared := by
  refine .bind (ensures_get ?_)
  cases d.resources.find? res.name with
  | some existing => exact ensures_ite (fun _ => ensures_throw h) fun _ => ensures_pure h
  | none =>
    exact .bind ((declared_registerType res.ty h).mono
      (fun _ _ hd => ensures_modify (hd.of_eq rfl rfl)) fun _ hd => hd)

open Drafting in
theorem declared_addShared (name : String) (ty : Ty) (h : d.Declared) :
    Ensures (addShared name ty) d (fun _ => Declared) Declared := by
  refine .bind (ensures_get ?_)
  cases d.shared.find? name with
  | some existing => exact ensures_ite (fun _ => ensures_throw h) fun _ => ensures_pure h
  | none =>
    exact .bind ((declared_registerType ty h).mono
      (fun _ _ hd => ensures_modify (hd.of_eq rfl rfl)) fun _ hd => hd)

theorem declared_apply (c : Change) (d : Draft) (h : d.Declared) : (c.apply d).Declared := by
  cases hc : c.isRegistration with
  | false =>
    have hsame := registry_apply hc d
    simp only [registry, Prod.mk.injEq] at hsame
    exact h.of_eq hsame.2.1 hsame.2.2.1
  | true =>
    cases c with
    | registerType ty => exact (declared_registerType ty h).final
    | registerResource res => exact (declared_registerResource res h).final
    | addShared name ty => exact (declared_addShared name ty h).final
    | _ => cases hc

theorem Reached.declared (h : d.Reached) : d.Declared := by
  obtain ⟨settings, hleads⟩ := h.leads
  exact hleads.keeps declared_apply (declared_start settings)

theorem structs_follow_what_they_use (d : Draft) (h : d.Reached) :
    d.structs.Nodup ∧ ∀ (i : Nat) (ty : Ty), d.structs[i]? = some ty → ∀ s ∈ ty.inner,
      ∃ j, j < i ∧ d.structs[j]? = some s := by
  refine ⟨h.declared.nodup, fun i ty hi s hs => ?_⟩
  obtain ⟨hlt, rfl⟩ := List.getElem?_eq_some_iff.mp hi
  have hsplit : d.structs = d.structs.take i ++ d.structs[i] :: d.structs.drop (i + 1) := by
    rw [List.getElem_cons_drop, List.take_append_drop]
  have hmem := h.declared.ordered _ _ _ hsplit s hs
  obtain ⟨j, hj, hget⟩ := List.mem_take_iff_getElem.mp hmem
  exact ⟨j, by omega, hget ▸ List.getElem?_eq_getElem _⟩

def refusedSurface : List Session.Step :=
  let leaf : Ty := .struct "Leaf" [("albedo", .f32x3)] false
  let tree : Ty := .struct "Tree" [("leaves", .buffer (.array leaf (.fixed 4)))] false
  [⟨.registerType (.ok (.struct "Surface"
      [("tree", .array (.array tree (.fixed 2)) (.fixed 3)), ("sun", .rayDesc),
        ("leaf", .struct "Leaf" [("albedo", .f32x4)] false)] false)), none⟩]

theorem refusedSurface_ordered :
    ∃ d, Reached d ∧ d.structs.map Ty.name = ["Leaf", "Tree", "RayDesc"] ∧
      d.structs.Nodup ∧ ∀ (i : Nat) (ty : Ty), d.structs[i]? = some ty → ∀ s ∈ ty.inner,
        ∃ j, j < i ∧ d.structs[j]? = some s :=
  have hreached := Reached.session .default 1 refusedSurface
  ⟨_, hreached, by decide +kernel, structs_follow_what_they_use _ hreached⟩

section Names

theorem Declared.names_nodup_iff (h : d.Declared) (p : Ty → Bool) :
    ((d.structs.filter p).map Ty.name).Nodup ↔
      ∀ ty ∈ d.structs, p ty = true → ∀ s ∈ ty.inner, p s = true → s.name ≠ ty.name := by
  rw [List.Nodup, List.pairwise_map, List.pairwise_filter]
  refine ⟨fun hdistinct ty hty hp s hs hps => ?_, fun hinner => ?_⟩
  · obtain ⟨before, after, heq⟩ := List.append_of_mem hty
    have hbefore := h.ordered before ty after heq s hs
    rw [heq] at hdistinct
    exact (List.pairwise_append.mp hdistinct).2.2 s hbefore ty List.mem_cons_self hps hp
  · refine h.nested.imp_of_mem fun {a b} _ hb hnested hpa hpb hname => ?_
    exact hinner b hb hpb a (hnested hname) hpa hname

variable {a b : Ty}

theorem Declared.nested_of_name_eq (h : d.Declared) (ha : a ∈ d.structs)
    (hb : b ∈ d.structs) (hname : a.name = b.name) (hne : a ≠ b) : a ∈ b.inner ∨ b ∈ a.inner := by
  have hpairs : d.structs.Pairwise fun a b => a.name = b.name → a ∈ b.inner ∨ b ∈ a.inner :=
    h.nested.imp fun hnested hname => .inl (hnested hname)
  have : Std.Symm fun a b : Ty => a.name = b.name → a ∈ b.inner ∨ b ∈ a.inner :=
    ⟨fun _ _ hpair hname => (hpair hname.symm).symm⟩
  exact hpairs.forall ha hb hne hname

theorem registerType_refuses (h : d.Declared) {ty : Ty} (hb : b ∈ ty.structs)
    (hname : a.name = b.name) (hne : a ≠ b)
    (hother : a ∈ d.structs ∧ b ∉ d.structs ∨ a ∈ ty.structs ∧ a ∉ b.inner ∧ b ∉ a.inner) :
    ∃ name d', Drafting.registerType ty d = .error (.structConflict name) d' := by
  have hrecords := records_registerType ty d h
  cases hrun : Drafting.registerType ty d with
  | error fault d' =>
    obtain ⟨⟨name, rfl⟩, -⟩ := hrecords.of_error hrun
    exact ⟨name, d', rfl⟩
  | ok _ d' =>
    obtain ⟨hgained, hall⟩ := hrecords.of_ok hrun
    rcases hother with ⟨ha, hnew⟩ | ⟨ha, hab, hba⟩
    · have hfree := ((hgained.added b (hall hb)).resolve_left hnew).2
      exact absurd hname (hfree a ha)
    · exact ((hgained.declared.nested_of_name_eq (hall ha) (hall hb) hname hne).elim hab hba).elim

theorem struct_names_distinct_iff (d : Draft) (h : d.Reached) :
    ((d.structs.map Ty.name).Nodup ↔ ∀ ty ∈ d.structs, ∀ s ∈ ty.inner, s.name ≠ ty.name) ∧
    (((d.structs.filter fun ty => !ty.isBuiltinStruct).map Ty.name).Nodup ↔
      ∀ ty ∈ d.structs, ty.isBuiltinStruct = false → ∀ s ∈ ty.inner, s.isBuiltinStruct = false →
        s.name ≠ ty.name) ∧
    (∀ ty a b : Ty, b ∈ ty.structs → a.name = b.name → a ≠ b →
      (a ∈ d.structs ∧ b ∉ d.structs ∨ a ∈ ty.structs ∧ a ∉ b.inner ∧ b ∉ a.inner) →
        ∃ name d', Drafting.registerType ty d = .error (.structConflict name) d') ∧
    ∀ a ∈ d.structs, ∀ b ∈ d.structs, a.name = b.name → a ≠ b → a ∈ b.inner ∨ b ∈ a.inner := by
  refine ⟨?_, ?_, fun ty a b => registerType_refuses h.declared,
    fun a ha b hb => h.declared.nested_of_name_eq ha hb⟩
  · simpa using h.declared.names_nodup_iff fun _ => true
  · simpa using h.declared.names_nodup_iff fun ty => !ty.isBuiltinStruct

def echo : Ty := .struct "Echo" [("first", .struct "Echo" [("delay", .f32)] false)] false

def echoes : List Session.Step := [⟨.registerType (.ok echo), none⟩]

theorem echoes_defined_twice :
    ∃ d, Reached d ∧ d.structs.map Ty.name = ["Echo", "Echo"] ∧
      ¬(d.structs.map Ty.name).Nodup ∧ Drafting.registerType echo (start .default) = .ok () d ∧
      d.structSection = "struct Echo \x7b\n    f32 delay;\n\x7d;\n" ++
        "struct Echo \x7b\n    Echo first;\n\x7d;\n" :=
  ⟨_, Reached.session .default 1 echoes, by decide +kernel, by decide +kernel, rfl,
    by decide +kernel⟩

def pairedNames : List Session.Step :=
  [⟨.registerType (.ok (.struct "Tree"
    [("leaf", .array (.struct "Leaf" [("albedo", .f32x3)] false) .unbounded)] false)), none⟩]

theorem pairedNames_distinct :
    ∃ d, Reached d ∧ d.structs.map Ty.name = ["Leaf", "Tree"] ∧ (d.structs.map Ty.name).Nodup ∧
      ((d.structs.filter fun ty => !ty.isBuiltinStruct).map Ty.name).Nodup ∧
      ∃ name d', Drafting.registerType (.buffer (.struct "Leaf" [("albedo", .f32)] false)) d =
        .error (.structConflict name) d' := by
  have hreached := Reached.session .default 1 pairedNames
  obtain ⟨hnames, hdefined, hrefused, -⟩ := struct_names_distinct_iff _ hreached
  refine ⟨_, hreached, by decide +kernel, hnames.mpr (by decide +kernel),
    hdefined.mpr (by decide +kernel), ?_⟩
  exact hrefused _ (.struct "Leaf" [("albedo", .f32x3)] false) (.struct "Leaf" [("albedo", .f32)] false)
    (by decide +kernel) rfl (by decide +kernel) (.inl (by decide +kernel))

end Names

end Draft

end ComputeKernel
