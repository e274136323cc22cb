import ComputeKernel.Proofs.BalancedText
import ComputeKernel.Proofs.BuildHistory
import ComputeKernel.Proofs.NameOrder

namespace ComputeKernel

def ManifestEntry.line (e : ManifestEntry) : String :=
  e.typeName ++ " " ++ e.name ++ Declaration.extentText e.array
    ++ Declaration.bindingText e.letter e.register e.space ++ ";\n"

namespace Resource

def Unplaced (res : Resource) : Prop :=
  res.array.map ResourceArray.extent = some .unbounded ∧ res.binding.bind Binding.space = none

structure Listed (res : Resource) (e : ManifestEntry) : Prop where
  name : e.name = res.name
  typeName : Declaration.typeText? res = .ok e.typeName
  shape : ∃ elem, res.shape = .resource e.kind elem e.dim e.access ∧ e.elem = elem.map Ty.name
  array : e.array = res.array.map ResourceArray.extent
  letter : e.letter = res.letter
  register : e.register = if e.kind = .constant then none else res.binding.bind Binding.register
  placed : ¬ res.Unplaced →
    e.space = if e.kind = .constant then none else res.binding.bind Binding.space
  unplaced : res.Unplaced → e.kind ≠ .constant ∧ e.space.isSome

end Resource

namespace Declaration

variable {next : UInt32} {res : Resource} {declared : Declaration × UInt32}

theorem ofResource_binding (h : ofResource next res = .ok declared) :
    (declared.1.register =
      if res.kind? = some .constant then none else res.binding.bind Binding.register) ∧
    (¬ res.Unplaced → declared.1.space =
      if res.kind? = some .constant then none else res.binding.bind Binding.space) ∧
    (res.Unplaced → res.kind? ≠ some .constant ∧ declared.1.space.isSome) := by
  obtain ⟨text, -, hrest⟩ := exists_of_bind h
  unfold Resource.Unplaced
  dsimp only at hrest
  split at hrest
  · cases hrest
  · rename_i array harray hconst
    split at hrest
    · rename_i hun
      split at hrest <;> cases hrest
      exact ⟨(if_neg hconst).symm, fun hplaced => absurd ⟨by simp [harray, hun.1], hun.2⟩ hplaced,
        fun _ => ⟨hconst, rfl⟩⟩
    · rename_i hplaced
      cases hrest
      exact ⟨(if_neg hconst).symm, fun _ => (if_neg hconst).symm,
        fun hun => absurd ⟨by simpa [harray] using hun.1, hun.2⟩ hplaced⟩
  · rename_i harray hconst
    cases hrest
    exact ⟨(if_pos hconst).symm, fun _ => (if_pos hconst).symm, fun hun => by simp [harray] at hun⟩
  · rename_i harray hconst
    cases hrest
    exact ⟨(if_neg hconst).symm, fun _ => (if_neg hconst).symm, fun hun => by simp [harray] at hun⟩

theorem shape_of_typeText {text : String} (h : typeText? res = .ok text) :
    ∃ kind elem dim access, res.shape = .resource kind elem dim access := by
  unfold typeText? Resource.kind? at h
  cases hshape : res.shape with
  | resource kind elem dim access => exact ⟨kind, elem, dim, access, rfl⟩
  | _ =>
    rw [hshape] at h
    cases h

theorem exists_entry (h : ofResource next res = .ok declared) :
    ∃ e, entry? declared.1 = some e ∧ res.Listed e ∧ declared.1.text = e.line := by
  obtain ⟨hres, htype⟩ := ofResource_eq_ok h
  obtain ⟨hregister, hplaced, hunplaced⟩ := ofResource_binding h
  obtain ⟨kind, elem, dim, access, hshape⟩ := shape_of_typeText htype
  have hkind : res.kind? = some kind := by rw [Resource.kind?, hshape, Ty.resourceKind?]
  simp only [hkind, ne_eq, Option.some.injEq] at hregister hplaced hunplaced
  rw [text_eq h]
  subst hres
  unfold entry?
  rw [hshape]
  exact ⟨_, rfl, ⟨rfl, htype, ⟨elem, hshape, rfl⟩, rfl, rfl, hregister, hplaced, hunplaced⟩, rfl⟩

theorem listed_ofResources {resources : List Resource} {declarations : List Declaration}
    (h : ofResources next resources = .ok declarations) : List.Forall₂ Resource.Listed resources
    (declarations.filterMap entry?) ∧ declarations.map text = (declarations.filterMap entry?).map
    ManifestEntry.line := by
  induction resources generalizing next declarations with
  | nil =>
    cases h
    exact ⟨.nil, rfl⟩
  | cons res rest ih =>
    obtain ⟨declared, hone, hmore⟩ := exists_of_bind h
    obtain ⟨others, hothers, hall⟩ := exists_of_bind hmore
    cases hall
    obtain ⟨e, hentry, hlisted, htext⟩ := exists_entry hone
    obtain ⟨hforall, htexts⟩ := ih hothers
    rw [List.filterMap_cons_some hentry]
    exact ⟨.cons hlisted hforall, by rw [List.map_cons, List.map_cons, htext, htexts]⟩

end Declaration

namespace Draft

variable {d : Draft}

structure Filed (d : Draft) : Prop where
  order : d.resources.InOrder
  own : ∀ entry ∈ d.resources.entries, entry.2.name = entry.1

theorem Filed.of_eq {d' : Draft} (h : d.Filed) (he : d'.resources = d.resources) : d'.Filed where
  order := he ▸ h.order
  own := he ▸ h.own

theorem Filed.names (h : d.Filed) : d.resources.values.map Resource.name = d.resources.names := by
  rw [NameTable.values, NameTable.names, List.map_map]
  exact List.map_congr_left h.own

theorem filed_final {α : Type} {x : Drafting α} (hx : Keeps Draft.resources x) (h : d.Filed) :
    (final (x d)).Filed := h.of_eq (hx d).final

open Drafting in
theorem filed_registerResource (res : Resource) (h : d.Filed) :
    (final (registerResource res d)).Filed := by
  refine Ensures.final (.bind (ensures_get ?_))
  cases d.resources.find? res.name with
  | some existing => exact ensures_ite (fun _ => ensures_throw h) fun _ => ensures_pure h
  | none =>
    have hkeeps : Keeps Draft.resources (registerType res.ty) :=
      keeps_registerType (fun _ _ _ => rfl) res.ty
    refine .bind ((hkeeps d).mono (fun _ d' hd => ?_) fun d' hd => h.of_eq hd)
    have hd' : d'.Filed := h.of_eq hd
    refine ensures_modify ⟨hd'.order.insert res.name res, fun entry hentry => ?_⟩
    rcases NameTable.mem_insertEntry hentry with rfl | hold
    · rfl
    · exact hd'.own entry hold

def registry (d : Draft) : NameTable Resource × NameTable Ty × List Ty × NameTable Ty :=
  (d.resources, d.types, d.structs, d.shared)

theorem keeps_exitFunction : Keeps registry Drafting.exitFunction := fun _ =>
  ensures_exitFunction (fun _ _ _ _ => rfl) rfl fun _ _ _ => rfl

theorem registry_write (d : Draft) (line : Line) : (d.write line).registry = d.registry := by
  unfold write
  split <;> rfl

def Change.isRegistration : Change → Bool
  | .registerType _ | .registerResource _ | .addShared .. => true
  | _ => false

theorem registry_apply {c : Change} (hc : c.isRegistration = false) (d : Draft) :
    (c.apply d).registry = d.registry := by
  cases c with
  | registerType | registerResource | addShared => cases hc
  | write line => exact registry_write d line
  | exitFunction => exact (keeps_exitFunction d).final
  | exitScope => exact (keeps_exitScope (fun _ _ => rfl) d).final
  | popTarget => exact (keeps_popTarget (fun _ _ => rfl) d).final
  | popMask => exact (keeps_popMask (fun _ _ => rfl) d).final
  | setGroupSize size =>
    rw [Change.apply]
    cases hset : d.setGroupSize size with
    | error failure => rfl
    | ok d' => exact setGroupSize_eq_ok hset ▸ rfl
  | _ => rfl

theorem filed_apply (c : Change) (d : Draft) (h : d.Filed) : (c.apply d).Filed := by
  cases hc : c.isRegistration with
  | false => exact h.of_eq (congrArg Prod.fst (registry_apply hc d))
  | true =>
    cases c with
    | registerType ty => exact filed_final (keeps_registerType (fun _ _ _ => rfl) ty) h
    | registerResource res => exact filed_registerResource res h
    | addShared name ty =>
      exact filed_final (keeps_addShared (fun _ _ _ => rfl) (fun _ _ => rfl) name ty) h
    | _ => cases hc

theorem Reached.filed (h : d.Reached) : d.Filed := by
  obtain ⟨settings, hleads⟩ := h.leads
  exact hleads.keeps filed_apply ⟨NameTable.inOrder_empty, nofun⟩

theorem manifest_eq_ok {m : Manifest} (h : d.manifest = .ok m) :
    ∃ declarations, d.declarations = .ok declarations ∧
      m = ⟨d.groupSize, declarations.filterMap Declaration.entry?⟩ := by
  obtain ⟨declarations, hdeclarations, hm⟩ := exists_of_bind h
  exact ⟨declarations, hdeclarations, (Except.ok.inj hm).symm⟩

variable {declarations : List Declaration}

theorem manifest_of_declarations (h : d.declarations = .ok declarations) :
    d.manifest = .ok ⟨d.groupSize, declarations.filterMap Declaration.entry?⟩ := by
  rw [manifest, h]
  rfl

theorem names_of_listed {resources : List Resource} {entries : List ManifestEntry}
    (h : List.Forall₂ Resource.Listed resources entries) :
    entries.map ManifestEntry.name = resources.map Resource.name := by
  induction h with
  | nil => rfl
  | cons hone _ ih => rw [List.map_cons, List.map_cons, hone.name, ih]

theorem resourceSection_eq (hemit : d.settings.emitResources = true)
    (h : d.declarations = .ok declarations) :
    d.resourceSection = .ok (String.join (declarations.map Declaration.text)) := by
  rw [resourceSection, if_pos hemit, h]
  rfl

theorem manifest_describes_text (d : Draft) (h : d.Reached) :
    ((∃ m, d.manifest = .ok m) ↔ ∃ declarations, d.declarations = .ok declarations) ∧
    (∀ m, d.manifest = .ok m →
      List.Forall₂ Resource.Listed d.resources.values m.entries ∧
      (m.entries.map ManifestEntry.name).Pairwise fun a b => Utf8.bytes a < Utf8.bytes b) ∧
    ∀ text, d.settings.emitResources = true → d.finish = .ok text →
      ∃ m, d.manifest = .ok m ∧
        d.resourceSection = .ok (String.join (m.entries.map ManifestEntry.line)) ∧
        text = Prologue.text ++ d.structSection ++ d.sharedSection
          ++ String.join (m.entries.map ManifestEntry.line) ++ d.header ++ Line.textOf d.functions
          ++ entryHeader m.groupSize ++ Line.textOf d.body ++ "\x7d\n" := by
  refine ⟨⟨?_, ?_⟩, fun m hm => ?_, fun text hemit hfinish => ?_⟩
  · rintro ⟨m, hm⟩
    obtain ⟨declarations, hdeclarations, -⟩ := manifest_eq_ok hm
    exact ⟨declarations, hdeclarations⟩
  · rintro ⟨declarations, hdeclarations⟩
    exact ⟨_, manifest_of_declarations hdeclarations⟩
  · obtain ⟨declarations, hdeclarations, rfl⟩ := manifest_eq_ok hm
    obtain ⟨hlisted, -⟩ := Declaration.listed_ofResources hdeclarations
    refine ⟨hlisted, ?_⟩
    rw [names_of_listed hlisted, h.filed.names]
    exact h.filed.order.bytes
  · obtain ⟨-, -, resources, hresources, rfl⟩ := finish_eq_ok hfinish
    cases hdeclarations : d.declarations with
    | error failure =>
      rw [resourceSection, if_pos hemit, hdeclarations] at hresources
      cases hresources
    | ok declarations =>
      obtain ⟨-, htexts⟩ := Declaration.listed_ofResources hdeclarations
      rw [resourceSection_eq hemit hdeclarations, htexts] at hresources
      cases hresources
      exact ⟨_, manifest_of_declarations hdeclarations,
        by rw [resourceSection_eq hemit hdeclarations, htexts], rfl⟩

def mixedBindings : List Session.Step :=
  [⟨.registerResource (.ok ((Resource.constant "weights" .f32x4).withBinding (some 3) (some 1))),
      none⟩,
    ⟨.registerResource (.ok (.arrayOf "textures" (.texture2D "colour" .f32x4) .unbounded)), none⟩,
    ⟨.registerResource (.ok ((Resource.rwBuffer "ausgänge" .u32).withBinding (some 0) none)), none⟩]

theorem mixedBindings_described :
    ∃ d m text, Reached d ∧ d.manifest = .ok m ∧ d.finish = .ok text ∧
      m.entries.map ManifestEntry.line = ["RWStructuredBuffer<u32> ausgänge : register(u0);\n",
        "Texture2D<f32x4> textures[] : register(space99);\n", "f32x4 weights;\n"] ∧
      d.resourceSection = .ok (String.join (m.entries.map ManifestEntry.line)) ∧
      (m.entries.map ManifestEntry.name).Pairwise fun a b => Utf8.bytes a < Utf8.bytes b := by
  have hreached := Reached.session .default 1 mixedBindings
  obtain ⟨-, hlisted, hfinish⟩ := manifest_describes_text _ hreached
  obtain ⟨m, hm, hsection, -⟩ := hfinish _ rfl rfl
  refine ⟨_, m, _, hreached, hm, rfl, ?_, hsection, (hlisted m hm).2⟩
  cases hm
  decide +kernel

end Draft

end ComputeKernel
