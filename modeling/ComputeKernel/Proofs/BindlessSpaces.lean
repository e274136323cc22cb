import ComputeKernel.Proofs.ManifestText
import Mathlib.Data.List.Dedup
import Mathlib.Data.List.Pairwise

namespace ComputeKernel

variable {res : Resource} {resources : List Resource} {d : Draft}

def Ty.Declarable : Ty → Prop
  | .resource .texture (some _) _ _ | .resource .buffer (some _) _ _ => True
  | .resource .sampler .. | .resource .tlas .. => True
  | .resource .constant (some elem) _ _ => elem.isVector = true
  | _ => False

namespace Resource

structure Supported (res : Resource) : Prop where
  shape : res.shape.Declarable
  array : ∀ a, res.array = some a → res.ty = .array a.elemTy a.extent ∧ res.kind? ≠ some .constant

def Unbounded (res : Resource) : Prop := res.array.map ResourceArray.extent = some .unbounded

instance : DecidablePred Unbounded := fun _ => inferInstanceAs (Decidable (_ = _))

instance : DecidablePred Unplaced := fun _ => inferInstanceAs (Decidable (_ ∧ _))

def anonymous (res : Resource) : Resource :=
  { res with array := res.array.map ({ · with elemName := "" }) }

def unplacedNames (resources : List Resource) : List String :=
  ((resources.filter (·.Unplaced)).map name).dedup

variable {other : Resource}

theorem Supported.typeText (h : res.Supported) : ∃ text, Declaration.typeText? res = .ok text := by
  have hshape := h.shape
  unfold Declaration.typeText? kind?
  unfold Ty.Declarable at hshape
  split at hshape
  case h_5 hres => simp [hres, Ty.resourceKind?, Ty.elem?, hshape]
  case h_6 => exact hshape.elim
  all_goals simp [*, Ty.resourceKind?, Ty.elem?]

theorem Supported.anonymous_eq (h : res.Supported) (h' : other.Supported) (hname : res.name = other.name)
    (hty : res.ty = other.ty) (hbinding : res.binding = other.binding) :
    res.anonymous = other.anonymous := by
  have alone {r r' : Resource} {a : ResourceArray} (hr : r.Supported) (hr' : r'.Supported)
      (hty : r.ty = r'.ty) (hnone : r.array = none) (ha : r'.array = some a) : False := by
    have hshape := hr.shape
    rw [Resource.shape, hnone, Option.elim_none, hty, (hr'.array a ha).1] at hshape
    exact hshape
  obtain ⟨name, ty, array, binding⟩ := res
  obtain ⟨name', ty', array', binding'⟩ := other
  cases hname
  cases hty
  cases hbinding
  cases array with
  | none =>
    cases array' with
    | none => rfl
    | some a => exact (alone h h' rfl rfl rfl).elim
  | some a =>
    cases array' with
    | none => exact (alone h' h rfl rfl rfl).elim
    | some a' =>
      obtain ⟨_, elemTy, extent⟩ := a
      obtain ⟨_, elemTy', extent'⟩ := a'
      have hsame : Ty.array elemTy extent = .array elemTy' extent' :=
        (h.array _ rfl).1.symm.trans (h'.array _ rfl).1
      cases hsame
      rfl

@[simp]
theorem name_anonymous : res.anonymous.name = res.name := rfl

@[simp]
theorem unplaced_anonymous : res.anonymous.Unplaced ↔ res.Unplaced := by
  unfold Unplaced anonymous
  cases res.array <;> rfl

end Resource

namespace Declaration

def anonymous (d : Declaration) : Declaration := { d with resource := d.resource.anonymous }

variable {next : UInt32} {ds : List Declaration}

def Declares (res : Resource) (d : Declaration) : Prop :=
  ∃ next next', ofResource next res = .ok (d, next')

theorem Declares.array {d : Declaration} (h : Declares res d) {a : ResourceArray}
    (ha : res.array = some a) : res.kind? ≠ some .constant := by
  obtain ⟨_, _, h⟩ := h
  obtain ⟨text, -, hrest⟩ := exists_of_bind h
  intro hkind
  rw [ha, hkind] at hrest
  cases hrest

theorem Declares.resource {d : Declaration} (h : Declares res d) : d.resource = res := by
  obtain ⟨_, _, h⟩ := h
  exact (ofResource_eq_ok h).1

theorem ofResource_next {declared : Declaration × UInt32} (h : ofResource next res = .ok declared) :
    (res.Unplaced → declared.1.space = some next ∧ declared.2.toNat = next.toNat + 1) ∧
    (¬res.Unplaced → declared.2 = next) := by
  obtain ⟨text, -, hrest⟩ := exists_of_bind h
  unfold Resource.Unplaced
  dsimp only at hrest
  split at hrest
  · cases hrest
  · rename_i array harray hconst
    split at hrest
    · rename_i hun
      split at hrest <;> cases hrest
      rename_i hfree
      refine ⟨fun _ => ⟨rfl, ?_⟩, fun hplaced => absurd ⟨by simp [harray, hun.1], hun.2⟩ hplaced⟩
      rw [UInt32.toNat_add]
      exact Nat.mod_eq_of_lt hfree
    · rename_i hplaced
      cases hrest
      exact ⟨fun hun => absurd ⟨by simpa [harray] using hun.1, hun.2⟩ hplaced, fun _ => rfl⟩
  all_goals
    cases hrest
    exact ⟨fun hun => by simp [*] at hun, fun _ => rfl⟩

theorem ofResource_supported (h : res.Supported) (next : UInt32) :
    ((res.Unplaced → next.toNat + 1 < UInt32.size) → ∃ declared, ofResource next res = .ok declared) ∧
    (res.Unplaced → ¬next.toNat + 1 < UInt32.size →
      ofResource next res = .error (.overflow .add)) := by
  obtain ⟨text, htext⟩ := h.typeText
  unfold ofResource Resource.Unplaced
  rw [htext]
  dsimp only [Except.mapError, bind, Except.bind]
  split
  · rename_i a harray hkind
    exact absurd hkind (h.array a harray).2
  · rename_i array harray hconst
    simp only [harray, Option.map_some, Option.some.injEq]
    split
    · rename_i hun
      refine ⟨fun hfree => ?_, fun _ hfull => if_neg hfull⟩
      rw [if_pos (hfree hun)]
      exact ⟨_, rfl⟩
    · rename_i hplaced
      exact ⟨fun _ => ⟨_, rfl⟩, fun hun => absurd hun hplaced⟩
  all_goals exact ⟨fun _ => ⟨_, rfl⟩, fun hun => by simp [*] at hun⟩

theorem ofResource_anonymous (next : UInt32) (res : Resource) :
    ofResource next res.anonymous = (ofResource next res).map fun r => (r.1.anonymous, r.2) := by
  have hshape : res.anonymous.shape = res.shape := by
    unfold Resource.shape Resource.anonymous
    cases res.array <;> rfl
  have hkind : res.anonymous.kind? = res.kind? := congrArg Ty.resourceKind? hshape
  have htext : typeText? res.anonymous = typeText? res := by
    unfold typeText?
    rw [hkind, hshape]
    rfl
  unfold ofResource
  rw [htext, hkind]
  cases typeText? res with
  | error fault => rfl
  | ok text =>
    generalize res.kind? = kind
    obtain ⟨name, ty, array, binding⟩ := res
    dsimp only [Except.mapError, bind, Except.bind, Resource.anonymous]
    cases array with
    | none => rcases kind with _ | _ | _ <;> rfl
    | some a =>
      rcases kind with _ | _ | _
      case some.constant => rfl
      all_goals
        dsimp only [Option.map_some]
        split
        · split <;> rfl
        · rfl

theorem ofResources_anonymous (next : UInt32) (resources : List Resource) :
    ofResources next (resources.map Resource.anonymous) =
      (ofResources next resources).map (List.map anonymous) := by
  induction resources generalizing next with
  | nil => rfl
  | cons res rest ih =>
    rw [List.map_cons, ofResources, ofResources, ofResource_anonymous]
    cases ofResource next res with
    | error failure => rfl
    | ok declared =>
      simp only [Except.map, bind, Except.bind, ih]
      cases ofResources declared.2 rest <;> rfl

theorem spaces_ofResources (h : ofResources next resources = .ok ds) :
    List.Forall₂ Declares resources ds ∧
    next.toNat + resources.countP (·.Unplaced) < UInt32.size ∧
    (ds.filter (·.resource.Unplaced)).map (·.space.map UInt32.toNat) =
      (List.range' next.toNat (resources.countP (·.Unplaced))).map some := by
  induction resources generalizing next ds with
  | nil =>
    cases h
    exact ⟨.nil, next.toNat_lt_size, rfl⟩
  | cons res rest ih =>
    obtain ⟨⟨d, next'⟩, hone, hmore⟩ := exists_of_bind h
    obtain ⟨others, hothers, hall⟩ := exists_of_bind hmore
    cases hall
    obtain ⟨hforall, hfit, hspaces⟩ := ih hothers
    obtain ⟨hunplaced, hplaced⟩ := ofResource_next hone
    have hd : Declares res d := ⟨next, next', hone⟩
    refine ⟨.cons hd hforall, ?_⟩
    by_cases hun : res.Unplaced
    · obtain ⟨hspace, hnext⟩ := hunplaced hun
      rw [hnext] at hfit hspaces
      rw [List.countP_cons_of_pos (by simpa using hun),
        List.filter_cons_of_pos (by simpa [hd.resource] using hun)]
      refine ⟨by omega, ?_⟩
      rw [List.map_cons, hspaces, hspace]
      rfl
    · cases hplaced hun
      rw [List.countP_cons_of_neg (by simpa using hun),
        List.filter_cons_of_neg (by simpa [hd.resource] using hun)]
      exact ⟨hfit, hspaces⟩

theorem ofResources_supported (h : ∀ res ∈ resources, res.Supported) (next : UInt32) :
    (next.toNat + resources.countP (·.Unplaced) < UInt32.size →
      ∃ ds, ofResources next resources = .ok ds) ∧
    (UInt32.size ≤ next.toNat + resources.countP (·.Unplaced) →
      ofResources next resources = .error (.overflow .add)) := by
  induction resources generalizing next with
  | nil => exact ⟨fun _ => ⟨[], rfl⟩, fun hover => absurd next.toNat_lt_size (Nat.not_lt.mpr hover)⟩
  | cons res rest ih =>
    obtain ⟨hres, hrest⟩ := List.forall_mem_cons.mp h
    obtain ⟨hfree, hfull⟩ := ofResource_supported hres next
    by_cases hlast : res.Unplaced ∧ ¬next.toNat + 1 < UInt32.size
    · rw [List.countP_cons_of_pos (by simpa using hlast.1)]
      refine ⟨fun hfit => absurd hlast.2 (by omega), fun _ => ?_⟩
      rw [ofResources, hfull hlast.1 hlast.2]
      rfl
    · obtain ⟨⟨d, next'⟩, hone⟩ := hfree fun hun => by_contra fun hover => hlast ⟨hun, hover⟩
      obtain ⟨hunplaced, hplaced⟩ := ofResource_next hone
      have hcount : next.toNat + (res :: rest).countP (·.Unplaced) =
          next'.toNat + rest.countP (·.Unplaced) := by
        by_cases hun : res.Unplaced
        · rw [List.countP_cons_of_pos (by simpa using hun), (hunplaced hun).2]
          omega
        · rw [List.countP_cons_of_neg (by simpa using hun), show next' = next from hplaced hun]
      obtain ⟨hok, herror⟩ := ih hrest next'
      rw [hcount, ofResources, hone]
      refine ⟨fun hfit => ?_, fun hover => ?_⟩
      · obtain ⟨ds, hds⟩ := hok hfit
        exact ⟨d :: ds, by simp only [bind, Except.bind, hds]; rfl⟩
      · simp only [bind, Except.bind, herror hover]

structure Allots (base : Nat) (resources : List Resource) (ds : List Declaration) : Prop where
  order : (ds.map (·.resource.name)).Pairwise fun a b => Utf8.bytes a < Utf8.bytes b
  names : ∀ name, name ∈ ds.map (·.resource.name) ↔ name ∈ resources.map Resource.name
  given : ∀ d ∈ ds, d.resource ∈ resources ∧ typeText? d.resource = .ok d.typeText
  register : ∀ d ∈ ds, d.register =
    if d.resource.kind? = some .constant then none else d.resource.binding.bind Binding.register
  placed : ∀ d ∈ ds, ¬d.resource.Unplaced → d.space =
    if d.resource.kind? = some .constant then none else d.resource.binding.bind Binding.space
  unplaced : (ds.filter (·.resource.Unplaced)).map (·.space.map UInt32.toNat) =
    (List.range' base (Resource.unplacedNames resources).length).map some

theorem map_resource_of_declares (h : List.Forall₂ Declares resources ds) :
    ds.map resource = resources := by
  induction h with
  | nil => rfl
  | cons hone _ ih => rw [List.map_cons, hone.resource, ih]

theorem declares_of_mem (h : List.Forall₂ Declares resources ds) {d : Declaration} (hd : d ∈ ds) :
    Declares d.resource d := by
  induction h with
  | nil => cases hd
  | cons hone _ ih =>
    rcases List.mem_cons.mp hd with rfl | hd
    · rwa [hone.resource]
    · exact ih hd

end Declaration

namespace Draft

variable {settings : Settings} {others done : List Resource} {d' : Draft}

structure Registered (settings : Settings) (resources : List Resource) (d : Draft) : Prop where
  settings : d.settings = settings
  filed : d.Filed
  given : ∀ res ∈ d.resources.values, res ∈ resources
  found : ∀ res ∈ resources, ∃ e, d.resources.find? res.name = some e ∧ e.ty = res.ty ∧
    e.binding = res.binding

theorem Registered.add (h : d.Registered settings done) (hd : Drafting.registerResource res d = .ok () d') :
    d'.Registered settings (res :: done) := by
  have hkept : Keeps Draft.settings (Drafting.registerResource res) :=
    keeps_registerResource (fun _ _ _ => rfl) (fun _ _ => rfl) res
  have hsettings : d'.settings = settings := ((hkept d).of_ok hd).trans h.settings
  have hfiled : d'.Filed := by simpa only [hd, final] using filed_registerResource res h.filed
  obtain ⟨_, _, hget, hrun⟩ := exists_of_bind_ok hd
  cases hget
  cases hfind : d.resources.find? res.name with
  | some existing =>
    simp only [hfind] at hrun
    split at hrun
    · cases hrun
    · rename_i hsame
      cases hrun
      obtain ⟨hty, hbinding⟩ := not_or.mp hsame
      exact ⟨hsettings, hfiled, fun e he => List.mem_cons_of_mem _ (h.given e he), List.forall_mem_cons.mpr
        ⟨⟨existing, hfind, not_not.mp hty, not_not.mp hbinding⟩, h.found⟩⟩
  | none =>
    simp only [hfind] at hrun
    obtain ⟨_, d₁, htype, hinsert⟩ := exists_of_bind_ok hrun
    cases hinsert
    have hkeeps : Keeps Draft.resources (Drafting.registerType res.ty) :=
      keeps_registerType (fun _ _ _ => rfl) res.ty
    have hsame : d₁.resources = d.resources := (hkeeps d).of_ok htype
    refine ⟨hsettings, hfiled, fun e he => ?_, List.forall_mem_cons.mpr ⟨⟨res, by simp, rfl, rfl⟩, ?_⟩⟩
    · obtain ⟨entry, hentry, rfl⟩ := List.mem_map.mp he
      rcases NameTable.mem_insertEntry hentry with rfl | hold
      · exact List.mem_cons_self
      · exact List.mem_cons_of_mem _ (h.given _ (List.mem_map_of_mem (hsame ▸ hold)))
    · intro other hother
      obtain ⟨e, he, hrest⟩ := h.found other hother
      refine ⟨e, ?_, hrest⟩
      rw [NameTable.find?_insert, hsame, if_neg, he]
      intro hname
      rw [hname, hfind] at he
      cases he

theorem Registered.run (h : d.Registered settings done)
    (hd : resources.forM Drafting.registerResource d = .ok () d') :
    d'.Registered settings (resources.reverse ++ done) := by
  induction resources generalizing d done with
  | nil =>
    cases hd
    exact h
  | cons res rest ih =>
    obtain ⟨_, d₁, hone, hmore⟩ := exists_of_bind_ok hd
    simpa using ih (h.add hone) hmore

theorem registered_of_start
    (hd : resources.forM Drafting.registerResource (start settings) = .ok () d) :
    d.Registered settings resources := by
  have hempty : (start settings).Registered settings [] :=
    ⟨rfl, ⟨NameTable.inOrder_empty, fun _ h => (List.not_mem_nil h).elim⟩,
      fun _ h => (List.not_mem_nil h).elim, fun _ h => (List.not_mem_nil h).elim⟩
  obtain ⟨hsettings, hfiled, hgiven, hfound⟩ := hempty.run hd
  simp only [List.append_nil, List.mem_reverse] at hgiven hfound
  exact ⟨hsettings, hfiled, hgiven, hfound⟩

theorem Registered.mem_anonymous (h : d.Registered settings resources)
    (hsupported : ∀ res ∈ resources, res.Supported) :
    res ∈ d.resources.values.map Resource.anonymous ↔ res ∈ resources.map Resource.anonymous := by
  simp only [List.mem_map]
  constructor
  · rintro ⟨e, he, rfl⟩
    exact ⟨e, h.given e he, rfl⟩
  · rintro ⟨given, hgiven, rfl⟩
    obtain ⟨e, he, hty, hbinding⟩ := h.found given hgiven
    obtain ⟨_, _, hentries, -⟩ := List.lookup_eq_some_iff.mp he
    have hentry : (given.name, e) ∈ d.resources.entries := by simp [hentries]
    have hvalue : e ∈ d.resources.values := List.mem_map_of_mem hentry
    exact ⟨e, hvalue, (hsupported e (h.given e hvalue)).anonymous_eq (hsupported given hgiven)
      (h.filed.own _ hentry) hty hbinding⟩

theorem Filed.pairwise (h : d.Filed) : d.resources.values.Pairwise (·.name < ·.name) := by
  have hnames := h.order
  rw [NameTable.InOrder, ← h.names] at hnames
  exact List.pairwise_map.mp hnames

theorem eq_of_pairwise {rs rs' : List Resource} (h : rs.Pairwise (·.name < ·.name))
    (h' : rs'.Pairwise (·.name < ·.name)) (hmem : ∀ res, res ∈ rs ↔ res ∈ rs') : rs = rs' := by
  have hnodup {l : List Resource} (hl : l.Pairwise (·.name < ·.name)) : l.Nodup :=
    hl.imp fun {r r'} (hlt : r.name < r'.name) heq => lt_irrefl _ (heq ▸ hlt)
  exact ((List.perm_ext_iff_of_nodup (hnodup h) (hnodup h')).mpr hmem).eq_of_pairwise
    (fun _ _ _ _ hlt hgt => absurd hgt (lt_asymm hlt)) h h'

theorem Registered.values_anonymous (h : d.Registered settings resources)
    (h' : d'.Registered settings others)
    (hsupported : ∀ res ∈ resources, res.Supported) (hmem : ∀ res, res ∈ others ↔ res ∈ resources) :
    d'.resources.values.map Resource.anonymous = d.resources.values.map Resource.anonymous := by
  refine eq_of_pairwise (List.pairwise_map.mpr h'.filed.pairwise)
    (List.pairwise_map.mpr h.filed.pairwise) fun res => ?_
  rw [h.mem_anonymous hsupported, h'.mem_anonymous fun res hres => hsupported res ((hmem res).mp hres)]
  simp only [List.mem_map, hmem]

theorem Registered.count_unplaced (h : d.Registered settings resources)
    (hsupported : ∀ res ∈ resources, res.Supported) :
    d.resources.values.countP (·.Unplaced) = (Resource.unplacedNames resources).length := by
  have hnames (rs : List Resource) : (rs.filter (·.Unplaced)).map Resource.name =
      ((rs.map Resource.anonymous).filter (·.Unplaced)).map Resource.name := by
    simp [List.filter_map, Function.comp_def]
  have hnodup : ((d.resources.values.filter (·.Unplaced)).map Resource.name).Nodup :=
    (List.pairwise_map.mpr (h.filed.pairwise.filter _)).imp ne_of_lt
  rw [List.countP_eq_length_filter, ← List.length_map Resource.name, Resource.unplacedNames]
  refine ((List.perm_ext_iff_of_nodup hnodup (List.nodup_dedup _)).mpr fun name => ?_).length_eq
  rw [List.mem_dedup, hnames d.resources.values, hnames resources]
  simp only [List.mem_map (f := Resource.name), List.mem_filter, h.mem_anonymous hsupported]

/-- The arrays that need a space take those from the base on in the order of their names. -/
theorem bindless_spaces_exact (settings : Settings) (resources : List Resource) (d : Draft)
    (hsupported : ∀ res ∈ resources, res.Supported)
    (hd : resources.forM Drafting.registerResource (start settings) = .ok () d) :
    (settings.bindlessBase.toNat + (Resource.unplacedNames resources).length < UInt32.size →
      ∃ ds, d.declarations = .ok ds ∧ Declaration.Allots settings.bindlessBase.toNat resources ds) ∧
    (UInt32.size ≤ settings.bindlessBase.toNat + (Resource.unplacedNames resources).length →
      d.declarations = .error (.overflow .add)) ∧
    ∀ (others : List Resource) (d' : Draft), (∀ res, res ∈ others ↔ res ∈ resources) →
      others.forM Drafting.registerResource (start settings) = .ok () d' →
      d'.declarations.map (List.map Declaration.anonymous) =
        d.declarations.map (List.map Declaration.anonymous) := by
  have hregistered := registered_of_start hd
  have hcount := hregistered.count_unplaced hsupported
  obtain ⟨hok, herror⟩ := Declaration.ofResources_supported
    (fun res hres => hsupported res (hregistered.given res hres)) settings.bindlessBase
  rw [hcount] at hok herror
  unfold declarations
  refine ⟨fun hfit => ?_, fun hover => ?_, fun others d' hmem hd' => ?_⟩
  · obtain ⟨ds, hds⟩ := hok hfit
    obtain ⟨hforall, -, hspaces⟩ := Declaration.spaces_ofResources hds
    have hresources := Declaration.map_resource_of_declares hforall
    have hds' : ds.map (·.resource.name) = d.resources.values.map Resource.name := by
      rw [← hresources, List.map_map]
      rfl
    rw [hregistered.settings]
    refine ⟨ds, hds, ?_, fun name => ?_, fun dec hdec => ?_, fun dec hdec => ?_, fun dec hdec => ?_,
      hcount ▸ hspaces⟩
    · rw [hds', hregistered.filed.names]
      exact hregistered.filed.order.bytes
    · have hanonymous (rs : List Resource) :
          rs.map Resource.name = (rs.map Resource.anonymous).map Resource.name := by simp
      rw [hds', hanonymous, hanonymous resources]
      simp only [List.mem_map (f := Resource.name), hregistered.mem_anonymous hsupported]
    · obtain ⟨_, _, hone⟩ := Declaration.declares_of_mem hforall hdec
      exact ⟨hregistered.given _ (hresources ▸ List.mem_map_of_mem hdec),
        (Declaration.ofResource_eq_ok hone).2⟩
    · obtain ⟨_, _, hone⟩ := Declaration.declares_of_mem hforall hdec
      exact (Declaration.ofResource_binding hone).1
    · obtain ⟨_, _, hone⟩ := Declaration.declares_of_mem hforall hdec
      exact (Declaration.ofResource_binding hone).2.1
  · rw [hregistered.settings]
    exact herror hover
  · have hregistered' := registered_of_start hd'
    rw [← Declaration.ofResources_anonymous, ← Declaration.ofResources_anonymous, hregistered.settings,
      hregistered'.settings, hregistered.values_anonymous hregistered' hsupported hmem]

def sceneResources : List Resource :=
  [ .arrayOf "volumes" (.texture3D "volume" .f32) .unbounded,
    (Resource.constant "frame" .u32).withBinding (some 1) (some 1),
    .arrayOf "textures" (.texture2D "texture" .f32x4) .unbounded,
    (Resource.arrayOf "clouds" (.texture3D "cloud" .f32) .unbounded).withBinding (some 3) (some 7),
    .arrayOf "luts" (.texture2D "lut" .f32x2) (.fixed 4),
    .arrayOf "volumes" (.texture3D "other" .f32) .unbounded ]

theorem supported_sceneResources : ∀ res ∈ sceneResources, res.Supported := by
  have harray (name : String) (elem : Resource) (extent : Extent) (binding : Option Binding)
      (h : elem.ty.Declarable) (hkind : elem.ty.resourceKind? ≠ some .constant) :
      Resource.Supported { Resource.arrayOf name elem extent with binding } :=
    ⟨h, fun a ha => by cases ha; exact ⟨rfl, hkind⟩⟩
  simp only [sceneResources, List.forall_mem_cons, List.not_mem_nil, false_imp_iff, implies_true,
    and_true]
  exact ⟨harray _ _ _ _ trivial (by decide), ⟨rfl, fun _ h => by cases h⟩,
    harray _ _ _ _ trivial (by decide), harray _ _ _ _ trivial (by decide),
    harray _ _ _ _ trivial (by decide), harray _ _ _ _ trivial (by decide)⟩

theorem sceneResources_spaces :
    ∃ d d' ds, sceneResources.forM Drafting.registerResource (start .default) = .ok () d ∧
      sceneResources.reverse.forM Drafting.registerResource (start .default) = .ok () d' ∧
      d.declarations = .ok ds ∧ Declaration.Allots 99 sceneResources ds ∧
      ds.map (fun dec => (dec.resource.name, dec.register, dec.space)) =
        [ ("clouds", some 3, some 7), ("frame", none, none), ("luts", none, none),
          ("textures", none, some 99), ("volumes", none, some 100) ] ∧
      d'.declarations ≠ d.declarations ∧
      d'.declarations.map (List.map Declaration.anonymous) =
        d.declarations.map (List.map Declaration.anonymous) := by
  obtain ⟨d, hd⟩ : ∃ d, sceneResources.forM Drafting.registerResource (start .default) = .ok () d :=
    ⟨_, rfl⟩
  obtain ⟨d', hd'⟩ : ∃ d',
      sceneResources.reverse.forM Drafting.registerResource (start .default) = .ok () d' := ⟨_, rfl⟩
  obtain ⟨hfit, -, horder⟩ := bindless_spaces_exact .default sceneResources d supported_sceneResources hd
  obtain ⟨ds, hds, hallots⟩ := hfit (by decide +kernel)
  refine ⟨d, d', ds, hd, hd', hds, hallots, ?_, ?_, horder _ d' (fun _ => List.mem_reverse) hd'⟩
  · cases hd
    cases hds
    decide +kernel
  · cases hd
    cases hd'
    decide +kernel

end Draft

def Resource.GivenApart (a b : Resource) : Prop :=
  a.Unbounded → b.Unbounded → a.binding.bind Binding.space = b.binding.bind Binding.space →
    a.binding.bind Binding.space = none

instance : DecidableRel Resource.GivenApart := fun _ _ => inferInstanceAs (Decidable (_ → _))

def Declaration.Apart (a b : Declaration) : Prop :=
  a.resource.Unbounded → b.resource.Unbounded → a.space ≠ b.space

instance : DecidableRel Declaration.Apart := fun _ _ => inferInstanceAs (Decidable (_ → _))

instance : Std.Symm Declaration.Apart := ⟨fun _ _ h hb ha heq => h ha hb heq.symm⟩

namespace Draft

theorem space_of_unbounded {ds : List Declaration} (hds : d.declarations = .ok ds)
    {dec : Declaration} (hdec : dec ∈ ds) (hun : dec.resource.Unbounded) :
    (¬dec.resource.Unplaced → dec.space = dec.resource.binding.bind Binding.space) ∧
    (dec.resource.Unplaced → ∃ space, dec.space = some space ∧
      d.settings.bindlessBase.toNat ≤ space.toNat ∧
      space.toNat < d.settings.bindlessBase.toNat + d.resources.values.countP (·.Unplaced)) := by
  obtain ⟨hforall, -, hspaces⟩ := Declaration.spaces_ofResources hds
  have hdeclares := Declaration.declares_of_mem hforall hdec
  obtain ⟨a, ha, -⟩ := Option.map_eq_some_iff.mp hun
  have hkind := hdeclares.array ha
  refine ⟨fun hplaced => ?_, fun hunplaced => ?_⟩
  · obtain ⟨_, _, hone⟩ := hdeclares
    rw [(Declaration.ofResource_binding hone).2.1 hplaced, if_neg hkind]
  · have hmem : dec.space.map UInt32.toNat ∈
        (ds.filter (·.resource.Unplaced)).map (·.space.map UInt32.toNat) :=
      List.mem_map_of_mem (List.mem_filter.mpr ⟨hdec, decide_eq_true hunplaced⟩)
    rw [hspaces] at hmem
    obtain ⟨n, hn, hspace⟩ := List.mem_map.mp hmem
    obtain ⟨space, hsome, rfl⟩ := Option.map_eq_some_iff.mp hspace.symm
    exact ⟨space, hsome, List.mem_range'_1.mp hn⟩

/-- When the host gives no space twice, arrays without bound have different ones exactly if it gives
none of those that are counted from the base. -/
theorem unbounded_spaces_distinct_iff (d : Draft) (ds : List Declaration)
    (hds : d.declarations = .ok ds) (hapart : d.resources.values.Pairwise Resource.GivenApart) :
    (∀ dec ∈ ds, dec.resource.Unbounded → dec.space.isSome) ∧
    (ds.Pairwise Declaration.Apart ↔
      ∀ res ∈ d.resources.values, res.Unbounded → ∀ space ∈ res.binding.bind Binding.space,
        ¬(d.settings.bindlessBase.toNat ≤ space.toNat ∧
          space.toNat < d.settings.bindlessBase.toNat + d.resources.values.countP (·.Unplaced))) := by
  obtain ⟨hforall, -, hspaces⟩ := Declaration.spaces_ofResources hds
  have hresources := Declaration.map_resource_of_declares hforall
  have hplaces := fun (dec : Declaration) (hdec : dec ∈ ds) => space_of_unbounded hds hdec
  have hcounted : ds.Pairwise fun a b =>
      a.resource.Unplaced → b.resource.Unplaced → a.space ≠ b.space := by
    have hnodup : ((ds.filter (·.resource.Unplaced)).map (·.space.map UInt32.toNat)).Nodup := by
      rw [hspaces]
      exact (List.nodup_range' _).map fun _ _ h => Option.some.inj h
    have hpairs := List.pairwise_filter.mp (List.pairwise_map.mp hnodup)
    exact hpairs.imp fun hne ha hb heq =>
      hne (decide_eq_true ha) (decide_eq_true hb) (congrArg (Option.map UInt32.toNat) heq)
  have hgiven : ds.Pairwise fun a b => a.resource.GivenApart b.resource :=
    List.pairwise_map.mp (hresources ▸ hapart)
  refine ⟨fun dec hdec hun => ?_, fun hdistinct res hres hun space hspace hin => ?_, fun hfree => ?_⟩
  · by_cases hunplaced : dec.resource.Unplaced
    · obtain ⟨space, hspace, -⟩ := (hplaces dec hdec hun).2 hunplaced
      exact hspace ▸ rfl
    · rw [(hplaces dec hdec hun).1 hunplaced]
      exact Option.isSome_iff_ne_none.mpr fun hnone => hunplaced ⟨hun, hnone⟩
  · -- the array that was counted to that space is not the one that was put there
    rw [← hresources] at hres
    obtain ⟨dec, hdec, rfl⟩ := List.mem_map.mp hres
    have hmem : some space.toNat ∈ (List.range' d.settings.bindlessBase.toNat
        (d.resources.values.countP (·.Unplaced))).map some :=
      List.mem_map_of_mem (List.mem_range'_1.mpr hin)
    rw [← hspaces] at hmem
    obtain ⟨other, hother, hsame⟩ := List.mem_map.mp hmem
    obtain ⟨hother, hunplaced⟩ := List.mem_filter.mp hother
    have hunplaced := of_decide_eq_true hunplaced
    have hplaced : ¬dec.resource.Unplaced := fun h => by simp [h.2] at hspace
    have hne : dec ≠ other := fun h => hplaced (h ▸ hunplaced)
    have hspaces : dec.space = other.space := by
      obtain ⟨found, hfound, hnat⟩ := Option.map_eq_some_iff.mp hsame
      rw [(hplaces dec hdec hun).1 hplaced, hspace, hfound, UInt32.toNat_inj.mp hnat]
    exact hdistinct.forall hdec hother hne hun hunplaced.1 hspaces
  · refine (hcounted.and hgiven).imp_of_mem fun {a b} ha hb hpair hua hub heq => ?_
    have hclash {x y : Declaration} (hx : x ∈ ds) (hy : y ∈ ds) (hux : x.resource.Unbounded)
        (huy : y.resource.Unbounded) (hplaced : ¬x.resource.Unplaced) (hunplaced : y.resource.Unplaced)
        (hsame : x.space = y.space) : False := by
      obtain ⟨space, hspace, hin⟩ := (hplaces y hy huy).2 hunplaced
      rw [(hplaces x hx hux).1 hplaced, hspace] at hsame
      exact hfree _ (hresources ▸ List.mem_map_of_mem hx) hux space hsame hin
    by_cases hpa : a.resource.Unplaced <;> by_cases hpb : b.resource.Unplaced
    · exact hpair.1 hpa hpb heq
    · exact hclash hb ha hub hua hpb hpa heq.symm
    · exact hclash ha hb hua hub hpa hpb heq
    · rw [(hplaces a ha hua).1 hpa, (hplaces b hb hub).1 hpb] at heq
      exact hpa ⟨hua, hpair.2 hua hub heq⟩

def twoSkies (space : UInt32) : List Resource :=
  [ (Resource.arrayOf "stars" (.texture2D "star" .f32x4) .unbounded).withBinding none (some space),
    .arrayOf "clouds" (.texture2D "cloud" .f32x4) .unbounded ]

theorem twoSkies_apart :
    ∃ d ds, (twoSkies 100).forM Drafting.registerResource (start .default) = .ok () d ∧
      d.declarations = .ok ds ∧ ds.map Declaration.space = [some 99, some 100] ∧
      ds.Pairwise Declaration.Apart := by
  obtain ⟨d, hd⟩ : ∃ d, (twoSkies 100).forM Drafting.registerResource (start .default) = .ok () d :=
    ⟨_, rfl⟩
  obtain ⟨ds, hds⟩ : ∃ ds, d.declarations = .ok ds := by cases hd; exact ⟨_, rfl⟩
  obtain ⟨-, hapart⟩ := unbounded_spaces_distinct_iff d ds hds (by cases hd; decide +kernel)
  refine ⟨d, ds, hd, hds, by cases hd; cases hds; rfl, hapart.mpr ?_⟩
  have hgiven : ∀ res ∈ d.resources.values, (res.binding.bind Binding.space).all (· == 100) := by
    cases hd; decide +kernel
  have hlast : d.settings.bindlessBase.toNat + d.resources.values.countP (·.Unplaced) = 100 := by
    cases hd; decide +kernel
  intro res hres _ space hspace hcounted
  have hspace : space = 100 := by simpa [Option.mem_def.mp hspace] using hgiven res hres
  rw [hlast, hspace] at hcounted
  exact absurd hcounted.2 (by decide)

theorem twoSkies_shared :
    ∃ d ds, (twoSkies 99).forM Drafting.registerResource (start .default) = .ok () d ∧
      d.declarations = .ok ds ∧ d.resources.values.Pairwise Resource.GivenApart ∧
      ds.map Declaration.space = [some 99, some 99] ∧ ¬ds.Pairwise Declaration.Apart :=
  ⟨_, _, rfl, rfl, by decide +kernel, rfl, by decide +kernel⟩

end Draft

end ComputeKernel
