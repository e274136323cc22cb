import ComputeKernel.Proofs.Braces
import ComputeKernel.Proofs.BracketedScripts

namespace ComputeKernel

def LevelLines (lines : List String) : Prop := ∀ n, lines.foldlM bracesAfter n = some n

section Prologue

variable {n m k : Nat} {line : String} {lines lines' : List String}

theorem scan_line (hline : bracesAfter n line = some m)
    (hrest : lines.foldlM bracesAfter m = some k) :
    (line :: lines).foldlM bracesAfter n = some k := by
  rw [List.foldlM_cons, hline]
  exact hrest

theorem LevelLines.append (h : LevelLines lines) (h' : LevelLines lines') :
    LevelLines (lines ++ lines') := by
  intro n
  rw [List.foldlM_append, h n]
  exact h' n

theorem levelLines_of_reads (h : ∀ line ∈ lines, Reads line .flat) : LevelLines lines := by
  induction lines with
  | nil => exact fun _ => rfl
  | cons line lines ih =>
    obtain ⟨hline, hrest⟩ := List.forall_mem_cons.mp h
    exact fun n => scan_line (hline n) (ih hrest n)

theorem levelLines_flatMap {groups : List (List String)} (h : ∀ group ∈ groups, LevelLines group) :
    LevelLines (groups.flatMap (· ++ [""])) := by
  induction groups with
  | nil => exact fun _ => rfl
  | cons group groups ih =>
    obtain ⟨hgroup, hrest⟩ := List.forall_mem_cons.mp h
    rw [List.flatMap_cons]
    exact (hgroup.append fun _ => rfl).append (ih hrest)

theorem bracesAfter_newline (n : Nat) (line : String) :
    bracesAfter n (line ++ "\n") = bracesAfter n line := by
  rw [bracesAfter_append]
  cases bracesAfter n line with
  | none => rfl
  | some m => exact (bracesAfter_ofList m _).trans rfl

theorem LevelLines.reads (h : LevelLines lines) :
    Reads (String.join (lines.map (· ++ "\n"))) .flat := by
  intro n
  rw [bracesAfter_join, List.foldlM_map]
  simp only [bracesAfter_newline]
  exact h n

theorem braceFree_fields {ty : Ty} (h : ty.Within .braceFree) {ending : String}
    (he : BraceFree ending) :
    ∀ line ∈ ty.fields.map fun (name, field) => "    " ++ field.declare name ++ ending,
      BraceFree line := by
  intro line hline
  obtain ⟨field, hfield, rfl⟩ := List.mem_map.mp hline
  obtain ⟨hname, hty⟩ := h.fields field hfield
  exact braceFree_append (braceFree_append (braceFree_ofList (by decide)) (hty.declare hname)) he

namespace Prologue

theorem levelLines_helpers :
    ∀ group ∈ [laneBit, anyHit, closestHit, interpolation, tangentFrame], LevelLines group := by
  simp only [List.forall_mem_cons, List.not_mem_nil, false_implies, implies_true, and_true]
  unfold laneBit anyHit closestHit interpolation tangentFrame
  and_intros
  all_goals
    intro n
    -- line by line, the depth is computed from the characters of each
    repeat' first | refine scan_line ((bracesAfter_ofList _ _).trans rfl) ?_ | rfl

variable {ty : Ty}

theorem levelLines_structDefinition (h : ty.Within .braceFree) :
    LevelLines (structDefinition ty) := by
  intro n
  have hname : BraceFree ("struct " ++ ty.name) :=
    braceFree_append (braceFree_ofList (by decide)) h.name
  have hopen : Reads ("struct " ++ ty.name ++ " \x7b") .opens :=
    .after_plain hname (.ofList fun _ => rfl)
  have hfields : LevelLines (ty.fields.map fun (name, field) => "    " ++ field.declare name ++ ";") :=
    levelLines_of_reads fun line hline =>
      .plain (braceFree_fields h (braceFree_ofList (by decide)) line hline)
  unfold structDefinition
  rw [List.append_assoc, List.singleton_append]
  refine scan_line (hopen n) ?_
  rw [List.foldlM_append, hfields (n + 1)]
  have hclose : Reads "\x7d;" .closes := .ofList fun n => by cases n <;> rfl
  exact scan_line (hclose (n + 1)) rfl

theorem reads_extentHelper {texture : Ty} (h : texture.Within .braceFree) :
    Reads (extentHelper texture) .flat := by
  have hresult : BraceFree (Ty.value .u32 (texture.dim?.elim 0 Dim.coordinates) 1).name :=
    Ty.valueName_plain _ _ _
  have hparts : BraceFree (if texture.dim?.elim 0 Dim.coordinates = 1 then "d" else
      ", ".intercalate (["d.x", "d.y", "d.z"].take (texture.dim?.elim 0 Dim.coordinates))) := by
    split
    · exact braceFree_ofList (by decide)
    · refine Vocabulary.braceFree.intercalate (braceFree_ofList (by decide)) fun s hs => ?_
      have hmem := List.mem_of_mem_take hs
      simp only [List.mem_cons, List.not_mem_nil, or_false] at hmem
      rcases hmem with rfl | rfl | rfl <;> exact braceFree_ofList (by decide)
  refine .opens_closes (.append_flat (.append_flat (.append_flat (.after_plain (braceFree_append
    (braceFree_append (braceFree_append ?_ hresult) ?_) h.name) (.ofList fun _ => rfl))
      (.plain hresult)) (.plain ?_)) (.plain hparts)) (.ofList fun n => by cases n <;> rfl)
  all_goals exact braceFree_ofList (by decide)

theorem braceFree_nativeName {name : String} (h : nativeName? ty = some name) : BraceFree name := by
  unfold nativeName? at h
  split at h
  · obtain ⟨base, hbase, rfl⟩ := Option.map_eq_some_iff.mp h
    have hplain : BraceFree base := by
      unfold nativeKind? at hbase
      split at hbase <;> cases hbase <;> exact braceFree_ofList (by decide)
    split
    · split
      · exact hplain
      · exact braceFree_append hplain (braceFree_nat _)
    · exact braceFree_append (braceFree_append (braceFree_append hplain (braceFree_nat _))
        (braceFree_ofList (by decide))) (braceFree_nat _)
  · cases h

theorem braceFree_typeDefinitions : ∀ line ∈ typeDefinitions, BraceFree line := by
  intro line hline
  obtain ⟨ty, -, hty⟩ := List.mem_filterMap.mp hline
  obtain ⟨native, hnative, rfl⟩ := Option.map_eq_some_iff.mp hty
  have hname : BraceFree ty.name := by
    cases ty with
    | value kind rows cols => exact Ty.valueName_plain kind rows cols
    | _ => cases hnative
  refine braceFree_append (braceFree_append (braceFree_append ?_ hname) ?_)
    (braceFree_nativeName hnative)
  all_goals exact braceFree_ofList (by decide)

theorem reads_text : Reads text .flat := by
  refine LevelLines.reads ((LevelLines.append ?_ fun _ => rfl).append (levelLines_flatMap ?_))
  · exact levelLines_of_reads fun line hline => .plain (braceFree_typeDefinitions line hline)
  · have hextents : LevelLines (measured.map extentHelper) := by
      refine levelLines_of_reads fun line hline => ?_
      obtain ⟨texture, htexture, rfl⟩ := List.mem_map.mp hline
      refine reads_extentHelper ?_
      simp only [measured, List.mem_cons, List.not_mem_nil, or_false] at htexture
      rcases htexture with rfl | rfl | rfl | rfl | rfl | rfl | rfl <;> trivial
    have hhelpers := levelLines_helpers
    simp only [List.forall_mem_cons] at hhelpers
    obtain ⟨hbit, hany, hclosest, hinterpolation, hframe, -⟩ := hhelpers
    simp only [groups, List.forall_mem_cons]
    exact ⟨hextents, hbit, levelLines_structDefinition Ty.within_rayQueryResult, hany, hclosest,
      hinterpolation, hframe, by simp⟩

end Prologue

end Prologue

section Sections

variable {d : Draft}

theorem reads_structText {ty : Ty} (h : ty.Within .braceFree) : Reads (Draft.structText ty) .flat := by
  have hname : BraceFree ("struct " ++ ty.name) :=
    braceFree_append (braceFree_ofList (by decide)) h.name
  have hfields : BraceFree (String.join (ty.fields.map fun (name, field) =>
      "    " ++ field.declare name ++ ";\n")) :=
    Vocabulary.braceFree.join (braceFree_fields h (braceFree_ofList (by decide)))
  exact .opens_closes (.append_flat (.after_plain hname (.ofList fun _ => rfl)) (.plain hfields))
    (.ofList fun n => by cases n <;> rfl)

theorem reads_join {texts : List String} (h : ∀ text ∈ texts, Reads text .flat) :
    Reads (String.join texts) .flat := by
  intro n
  rw [bracesAfter_join]
  exact levelLines_of_reads h n

theorem reads_structSection (h : d.Within .braceFree) : Reads d.structSection .flat := by
  refine reads_join fun text htext => ?_
  obtain ⟨ty, hty, rfl⟩ := List.mem_map.mp htext
  exact reads_structText (h.structs ty (List.mem_filter.mp hty).1)

theorem braceFree_sharedSection (h : d.Within .braceFree) : BraceFree d.sharedSection := by
  refine Vocabulary.braceFree.join fun text htext => ?_
  obtain ⟨entry, hentry, rfl⟩ := List.mem_map.mp htext
  obtain ⟨hname, hty⟩ := h.shared entry hentry
  refine braceFree_append (braceFree_append ?_ (hty.declare hname)) ?_
  all_goals exact braceFree_ofList (by decide)

theorem Resource.braceFree_letter (res : Resource) : BraceFree res.letter.toString := by
  intro c hc
  rw [Char.toString, String.toList_singleton, List.mem_singleton] at hc
  subst c
  unfold letter
  split <;> decide

theorem Declaration.braceFree_binding (res : Resource) (register space : Option UInt32) :
    BraceFree (bindingText res.letter register space) := by
  have hletter := res.braceFree_letter
  have hnumber (n : UInt32) : BraceFree (toString n.toNat) := braceFree_nat n.toNat
  unfold bindingText
  split
  case h_4 => exact braceFree_ofList (by decide)
  all_goals
    simp only [braceFree_append_iff, hletter, hnumber, and_true]
    and_intros
    all_goals exact braceFree_ofList (by decide)

def Declaration.extentText (extent : Option Extent) : String :=
  extent.elim "" fun e => "[" ++ e.text ++ "]"

theorem Declaration.braceFree_extent (extent : Option Extent) : BraceFree (extentText extent) := by
  cases extent with
  | none => exact braceFree_ofList (by decide)
  | some e =>
    refine braceFree_append (braceFree_append ?_ e.text_plain) ?_
    all_goals exact braceFree_ofList (by decide)

variable {res : Resource} {text : String} {next : UInt32} {declared : Declaration × UInt32}

theorem Declaration.braceFree_type (h : res.Within .braceFree)
    (htext : typeText? res = .ok text) : BraceFree text := by
  have hshape : BraceFree res.shape.name := h.shape.name
  have helem {elem : Ty} (he : res.shape.elem? = some elem) : BraceFree elem.name :=
    (h.shape.elem? he).name
  have hboth {elem : Ty} (he : res.shape.elem? = some elem) :
      BraceFree (res.shape.name ++ "<" ++ elem.name ++ ">") := by
    refine braceFree_append (braceFree_append (braceFree_append hshape ?_) (helem he)) ?_
    all_goals exact braceFree_ofList (by decide)
  unfold typeText? at htext
  repeat' split at htext
  all_goals cases htext
  case h_1.refl | h_2.refl => exact hboth ‹_›
  case h_3.refl | h_4.refl => exact hshape
  case h_5.isTrue.refl => exact helem ‹_›

theorem Declaration.ofResource_eq_ok (h : ofResource next res = .ok declared) :
    declared.1.resource = res ∧ typeText? res = .ok declared.1.typeText := by
  obtain ⟨text, htext, hrest⟩ := exists_of_bind h
  have htype : typeText? res = .ok text := by
    cases ht : typeText? res with
    | error fault =>
      rw [ht] at htext
      cases htext
    | ok text' =>
      rw [ht] at htext
      cases htext
      rfl
  rw [htype]
  dsimp only at hrest
  repeat' split at hrest
  all_goals cases hrest
  all_goals exact ⟨rfl, rfl⟩

theorem Declaration.unbound_of_constant (h : ofResource next res = .ok declared)
    (harray : res.array = none) (hconst : res.kind? = some .constant) :
    declared.1.register = none ∧ declared.1.space = none := by
  obtain ⟨text, -, hrest⟩ := exists_of_bind h
  dsimp only at hrest
  split at hrest
  · cases hrest
  · rename_i harray' _
    cases harray.symm.trans harray'
  · cases hrest
    exact ⟨rfl, rfl⟩
  · rename_i hother
    exact absurd hconst hother

theorem Declaration.ending_eq (h : ofResource next res = .ok declared) :
    declared.1.ending = extentText (declared.1.resource.array.map ResourceArray.extent)
      ++ bindingText declared.1.letter declared.1.register declared.1.space ++ ";\n" := by
  obtain ⟨rfl, -⟩ := ofResource_eq_ok h
  have hunbound := unbound_of_constant h
  rw [ending]
  split
  · rename_i harray
    rw [harray, extentText, Option.map_some, Option.elim_some]
  · rename_i harray hconst
    have hextent : extentText (declared.1.resource.array.map ResourceArray.extent) = "" := by
      rw [harray, extentText, Option.map_none, Option.elim_none]
    have hbinding : bindingText declared.1.letter declared.1.register declared.1.space = "" := by
      rw [(hunbound harray hconst).1, (hunbound harray hconst).2]
      rfl
    generalize ";\n" = last
    rw [hextent, hbinding, String.append_empty, String.empty_append]
  · rename_i harray _
    rw [harray, extentText, Option.map_none, Option.elim_none, String.empty_append]

theorem Declaration.text_eq (h : ofResource next res = .ok declared) :
    declared.1.text = declared.1.typeText ++ " " ++ declared.1.resource.name
      ++ extentText (declared.1.resource.array.map ResourceArray.extent)
      ++ bindingText declared.1.letter declared.1.register declared.1.space ++ ";\n" := by
  rw [text, ending_eq h]
  simp only [String.append_assoc]

theorem Declaration.braceFree_text (h : res.Within .braceFree) (hd : ofResource next res = .ok declared) :
    BraceFree declared.1.text := by
  obtain ⟨hres, htype⟩ := ofResource_eq_ok hd
  have hname : BraceFree declared.1.resource.name := hres ▸ h.name
  rw [text_eq hd]
  refine braceFree_append (braceFree_append (braceFree_append (braceFree_append (braceFree_append
    (braceFree_type h htype) ?_) hname) (braceFree_extent _)) (braceFree_binding _ _ _)) ?_
  all_goals exact braceFree_ofList (by decide)

theorem Declaration.braceFree_ofResources {resources : List Resource}
    (h : ∀ res ∈ resources, res.Within .braceFree) {declarations : List Declaration}
    (hds : ofResources next resources = .ok declarations) :
    ∀ d ∈ declarations, BraceFree d.text := by
  induction resources generalizing next declarations with
  | nil =>
    cases hds
    exact nofun
  | cons res rest ih =>
    obtain ⟨hres, hrest⟩ := List.forall_mem_cons.mp h
    obtain ⟨declared, hone, hmore⟩ := exists_of_bind hds
    obtain ⟨others, hothers, hall⟩ := exists_of_bind hmore
    cases hall
    exact List.forall_mem_cons.mpr ⟨braceFree_text hres hone, ih hrest hothers⟩

theorem braceFree_resourceSection (h : d.Within .braceFree)
    (ht : d.resourceSection = .ok text) : BraceFree text := by
  have hwithin : ∀ res ∈ d.resources.values, res.Within .braceFree := by
    intro res hres
    obtain ⟨entry, hentry, rfl⟩ := List.mem_map.mp hres
    exact h.resources entry hentry
  unfold Draft.resourceSection at ht
  split at ht
  · obtain ⟨declarations, hds, hjoin⟩ := exists_of_bind ht
    cases hjoin
    refine Vocabulary.braceFree.join fun s hs => ?_
    obtain ⟨declaration, hmem, rfl⟩ := List.mem_map.mp hs
    exact Declaration.braceFree_ofResources hwithin hds declaration hmem
  · cases ht
    exact braceFree_ofList (by decide)

theorem reads_entryHeader (size : GroupSize) : Reads (Draft.entryHeader size) .opens := by
  have hsize : BraceFree size.text := by
    refine braceFree_append (braceFree_append (braceFree_append (braceFree_append
      (braceFree_nat _) ?_) (braceFree_nat _)) ?_) (braceFree_nat _)
    all_goals exact braceFree_ofList (by decide)
  refine .after_plain (braceFree_append (braceFree_append ?_ hsize) ?_) (.ofList fun _ => rfl)
  all_goals exact braceFree_ofList (by decide)

theorem reads_textOf {lines : List Line} (h : ∀ line ∈ lines, line.Within .braceFree)
    (hdepth : depthAfter 0 lines = some 0) : Reads (Line.textOf lines) .flat := by
  intro n
  have hzero : scan 0 (Line.textOf lines).toList = some 0 := by
    rw [← hdepth]
    exact bracesAfter_textOf h 0
  have hshift := scan_add hzero n
  rwa [Nat.zero_add] at hshift

end Sections

section Finishing

variable {d : Draft}

variable {text : String}

theorem Draft.finish_eq_ok (h : d.finish = .ok text) :
    d.inFunction = false ∧ d.scopes.depth = 0 ∧ ∃ resources, d.resourceSection = .ok resources ∧
      text = Prologue.text ++ d.structSection ++ d.sharedSection ++ resources ++ d.header
        ++ Line.textOf d.functions ++ entryHeader d.groupSize ++ Line.textOf d.body ++ "\x7d\n" := by
  unfold finish at h
  cases hin : d.inFunction with
  | true =>
    rw [hin] at h
    cases h
  | false =>
    by_cases hdepth : d.scopes.depth = 0
    · simp only [hin, hdepth] at h
      obtain ⟨resources, hr, htext⟩ := exists_of_bind h
      exact ⟨rfl, hdepth, resources, hr, (Except.ok.inj htext).symm⟩
    · rw [hin, if_pos hdepth] at h
      cases h

theorem Draft.Level.reads_finish (h : d.Level 0) (hw : d.Within .braceFree)
    (htargets : d.targets = []) (htext : d.finish = .ok text) : Reads text .flat := by
  obtain ⟨hin, hdepth, resources, hresources, rfl⟩ := finish_eq_ok htext
  have hframes : d.frames = [] := by simpa [inFunction] using hin
  have hbody : depthAfter 0 d.body = some 0 := by
    have hlines := h.lines
    rw [Draft.lines, hframes, nesting, hdepth, htargets, hin] at hlines
    exact hlines
  have hwithin : ∀ line ∈ d.body, line.Within .braceFree := hw.lines _ (by simp [pages])
  have hfunctions : Reads (Line.textOf d.functions) .flat :=
    reads_textOf (hw.lines _ (by simp)) h.functions
  have hhead : Reads (Prologue.text ++ d.structSection ++ d.sharedSection ++ resources ++ d.header
      ++ Line.textOf d.functions) .flat :=
    ((((Prologue.reads_text.append_flat (reads_structSection hw)).append_flat
      (.plain (braceFree_sharedSection hw))).append_flat
      (.plain (braceFree_resourceSection hw hresources))).append_flat
      (.plain hw.header)).append_flat hfunctions
  -- the body stands one deeper, between the header of the entry point and the last brace
  exact .opens_closes (.append_flat (.flat_append hhead (reads_entryHeader d.groupSize))
    (reads_textOf hwithin hbody)) (.ofList fun n => by cases n <;> rfl)

theorem Workspace.draft_finish {ν : Type} {w : Workspace ν} {kernel : Kernel}
    (h : w.finish = .ok kernel) : w.sheet.draft.finish = .ok kernel.text := by
  obtain ⟨text, htext, hrest⟩ := exists_of_bind h
  obtain ⟨manifest, -, hkernel⟩ := exists_of_bind hrest
  cases hkernel
  exact htext

end Finishing

def Balanced (cs : List Char) : Prop := braceDepth cs = 0 ∧ NeverBelow cs

theorem Reads.balanced {s : String} (h : Reads s .flat) : Balanced s.toList := by
  have hscan : scan 0 s.toList = some 0 := h 0
  have hdepth := braceDepth_of_scan hscan
  exact ⟨by omega, neverBelow_of_scan hscan⟩

namespace Script

variable {settings : Settings} {first : Nat} {configured : Bool} {steps : List Step}
  {w : Workspace Notebook}

theorem scan_text {dag : Dag} (h : Poised .braceFree dag w) :
    scan 0 w.text.toList = some w.sheet.draft.nesting := by
  have hpage := List.mem_cons_of_mem w.sheet.draft.functions w.sheet.draft.lines_mem_pages
  have hwithin : ∀ line ∈ w.sheet.draft.lines, line.Within .braceFree :=
    h.within.sheet.2.lines _ hpage
  exact (bracesAfter_textOf hwithin 0).trans h.level.lines

theorem balanced_kernel (hfree : Fits .braceFree false (partsOf steps))
    (hrun : program settings configured steps (.start settings first {}) = .ok () w)
    {kernel : Kernel} (hk : w.finish = .ok kernel) : Balanced kernel.text.toList := by
  have hstart := Poised.start .braceFree settings first
  obtain ⟨hwithin, hkept, hlevel, -⟩ :=
    (hstart.steady (steady_program settings configured hfree)).of_ok hrun
  exact (hlevel.reads_finish hwithin.sheet.2 hkept.targets (w.draft_finish hk)).balanced

theorem text_mirrors_stacks (settings : Settings) (first : Nat) (configured : Bool)
    (steps : List Step) (hfree : Fits .braceFree false (partsOf steps)) :
    (∀ w, Reaches settings first configured steps w →
      braceDepth w.text.toList = w.sheet.draft.scopes.depth + w.sheet.draft.targets.count .switch
          + (if w.sheet.draft.inFunction then 1 else 0) ∧
        NeverBelow w.text.toList) ∧
    ∀ w, program settings configured steps (.start settings first {}) = .ok () w →
      ∀ kernel, w.finish = .ok kernel → Balanced kernel.text.toList := by
  refine ⟨fun w hreach => ?_, fun w hrun kernel hk => balanced_kernel hfree hrun hk⟩
  obtain ⟨dag, h⟩ := hreach.poised hfree
  have hdepth := braceDepth_of_scan (scan_text h)
  refine ⟨?_, neverBelow_of_scan (scan_text h)⟩
  unfold Draft.nesting at hdepth
  cases hin : w.sheet.draft.inFunction <;> rw [hin] at hdepth <;> simpa using hdepth.symm

def switching (steps : List Step) : List Step :=
  [ .act ⟨"lit", some "n"⟩ (.value (.constant (.u32 [3]))),
    .define "define" "define_body" (.ok (.fixed "f" .u32 [])) []
      [.switchOn "switch" "n" [(0, [.loop "while" false steps])]] (some "n") ]

def filling : Step := .act ⟨"array", some "a"⟩ (.value (.arrayOf [.u32 [1], .u32 [2]]))

theorem fits_switching (h : Fits .braceFree false (partsOf steps)) :
    Fits .braceFree false (partsOf (switching steps)) := by
  have hcallee : (Prototype.fixed "f" .u32 []).Within .braceFree := by
    refine ⟨braceFree_ofList (by decide), fun q hq => ?_, trivial⟩
    cases hq
  have hcalm (part : Part) (hp : part.Within .braceFree) :
      part.Within .braceFree ∧ (false = true → part.enables = false) :=
    ⟨hp, fun h => by cases h⟩
  simp only [switching, partsOf, Step.parts, partsOfCases, partsOfCase, List.append_nil,
    List.cons_append, List.nil_append]
  exact List.forall_mem_cons.mpr ⟨hcalm _ trivial, List.forall_mem_cons.mpr ⟨hcalm _ hcallee, h⟩⟩

theorem switching_mirrors_stacks :
    (∃ w, Reaches .default 1 false (switching [filling, abandoned]) w ∧
      braceDepth w.text.toList = 4 ∧ NeverBelow w.text.toList) ∧
    ∃ w kernel, program .default false (switching [filling]) (.start .default 1 {}) = .ok () w ∧
      w.finish = .ok kernel ∧ Balanced kernel.text.toList := by
  have hboth : Fits .braceFree false (partsOf [filling, abandoned]) := by
    intro part hp
    simp only [filling, abandoned, partsOf, Step.parts, List.cons_append, List.nil_append,
      List.append_nil, List.mem_cons, List.not_mem_nil, or_false] at hp
    rcases hp with rfl | rfl <;> exact ⟨trivial, fun h => by cases h⟩
  have hfilling : Fits .braceFree false (partsOf [filling]) := (fits_append.mp hboth).1
  constructor
  · obtain ⟨_, w, hrun, rfl, hdepth, htargets, hin⟩ := Ends.exists_error
      (program .default false (switching [filling, abandoned])) (.start .default 1 {})
      (fun halt w => halt = .unbound "here" ∧ w.sheet.draft.scopes.depth = 2 ∧
        w.sheet.draft.targets.count .switch = 1 ∧ w.sheet.draft.inFunction = true)
      (by decide +kernel)
    have hreach : Reaches .default 1 false (switching [filling, abandoned]) w :=
      .inr ⟨"here", hrun⟩
    obtain ⟨hbraces, hnever⟩ := (text_mirrors_stacks .default 1 false _
      (fits_switching hboth)).1 w hreach
    rw [hdepth, htargets, hin] at hbraces
    exact ⟨w, hreach, hbraces, hnever⟩
  · obtain ⟨_, w, hrun, hdone⟩ := exists_ok_of_ensures (program .default false (switching [filling]))
      (.start .default 1 {}) (fun _ w => w.finish.isOk = true) (by decide +kernel)
    cases hk : w.finish with
    | error failure =>
      rw [hk] at hdone
      cases hdone
    | ok kernel =>
      exact ⟨w, kernel, hrun, hk, (text_mirrors_stacks .default 1 false _
        (fits_switching hfilling)).2 w hrun kernel hk⟩

end Script

end ComputeKernel
