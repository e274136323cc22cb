import ComputeKernel.Build.Recipe
import ComputeKernel.Cache
import ComputeKernel.Proofs.StoredFiles

namespace ComputeKernel

namespace Text

def IsHexDigit (c : Char) : Prop := ∃ n : Fin 16, c = Nat.digitChar n

theorem isHexDigit_of_mem {count n : Nat} {c : Char} (h : c ∈ hexDigits count n) :
    IsHexDigit c := by
  induction count generalizing n with
  | zero => simp [hexDigits] at h
  | succ count ih =>
    rw [hexDigits, List.mem_append] at h
    rcases h with h | h
    · exact ih h
    · exact ⟨⟨n % 16, Nat.mod_lt n (by decide)⟩, by simpa using h⟩

theorem length_hexDigits (count n : Nat) : (hexDigits count n).length = count := by
  induction count generalizing n with
  | zero => rfl
  | succ count ih => simp [hexDigits, ih]

theorem IsHexDigit.plain {c : Char} (h : IsHexDigit c) : c.utf8Size = 1 ∧ c ≠ '/' ∧ c ≠ '\x00' := by
  obtain ⟨n, rfl⟩ := h
  revert n
  decide

theorem size_of_hexDigits {cs : List Char} (h : ∀ c ∈ cs, IsHexDigit c) :
    (String.ofList cs).utf8ByteSize = cs.length := by
  induction cs with
  | nil => rfl
  | cons c cs ih =>
    have hc := (h c (by simp)).plain.1
    rw [String.ofList_cons, String.utf8ByteSize_append, String.utf8ByteSize_singleton, hc,
      ih fun d hd => h d (by simp [hd]), List.length_cons, Nat.add_comm]

end Text

namespace Hash

theorem isHexDigit_of_mem_wordHex {w : UInt32} {c : Char} (h : c ∈ wordHex w) :
    Text.IsHexDigit c := by
  simp only [wordHex, List.mem_append] at h
  rcases h with ((h | h) | h) | h <;> exact Text.isHexDigit_of_mem h

theorem length_wordHex (w : UInt32) : (wordHex w).length = 8 := by
  simp [wordHex, Text.length_hexDigits]

theorem isHexDigit_of_mem_digest {text : String} {c : Char} (h : c ∈ (digest text).toList) :
    Text.IsHexDigit c := by
  simp only [digest, rowHex, String.toList_ofList, List.mem_append] at h
  rcases h with (((h | h) | h) | h) | ((h | h) | h) | h <;> exact isHexDigit_of_mem_wordHex h

theorem size_digest (text : String) : (digest text).utf8ByteSize = 64 := by
  have hdigits : ∀ c ∈ (digest text).toList, Text.IsHexDigit c := fun _ => isHexDigit_of_mem_digest
  have hlength : (digest text).toList.length = 64 := by simp [digest, rowHex, length_wordHex]
  rw [← String.ofList_toList (s := digest text), Text.size_of_hexDigits hdigits, hlength]

end Hash

namespace Cache

def endings : List String := [".hlsl", ".json"]

theorem text_mem_endings : ".hlsl" ∈ endings := .head _

theorem manifest_mem_endings : ".json" ∈ endings := .tail _ (.head _)

section Names

variable (k : Kernel) {ending : String} (h : ending ∈ endings)
include h

theorem length_ending : ending.length = 5 ∧ ending.utf8ByteSize = 5 := by
  simp only [endings, List.mem_cons, List.not_mem_nil, or_false] at h
  rcases h with rfl | rfl <;> exact ⟨rfl, rfl⟩

theorem size_file : (k.key ++ ending).utf8ByteSize = 69 := by
  rw [String.utf8ByteSize_append, (length_ending h).2, Kernel.key, Hash.size_digest]

theorem size_file_le : (k.key ++ ending).utf8ByteSize ≤ Path.nameLimit := by
  rw [size_file k h]
  decide

theorem isName_file : Path.IsName (k.key ++ ending) := by
  have hplain : ∀ c ∈ (k.key ++ ending).toList, c ≠ '/' ∧ c ≠ '\x00' := by
    intro c hc
    rw [String.toList_append, List.mem_append] at hc
    rcases hc with hc | hc
    · exact (Hash.isHexDigit_of_mem_digest hc).plain.2
    · have hall : ending.toList.all (fun c => c != '/' && c != '\x00') = true := by
        simp only [endings, List.mem_cons, List.not_mem_nil, or_false] at h
        rcases h with rfl | rfl <;> rfl
      simpa using List.all_eq_true.1 hall c hc
  have hsize := size_file k h
  constructor
  · exact fun hc => (hplain _ hc).1 rfl
  · exact fun hc => (hplain _ hc).2 rfl
  · intro hspecial
    simp only [List.mem_cons, List.not_mem_nil, or_false] at hspecial
    rcases hspecial with hname | hname | hname <;> rw [hname] at hsize <;> cases hsize

theorem file_ne {j : Kernel} {ending' : String} (h' : ending' ∈ endings) (hkey : j.key ≠ k.key) :
    j.key ++ ending ≠ k.key ++ ending' := by
  intro hname
  have hchars := congrArg String.toList hname
  rw [String.toList_append, String.toList_append] at hchars
  have hlength : ending.toList.length = ending'.toList.length := by
    rw [String.length_toList, String.length_toList, (length_ending h).1, (length_ending h').1]
  exact hkey (String.toList_inj.1 (List.append_inj' hchars hlength).1)

end Names

def Roomy (c : Cache) : Prop := Path.Admits c.root 69

theorem admits_file {c : Cache} (hroom : c.Roomy) (k : Kernel) {ending : String}
    (h : ending ∈ endings) : Path.Admits c.root (k.key ++ ending).utf8ByteSize := by
  rw [size_file k h]
  exact hroom

structure Lacks (c : Cache) (t : FileTree) (key : String) : Prop where
  text : (t.find (c.textPath key)).isOk = false
  manifest : (t.find (c.manifestPath key)).isOk = false

structure Holds (c : Cache) (t : FileTree) (key : String) (k : Kernel) : Prop where
  text : t.find (c.textPath key) = .ok (.file k.text.toUTF8)
  manifest : t.find (c.manifestPath key) = .ok (.file k.manifest.json.toUTF8)

variable {c : Cache} {t t' : FileTree} {l : Location} {key : String} {j k : Kernel}

section Files

variable (h : t.Opens c.root l) (hroom : c.Roomy)
include h hroom

theorem find_file (k : Kernel) {ending : String} (hending : ending ∈ endings) :
    t.find (Path.join c.root (k.key ++ ending)) = t.standing (l.child (k.key ++ ending)) := by
  have hname := isName_file k hending
  rw [h.find_join hname (admits_file hroom k hending),
    FileTree.look_of_size (size_file_le k hending), Location.step_name hname]

theorem run_writeFile (k : Kernel) {ending : String} (hending : ending ∈ endings) (text : String)
    (hfree : t.entry? (l.child (k.key ++ ending)) = none) :
    (Disk.writeText (Path.join c.root (k.key ++ ending)) text : StateM FileTree _).run t =
      (.ok (), t.insert (l.child (k.key ++ ending)) text.toUTF8) := by
  have hwrite : t.write (Path.join c.root (k.key ++ ending)) text.toUTF8 = .ok _ :=
    h.write_join (isName_file k hending) (admits_file hroom k hending) (size_file_le k hending) hfree
  change (FileTree.update _).run t = _
  rw [FileTree.run_update, hwrite]

theorem lacks_iff :
    c.Lacks t k.key ↔ ∀ ending ∈ endings, t.entry? (l.child (k.key ++ ending)) = none := by
  have hfile (ending) (hending : ending ∈ endings) :
      (t.find (Path.join c.root (k.key ++ ending))).isOk = false ↔
        t.entry? (l.child (k.key ++ ending)) = none := by
    rw [find_file h hroom k hending, FileTree.isOk_standing]
  constructor
  · rintro ⟨htext, hmanifest⟩ ending hending
    apply (hfile ending hending).1
    simp only [endings, List.mem_cons, List.not_mem_nil, or_false] at hending
    rcases hending with rfl | rfl
    · exact htext
    · exact hmanifest
  · intro hfree
    exact ⟨(hfile _ text_mem_endings).2 (hfree _ text_mem_endings),
      (hfile _ manifest_mem_endings).2 (hfree _ manifest_mem_endings)⟩

end Files

theorem Holds.mono (h : c.Holds t key k) (hwithin : t.Within t') : c.Holds t' key k where
  text := FileTree.find_of_within hwithin h.text
  manifest := FileTree.find_of_within hwithin h.manifest

theorem run_readText {path text : String} (h : t.find path = .ok (.file text.toUTF8)) :
    (Disk.readText path : StateM FileTree _).run t = (.ok text, t) := by
  have hbytes : (Disk.readBytes path : StateM FileTree _).run t = (.ok text.toUTF8, t) := by
    change (t.read path, t) = _
    rw [FileTree.read, bind_of_ok h]
    rfl
  have htext : String.fromUTF8? text.toUTF8 = some text := by
    have hvalid : text.toUTF8.IsValidUTF8 := text.isValidUTF8
    rw [String.fromUTF8?, dif_pos hvalid]
    rfl
  rw [Disk.readText, FileTree.run_bind_of hbytes]
  simp only [htext]
  rfl

theorem Holds.lookup (h : c.Holds t key k) :
    (c.lookup key : StateM FileTree _).run t = (some ⟨k.text, some k.manifest.json⟩, t) := by
  rw [Cache.lookup, FileTree.run_bind_of (run_readText h.text)]
  simp only
  rw [FileTree.run_bind_of (run_readText h.manifest)]
  rfl

theorem run_pathExists (path : String) :
    (Disk.pathExists path : StateM FileTree _).run t = ((t.find path).isOk, t) := rfl

theorem Holds.store (h : c.Holds t k.key j) (hopens : t.Opens c.root l) :
    (c.store k : StateM FileTree _).run t = (.ok (c.textPath k.key), t) := by
  rw [Cache.store, storeText, FileTree.run_bind_of hopens.makeFolders]
  simp only
  rw [FileTree.run_bind_of (run_pathExists _), h.text]
  rfl

def added (t : FileTree) (l : Location) (k : Kernel) : FileTree :=
  (t.insert (l.child (k.key ++ ".hlsl")) k.text.toUTF8).insert (l.child (k.key ++ ".json"))
    k.manifest.json.toUTF8

section Adding

variable (hopens : t.Opens c.root l) (hroom : c.Roomy) (hlacks : c.Lacks t k.key)
include hopens hroom hlacks

theorem free_text : t.entry? (l.child (k.key ++ ".hlsl")) = none :=
  (lacks_iff hopens hroom).1 hlacks _ text_mem_endings

theorem within_text : t.Within (t.insert (l.child (k.key ++ ".hlsl")) k.text.toUTF8) :=
  FileTree.within_insert (free_text hopens hroom hlacks)

theorem free_manifest :
    FileTree.entry? (t.insert (l.child (k.key ++ ".hlsl")) k.text.toUTF8)
      (l.child (k.key ++ ".json")) = none := by
  have hne : k.key ++ ".json" ≠ k.key ++ ".hlsl" := by simp
  rw [FileTree.entry?_insert_sibling hne]
  exact (lacks_iff hopens hroom).1 hlacks _ manifest_mem_endings

theorem within_added : t.Within (added t l k) :=
  (within_text hopens hroom hlacks).trans
    (FileTree.within_insert (free_manifest hopens hroom hlacks))

theorem run_store_lacking :
    (c.store k : StateM FileTree _).run t = (.ok (c.textPath k.key), added t l k) := by
  have htext : (Disk.writeText (c.textPath k.key) k.text : StateM FileTree _).run t = _ :=
    run_writeFile hopens hroom k text_mem_endings k.text (free_text hopens hroom hlacks)
  have hmanifest : (Disk.writeText (c.manifestPath k.key) k.manifest.json : StateM FileTree _).run
      (t.insert (l.child (k.key ++ ".hlsl")) k.text.toUTF8) = _ :=
    run_writeFile (hopens.mono (within_text hopens hroom hlacks)) hroom k manifest_mem_endings
      k.manifest.json (free_manifest hopens hroom hlacks)
  rw [Cache.store, storeText, FileTree.run_bind_of hopens.makeFolders]
  simp only
  rw [FileTree.run_bind_of (run_pathExists _), hlacks.text]
  simp only [Bool.false_eq_true, if_false]
  rw [FileTree.run_bind_of htext]
  simp only
  rw [FileTree.run_bind_of hmanifest]
  rfl

theorem holds_added : c.Holds (added t l k) k.key k := by
  have hopened := hopens.mono (within_added hopens hroom hlacks)
  have hne : k.key ++ ".hlsl" ≠ k.key ++ ".json" := by simp
  constructor
  · have hentry : FileTree.entry? (added t l k) (l.child (k.key ++ ".hlsl")) =
        some (.file k.text.toUTF8) := by
      rw [added, FileTree.entry?_insert_sibling hne]
      exact FileTree.entry?_insert_self (free_text hopens hroom hlacks)
    rw [textPath, find_file hopened hroom k text_mem_endings, FileTree.standing_of_some hentry]
  · have hentry : FileTree.entry? (added t l k) (l.child (k.key ++ ".json")) =
        some (.file k.manifest.json.toUTF8) :=
      FileTree.entry?_insert_self (free_manifest hopens hroom hlacks)
    rw [manifestPath, find_file hopened hroom k manifest_mem_endings, FileTree.standing_of_some hentry]

theorem lacks_added (hkey : j.key ≠ k.key) (h : c.Lacks t j.key) : c.Lacks (added t l k) j.key := by
  have hopened := hopens.mono (within_added hopens hroom hlacks)
  refine (lacks_iff hopened hroom).2 fun ending hending => ?_
  have htext := file_ne k hending text_mem_endings hkey
  have hmanifest := file_ne k hending manifest_mem_endings hkey
  rw [added, FileTree.entry?_insert_sibling hmanifest,
    FileTree.entry?_insert_sibling htext]
  exact (lacks_iff hopens hroom).1 h ending hending

end Adding

theorem roomy_of_store {path : String} (hopens : t.Opens c.root l) (hlacks : c.Lacks t k.key)
    (h : (c.store k : StateM FileTree _).run t = (.ok path, t')) : c.Roomy := by
  rw [Cache.store, storeText, FileTree.run_bind_of hopens.makeFolders] at h
  simp only at h
  rw [FileTree.run_bind_of (run_pathExists _), hlacks.text] at h
  simp only [Bool.false_eq_true, if_false] at h
  obtain ⟨result, middle, hwritten, hrest⟩ := FileTree.exists_of_run_bind h
  cases result with
  | error fault => cases hrest
  | ok _ =>
    change (FileTree.update _).run t = _ at hwritten
    rw [FileTree.run_update] at hwritten
    split at hwritten
    · rename_i hwrite
      obtain ⟨p, hp, -⟩ := exists_of_bind hwrite
      have hadmits := Path.admits_of_ofText_join (isName_file k text_mem_endings) hp
      rwa [size_file k text_mem_endings] at hadmits
    · cases hwritten

def Shows (c : Cache) (t : FileTree) (key : String) : Option Kernel → Prop
  | some k => c.Holds t key k
  | none => c.Lacks t key

structure Stored (c : Cache) (t : FileTree) (l : Location) (stored known : List Kernel) : Prop where
  opens : t.Opens c.root l
  shows : ∀ k ∈ known, c.Shows t k.key (stored.find? fun j => j.key = k.key)

variable {stored known ks : List Kernel}

theorem find?_snoc_of_ne (hkey : j.key ≠ k.key) :
    ((stored ++ [k]).find? fun i => i.key = j.key) = stored.find? fun i => i.key = j.key := by
  have hnew : ([k].find? fun i => i.key = j.key) = none := by
    simpa using fun hsame : k.key = j.key => hkey hsame.symm
  rw [List.find?_append, hnew, Option.or_none]

theorem Stored.store {path : String} (h : c.Stored t l stored known) (hk : k ∈ known)
    (hrun : (c.store k : StateM FileTree _).run t = (.ok path, t')) :
    c.Stored t' l (stored ++ [k]) known := by
  have hshown := h.shows k hk
  -- The first kernel of a key is written, beside the entries of the other keys. A later one finds the
  -- text in place, and nothing is written.
  cases hfound : stored.find? (fun j => j.key = k.key) with
  | none =>
    rw [hfound] at hshown
    have hroom := roomy_of_store h.opens hshown hrun
    rw [run_store_lacking h.opens hroom hshown] at hrun
    cases hrun
    have hwithin := within_added h.opens hroom hshown
    refine ⟨h.opens.mono hwithin, fun j hj => ?_⟩
    by_cases hkey : j.key = k.key
    · simp only [hkey, List.find?_append, hfound, Option.none_or, List.find?_singleton, decide_true,
        if_true]
      exact holds_added h.opens hroom hshown
    · have hold := h.shows j hj
      rw [find?_snoc_of_ne hkey]
      cases hother : stored.find? (fun i => i.key = j.key) with
      | none =>
        rw [hother] at hold
        exact lacks_added h.opens hroom hshown hkey hold
      | some i =>
        rw [hother] at hold
        exact hold.mono hwithin
  | some first =>
    rw [hfound] at hshown
    rw [hshown.store h.opens] at hrun
    cases hrun
    refine ⟨h.opens, fun j hj => ?_⟩
    by_cases hkey : j.key = k.key
    · simp only [hkey, List.find?_append, hfound, Option.some_or]
      exact hshown
    · rw [find?_snoc_of_ne hkey]
      exact h.shows j hj

theorem exists_of_run_mapM_cons {paths : List String}
    (h : ((k :: ks).mapM c.store : StateM FileTree _).run t = (paths.map .ok, t')) :
    ∃ (path : String) (rest : List String) (middle : FileTree), paths = path :: rest ∧
      (c.store k : StateM FileTree _).run t = (.ok path, middle) ∧
      (ks.mapM c.store : StateM FileTree _).run middle = (rest.map .ok, t') := by
  rw [List.mapM_cons] at h
  obtain ⟨first, middle, hfirst, hrest⟩ := FileTree.exists_of_run_bind h
  obtain ⟨others, final, hothers, hlast⟩ := FileTree.exists_of_run_bind hrest
  cases paths with
  | nil => cases hlast
  | cons path rest =>
    cases hlast
    exact ⟨path, rest, middle, rfl, hfirst, hothers⟩

theorem run_mapM_cons {path : String} {rest : List String} {middle : FileTree}
    (hfirst : (c.store k : StateM FileTree _).run t = (.ok path, middle))
    (hrest : (ks.mapM c.store : StateM FileTree _).run middle = (rest.map .ok, t')) :
    ((k :: ks).mapM c.store : StateM FileTree _).run t = ((path :: rest).map .ok, t') := by
  rw [List.mapM_cons, FileTree.run_bind_of hfirst, FileTree.run_bind_of hrest]
  rfl

theorem Stored.run {paths : List String} (h : c.Stored t l stored known) (hks : ∀ k ∈ ks, k ∈ known)
    (hrun : (ks.mapM c.store : StateM FileTree _).run t = (paths.map .ok, t')) :
    c.Stored t' l (stored ++ ks) known := by
  induction ks generalizing t stored paths with
  | nil =>
    have hsame : t = t' := congrArg Prod.snd hrun
    simpa [hsame] using h
  | cons k ks ih =>
    obtain ⟨path, rest, middle, -, hfirst, hrest⟩ := exists_of_run_mapM_cons hrun
    have hstep := h.store (hks k (by simp)) hfirst
    simpa using ih hstep (fun j hj => hks j (by simp [hj])) hrest

def opened (c : Cache) (t : FileTree) : FileTree :=
  ((Disk.makeFolders c.root : StateM FileTree _).run t).2

theorem run_store_of_made {made : FileTree} (k : Kernel)
    (hmade : (Disk.makeFolders c.root : StateM FileTree _).run t = (.ok (), made))
    (hopens : made.Opens c.root l) :
    (c.store k : StateM FileTree _).run t = (c.store k : StateM FileTree _).run made := by
  rw [Cache.store, storeText, FileTree.run_bind_of hmade, FileTree.run_bind_of hopens.makeFolders]

theorem run_store_opened {path : String}
    (h : (c.store k : StateM FileTree _).run t = (.ok path, t')) :
    ∃ l, (c.opened t).Opens c.root l ∧
      (c.store k : StateM FileTree _).run (c.opened t) = (.ok path, t') := by
  obtain ⟨result, middle, hmade, hrest⟩ := FileTree.exists_of_run_bind h
  have hopened : c.opened t = middle := by rw [opened, hmade]
  cases result with
  | error fault => cases hrest
  | ok made =>
    obtain ⟨l, hl⟩ := FileTree.exists_opens hmade
    rw [hopened]
    exact ⟨l, hl, (run_store_of_made k hmade hl).symm.trans h⟩

theorem run_opened {paths : List String} (hne : ks ≠ [])
    (h : (ks.mapM c.store : StateM FileTree _).run t = (paths.map .ok, t')) :
    ∃ l, (c.opened t).Opens c.root l ∧
      (ks.mapM c.store : StateM FileTree _).run (c.opened t) = (paths.map .ok, t') := by
  obtain ⟨k, ks, rfl⟩ := List.exists_cons_of_ne_nil hne
  obtain ⟨path, rest, middle, rfl, hfirst, hrest⟩ := exists_of_run_mapM_cons h
  obtain ⟨l, hl, hagain⟩ := run_store_opened hfirst
  exact ⟨l, hl, run_mapM_cons hagain hrest⟩

theorem find?_key_eq_find?_text (hkeys : ∀ j ∈ ks, j.key = k.key → j.text = k.text) :
    (ks.find? fun j => j.key = k.key) = ks.find? fun j => j.text = k.text := by
  induction ks with
  | nil => rw [List.find?_nil, List.find?_nil]
  | cons j ks ih =>
    have hiff : j.key = k.key ↔ j.text = k.text :=
      ⟨hkeys j (by simp), fun htext => congrArg Hash.digest htext⟩
    simp only [List.find?_cons, hiff, ih fun i hi => hkeys i (by simp [hi])]

theorem lookup_gives_first_manifest (c : Cache) (t t' : FileTree) (ks : List Kernel)
    (paths : List String) (hempty : ∀ k ∈ ks, c.Lacks (c.opened t) k.key)
    (hstored : (ks.mapM c.store : StateM FileTree _).run t = (paths.map .ok, t'))
    (hkeys : ∀ j ∈ ks, ∀ k ∈ ks, j.key = k.key → j.text = k.text) (k : Kernel) (hk : k ∈ ks) :
    ∃ first, (ks.find? fun j => j.text = k.text) = some first ∧
      (c.lookup k.key : StateM FileTree _).run t' =
        (some ⟨k.text, some first.manifest.json⟩, t') ∧
      ((c.lookup k.key : StateM FileTree _).run t' =
        (some ⟨k.text, some k.manifest.json⟩, t') ↔ first.manifest.json = k.manifest.json) := by
  -- No key of the list has an entry once the directory is there, so the run can start from that tree.
  obtain ⟨l, hopens, hrun⟩ := run_opened (List.ne_nil_of_mem hk) hstored
  have hstart : c.Stored (c.opened t) l [] ks := ⟨hopens, hempty⟩
  have hshown := (hstart.run (fun _ hj => hj) hrun).shows k hk
  rw [List.nil_append, find?_key_eq_find?_text fun j hj => hkeys j hj k hk] at hshown
  cases hfirst : ks.find? (fun j => j.text = k.text) with
  | none => simpa using List.find?_eq_none.1 hfirst k hk
  | some first =>
    rw [hfirst] at hshown
    have htext : first.text = k.text := by simpa using List.find?_some hfirst
    have hlookup := hshown.lookup
    rw [htext] at hlookup
    refine ⟨first, rfl, hlookup, fun hown => ?_, fun hsame => hsame ▸ hlookup⟩
    have hcached : some ⟨k.text, some first.manifest.json⟩ =
        some (⟨k.text, some k.manifest.json⟩ : Cached) := congrArg Prod.fst (hlookup.symm.trans hown)
    simpa using hcached

def bindless : Recipe where
  name := "bindless"
  description := "Takes all textures at once"
  body := do
    let _ ← Build.resource (.arrayOf "textures" (.texture2D "colour" .f32x4) .unbounded)

def hostDeclared (base : UInt32) : Settings := { bindlessBase := base, emitResources := false }

theorem bindless_same_text :
    ∃ j k, (bindless.build (hostDeclared 99) 1).1 = .ok j ∧
      (bindless.build (hostDeclared 3) 1).1 = .ok k ∧ j.text = k.text ∧
      j.manifest.json ≠ k.manifest.json := by
  refine ⟨_, _, rfl, rfl, rfl, ?_⟩
  decide +kernel

def fresh : Cache := ⟨"cache"⟩

theorem opens_fresh : (fresh.opened {}).Opens fresh.root (Location.working.child "cache") :=
  ⟨.inr rfl, rfl⟩

theorem roomy_fresh : fresh.Roomy := ⟨by decide, by decide⟩

theorem lacks_fresh (k : Kernel) : fresh.Lacks (fresh.opened {}) k.key := by
  refine (lacks_iff opens_fresh roomy_fresh).2 fun ending _ => ?_
  have hopened : fresh.opened {} = { folders := [Location.working.child "cache"] } := rfl
  rw [hopened, FileTree.entry?_eq_none_iff]
  refine ⟨?_, rfl, ?_⟩
  · simp [Location.child, Location.working, Location.nullDevice, Location.root]
  · simp [FileTree.hasFolder, Location.isFixed, Location.child, Location.working, Location.root]

theorem run_same_text (htext : j.text = k.text) :
    ∃ t', ([j, k].mapM fresh.store : StateM FileTree _).run {} =
      ([fresh.textPath j.key, fresh.textPath k.key].map .ok, t') ∧ fresh.Holds t' k.key j := by
  have hkey : j.key = k.key := congrArg Hash.digest htext
  have hlacks := lacks_fresh j
  have hfirst : (fresh.store j : StateM FileTree _).run {} =
      (.ok (fresh.textPath j.key), added (fresh.opened {}) (Location.working.child "cache") j) :=
    (run_store_of_made j rfl opens_fresh).trans (run_store_lacking opens_fresh roomy_fresh hlacks)
  have hholds := holds_added opens_fresh roomy_fresh hlacks
  rw [hkey] at hholds
  have hsecond := hholds.store (opens_fresh.mono (within_added opens_fresh roomy_fresh hlacks))
  exact ⟨_, run_mapM_cons hfirst (run_mapM_cons hsecond rfl), hholds⟩

theorem bindless_found_with_first_manifest :
    ∃ j k t', (bindless.build (hostDeclared 99) 1).1 = .ok j ∧
      (bindless.build (hostDeclared 3) 1).1 = .ok k ∧
      ([j, k].mapM fresh.store : StateM FileTree _).run {} =
        ([fresh.textPath j.key, fresh.textPath k.key].map .ok, t') ∧
      (fresh.lookup k.key : StateM FileTree _).run t' =
        (some ⟨k.text, some j.manifest.json⟩, t') := by
  obtain ⟨j, k, hj, hk, htext, -⟩ := bindless_same_text
  obtain ⟨t', hrun, -⟩ := run_same_text htext
  have hkeys : ∀ a ∈ [j, k], ∀ b ∈ [j, k], a.key = b.key → a.text = b.text := by
    simp [htext]
  obtain ⟨first, hfirst, hlookup, -⟩ := lookup_gives_first_manifest fresh {} t' [j, k] _
    (fun i _ => lacks_fresh i) hrun hkeys k (by simp)
  have hj' : first = j := by simpa [htext] using hfirst.symm
  exact ⟨j, k, t', hj, hk, hrun, hj' ▸ hlookup⟩

theorem bindless_manifest_lost :
    ∃ j k t', (bindless.build (hostDeclared 99) 1).1 = .ok j ∧
      (bindless.build (hostDeclared 3) 1).1 = .ok k ∧
      ([j, k].mapM fresh.store : StateM FileTree _).run {} =
        ([fresh.textPath j.key, fresh.textPath k.key].map .ok, t') ∧
      (fresh.lookup k.key : StateM FileTree _).run t' ≠
        (some ⟨k.text, some k.manifest.json⟩, t') := by
  obtain ⟨j, k, hj, hk, htext, hmanifest⟩ := bindless_same_text
  obtain ⟨t', hrun, hholds⟩ := run_same_text htext
  refine ⟨j, k, t', hj, hk, hrun, fun hown => hmanifest ?_⟩
  have hcached : some ⟨j.text, some j.manifest.json⟩ =
      some (⟨k.text, some k.manifest.json⟩ : Cached) :=
    congrArg Prod.fst (hholds.lookup.symm.trans hown)
  simpa [htext] using hcached

end Cache

end ComputeKernel
