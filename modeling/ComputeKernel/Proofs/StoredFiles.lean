import ComputeKernel.Proofs.Ensures
import ComputeKernel.Storage.FileTree
import Mathlib.Data.List.Basic

namespace ComputeKernel

variable {name folder : String}

namespace Text

theorem splitAt_ne_nil (sep : Char) (cs : List Char) : splitAt sep cs ≠ [] := by
  cases cs with
  | nil => simp [splitAt]
  | cons c cs =>
    unfold splitAt
    split
    · simp
    · split <;> simp

theorem splitAt_append (sep : Char) (front back : List Char) :
    splitAt sep (front ++ sep :: back) = splitAt sep front ++ splitAt sep back := by
  induction front with
  | nil => simp [splitAt]
  | cons c front ih =>
    by_cases hc : c = sep
    · simp [splitAt, hc, ih]
    · obtain ⟨piece, pieces, hfront⟩ := List.exists_cons_of_ne_nil (splitAt_ne_nil sep front)
      simp [splitAt, hc, ih, hfront]

theorem splitAt_of_notMem {sep : Char} {cs : List Char} (h : sep ∉ cs) : splitAt sep cs = [cs] := by
  induction cs with
  | nil => rfl
  | cons c cs ih =>
    have hc : c ≠ sep := fun hc => h (by simp [hc])
    have hcs : sep ∉ cs := fun hcs => h (by simp [hcs])
    simp [splitAt, hc, ih hcs]

end Text

namespace Path

structure IsName (name : String) : Prop where
  noSlash : '/' ∉ name.toList
  noNul : '\x00' ∉ name.toList
  special : name ∉ ["", ".", ".."]

def lead (folder : String) : String :=
  if folder.isEmpty then ""
  else if folder.toList.getLast? = some '/' then folder
  else folder ++ "/"

def Admits (folder : String) (size : Nat) : Prop :=
  '\x00' ∉ folder.toList ∧ (lead folder).utf8ByteSize + size ≤ textLimit

theorem partsOf_slash (folder rest : String) :
    partsOf (folder ++ "/" ++ rest) = partsOf rest ++ partsOf folder := by
  have h : (folder ++ "/" ++ rest).toList = folder.toList ++ '/' :: rest.toList := by simp
  simp only [partsOf, h, Text.splitAt_append, List.filter_append, List.map_append,
    List.reverse_append]

variable {p : Path}

theorem IsName.ne_empty (hname : IsName name) : name ≠ "" :=
  fun h => hname.special (by simp [h])

theorem IsName.toList_ne_nil (hname : IsName name) : name.toList ≠ [] :=
  fun h => hname.ne_empty (String.toList_inj.1 h)

theorem IsName.partsOf (hname : IsName name) : partsOf name = [name] := by
  simp [Path.partsOf, Text.splitAt_of_notMem hname.noSlash, hname.toList_ne_nil]

theorem IsName.isAbsolute (hname : IsName name) : isAbsolute name = false := by
  obtain ⟨c, cs, hcs⟩ := List.exists_cons_of_ne_nil hname.toList_ne_nil
  have hc : c ≠ '/' := fun hc => hname.noSlash (by simp [hcs, hc])
  simp [Path.isAbsolute, hcs, hc]

theorem join_eq_lead (hname : IsName name) (folder : String) :
    join folder name = lead folder ++ name := by
  unfold join lead
  simp only [hname.isAbsolute, Bool.or_false]
  split
  · simp
  · split <;> rfl

theorem eq_append_slash (h : folder.toList.getLast? = some '/') :
    ∃ front, folder = front ++ "/" := by
  obtain ⟨front, hfront⟩ := List.getLast?_eq_some_iff.1 h
  refine ⟨String.ofList front, String.toList_inj.1 ?_⟩
  simp [hfront]

theorem partsOf_lead (hname : IsName name) (folder : String) :
    partsOf (lead folder ++ name) = name :: partsOf folder := by
  unfold lead
  split
  case isTrue hempty =>
    have hfolder : folder = "" := by simpa using hempty
    have hnone : partsOf "" = [] := by simp [partsOf, Text.splitAt]
    rw [hfolder, hnone]
    simpa using hname.partsOf
  case isFalse =>
    split
    case isTrue hlast =>
      obtain ⟨front, rfl⟩ := eq_append_slash hlast
      have hslash : partsOf (front ++ "/") = partsOf front := by
        simpa [partsOf, Text.splitAt] using partsOf_slash front ""
      rw [partsOf_slash, hslash, hname.partsOf]
      rfl
    case isFalse =>
      rw [partsOf_slash, hname.partsOf]
      rfl

theorem startOf_lead (hname : IsName name) (folder : String) :
    startOf (lead folder ++ name) = startOf folder := by
  have h : isAbsolute (lead folder ++ name) = isAbsolute folder := by
    unfold lead
    split
    case isTrue hempty =>
      have hfolder : folder = "" := by simpa using hempty
      rw [hfolder]
      simpa [isAbsolute] using hname.isAbsolute
    case isFalse hfolder =>
      have hne : folder.toList ≠ [] := by simpa using hfolder
      obtain ⟨c, cs, hcs⟩ := List.exists_cons_of_ne_nil hne
      split <;> simp [isAbsolute, hcs]
  rw [startOf, startOf, h]

theorem nul_mem_lead : '\x00' ∈ (lead folder).toList ↔ '\x00' ∈ folder.toList := by
  unfold lead
  split
  case isTrue hempty =>
    have hfolder : folder = "" := by simpa using hempty
    simp [hfolder]
  case isFalse => split <;> simp

theorem ofText_join (hname : IsName name) (folder : String) : ofText (join folder name) = if '\x00'
    ∈ folder.toList then .error .nulByte else if textLimit < (lead folder).utf8ByteSize +
    name.utf8ByteSize then .error .nameTooLong else .ok
    ⟨startOf folder, partsOf folder, some name, false⟩ := by
  have hempty : (lead folder ++ name).isEmpty = false := by simp [hname.ne_empty]
  have hlast : name.toList.getLast? ≠ some '/' :=
    fun h => hname.noSlash (List.mem_of_getLast? h)
  have hdots : ¬(name = "." ∨ name = "..") := by
    rintro (h | h) <;> exact hname.special (by simp [h])
  rw [join_eq_lead hname]
  simp only [ofText, String.toList_append, List.contains_iff_mem, List.mem_append, nul_mem_lead,
    hname.noNul, or_false, hempty, String.utf8ByteSize_append, partsOf_lead hname,
    startOf_lead hname, hdots, if_false]
  simp [hlast, hname.ne_empty]

theorem ofText_join_of_admits (hname : IsName name) (h : Admits folder name.utf8ByteSize) :
    ofText (join folder name) = .ok ⟨startOf folder, partsOf folder, some name, false⟩ := by
  rw [ofText_join hname, if_neg h.1, if_neg (Nat.not_lt.2 h.2)]

theorem admits_of_ofText_join (hname : IsName name)
    (h : ofText (join folder name) = .ok p) : Admits folder name.utf8ByteSize := by
  rw [ofText_join hname] at h
  split at h
  · cases h
  · rename_i hnul
    split at h
    · cases h
    · rename_i hsize
      exact ⟨hnul, Nat.not_lt.1 hsize⟩

theorem ofText_parts {text : String} (h : ofText text = .ok p) :
    p.start = startOf text ∧ partsOf text = p.name?.toList ++ p.way ∧
      ∀ name, p.name? = some name → name ≠ "." ∧ name ≠ ".." := by
  unfold ofText at h
  split at h
  · cases h
  · split at h
    · cases h
    · split at h
      · cases h
      · simp only at h
        split at h
        · rename_i hparts
          cases h
          exact ⟨rfl, hparts, by simp⟩
        · rename_i part way hparts
          split at h
          · cases h
            exact ⟨rfl, hparts, by simp⟩
          · rename_i hdots
            cases h
            refine ⟨rfl, hparts, ?_⟩
            rintro name ⟨⟩
            exact not_or.1 hdots

end Path

namespace Location

theorem step_eq_child (hdot : name ≠ ".") (hdots : name ≠ "..") (l : Location) :
    l.step name = l.child name := by
  simp [step, hdot, hdots]

theorem step_name (hname : Path.IsName name) (l : Location) : l.step name = l.child name :=
  step_eq_child (fun h => hname.special (by simp [h])) (fun h => hname.special (by simp [h])) l

theorem isInside_eq_false {l folder : Location} (h : l.names.length ≤ folder.names.length) :
    l.isInside folder = false := by
  simp [isInside, Nat.not_lt.2 h]

end Location

theorem bind_of_ok {ε α β : Type} {x : Except ε α} {f : α → Except ε β} {a : α}
    (hx : x = .ok a) : x >>= f = f a := by
  rw [hx]
  rfl

namespace FileTree

variable {t t' : FileTree} {l l' start : Location} {way : List String} {part path : String}
  {entry : Entry}

def Within (t t' : FileTree) : Prop :=
  ∀ l entry, t.entry? l = some entry → t'.entry? l = some entry

theorem Within.trans {t'' : FileTree} (h : t.Within t') (h' : t'.Within t'') : t.Within t'' :=
  fun l entry hentry => h' l entry (h l entry hentry)

theorem find_eq_ok_iff :
    t.find path = .ok entry ↔ ∃ p folder, Path.ofText path = .ok p ∧
      t.walk p.start p.way = .ok folder ∧
        ((p.name? = none ∧ entry = .folder) ∨ ∃ name, p.name? = some name ∧
          t.look folder name = .ok entry ∧ (p.slash = true → entry = .folder)) := by
  constructor
  · intro h
    obtain ⟨p, hp, hplace⟩ := exists_of_bind h
    obtain ⟨folder, hfolder, hlast⟩ := exists_of_bind hplace
    refine ⟨p, folder, hp, hfolder, ?_⟩
    cases hname : p.name? with
    | none =>
      simp only [hname] at hlast
      cases hlast
      exact .inl ⟨rfl, rfl⟩
    | some name =>
      simp only [hname] at hlast
      obtain ⟨found, hfound, hentry⟩ := exists_of_bind hlast
      refine .inr ⟨name, rfl, ?_⟩
      split at hentry
      · cases hentry
        exact ⟨hfound, fun _ => rfl⟩
      · split at hentry
        · cases hentry
        · rename_i hslash
          cases hentry
          exact ⟨hfound, fun h => absurd h hslash⟩
  · rintro ⟨p, folder, hp, hfolder, hlast⟩
    rw [find, bind_of_ok hp, bind_of_ok hfolder]
    rcases hlast with ⟨hname, rfl⟩ | ⟨name, hname, hlook, hslash⟩
    · simp only [hname]
      rfl
    · simp only [hname]
      rw [bind_of_ok hlook]
      cases hp : p.slash with
      | false => cases entry <;> rfl
      | true =>
        rw [hslash hp]
        rfl

theorem isFolder_of_find (h : t.find path = .ok .folder) : t.isFolder path = true := by
  simp only [isFolder, h]

theorem find_of_isFolder (h : t.isFolder path = true) : t.find path = .ok .folder := by
  unfold isFolder at h
  split at h
  · assumption
  · cases h

section Following

variable (h : t.Within t')
include h

theorem look_of_within (hlook : t.look l part = .ok entry) : t'.look l part = .ok entry := by
  unfold look at hlook ⊢
  split at hlook
  · cases hlook
  · rename_i hsize
    rw [if_neg hsize]
    split at hlook
    · rename_i found hfound
      rw [h _ _ hfound]
      exact hlook
    · cases hlook

theorem walk_of_within (hwalk : t.walk start way = .ok l) : t'.walk start way = .ok l := by
  induction way generalizing l with
  | nil => exact hwalk
  | cons part way ih =>
    obtain ⟨folder, hfolder, hlast⟩ := exists_of_bind hwalk
    obtain ⟨found, hfound, hstep⟩ := exists_of_bind hlast
    rw [walk, bind_of_ok (ih hfolder), bind_of_ok (look_of_within h hfound)]
    exact hstep

theorem find_of_within (hfind : t.find path = .ok entry) : t'.find path = .ok entry := by
  obtain ⟨p, folder, hp, hfolder, hlast⟩ := find_eq_ok_iff.1 hfind
  refine find_eq_ok_iff.2 ⟨p, folder, hp, walk_of_within h hfolder, hlast.imp_right ?_⟩
  rintro ⟨name, hname, hlook, hslash⟩
  exact ⟨name, hname, look_of_within h hlook, hslash⟩

theorem isFolder_of_within (hfolder : t.isFolder path = true) : t'.isFolder path = true :=
  isFolder_of_find (find_of_within h (find_of_isFolder hfolder))

end Following

section Changing

variable {bytes : ByteArray}

theorem lookup_filter_of_ne {files : List (Location × ByteArray)} (hne : l' ≠ l) :
    (files.filter fun file => file.1 != l).lookup l' = files.lookup l' := by
  induction files with
  | nil => rfl
  | cons file files ih =>
    obtain ⟨place, content⟩ := file
    by_cases hplace : place = l
    · have hkey : (l' == l) = false := by simpa using hne
      simp [hplace, ih, List.lookup_cons, hkey]
    · simp [hplace, List.lookup_cons, ih]

theorem contents?_insert_self : (t.insert l bytes).contents? l = some bytes := by
  simp [contents?, insert]

theorem contents?_insert_of_ne (hne : l' ≠ l) :
    (t.insert l bytes).contents? l' = t.contents? l' := by
  have hkey : (l' == l) = false := by simpa using hne
  simp only [contents?, insert, List.lookup_cons, hkey]
  exact lookup_filter_of_ne hne

theorem hasFolder_insert : (t.insert l bytes).hasFolder l' = (l.isInside l' || t.hasFolder l') := by
  have hfiles : (t.insert l bytes).files.any (fun file => file.1.isInside l') =
      (l.isInside l' || t.files.any fun file => file.1.isInside l') := by
    simp only [insert, List.any_cons, List.any_filter]
    cases hl : l.isInside l' with
    | true => rfl
    | false =>
      congr 2
      funext file
      -- A file that the insertion removes is not in the directory either.
      by_cases hfile : file.1 = l
      · simp [hfile, hl]
      · simp [hfile]
  simp only [hasFolder, hfiles]
  simp only [insert, Bool.or_left_comm]

theorem hasFolder_folders_cons :
    hasFolder { t with folders := l :: t.folders } l' = (l' == l || t.hasFolder l') := by
  simp only [hasFolder, List.contains_cons]
  simp only [Bool.or_left_comm, Bool.or_assoc]

theorem entry?_eq_none_iff :
    t.entry? l = none ↔ l ≠ .nullDevice ∧ t.contents? l = none ∧ t.hasFolder l = false := by
  unfold entry?
  split
  · simp_all
  · split
    · simp_all
    · split <;> simp_all

theorem entry?_insert_self (hfree : t.entry? l = none) :
    entry? (t.insert l bytes) l = some (.file bytes) := by
  obtain ⟨hdevice, -, -⟩ := entry?_eq_none_iff.1 hfree
  rw [ entry?, if_neg hdevice, contents?_insert_self]

theorem entry?_insert_of_ne (hne : l' ≠ l) (hdepth : l.names.length ≤ l'.names.length) :
    entry? (t.insert l bytes) l' = t.entry? l' := by
  simp only [ entry?, contents?_insert_of_ne hne, hasFolder_insert,
    Location.isInside_eq_false hdepth, Bool.false_or]

theorem entry?_insert_sibling {name name' : String} (hne : name' ≠ name) :
    entry? (t.insert (l.child name) bytes) (l.child name') = t.entry? (l.child name') := by
  apply entry?_insert_of_ne
  · simpa [Location.child] using hne
  · simp [Location.child]

theorem within_of_contents (hfree : t.entry? l = none)
    (hcontents : ∀ l', l' ≠ l → t'.contents? l' = t.contents? l')
    (hfolder : ∀ l', t.hasFolder l' = true → t'.hasFolder l' = true) : t.Within t' := by
  intro place entry hentry
  have hplace : place ≠ l := by
    rintro rfl
    rw [hfree] at hentry
    cases hentry
  unfold entry? at hentry ⊢
  rw [hcontents place hplace]
  split at hentry
  · rename_i hdevice
    rw [if_pos hdevice]
    exact hentry
  · rename_i hdevice
    rw [if_neg hdevice]
    split at hentry
    · exact hentry
    · split at hentry
      · rename_i hthere
        rw [if_pos (hfolder place hthere)]
        exact hentry
      · cases hentry

theorem within_insert (hfree : t.entry? l = none) : t.Within (t.insert l bytes) :=
  within_of_contents hfree (fun _ hne => contents?_insert_of_ne hne) fun l' h => by
    rw [hasFolder_insert, h, Bool.or_true]

theorem within_folders_cons (hfree : t.entry? l = none) :
    t.Within { t with folders := l :: t.folders } :=
  within_of_contents hfree (fun _ _ => rfl) fun l' h => by
    rw [hasFolder_folders_cons, h, Bool.or_true]

theorem entry?_folders_cons (hfree : t.entry? l = none) :
    entry? { t with folders := l :: t.folders } l = some .folder := by
  obtain ⟨hdevice, hcontents, -⟩ := entry?_eq_none_iff.1 hfree
  have hsame : contents? { t with folders := l :: t.folders } l = none := hcontents
  rw [ entry?, if_neg hdevice, hsame]
  simp [hasFolder_folders_cons]

def standing (t : FileTree) (l : Location) : Except FileFault Entry :=
  match t.entry? l with
  | some entry => .ok entry
  | none => .error .notFound

theorem standing_of_some (h : t.entry? l = some entry) : t.standing l = .ok entry := by
  rw [standing, h]

theorem standing_of_none (h : t.entry? l = none) : t.standing l = .error .notFound := by
  rw [standing, h]

theorem isOk_standing : (t.standing l).isOk = false ↔ t.entry? l = none := by
  unfold standing
  cases t.entry? l <;> simp [Except.isOk, Except.toBool]

theorem look_of_size (hsize : part.utf8ByteSize ≤ Path.nameLimit) :
    t.look l part = t.standing (l.step part) :=
  if_neg (Nat.not_lt.2 hsize)

theorem look_eq_notFound (h : t.look l part = .error .notFound) :
    part.utf8ByteSize ≤ Path.nameLimit ∧ t.entry? (l.step part) = none := by
  unfold look at h
  split at h
  · cases h
  · rename_i hsize
    split at h
    · cases h
    · exact ⟨Nat.not_lt.1 hsize, by assumption⟩

theorem isFolder_of_makeFolder (h : t.makeFolder path = .ok t') : t'.isFolder path = true := by
  obtain ⟨p, hp, hplace⟩ := exists_of_bind h
  obtain ⟨folder, hfolder, hmade⟩ := exists_of_bind hplace
  cases hname : p.name? with
  | none => simp [hname, throw, throwThe, MonadExceptOf.throw] at hmade
  | some name =>
    simp only [hname] at hmade
    split at hmade
    case h_1 => cases hmade
    case h_3 => cases hmade
    case h_2 hlook =>
      cases hmade
      obtain ⟨-, -, hdots⟩ := Path.ofText_parts hp
      have hstep := Location.step_eq_child (hdots name hname).1 (hdots name hname).2 folder
      obtain ⟨hsize, hfree⟩ := look_eq_notFound hlook
      rw [hstep] at hfree
      have hlooked : look { t with folders := folder.child name :: t.folders } folder name =
          .ok .folder := by
        rw [look_of_size hsize, hstep, standing_of_some (entry?_folders_cons hfree)]
      have hwalk := walk_of_within (within_folders_cons hfree) hfolder
      exact isFolder_of_find (find_eq_ok_iff.2
        ⟨p, folder, hp, hwalk, .inr ⟨name, hname, hlooked, fun _ => rfl⟩⟩)

theorem makeFolder_of_isFolder (h : t.isFolder path = true) :
    ∃ fault, t.makeFolder path = .error fault := by
  obtain ⟨p, folder, hp, hfolder, hlast⟩ := find_eq_ok_iff.1 (find_of_isFolder h)
  rw [makeFolder, bind_of_ok hp, bind_of_ok hfolder]
  rcases hlast with ⟨hname, -⟩ | ⟨name, hname, hlook, -⟩
  · simp only [hname]
    exact ⟨_, rfl⟩
  · simp only [hname, hlook]
    exact ⟨_, rfl⟩

theorem exists_walk_of_isFolder (h : t.isFolder path = true) :
    ∃ l, t.walk (Path.startOf path) (Path.partsOf path) = .ok l := by
  obtain ⟨p, folder, hp, hfolder, hlast⟩ := find_eq_ok_iff.1 (find_of_isFolder h)
  obtain ⟨hstart, hparts, -⟩ := Path.ofText_parts hp
  rw [← hstart, hparts]
  rcases hlast with ⟨hname, -⟩ | ⟨name, hname, hlook, -⟩
  · rw [hname]
    exact ⟨folder, hfolder⟩
  · rw [hname]
    refine ⟨folder.step name, ?_⟩
    change t.walk _ (name :: p.way) = _
    rw [walk, bind_of_ok hfolder, bind_of_ok hlook]
    rfl

end Changing

section Acting

variable {α β : Type} {x : StateM FileTree α} {f : α → StateM FileTree β}

theorem exists_of_run_bind {b : β} (h : (x >>= f).run t = (b, t')) :
    ∃ a middle, x.run t = (a, middle) ∧ (f a).run middle = (b, t') :=
  ⟨_, _, rfl, h⟩

theorem run_bind_of {a : α} (hx : x.run t = (a, t')) : (x >>= f).run t = (f a).run t' := by
  change (f (x.run t).1).run (x.run t).2 = _
  rw [hx]

theorem run_update (change : FileTree → Except FileFault FileTree) :
    (update change).run t =
      match change t with
      | .ok new => (.ok (), new)
      | .error fault => (.error fault, t) := by
  have hget : (get : StateM FileTree FileTree).run t = (t, t) := rfl
  rw [update, run_bind_of hget]
  cases change t <;> rfl

theorem run_ensureFolder :
    (Disk.ensureFolder path : StateM FileTree _).run t =
      match t.makeFolder path with
      | .ok made => (.ok (), made)
      | .error fault => if t.isFolder path then (.ok (), t) else (.error fault, t) := by
  have hmake : (Disk.makeFolder path : StateM FileTree _).run t = _ := run_update _
  have hthere : (Disk.isFolder path : StateM FileTree _).run t = (t.isFolder path, t) := rfl
  cases hmade : t.makeFolder path with
  | ok made =>
    rw [hmade] at hmake
    rw [Disk.ensureFolder, run_bind_of hmake]
    rfl
  | error fault =>
    rw [hmade] at hmake
    simp only [Disk.ensureFolder, run_bind_of hmake, run_bind_of hthere]
    split <;> rfl

theorem isFolder_of_ensureFolder
    (h : (Disk.ensureFolder path : StateM FileTree _).run t = (.ok (), t')) :
    t'.isFolder path = true := by
  rw [run_ensureFolder] at h
  split at h
  · rename_i hmade
    cases h
    exact isFolder_of_makeFolder hmade
  · split at h
    · rename_i hfolder
      cases h
      exact hfolder
    · cases h

theorem ensureFolder_of_isFolder (h : t.isFolder path = true) :
    (Disk.ensureFolder path : StateM FileTree _).run t = (.ok (), t) := by
  obtain ⟨fault, hfault⟩ := makeFolder_of_isFolder h
  rw [run_ensureFolder, hfault]
  simp only [h, if_true]

theorem isFolder_of_makeFolders
    (h : (Disk.makeFolders path : StateM FileTree _).run t = (.ok (), t')) :
    path = "" ∨ t'.isFolder path = true := by
  unfold Disk.makeFolders at h
  split at h
  · rename_i hempty
    exact .inl (by simpa using hempty)
  · right
    obtain ⟨first, middle, hfirst, hrest⟩ := exists_of_run_bind h
    split at hrest
    · obtain ⟨outer, inner, -, hlast⟩ := exists_of_run_bind hrest
      split at hlast
      · exact isFolder_of_ensureFolder hlast
      · cases hlast
    · cases hrest
      exact isFolder_of_ensureFolder hfirst

theorem makeFolders_of_isFolder (h : path = "" ∨ t.isFolder path = true) :
    (Disk.makeFolders path : StateM FileTree _).run t = (.ok (), t) := by
  rcases h with rfl | h
  · rfl
  · unfold Disk.makeFolders
    split
    · rfl
    · rw [Disk.ensureFolders, run_bind_of (ensureFolder_of_isFolder h)]
      rfl

structure Opens (t : FileTree) (folder : String) (l : Location) : Prop where
  there : folder = "" ∨ t.isFolder folder = true
  place : t.walk (Path.startOf folder) (Path.partsOf folder) = .ok l

theorem exists_opens
    (h : (Disk.makeFolders folder : StateM FileTree _).run t = (.ok (), t')) :
    ∃ l, t'.Opens folder l := by
  rcases isFolder_of_makeFolders h with rfl | hfolder
  · exact ⟨.working, .inl rfl, rfl⟩
  · obtain ⟨l, hl⟩ := exists_walk_of_isFolder hfolder
    exact ⟨l, .inr hfolder, hl⟩

namespace Opens

theorem makeFolders (h : t.Opens folder l) :
    (Disk.makeFolders folder : StateM FileTree _).run t = (.ok (), t) :=
  makeFolders_of_isFolder h.there

theorem mono (h : t.Opens folder l) (hwithin : t.Within t') : t'.Opens folder l where
  there := h.there.imp_right (isFolder_of_within hwithin)
  place := walk_of_within hwithin h.place

variable (h : t.Opens folder l) (hname : Path.IsName name)
  (hadmits : Path.Admits folder name.utf8ByteSize)
include h hname hadmits

theorem find_join : t.find (Path.join folder name) = t.look l name := by
  rw [find, bind_of_ok (Path.ofText_join_of_admits hname hadmits), bind_of_ok h.place]
  cases hlook : t.look l name with
  | error fault =>
    simp only [hlook]
    rfl
  | ok entry =>
    simp only [hlook]
    cases entry <;> rfl

theorem write_join {bytes : ByteArray} (hsize : name.utf8ByteSize ≤ Path.nameLimit)
    (hfree : t.entry? (l.child name) = none) :
    t.write (Path.join folder name) bytes = .ok (t.insert (l.child name) bytes) := by
  rw [write, bind_of_ok (Path.ofText_join_of_admits hname hadmits), bind_of_ok h.place]
  simp only [look_of_size hsize, Location.step_name hname, standing_of_none hfree]
  rfl

end Opens

end Acting

end FileTree

end ComputeKernel
