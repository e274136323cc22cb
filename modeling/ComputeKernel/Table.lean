namespace ComputeKernel

theorem lookup_cons_eq_ite {κ α : Type} [BEq κ] [LawfulBEq κ] [DecidableEq κ]
    (key k : κ) (a : α) (rest : List (κ × α)) :
    ((k, a) :: rest).lookup key = if key = k then some a else rest.lookup key := by
  by_cases h : key = k
  · subst h
    simp only [List.lookup_cons_self, if_true]
  · show (match key == k with | true => some a | false => rest.lookup key) = _
    rw [beq_eq_false_iff_ne.mpr h, if_neg h]

structure IdTable (α : Type) where
  entries : List (Nat × α) := []

namespace IdTable

variable {α : Type}

def empty : IdTable α := {}

def find? (t : IdTable α) (id : Nat) : Option α :=
  t.entries.lookup id

def insert (t : IdTable α) (id : Nat) (a : α) : IdTable α :=
  ⟨(id, a) :: t.entries⟩

@[simp]
theorem find?_insert (t : IdTable α) (id key : Nat) (a : α) :
    (t.insert id a).find? key = if key = id then some a else t.find? key :=
  lookup_cons_eq_ite key id a t.entries

@[simp]
theorem find?_empty (key : Nat) : (empty : IdTable α).find? key = none := rfl

end IdTable

structure NameTable (α : Type) where
  entries : List (String × α) := []

namespace NameTable

variable {α : Type}

def empty : NameTable α := {}

def find? (t : NameTable α) (name : String) : Option α :=
  t.entries.lookup name

def insertEntry (name : String) (a : α) : List (String × α) → List (String × α)
  | [] => [(name, a)]
  | (n, b) :: rest =>
    if name < n then (name, a) :: (n, b) :: rest
    else if name = n then (name, a) :: rest
    else (n, b) :: insertEntry name a rest

def insert (t : NameTable α) (name : String) (a : α) : NameTable α :=
  ⟨insertEntry name a t.entries⟩

def names (t : NameTable α) : List String := t.entries.map Prod.fst

def values (t : NameTable α) : List α := t.entries.map Prod.snd

def size (t : NameTable α) : Nat := t.entries.length

def isEmpty (t : NameTable α) : Bool := t.entries.isEmpty

theorem mem_insertEntry {name : String} {a : α} {entries : List (String × α)} {entry : String × α}
    (h : entry ∈ insertEntry name a entries) : entry = (name, a) ∨ entry ∈ entries := by
  induction entries with
  | nil => exact .inl (List.mem_singleton.mp h)
  | cons head rest ih =>
    simp only [insertEntry] at h
    split at h
    · exact List.mem_cons.mp h
    · split at h
      · exact (List.mem_cons.mp h).imp_right (List.mem_cons_of_mem _)
      · rcases List.mem_cons.mp h with h | h
        · exact .inr (by simp [h])
        · exact (ih h).imp_right (List.mem_cons_of_mem _)

theorem lookup_insertEntry (name key : String) (a : α) (entries : List (String × α)) :
    (insertEntry name a entries).lookup key =
      if key = name then some a else entries.lookup key := by
  induction entries with
  | nil => simp [insertEntry, lookup_cons_eq_ite]
  | cons head rest ih =>
    obtain ⟨n, b⟩ := head
    simp only [insertEntry]
    split
    · simp only [lookup_cons_eq_ite]
    · split
      · rename_i _ same
        subst same
        simp only [lookup_cons_eq_ite]
        split <;> rfl
      · rename_i _ differ
        simp only [lookup_cons_eq_ite, ih]
        by_cases h : key = n
        · subst h
          simp [Ne.symm differ]
        · simp [h]

@[simp]
theorem find?_insert (t : NameTable α) (name key : String) (a : α) :
    (t.insert name a).find? key = if key = name then some a else t.find? key :=
  lookup_insertEntry name key a t.entries

@[simp]
theorem find?_empty (key : String) : (empty : NameTable α).find? key = none := rfl

end NameTable

end ComputeKernel
