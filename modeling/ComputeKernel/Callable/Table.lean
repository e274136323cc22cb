import ComputeKernel.Callable.Prototype
import ComputeKernel.Table

namespace ComputeKernel

abbrev CallTable := NameTable Prototype

namespace CallTable

def register (t : CallTable) (p : Prototype) : CallTable :=
  NameTable.insert t p.name p

def standard : CallTable :=
  Builtin.catalog.foldl (fun t b => register t (.ofBuiltin b)) NameTable.empty

def builtin (t : CallTable) (b : Builtin) : Prototype × CallTable :=
  match NameTable.find? t b.name with
  | some p =>
    if p.isBuiltin b then (p, t) else (.ofBuiltin b, register t (.ofBuiltin b))
  | none => (.ofBuiltin b, register t (.ofBuiltin b))

theorem find?_register (t : CallTable) (p : Prototype) (name : String) :
    (t.register p).find? name = if name = p.name then some p else t.find? name :=
  NameTable.find?_insert t p.name name p

theorem find?_standard {name : String} {p : Prototype} (h : standard.find? name = some p) :
    name = p.name ∧ ∃ b, p = .ofBuiltin b := by
  have hall (bs : List Builtin) (t : CallTable)
      (ht : t.find? name = some p → name = p.name ∧ ∃ b, p = .ofBuiltin b) :
      (bs.foldl (fun t b => register t (.ofBuiltin b)) t).find? name = some p →
        name = p.name ∧ ∃ b, p = .ofBuiltin b := by
    induction bs generalizing t with
    | nil => exact ht
    | cons b bs ih =>
      refine ih _ fun hp => ?_
      rw [find?_register] at hp
      split at hp
      · rename_i hname
        cases hp
        exact ⟨hname, b, rfl⟩
      · exact ht hp
  exact hall _ _ (fun hp => by cases hp) h

end CallTable

end ComputeKernel
