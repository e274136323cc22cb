import Mathlib.Data.List.Basic
import ComputeKernel.Code.Line

namespace ComputeKernel

def Extent.suffix (e : Extent) : String := "[" ++ e.text ++ "]"

namespace Ty

def base : Ty → Ty
  | .array elem _ => elem.base
  | ty => ty

def extents : Ty → List Extent
  | .array elem extent => elem.extents ++ [extent]
  | _ => []

theorem name_eq_base (ty : Ty) :
    ty.name = ty.base.name ++ String.join (ty.extents.map Extent.suffix) := by
  fun_induction base ty with
  | case1 elem extent ih => simp [name, extents, ih, Extent.suffix, String.append_assoc]
  | case2 ty h =>
    have : ty.extents = [] := by
      unfold extents
      split
      · exact (h _ _ rfl).elim
      · rfl
    simp [this]

theorem declare_eq_base (ty : Ty) (ident : String) :
    ty.declare ident = ty.base.name ++ String.join (ty.extents.dropLast.map Extent.suffix) ++
      " " ++ ident ++ String.join (ty.extents.getLast?.toList.map Extent.suffix) := by
  cases ty with
  | array elem extent =>
    simp [declare, base, extents, elem.name_eq_base, Extent.suffix, String.append_assoc]
  | _ => simp [declare, base, extents]

end Ty

def DeclaredBefore (extents : List Extent) (ident text : String) : Prop :=
  ∃ base rest, ∃ after : List Extent, after.Perm extents ∧ '[' ∉ base.toList ∧
    text = base ++ " " ++ ident ++ String.join (after.map Extent.suffix) ++ rest

structure IsWord (s : String) : Prop where
  noBracket : '[' ∉ s.toList
  noSpace : ' ' ∉ s.toList

theorem suffixes_eq_cons {extents : List Extent} (h : extents ≠ []) :
    ∃ rest, (String.join (extents.map Extent.suffix)).toList = '[' :: rest := by
  cases extents with
  | nil => exact (h rfl).elim
  | cons e es => exact ⟨_, by simp [Extent.suffix]; rfl⟩

theorem declaredBefore_iff {base ident : String} (hbase : IsWord base)
    (hident : '[' ∉ ident.toList) (before after : List Extent) (rest : String) :
    DeclaredBefore (before ++ after) ident (base ++ String.join (before.map Extent.suffix) ++ " " ++
      ident ++ String.join (after.map Extent.suffix) ++ rest) ↔ before = [] := by
  constructor
  · rintro ⟨lead, rest', after', hperm, hlead, heq⟩
    by_contra hbefore
    have hafter : after' ≠ [] := by
      rintro rfl
      exact hbefore (List.append_eq_nil_iff.mp hperm.symm.eq_nil).1
    obtain ⟨t, ht⟩ := suffixes_eq_cons hbefore
    obtain ⟨u, hu⟩ := suffixes_eq_cons hafter
    have hlists := congrArg String.toList heq
    simp only [String.toList_append, ht, hu, List.append_assoc, List.cons_append] at hlists
    have first (cs rest : List Char) (h : '[' ∉ cs) : (cs ++ '[' :: rest).takeWhile (· != '[') = cs := by
      rw [List.takeWhile_append_of_pos fun c hc => by simpa using ne_of_mem_of_not_mem hc h]
      simp
    have hsame := congrArg (List.takeWhile (· != '[')) (hlists.trans (b := _) (by
      simp only [← List.append_assoc]; rfl))
    rw [first _ _ hbase.noBracket, first _ _ (by simp [hlead, hident])] at hsame
    exact hbase.noSpace (hsame ▸ by simp)
  · rintro rfl
    exact ⟨base, rest, after, .refl _, hbase.noBracket, by simp⟩

namespace Line

def declared? : Line → Option (Ty × String)
  | .declare ty target _ | .reserve ty target => some (ty, target.text)
  | .array elem target length _ => some (.array elem (.fixed length), target.text)
  | _ => none

def isArray : Line → Bool
  | .array .. => true
  | _ => false

theorem text_of_declared {line : Line} {ty : Ty} {ident : String}
    (h : line.declared? = some (ty, ident)) :
    ∃ rest, line.text = (if line.isArray then ty.declare ident else ty.name ++ " " ++ ident) ++ rest := by
  cases line with
  | declare ty target value =>
    obtain ⟨rfl, rfl⟩ := Prod.mk.inj (Option.some.inj h)
    refine ⟨" = " ++ value.text ty ++ ";\n", ?_⟩
    change ty.name ++ " " ++ target.text ++ " = " ++ value.text ty ++ ";\n" =
      ty.name ++ " " ++ target.text ++ (" = " ++ value.text ty ++ ";\n")
    simp only [String.append_assoc]
  | reserve ty target =>
    obtain ⟨rfl, rfl⟩ := Prod.mk.inj (Option.some.inj h)
    exact ⟨";\n", rfl⟩
  | array elem target length init =>
    obtain ⟨rfl, rfl⟩ := Prod.mk.inj (Option.some.inj h)
    exact ⟨if init.isEmpty then ";\n" else " = \x7b\n" ++ String.join (init.map (· ++ ",\n")) ++
      "\x7d;\n", rfl⟩
  | _ => cases h

end Line

namespace Ty

variable {ty : Ty} {ident : String}

theorem declaredBefore_declare (hbase : IsWord ty.base.name) (hident : '[' ∉ ident.toList)
    (rest : String) :
    DeclaredBefore ty.extents ident (ty.declare ident ++ rest) ↔ ty.extents.length ≤ 1 := by
  have hsplit : ty.extents = ty.extents.dropLast ++ ty.extents.getLast?.toList := by
    cases ty <;> simp [extents]
  have h := declaredBefore_iff hbase hident ty.extents.dropLast ty.extents.getLast?.toList rest
  rw [← hsplit] at h
  rw [declare_eq_base, h, ← List.length_eq_zero_iff, List.length_dropLast]
  omega

theorem declaredBefore_name (hbase : IsWord ty.base.name) (hident : '[' ∉ ident.toList)
    (rest : String) :
    DeclaredBefore ty.extents ident (ty.name ++ " " ++ ident ++ rest) ↔ ty.extents = [] := by
  have h := declaredBefore_iff hbase hident ty.extents [] rest
  rw [List.append_nil] at h
  rw [name_eq_base, ← h]
  simp

/-- Fields, shared storage and arrays of the body have their extents after the name up to one
extent; all else has them before the name. -/
theorem extents_follow_name_iff (ty : Ty) (ident : String) (hbase : IsWord ty.base.name)
    (hident : '[' ∉ ident.toList) :
    (DeclaredBefore ty.extents ident (ty.declare ident) ↔ ty.extents.length ≤ 1) ∧
      (∀ line : Line, line.declared? = some (ty, ident) →
        (DeclaredBefore ty.extents ident line.text ↔
          ty.extents = [] ∨ line.isArray = true ∧ ty.extents.length ≤ 1)) ∧
      ∀ mode, ∃ text, Prototype.paramText ⟨ident, ty, mode⟩ =
          (if mode = .input then "in " else "inout ") ++ text ∧
        (DeclaredBefore ty.extents ident text ↔ ty.extents = []) := by
  refine ⟨?_, fun line hline => ?_, fun mode => ⟨ty.name ++ " " ++ ident, ?_, ?_⟩⟩
  · simpa using declaredBefore_declare hbase hident ""
  · obtain ⟨rest, hrest⟩ := Line.text_of_declared hline
    rw [hrest]
    cases line.isArray with
    | true =>
      rw [if_pos rfl, declaredBefore_declare hbase hident]
      simp only [true_and, iff_or_self]
      intro h
      simp [h]
    | false =>
      rw [if_neg Bool.false_ne_true, declaredBefore_name hbase hident]
      simp
  · cases mode <;> simp [Prototype.paramText, String.append_assoc]
  · simpa using declaredBefore_name hbase hident ""

def grid : Ty := .array (.array .f32 (.fixed 3)) (.fixed 2)

theorem grid_extents_follow_name :
    IsWord grid.base.name ∧ '[' ∉ "cells".toList ∧
      (DeclaredBefore grid.extents "cells" (grid.declare "cells") ↔ grid.extents.length ≤ 1) :=
  have hbase : IsWord grid.base.name := ⟨by decide, by decide⟩
  ⟨hbase, by decide, (extents_follow_name_iff grid "cells" hbase (by decide)).1⟩

theorem copied_row_extent_first : let row : Ty := .array .f32 (.fixed 4)
    (Line.declare row (.temp 2) (.copy (.temp 1))).text = "f32[4] tmp_2 = tmp_1;\n" ∧
      ¬DeclaredBefore row.extents "tmp_2" "f32[4] tmp_2 = tmp_1;\n" := by
  intro row
  have hbase : IsWord row.base.name := ⟨by decide, by decide⟩
  have hident : '[' ∉ "tmp_2".toList := by decide
  have hnone := (declaredBefore_name hbase hident " = tmp_1;\n").not.mpr (by decide)
  have htext : row.name ++ " " ++ "tmp_2" ++ " = tmp_1;\n" = "f32[4] tmp_2 = tmp_1;\n" := by
    decide +kernel
  exact ⟨by decide +kernel, htext ▸ hnone⟩

end Ty

end ComputeKernel
