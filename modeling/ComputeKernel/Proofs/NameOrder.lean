import Mathlib.Data.List.Basic
import Mathlib.Data.String.Basic
import Mathlib.Tactic.SplitIfs
import ComputeKernel.Table

namespace ComputeKernel

namespace Utf8

def bytes (s : String) : List UInt8 := s.toUTF8.data.toList

theorem bytes_eq (s : String) : bytes s = s.toList.flatMap String.utf8EncodeChar := by
  rw [bytes, String.toUTF8, ← String.utf8Encode_toList, List.utf8Encode]
  simp

def trail (n : Nat) : UInt8 := UInt8.ofNat (n % 64 + 128)

theorem ofNat_lt {a b : Nat} (h : a < b) (hb : b < 256) : UInt8.ofNat a < UInt8.ofNat b := by
  rw [UInt8.lt_iff_toNat_lt, UInt8.toNat_ofNat', UInt8.toNat_ofNat']
  omega

variable {m n : Nat} {x y : UInt8}

theorem lead_lt (h : x < y) (u v : List UInt8) : x :: u < y :: v :=
  List.cons_lt_cons_iff.mpr (.inl h)

theorem same_lt (h : x = y) {u v : List UInt8} (huv : u < v) : x :: u < y :: v :=
  List.cons_lt_cons_iff.mpr (.inr ⟨h, huv⟩)

theorem trail_lt (h : m < n) (hq : m / 64 = n / 64) : trail m < trail n :=
  ofNat_lt (by omega) (by omega)

theorem two_lt (h : m < n) (hlt : m / 64 < n / 64 → x < y) (heq : m / 64 = n / 64 → x = y)
    (u v : List UInt8) : x :: trail m :: u < y :: trail n :: v := by
  by_cases hq : m / 64 = n / 64
  · exact same_lt (heq hq) (lead_lt (trail_lt h hq) u v)
  · exact lead_lt (hlt (by omega)) _ _

theorem three_lt (h : m < n) (hlt : m / 4096 < n / 4096 → x < y)
    (heq : m / 4096 = n / 4096 → x = y) (u v : List UInt8) :
    x :: trail (m / 64) :: trail m :: u < y :: trail (n / 64) :: trail n :: v := by
  by_cases hq : m / 64 = n / 64
  · exact same_lt (heq (by omega)) (same_lt (by rw [hq]) (lead_lt (trail_lt h hq) u v))
  · exact two_lt (by omega) (fun h => hlt (by omega)) (fun h => heq (by omega)) _ _

theorem four_lt (h : m < n) (hlt : m / 262144 < n / 262144 → x < y)
    (heq : m / 262144 = n / 262144 → x = y) (u v : List UInt8) :
    x :: trail (m / 4096) :: trail (m / 64) :: trail m :: u <
      y :: trail (n / 4096) :: trail (n / 64) :: trail n :: v := by
  by_cases hq : m / 4096 = n / 4096
  · exact same_lt (heq (by omega)) (three_lt h (by omega) (fun _ => by rw [hq]) u v)
  · exact two_lt (by omega) (fun h => hlt (by omega)) (fun h => heq (by omega)) _ _

theorem encode_lt {c d : Char} (h : c < d) (u v : List UInt8) :
    String.utf8EncodeChar c ++ u < String.utf8EncodeChar d ++ v := by
  have hn : c.val.toNat < d.val.toNat := h
  have hd : d.val.toNat < 1114112 := by
    rcases d.valid with hv | hv <;> omega
  unfold String.utf8EncodeChar
  generalize c.val.toNat = m at *
  generalize d.val.toNat = n at *
  dsimp only
  split_ifs <;> try omega
  · exact lead_lt (ofNat_lt hn (by omega)) u v
  · exact lead_lt (ofNat_lt (by omega) (by omega)) _ _
  · exact lead_lt (ofNat_lt (by omega) (by omega)) _ _
  · exact lead_lt (ofNat_lt (by omega) (by omega)) _ _
  · exact two_lt hn (fun h => ofNat_lt (by omega) (by omega)) (fun h => by rw [h]) u v
  · exact lead_lt (ofNat_lt (by omega) (by omega)) _ _
  · exact lead_lt (ofNat_lt (by omega) (by omega)) _ _
  · exact three_lt hn (fun h => ofNat_lt (by omega) (by omega)) (fun h => by rw [h]) u v
  · exact lead_lt (ofNat_lt (by omega) (by omega)) _ _
  · exact four_lt hn (fun h => ofNat_lt (by omega) (by omega)) (fun h => by rw [h]) u v

theorem bytes_lt {s t : String} (h : s < t) : bytes s < bytes t := by
  rw [String.lt_iff_toList_lt] at h
  rw [bytes_eq, bytes_eq]
  generalize s.toList = cs at *
  generalize t.toList = ds at *
  induction cs generalizing ds with
  | nil =>
    cases ds with
    | nil => exact absurd h (List.lt_irrefl _)
    | cons d ds =>
      obtain ⟨x, u, hd⟩ : ∃ x u, String.utf8EncodeChar d = x :: u :=
        List.exists_cons_of_ne_nil (by simp)
      rw [List.flatMap_cons, hd]
      exact List.nil_lt_cons _ _
  | cons c cs ih =>
    cases ds with
    | nil => cases h
    | cons d ds =>
      rw [List.flatMap_cons, List.flatMap_cons]
      rcases List.cons_lt_cons_iff.mp h with hfirst | ⟨rfl, hrest⟩
      · exact encode_lt hfirst _ _
      · exact List.append_left_lt (ih ds hrest)

end Utf8

namespace NameTable

variable {α : Type} {t : NameTable α}

def InOrder (t : NameTable α) : Prop := t.names.Pairwise (· < ·)

theorem inOrder_empty : (empty : NameTable α).InOrder := .nil

variable {entries : List (String × α)}

theorem mem_names_insertEntry {name key : String} {a : α}
    (h : key ∈ (insertEntry name a entries).map Prod.fst) :
    key = name ∨ key ∈ entries.map Prod.fst := by
  obtain ⟨entry, hentry, rfl⟩ := List.mem_map.mp h
  rcases mem_insertEntry hentry with rfl | hold
  · exact .inl rfl
  · exact .inr (List.mem_map_of_mem hold)

theorem pairwise_insertEntry (name : String) (a : α) (h : (entries.map Prod.fst).Pairwise (· < ·)) :
    ((insertEntry name a entries).map Prod.fst).Pairwise (· < ·) := by
  induction entries with
  | nil => exact List.pairwise_singleton _ _
  | cons head rest ih =>
    obtain ⟨n, b⟩ := head
    obtain ⟨hhead, hrest⟩ := List.pairwise_cons.mp h
    simp only [insertEntry]
    split
    · rename_i hlt
      refine List.pairwise_cons.mpr ⟨fun key hkey => ?_, h⟩
      rcases List.mem_cons.mp hkey with rfl | hkey
      · exact hlt
      · exact lt_trans hlt (hhead key hkey)
    · rename_i hge
      split
      · rename_i hsame
        subst hsame
        exact h
      · rename_i hdiffer
        refine List.pairwise_cons.mpr ⟨fun key hkey => ?_, ih hrest⟩
        rcases mem_names_insertEntry hkey with rfl | hkey
        · exact lt_of_le_of_ne (not_lt.mp hge) (Ne.symm hdiffer)
        · exact hhead key hkey

theorem InOrder.insert (h : t.InOrder) (name : String) (a : α) : (t.insert name a).InOrder :=
  pairwise_insertEntry name a h

theorem InOrder.bytes (h : t.InOrder) : t.names.Pairwise fun a b => Utf8.bytes a < Utf8.bytes b :=
  List.Pairwise.imp Utf8.bytes_lt h

end NameTable

end ComputeKernel
