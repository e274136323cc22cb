import ComputeKernel.Proofs.PrimaryNames
import ComputeKernel.Proofs.Reemission

namespace ComputeKernel

open Lexeme

def Spelling.Primary (name : Spelling) : Prop := Lexeme.Primary name.text.toList

def Expr.Identified : Expr → Prop
  | .resource _ res => Identifier res.name.toList
  | .input _ i => Identifier i.name.toList
  | .storage _ name _ | .field _ _ name => Identifier name.toList
  | .swizzle _ _ lanes => lanes ≠ "" ∧ ∃ base, Making.checkLanes base lanes lanes.toList = .ok ()
  | _ => True

def Initial.Reads (ty : Ty) (value : Initial) (tree : Tree) : Prop :=
  ∀ t : Tree, t.Parses (value.text ty).toList ↔ t = tree

theorem reads_unary {op : Op} {a : Spelling} (ty : Ty) (hop : op.isLeading = true)
    (ha : a.Primary) : (Initial.unary op a).Reads ty (.unary op (.leaf a.text.toList)) := by
  intro t
  rw [Initial.text, String.toList_append]
  exact t.parses_unary_iff hop ha

theorem reads_binary {a b : Spelling} (ty : Ty) (op : Op) (ha : a.Primary) (hb : b.Primary) :
    (Initial.binary op a b).Reads ty (.binary op (.leaf a.text.toList) (.leaf b.text.toList)) := by
  intro t
  rw [Initial.text, String.toList_append, String.toList_append, List.append_assoc]
  exact t.parses_binary_iff ha hb

theorem leading_of_unaryType {op : Op} {operand ty : Ty} (h : Expr.unaryType op operand = .ok ty)
    (hop : op ≠ .assign) : op.isLeading = true := by
  cases op <;> first | rfl | exact absurd rfl hop | cases h

theorem identifier_of_checkLanes {base : Ty} {lanes : String} (hne : lanes ≠ "")
    (h : Making.checkLanes base lanes lanes.toList = .ok ()) : Identifier lanes.toList := by
  have hletters (cs : List Char) (h : Making.checkLanes base lanes cs = .ok ()) :
      ∀ c ∈ cs, isWordChar c = true ∧ c.isDigit = false := by
    induction cs with
    | nil => exact fun _ h => by cases h
    | cons d cs ih =>
      rw [Making.checkLanes] at h
      cases hd : Making.lane? d with
      | none => simp [hd] at h
      | some lane =>
        rw [hd] at h
        dsimp only at h
        split at h
        · rintro c (_ | ⟨_, hc⟩)
          · unfold Making.lane? at hd
            split at hd <;> first | decide | cases hd
          · exact ih h c hc
        · cases h
  refine ⟨?_, fun c hc => (hletters _ h c hc).1⟩
  cases hcs : lanes.toList with
  | nil => exact absurd (String.toList_eq_nil_iff.mp hcs) hne
  | cons c cs => exact ⟨c, rfl, (hletters _ h c (by simp [hcs])).2⟩

structure Dag.Identified (dag : Dag) (n : Nodes) : Prop where
  nodes : ∀ e, dag.contains e → e.Identified
  renames : ∀ e word, dag.contains e → e.keepsName = true →
    n.names.find? e.id = some (.word word) → Identifier word.toList

section Names

variable {dag : Dag} {s s' : Sheet} {e : Expr} {name : Spelling}

theorem Expr.Identified.defaultName (h : e.Identified) : e.defaultName.Primary := by
  cases e with
  | resource | input | storage => exact .word h
  | _ => exact primary_temp _

theorem Nodes.name_eq {n : Nodes} (h : n.names.find? e.id = some name) : n.name e = name := by
  rw [Nodes.name, h, Option.getD_some]

theorem Sound.fresh {first : Nat} (settings : Settings) (h : ∀ e, dag.contains e → e.id < first) :
    Sound dag ⟨.start first, .start settings⟩ where
  numbered := h
  beyond _ _ := rfl
  own _ _ _ := .inl rfl
  typed _ _ hf := by cases hf
  node _ hid := by cases hid
  established _ _ hid := by cases hid
  inScope _ _ hid := by cases hid
  masks _ hm := by cases hm

theorem Dag.Identified.of_stays (h : dag.Identified s.nodes) (hst : Stays dag s s') :
    dag.Identified s'.nodes :=
  ⟨h.nodes, fun e word he hk hf => h.renames e word he hk (hst.own e he hk ▸ hf)⟩

theorem Sound.primary_own (hs : Sound dag s) (hn : dag.Identified s.nodes) (he : dag.contains e)
    (hk : e.keepsName = true) : (s.nodes.name e).Primary := by
  rcases hs.own e he hk with hf | ⟨word, hf⟩
  · rw [Nodes.name, hf, Option.getD_none]
    exact (hn.nodes e he).defaultName
  · rw [Nodes.name_eq hf]
    exact .word (hn.renames e word he hk hf)

theorem Expr.Established.primary (e : Expr) (hs : Sound dag s) (hn : dag.Identified s.nodes)
    (he : dag.contains e) (h : e.Established s) : (s.nodes.name e).Primary := by
  have hnoted := h.noted
  have self := hn.nodes e he
  cases e with
  | literal id value =>
    obtain ⟨text, htext, hf⟩ := hnoted
    rw [Nodes.name_eq hf]
    exact primary_literal htext
  | resource id res =>
    rw [Nodes.name_eq hnoted.1]
    exact .word self
  | input id i =>
    rw [Noted] at hnoted
    rw [Nodes.name_eq hnoted]
    exact .word self
  | binary id op lhs rhs =>
    by_cases hop : op.isAssign = true
    · rw [Nodes.name_eq (hnoted hop)]
      exact primary lhs hs hn (dag.operands he (by simp)) (h.operand (by simp))
    · exact hs.primary_own hn he (by simp [keepsName, hop])
  | swizzle id base lanes =>
    rw [Noted] at hnoted
    rw [Nodes.name_eq hnoted]
    have hbase := primary base hs hn (dag.operands he (by simp)) (h.operand (by simp))
    simpa [Spelling.Primary, Spelling.text] using
      hbase.member (identifier_of_checkLanes self.1 self.2.choose_spec)
  | field id base name =>
    rw [Noted] at hnoted
    rw [Nodes.name_eq hnoted]
    have hbase := primary base hs hn (dag.operands he (by simp)) (h.operand (by simp))
    simpa [Spelling.Primary, Spelling.text] using hbase.member self
  | element id base index =>
    rw [Noted] at hnoted
    rw [Nodes.name_eq hnoted]
    have hbase := primary base hs hn (dag.operands he (by simp)) (h.operand (by simp))
    simpa [Spelling.Primary, Spelling.text] using hbase.element (digits_toString index.toNat)
  | elementAt id base index =>
    rw [Noted] at hnoted
    rw [Nodes.name_eq hnoted]
    have hbase := primary base hs hn (dag.operands he (by simp)) (h.operand (by simp))
    have hindex := primary index hs hn (dag.operands he (by simp)) (h.operand (by simp))
    simpa [Spelling.Primary, Spelling.text] using hbase.elementAt hindex
  | unary | call | array | storage | zeroed | select => exact hs.primary_own hn he rfl
termination_by structural e

end Names

namespace Expr

section Written

open Emit

variable {id : Nat} {s s' : Sheet}

def tree? (n : Nodes) : Expr → Option Tree
  | .unary _ op a => if op = .assign then none else some (.unary op (.leaf (n.name a).text.toList))
  | .binary _ op l r =>
    if op.isAssign then none
    else some (.binary op (.leaf (n.name l).text.toList) (.leaf (n.name r).text.toList))
  | _ => none

def subscript? (n : Nodes) : Expr → Option (List Char × List Char)
  | .element _ base index => some ((n.name base).text.toList, (toString index.toNat).toList)
  | .elementAt _ base index => some ((n.name base).text.toList, (n.name index).text.toList)
  | _ => none

theorem exists_of_once {e : Expr} {body : Ty → Emit Unit}
    (hv : ¬s.draft.scopes.isVisible e.id = true) (h : once e body s = .ok () s') :
    ∃ ty s1 s2, body ty s1 = .ok () s2 ∧ s' = { s2 with draft := s2.draft.mark e.id } := by
  rw [once_of_hidden hv] at h
  obtain ⟨ty, s1, -, h⟩ := exists_of_bind_ok h
  obtain ⟨_, s2, hbody, hmark⟩ := exists_of_bind_ok h
  exact ⟨ty, s1, s2, hbody, (EStateM.Result.ok.inj hmark).2.symm⟩

theorem unary_written {op : Op} {a : Expr} (hop : op ≠ .assign)
    (hv : ¬s.draft.scopes.isVisible id = true) (h : (Expr.unary id op a).emit s = .ok () s') :
    ∃ (draft : Draft) (ty : Ty), s'.draft = (draft.write (.declare ty
      (s'.nodes.name (.unary id op a)) (.unary op (s'.nodes.name a)))).mark id := by
  simp only [emit, if_neg hop] at h
  obtain ⟨ty, s1, s2, hbody, rfl⟩ := exists_of_once hv h
  obtain ⟨_, s3, -, hwrite⟩ := exists_of_bind_ok hbody
  obtain rfl := (EStateM.Result.ok.inj hwrite).2
  exact ⟨s3.draft, ty, rfl⟩

theorem binary_written {op : Op} {l r : Expr} (hop : ¬op.isAssign = true)
    (hv : ¬s.draft.scopes.isVisible id = true) (h : (Expr.binary id op l r).emit s = .ok () s') :
    ∃ (draft : Draft) (ty : Ty), s'.draft = (draft.write (.declare ty
      (s'.nodes.name (.binary id op l r)) (.binary op (s'.nodes.name l) (s'.nodes.name r)))).mark id := by
  simp only [emit, if_neg hop] at h
  obtain ⟨ty, s1, s2, hbody, rfl⟩ := exists_of_once hv h
  obtain ⟨_, s3, -, hbody⟩ := exists_of_bind_ok hbody
  obtain ⟨_, s4, -, hwrite⟩ := exists_of_bind_ok hbody
  obtain rfl := (EStateM.Result.ok.inj hwrite).2
  exact ⟨s4.draft, ty, rfl⟩

variable {dag : Dag} {e : Expr}

theorem emit_reads (hs : Sound dag s') (he : dag.contains e) (hest : e.Established s')
    (named : ∀ d ∈ e.operands, (s'.nodes.name d).Primary)
    (hv : ¬s.draft.scopes.isVisible e.id = true) (h : e.emit s = .ok () s') {tree : Tree}
    (htree : e.tree? s'.nodes = some tree) :
    ∃ (draft : Draft) (ty : Ty) (value : Initial), value.Reads ty tree ∧
      s'.draft = (draft.write (.declare ty (s'.nodes.name e) value)).mark e.id := by
  cases e with
  | unary id op a =>
    rw [tree?] at htree
    split at htree
    · cases htree
    · obtain rfl := Option.some.inj htree
      obtain ⟨draft, ty, hwritten⟩ := unary_written ‹_› hv h
      obtain ⟨found, hfound⟩ := hest.typed
      obtain ⟨operandTy, -, hresult⟩ := exists_of_bind (hs.typed.plainType he hfound)
      exact ⟨draft, ty, _, reads_unary ty (leading_of_unaryType hresult ‹_›) (named a (by simp)),
        hwritten⟩
  | binary id op l r =>
    rw [tree?] at htree
    split at htree
    · cases htree
    · obtain rfl := Option.some.inj htree
      obtain ⟨draft, ty, hwritten⟩ := binary_written ‹_› hv h
      exact ⟨draft, ty, _, reads_binary ty op (named l (by simp)) (named r (by simp)), hwritten⟩
  | _ => cases htree

theorem subscript_unique (hest : e.Established s) (named : ∀ d ∈ e.operands, (s.nodes.name d).Primary)
    {p q p' q' : List Char} (hsub : e.subscript? s.nodes = some (p, q)) (hp' : Lexeme.Primary p')
    (hq' : Lexeme.Primary q' ∨ Digits q') :
    (s.nodes.name e).text.toList = p' ++ '[' :: (q' ++ [']']) ↔ p' = p ∧ q' = q := by
  have hscan : Lexeme.scan 0 q' = some 0 := hq'.elim (·.scan 0) (·.scan 0)
  have unique {p q : List Char} (hp : Lexeme.Primary p) (hq : Lexeme.scan 0 q = some 0)
      (htext : (s.nodes.name e).text.toList = p ++ '[' :: (q ++ [']'])) :
      (s.nodes.name e).text.toList = p' ++ '[' :: (q' ++ [']']) ↔ p' = p ∧ q' = q := by
    refine ⟨fun h => ?_, fun ⟨hp, hq⟩ => hp ▸ hq ▸ htext⟩
    exact index_unique (hp'.scan 0) hscan (hp.scan 0) hq (h.symm.trans htext)
  have hnoted := hest.noted
  cases e with
  | element id base index =>
    obtain ⟨rfl, rfl⟩ := Prod.mk.inj (Option.some.inj hsub)
    refine unique (named base (by simp)) ((digits_toString index.toNat).scan 0) ?_
    rw [Noted] at hnoted
    rw [Nodes.name_eq hnoted]
    simp [Spelling.text]
  | elementAt id base index =>
    obtain ⟨rfl, rfl⟩ := Prod.mk.inj (Option.some.inj hsub)
    refine unique (named base (by simp)) ((named index (by simp)).scan 0) ?_
    rw [Noted] at hnoted
    rw [Nodes.name_eq hnoted]
    simp [Spelling.text]
  | _ => cases hsub

end Written

/-- Where the names given to inputs, resources, storage and fields are identifiers, every node that is
written goes by a primary expression, so what is printed for an operation on nodes reads back as that
operation on their names and in no other way. -/
theorem emitted_names_primary {dag : Dag} {s s' : Sheet} {e : Expr} (hs : Sound dag s)
    (hn : dag.Identified s.nodes) (he : dag.contains e) (hemit : e.emit s = .ok () s') :
    (Sound dag s' ∧ dag.Identified s'.nodes) ∧
    (∀ d, e.Uses d → (s'.nodes.name d).Primary) ∧
    (¬s.draft.scopes.isVisible e.id = true → ∀ tree, e.tree? s'.nodes = some tree →
      ∃ (draft : Draft) (ty : Ty) (value : Initial), value.Reads ty tree ∧
        s'.draft = (draft.write (.declare ty (s'.nodes.name e) value)).mark e.id) ∧
    ∀ d p q, e.Uses d → d.subscript? s'.nodes = some (p, q) →
      ∀ p' q', Lexeme.Primary p' → Lexeme.Primary q' ∨ Digits q' →
        ((s'.nodes.name d).text.toList = p' ++ '[' :: (q' ++ [']']) ↔ p' = p ∧ q' = q) := by
  have hshown := (emit_shows e he s hs).of_ok hemit
  have hs' := hshown.wrote.sound
  have hn' := hn.of_stays hshown.wrote.stays
  have hest {d : Expr} (hd : e.Uses d) : d.Established s' :=
    fun c hc => hshown.established c (hd.trans hc)
  have named {d : Expr} (hd : e.Uses d) : (s'.nodes.name d).Primary :=
    (hest hd).primary d hs' hn' (dag.uses he hd)
  refine ⟨⟨hs', hn'⟩, fun d hd => named hd, fun hv tree htree => ?_, ?_⟩
  · exact emit_reads hs' he hshown.established (fun d hd => named (.of_operand hd .self)) hv hemit htree
  · intro d p q hd hsub p' q' hp' hq'
    exact subscript_unique (hest hd) (fun c hc => named (hd.trans (.of_operand hc .self))) hsub hp' hq'

section Cells

def cells : Expr := .storage 1 "cells" (.array (.value .i32 1 1) (.fixed 4))

def third : Expr := .elementAt 3 cells (.literal 2 (.u32 [2]))

def minusOne : Expr := .literal 4 (.i32 [-1])

def difference : Expr := .binary 5 .sub third minusOne

def cellDag : Dag :=
  .ofList [cells, .literal 2 (.u32 [2]), third, minusOne, difference]
    (by simp [cells, third, minusOne, difference]) (by decide)

theorem difference_reads_back :
    ∃ s' value ty, difference.emit ⟨.start 6, .start .default⟩ = .ok () s' ∧
      (s'.nodes.name difference).Primary ∧
      Initial.Reads ty value (.binary .sub (.leaf "cells[u32(2)]".toList) (.leaf "i32(-1)".toList)) := by
  have hemit : difference.emit ⟨.start 6, .start .default⟩ = .ok () _ := rfl
  have hbelow : ∀ e, cellDag.contains e → e.id < 6 := by
    simp [cellDag, Dag.ofList, cells, third, minusOne, difference, Expr.id]
  have hcells : Identifier "cells".toList := ⟨⟨'c', rfl, by decide⟩, List.all_eq_true.mp (by decide)⟩
  have hnodes : ∀ e, cellDag.contains e → e.Identified := by
    simpa [cellDag, Dag.ofList, cells, third, minusOne, difference, Identified] using hcells
  obtain ⟨-, hprimary, hroot, -⟩ := emitted_names_primary (.fresh .default hbelow)
    ⟨hnodes, fun _ _ _ _ h => by cases h⟩ (by simp [cellDag, Dag.ofList]) hemit
  obtain ⟨draft, ty, value, hreads, -⟩ := hroot (by decide) _ rfl
  exact ⟨_, value, ty, hemit, hprimary _ .self, hreads⟩

end Cells

end Expr

end ComputeKernel
