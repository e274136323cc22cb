import ComputeKernel.Build.Snippets
import ComputeKernel.Proofs.Ensures

namespace ComputeKernel

namespace Build

variable {ν α : Type} {w : Workspace ν} {done : α → Workspace ν → Prop}
  {failed : Workspace ν → Prop}

theorem ensures_attempt {x : Emit α} {done : Except Fault α → Workspace ν → Prop}
    (ok : ∀ a sheet, x w.sheet = .ok a sheet → done (.ok a) { w with sheet })
    (error : ∀ fault sheet, x w.sheet = .error fault sheet → done (.error fault) { w with sheet }) :
    Ensures (attempt x) w done failed := by
  simp only [Ensures, attempt]
  cases hx : x w.sheet with
  | ok a sheet => exact ok a sheet hx
  | error fault sheet => exact error fault sheet hx

theorem ensures_must {r : Except Fault α} (ok : ∀ a, r = .ok a → done a w) (fail : failed w) :
    Ensures (must r) w done failed := by
  cases r with
  | ok a => exact ok a rfl
  | error fault => exact fail

theorem ensures_emitting {x : Emit α}
    (h : Ensures x w.sheet (fun a sheet => done a { w with sheet })
      fun sheet => failed { w with sheet }) : Ensures (emitting x) w done failed := by
  refine .bind (ensures_attempt (fun a sheet hx => ?_) fun fault sheet hx => ?_)
  · exact h.of_ok hx
  · exact h.of_error hx

theorem ensures_drafting {x : Drafting α}
    (h : Ensures x w.sheet.draft
      (fun a draft => done a { w with sheet := { w.sheet with draft } })
      fun draft => failed { w with sheet := { w.sheet with draft } }) :
    Ensures (drafting x) w done failed :=
  ensures_emitting (ComputeKernel.ensures_drafting h)

theorem ensures_making {x : Making α}
    (h : Ensures x w.sheet.nodes
      (fun a nodes => done a { w with sheet := { w.sheet with nodes } })
      fun nodes => failed { w with sheet := { w.sheet with nodes } }) :
    Ensures (making x) w done failed :=
  ensures_emitting (ComputeKernel.ensures_making h)

theorem ensures_redraft {f : Draft → Draft} {done : Unit → Workspace ν → Prop}
    (h : done () { w with sheet := { w.sheet with draft := f w.sheet.draft } }) :
    Ensures (redraft f) w done failed := h

theorem ensures_writeLine {line : Line} {done : Unit → Workspace ν → Prop}
    (h : done () { w with sheet := { w.sheet with draft := w.sheet.draft.write line } }) :
    Ensures (writeLine line) w done failed := h

theorem ensures_nameOf {e : Expr} {done : Spelling → Workspace ν → Prop}
    (h : done (w.sheet.nodes.name e) w) : Ensures (nameOf e) w done failed := h

theorem ensures_node {mk : Nat → Expr} {done : Expr → Workspace ν → Prop}
    (h : done (mk w.sheet.nodes.next)
      { w with sheet := { w.sheet with nodes := { w.sheet.nodes with next := w.sheet.nodes.next + 1 } } }) :
    Ensures (node mk) w done failed := h

theorem ensures_freshName {stem : String} {done : String → Workspace ν → Prop}
    (h : done (stem ++ "_" ++ toString w.labels) { w with labels := w.labels + 1 }) :
    Ensures (freshName stem) w done failed := h

theorem ensures_isWave32 {done : Bool → Workspace ν → Prop}
    (h : done w.sheet.draft.wave32 w) : Ensures isWave32 w done failed := h

theorem ensures_setGroupSize {size : GroupSize} {done : Except Fault Unit → Workspace ν → Prop}
    (ok : done (.ok ())
      { w with sheet := { w.sheet with draft := { w.sheet.draft with groupSize := size } } })
    (fault : ∀ fault, done (.error fault) w) (overflow : failed w) :
    Ensures (setGroupSize size) w done failed := by
  refine .bind (.bind (ensures_get (ensures_pure ?_)))
  cases hset : w.sheet.draft.setGroupSize size with
  | ok d =>
    cases Draft.setGroupSize_eq_ok hset
    exact ok
  | error failure =>
    cases failure with
    | fault f => exact fault f
    | overflow _ => exact overflow

end Build

end ComputeKernel
