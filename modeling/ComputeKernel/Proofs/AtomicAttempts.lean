import ComputeKernel.Proofs.BracketedScripts

namespace ComputeKernel

variable {dag : Dag} {e : Expr} {ν : Type}

section Emission

variable {s : Sheet}

theorem Expr.Established.emit (hest : e.Established s) (he : dag.contains e) (hs : Sound dag s) :
    Ensures e.emit s (fun _ s' => Shown dag e s s') fun _ => False :=
  (e.emit_shows he s hs).mono (fun _ _ h => h) fun _ h => h.new hest

def Sheet.OnlyTyped (s s' : Sheet) : Prop :=
  ∃ types, s.nodes.types.Extends types ∧ s' = { s with nodes := { s.nodes with types } }

theorem once_fails_typed {body : Ty → Emit Unit} (he : dag.contains e) (hs : Sound dag s)
    (hbody : ∀ ty s1, Sound dag s1 → (∀ d ∈ e.operands, d.Established s → d.Established s1) →
      e.plainType = .ok ty → Ensures (body ty) s1 (fun _ _ => True) fun _ => False) :
    Ensures (Emit.once e body) s (fun _ _ => True) s.OnlyTyped := by
  by_cases hv : s.draft.scopes.isVisible e.id = true
  · exact Ensures.of_eq (once_of_visible hv) trivial
  · refine Ensures.of_eq (once_of_hidden hv) (.bind (ensures_typing ?_))
    refine (e.inferType_finds he hs.typed).mono (fun ty types h => ?_) fun types h => ?_
    · obtain ⟨⟨hext, hfaith⟩, -, hplain⟩ := h
      have hstep : Wrote dag s s.blocks { s with nodes := { s.nodes with types } } :=
        .retype hs hext hfaith
      refine .bind ((hbody ty _ hstep.sound (fun d hd hest => ?_) hplain).mono
        (fun _ _ _ => ensures_redraft trivial) fun _ h => h.elim)
      exact hstep.stays.established (dag.operands he hd) hest
    · exact ⟨types, h.1, rfl⟩

theorem Sound.knownTypes (hs : Sound dag s) {es : List Expr} {tys : List Ty}
    (he : ∀ e ∈ es, dag.contains e ∧ e.Established s) (h : Expr.plainTypes es = .ok tys) :
    es.map s.nodes.knownType = tys := by
  have htys := Expr.plainTypes_eq_ok h
  clear h
  induction htys with
  | nil => rfl
  | @cons e ty es tys hty _ ih =>
    obtain ⟨hc, hest⟩ := he e (by simp)
    obtain ⟨found, hfound⟩ := hest.typed
    have hsame := hs.typed.plainType hc hfound
    rw [hty] at hsame
    cases hsame
    rw [List.map_cons, ih fun d hd => he d (by simp [hd])]
    simp only [Nodes.knownType, hfound, Option.getD_some]

theorem emit_part_fails_typed {id : Nat} {base : Expr} {lanes : String}
    (hpart : e = .swizzle id base lanes ∨ e = .field id base lanes) (he : dag.contains e)
    (hs : Sound dag s) (hbase : base.Established s) :
    Ensures e.emit s (fun _ _ => True) s.OnlyTyped := by
  have hmem : base ∈ e.operands := by
    rcases hpart with rfl | rfl <;> simp
  have hc : dag.contains base := dag.operands he hmem
  rcases hpart with rfl | rfl <;> rw [Expr.emit] <;>
    refine once_fails_typed he hs fun ty s1 hs1 hkept _ => Ensures.bind ?_
  all_goals
    refine ((hkept base hmem hbase).emit hc hs1).imp (fun _ s2 _ => ?_)
    exact .bind (ensures_nameOf (ensures_rename trivial))

theorem emit_call_fails_typed {id : Nat} {p : Prototype} {args : List Expr} (hp : p.Prints)
    (he : dag.contains (.call id p args)) (hs : Sound dag s) (hargs : ∀ a ∈ args, a.Established s) :
    Ensures (Expr.call id p args).emit s (fun _ _ => True) s.OnlyTyped := by
  rw [Expr.emit]
  refine once_fails_typed he hs fun ty s1 hs1 hkept hplain => ?_
  have hc : ∀ a ∈ args, dag.contains a := fun a ha => dag.operands he (by rwa [Expr.operands_call])
  have hest : ∀ a ∈ args, a.Established s1 := fun a ha =>
    hkept a (by rwa [Expr.operands_call]) (hargs a ha)
  refine .bind ((Expr.emitArgs_shows args hc s1 hs1).mono ?_ fun _ hnot => hnot hest)
  rintro _ s2 ⟨hwrote, hshown, rfl⟩
  -- The arguments go by the types for which the call was accepted.
  obtain ⟨tys, htys, hret⟩ := exists_of_bind hplain
  have hknown := hwrote.sound.knownTypes (fun a ha => ⟨hc a ha, (hshown a ha).1⟩) htys
  have haccepted : p.returnType ((args.map s2.nodes.argument).map CallArg.ty) = .ok ty := by
    rw [List.map_map]
    exact hknown ▸ hret
  obtain ⟨text, htext⟩ := hp.callText haccepted
  refine .bind (ensures_orFault (fun _ _ => ?_) fun fault hfault => ?_)
  · exact ensures_ite (fun _ => ensures_write trivial) fun _ =>
      .bind (ensures_nameOf (ensures_write trivial))
  · rw [List.map_map] at hfault
    have : p.callText (args.map s2.nodes.argument) = .error fault := hfault
    rw [htext] at this
    cases this

end Emission

inductive Attempt where
  | swizzle (e : Expr) (lanes : String)
  | field (e : Expr) (name : String)
  | call (p : Prototype) (args : List Expr)

namespace Attempt

def perform : Attempt → Build ν (Except Fault Expr)
  | .swizzle e lanes => Build.trySwizzle e lanes
  | .field e name => Build.tryField e name
  | .call p args => Build.tryCall p args

def values : Attempt → List Expr
  | .swizzle e _ | .field e _ => [e]
  | .call _ args => args

def Prints : Attempt → Prop
  | .call p _ => p.Prints
  | _ => True

end Attempt

structure Workspace.Unmoved {ν : Type} (w w' : Workspace ν) : Prop where
  next : w.sheet.nodes.next ≤ w'.sheet.nodes.next
  types : w.sheet.nodes.types.Extends w'.sheet.nodes.types
  rest : { w' with sheet := { w'.sheet with nodes := { w'.sheet.nodes with
    next := w.sheet.nodes.next, types := w.sheet.nodes.types } } } = w

namespace Attempt

variable {w v : Workspace ν}

theorem unmoved_of_typed (h : w.Unmoved v) {s : Sheet} (hs : v.sheet.OnlyTyped s) :
    w.Unmoved { v with sheet := s } := by
  obtain ⟨types, hext, rfl⟩ := hs
  exact ⟨h.next, h.types.trans hext, h.rest⟩

def Harmless (w v : Workspace ν) (x : Build ν (Except Fault Expr)) : Prop :=
  Ensures x v (fun r w' => ∀ fault, r = .error fault → w.Unmoved w') fun _ => False

theorem harmless_tryEmit (hv : w.Unmoved v)
    (h : Ensures e.emit v.sheet (fun _ _ => True) v.sheet.OnlyTyped) :
    Harmless w v (Build.tryEmit e) := by
  -- Once the node is written, it is only asked whether lanes differ here.
  have hvalue : Ensures (Build.emitValue e) v.sheet (fun _ _ => True) v.sheet.OnlyTyped := by
    refine .bind (h.imp fun _ s _ => ?_)
    refine .bind (ensures_inDivergentRegion fun _ _ => ensures_ite (fun _ => ?_) fun _ => ?_)
    · exact ensures_diverging fun _ _ => trivial
    · exact ensures_pure trivial
  refine .bind (Build.ensures_attempt (fun _ s hx => ?_) fun fault s hx => ?_)
  · exact .bind (ensures_modify (ensures_pure nofun))
  · exact ensures_pure fun _ _ => unmoved_of_typed hv (hvalue.of_error hx)

theorem harmless_node {mk : Nat → Expr} (hs : Sound dag v.sheet) (hv : w.Unmoved v)
    (hid : ∀ id, (mk id).id = id)
    (hops : ∀ id, ∀ d ∈ (mk id).operands, dag.contains d ∧ d.Established v.sheet)
    (hemit : ∀ dag' s, dag'.contains (mk v.sheet.nodes.next) → Sound dag' s →
      (∀ d ∈ (mk v.sheet.nodes.next).operands, d.Established s) →
      Ensures (mk v.sheet.nodes.next).emit s (fun _ _ => True) s.OnlyTyped) :
    Harmless w v (do Build.tryEmit (← Build.node mk)) := by
  obtain ⟨dag', hc, hadv⟩ := Advance.make Line.computed hs (mk v.sheet.nodes.next) (hid _)
    fun d hd => (hops _ d hd).1
  refine .bind (Build.ensures_node (harmless_tryEmit ?_ (hemit dag' _ hc hadv.sound ?_)))
  · exact ⟨Nat.le_succ_of_le hv.next, hv.types, hv.rest⟩
  · exact fun d hd => hadv.stays.established (hops _ d hd).1 (hops _ d hd).2

theorem makeSwizzle_ends {s : Sheet} (hc : dag.contains e) (hs : Sound dag s) (lanes : String) :
    Ensures (Emit.making (.swizzle e lanes)) s
      (fun part s' => ∃ types, s.nodes.types.Extends types ∧ dag.Faithful types ∧
        part = .swizzle s.nodes.next e lanes ∧
          s' = { s with nodes := { s.nodes with next := s.nodes.next + 1, types } })
      s.OnlyTyped := by
  refine ComputeKernel.ensures_making (.bind (ensures_makingTyping
    ((e.inferType_finds hc hs.typed).mono (fun ty types h => ?_) fun types h => ⟨types, h.1, rfl⟩)))
  obtain ⟨⟨hext, hfaith⟩, -⟩ := h
  have hfault : s.OnlyTyped { s with nodes := { s.nodes with types } } := ⟨types, hext, rfl⟩
  refine ensures_ite (fun _ => .bind (ensures_throw hfault)) fun _ => ?_
  refine .bind (ensures_orFault (fun _ _ => ensures_newNode ?_) fun _ _ => hfault)
  exact ⟨types, hext, hfaith, rfl, rfl⟩

theorem unmoved_refl (w : Workspace ν) : w.Unmoved w := ⟨Nat.le_refl _, .refl _, rfl⟩

theorem harmless_perform (a : Attempt) (hs : Sound dag w.sheet) (hp : a.Prints)
    (hvalues : ∀ e ∈ a.values, dag.contains e ∧ e.Established w.sheet) :
    Harmless w w a.perform := by
  cases a with
  | swizzle e lanes =>
    obtain ⟨hc, hest⟩ := hvalues e (by simp [values])
    have hmake := makeSwizzle_ends hc hs lanes
    refine .bind (Build.ensures_attempt (fun part s hx => ?_) fun fault s hx => ?_)
    · obtain ⟨types, hext, hfaith, rfl, rfl⟩ := hmake.of_ok hx
      have htyped : Wrote dag w.sheet w.sheet.blocks
          { w.sheet with nodes := { w.sheet.nodes with types } } := .retype hs hext hfaith
      have hbase := htyped.stays.established hc hest
      have hid : ∀ id, (Expr.swizzle id e lanes).id = id := fun _ => rfl
      refine harmless_node htyped.sound
        (unmoved_of_typed (unmoved_refl w) ⟨types, hext, rfl⟩) hid
        (by simpa using ⟨hc, hbase⟩) fun dag' s hnew hs' hops => ?_
      exact emit_part_fails_typed (.inl rfl) hnew hs' (hops e (by simp))
    · exact ensures_pure fun _ _ => unmoved_of_typed (unmoved_refl w) (hmake.of_error hx)
  | field e name =>
    obtain ⟨hc, hest⟩ := hvalues e (by simp [values])
    refine harmless_node hs (unmoved_refl w) (fun _ => rfl)
      (by simpa using ⟨hc, hest⟩) fun dag' s hnew hs' hops => ?_
    exact emit_part_fails_typed (.inr rfl) hnew hs' (hops e (by simp))
  | call p args =>
    refine harmless_node hs (unmoved_refl w) (fun _ => rfl)
      (fun _ d hd => hvalues d (by rwa [Expr.operands_call] at hd)) fun dag' s hnew hs' hops => ?_
    exact emit_call_fails_typed hp hnew hs' fun d hd => hops d (by rwa [Expr.operands_call])

end Attempt

namespace Script

theorem refused_attempt_unmoved {settings : Settings} {first : Nat} {configured : Bool}
    {steps : List Step} {w : Workspace Notebook} (h : Reaches settings first configured steps w)
    (a : Attempt) (hvalues : ∀ e ∈ a.values, e ∈ w.notes.held) (hp : a.Prints) :
    ∃ r w', a.perform w = .ok r w' ∧ ∀ fault, r = .error fault → w.Unmoved w' := by
  obtain ⟨dag, hpoised⟩ := h.poised (fits_any _)
  refine exists_ok_of_ensures _ _ _ (a.harmless_perform hpoised.sound hp fun e he => ?_)
  exact hpoised.held (.known e) (List.mem_map.mpr ⟨e, hvalues e he, rfl⟩)

def sheltering : List Step :=
  [ .act ⟨"lit", some "n"⟩ (.value (.constant (.u32 [3]))),
    .act ⟨"cmp", some "c"⟩ (.value (.binary .lt (.value "n") (.constant (.u32 [5])))),
    .ifThen "if" false "c"
      [.act ⟨"sum", some "s"⟩ (.value (.binary .add (.value "n") (.constant (.u32 [1]))))],
    .define "define" "define_body" (.ok (.fixed "f" .u32 [])) [] [abandoned] (some "n") ]

theorem sheltered_cross_unmoved :
    ∃ w e fault w', Reaches .default 1 false sheltering w ∧ w.sheet.draft.inFunction = true ∧
      e ∈ w.notes.held ∧ e.id ∉ w.sheet.draft.scopes.visible ∧
        (Attempt.call (.ofBuiltin .cross) [e, e]).perform w = .ok (.error fault) w' ∧
          w.Unmoved w' := by
  obtain ⟨_, w, hrun, rfl, hin, e, he, hhidden, hrefused⟩ := Ends.exists_error
    (program .default false sheltering) (.start .default 1 {}) (fun halt w => halt = .unbound "here" ∧
      w.sheet.draft.inFunction = true ∧ ∃ e ∈ w.notes.held, e.id ∉ w.sheet.draft.scopes.visible ∧
        Ensures (Attempt.call (.ofBuiltin .cross) [e, e]).perform w (fun r _ => r.toBool = false)
          fun _ => False) (by decide +kernel)
  have hreach : Reaches .default 1 false sheltering w := .inr ⟨"here", hrun⟩
  obtain ⟨r, w', hperform, hsame⟩ := refused_attempt_unmoved hreach
    (.call (.ofBuiltin .cross) [e, e]) (by simpa [Attempt.values] using he) trivial
  have hr := hrefused.of_ok hperform
  cases r with
  | ok a => cases hr
  | error fault => exact ⟨w, e, fault, w', hreach, hin, he, hhidden, hperform, hsame fault rfl⟩

end Script

end ComputeKernel
