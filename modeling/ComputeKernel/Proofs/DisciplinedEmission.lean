import ComputeKernel.Proofs.Discipline

namespace ComputeKernel

open Vocabulary Discipline

variable {v : Vocabulary} {α : Type} {p : α → Prop}

section Lifts

variable {x : Typing α}

theorem Making.obeys_typing (h : v.typing.Obeys x p) : v.making.Obeys (Making.typing x) p := by
  intro n hn
  have hx := h n.types hn.types
  simp only [Ends, Making.typing] at hx ⊢
  cases hr : x n.types with
  | ok a types =>
    rw [hr] at hx
    exact ⟨⟨hn.names, hx.1⟩, trivial, hx.2.2⟩
  | error fault types =>
    rw [hr] at hx
    exact ⟨hx.1, ⟨hn.names, hx.2.1⟩, trivial⟩

theorem Making.obeys_node {mk : Nat → Expr} (h : ∀ id, (mk id).Within v) :
    v.making.Obeys (Making.node mk) (Expr.Within v) := by
  intro n hn
  exact ⟨⟨hn.names, hn.types⟩, trivial, h n.next⟩

theorem Emit.obeys_making {x : Making α} (h : v.making.Obeys x p) :
    v.emission.Obeys (Emit.making x) p := by
  intro s hs
  have hx := h s.nodes hs.1
  simp only [Ends, Emit.making] at hx ⊢
  cases hr : x s.nodes with
  | ok a nodes =>
    rw [hr] at hx
    exact ⟨⟨hx.1, hs.2⟩, v.emission.refl s, hx.2.2⟩
  | error fault nodes =>
    rw [hr] at hx
    exact ⟨hx.1, ⟨hx.2.1, hs.2⟩, .refl s.draft⟩

theorem Emit.obeys_typing (h : v.typing.Obeys x p) :
    v.emission.Obeys (Emit.typing x) p := obeys_making (Making.obeys_typing h)

theorem Emit.obeys_drafting {x : Drafting α} (h : v.drafting.Obeys x p) :
    v.emission.Obeys (Emit.drafting x) p := by
  intro s hs
  have hx := h s.draft hs.2
  simp only [Ends, Emit.drafting] at hx ⊢
  cases hr : x s.draft with
  | ok a draft =>
    rw [hr] at hx
    exact ⟨⟨hs.1, hx.1⟩, hx.2.1, hx.2.2⟩
  | error fault draft =>
    rw [hr] at hx
    exact ⟨hx.1, ⟨hs.1, hx.2.1⟩, hx.2.2⟩

theorem Emit.obeys_diverging (x : Diverging α) : v.emission.Upholds (Emit.diverging x) := by
  intro s hs
  exact ⟨⟨⟨hs.1.names, hs.1.types⟩, hs.2⟩, v.emission.refl s, trivial⟩

theorem Emit.obeys_nameOf {e : Expr} (he : e.Within v) :
    v.emission.Obeys (Emit.nameOf e) fun name => v.text name.text := by
  intro s hs
  exact ⟨hs, v.emission.refl s, hs.1.name he⟩

theorem Emit.obeys_rename (id : Nat) {name : Spelling} (h : v.text name.text) :
    v.emission.Upholds (Emit.rename id name) := by
  intro s hs
  exact ⟨⟨hs.1.rename id h, hs.2⟩, v.emission.refl s, trivial⟩

theorem Emit.obeys_write {line : Line} (h : line.Within v) (hflat : line.bracing = .flat) :
    v.emission.Upholds (Emit.write line) := by
  intro s hs
  refine ⟨⟨hs.1, hs.2.write h⟩, ⟨⟨s.draft.outside_write line, fun k hk => hk.flat hflat⟩, ?_⟩, trivial⟩
  exact congrArg Scopes.stack (s.draft.scopes_write line)

theorem Emit.obeys_orFault {r : Except Fault α} (h : v.Gives p r) :
    v.emission.Obeys (orFault r) p := Discipline.obeys_orFault (fun _ hf => hf) h

theorem Emit.obeys_inDivergentRegion : v.emission.Upholds Emit.inDivergentRegion :=
  .bind .get fun _ _ => .bind (obeys_diverging _) fun _ _ => .pure trivial

theorem Emit.obeys_noteWrite (target : Expr) : v.emission.Upholds (Emit.noteWrite target) :=
  .bind obeys_inDivergentRegion fun _ _ => .ite
    (fun _ => .bind (obeys_diverging _) fun _ _ => obeys_diverging _) fun _ => .pure trivial

end Lifts

section Inference

variable {P : Ty → Prop}

theorem Typing.obeys_orFault {r : Except Fault α} (h : v.Gives p r) :
    (v.typingOf P).Obeys (orFault r) p := Discipline.obeys_orFault (fun _ hf => hf) h

theorem Typing.obeys_remember (id : Nat) {compute : Typing Ty}
    (h : (v.typingOf P).Obeys compute P) : (v.typingOf P).Obeys (Typing.remember id compute) P := by
  refine .bind .get fun types htypes => ?_
  cases hf : types.find? id with
  | some ty => exact .pure (htypes id ty hf)
  | none =>
    refine .bind h fun ty hty => .bind
      (.modify fun types htypes => ⟨fun key other hk => ?_, trivial⟩) fun _ _ => .pure hty
    rw [IdTable.find?_insert] at hk
    split at hk
    · cases hk
      exact hty
    · exact htypes key other hk

namespace Expr

mutual

theorem inferType_gives [hP : Ty.Hereditary P] (e : Expr) (h : e.Sourced v P) :
    (v.typingOf P).Obeys e.inferType P := by
  obtain ⟨hown, hops⟩ := sourced_iff.mp h
  unfold inferType
  cases e with
  | literal id value =>
    exact Typing.obeys_remember id (Typing.obeys_orFault (Ty.vector_gives _ _))
  | unary id op operand =>
    have ho := inferType_gives operand (hops _ (by simp))
    exact Typing.obeys_remember id (.bind ho fun _ hr =>
      Typing.obeys_orFault (unaryType_gives hr))
  | binary id op lhs rhs =>
    have hl := inferType_gives lhs (hops _ (by simp))
    have hr := inferType_gives rhs (hops _ (by simp))
    exact Typing.obeys_remember id (.bind hr fun _ hr => .bind hl fun _ hl =>
      Typing.obeys_orFault (binaryType_gives hl hr))
  | call id callee args =>
    rw [operands_call] at hops
    exact Typing.obeys_remember id (.bind (inferTypes_gives args hops) fun _ htys =>
      Typing.obeys_orFault (hown _ htys))
  | resource id res =>
    exact Typing.obeys_remember id (.pure (hP.resourceType hown))
  | input id i | array id elem length init | storage id name ty =>
    exact Typing.obeys_remember id (.pure hown)
  | swizzle id base lanes =>
    have hb := inferType_gives base (hops _ (by simp))
    exact Typing.obeys_remember id (.bind hb fun _ _ =>
      Typing.obeys_orFault (swizzleType_gives _ _))
  | field id base name =>
    have hb := inferType_gives base (hops _ (by simp))
    exact Typing.obeys_remember id (.bind hb fun _ hb =>
      Typing.obeys_orFault (fieldType_gives hb _))
  | element id base index =>
    have hb := inferType_gives base (hops _ (by simp))
    exact Typing.obeys_remember id (.bind hb fun _ hb =>
      Typing.obeys_orFault (elementType_gives hb))
  | elementAt id base index =>
    have hb := inferType_gives base (hops _ (by simp))
    have hi := inferType_gives index (hops _ (by simp))
    have hindex (ty : Ty) : v.Gives (fun _ => True) (checkIndex ty) :=
      gives_ite (fun _ => trivial) fun _ => gives_error rfl
    exact Typing.obeys_remember id (.bind hi fun _ _ => .bind (Typing.obeys_orFault (hindex _))
      fun _ _ => .bind hb fun _ hb => Typing.obeys_orFault (elementType_gives hb))
  | zeroed id ty =>
    refine Typing.obeys_remember id (Typing.obeys_orFault ?_)
    exact gives_ite (fun _ => hown) fun _ => gives_error rfl
  | select id cond yes no =>
    have hc := inferType_gives cond (hops _ (by simp))
    have hy := inferType_gives yes (hops _ (by simp))
    have hn := inferType_gives no (hops _ (by simp))
    have hcond (ty : Ty) : v.Gives (fun _ => True) (checkCondition ty) :=
      gives_ite (fun _ => trivial) fun _ => gives_error rfl
    exact Typing.obeys_remember id (.bind hc fun _ _ => .bind (Typing.obeys_orFault (hcond _))
      fun _ _ => .bind hy fun _ hy => .bind hn fun _ _ =>
        Typing.obeys_orFault (gives_ite (fun _ => hy) fun _ => gives_error rfl))

theorem inferTypes_gives [Ty.Hereditary P] (es : List Expr) (h : ∀ e ∈ es, e.Sourced v P) :
    (v.typingOf P).Obeys (inferTypes es) fun tys => ∀ ty ∈ tys, P ty := by
  cases es with
  | nil =>
    rw [inferTypes]
    exact .pure (by simp)
  | cons e rest =>
    rw [inferTypes]
    have he := inferType_gives e (h e (by simp))
    have hrest := inferTypes_gives rest fun d hd => h d (by simp [hd])
    exact .bind he fun _ hty => .bind hrest fun _ htys => .pure (by simpa using ⟨hty, htys⟩)

end

theorem inferType_obeys (e : Expr) (h : e.Within v) :
    v.typing.Obeys e.inferType (Ty.Within v) := inferType_gives e h.sourced

end Expr

end Inference

theorem Draft.Settled.of_tables {d d' : Draft} (ho : d'.outside = d.outside)
    (hl : d'.lines = d.lines) (hs : d'.scopes.stack = d.scopes.stack) : d.Settled d' := by
  refine ⟨⟨ho, fun k hk => hk.of_nesting hl (functions_of_outside ho) ?_⟩, hs⟩
  rw [nesting_of_outside ho hs]

namespace Drafting

mutual

theorem registerType_obeys (ty : Ty) (h : ty.Within v) : v.drafting.Upholds (registerType ty) := by
  match ty with
  | .struct name fields builtin =>
    rw [registerType]
    refine .bind .get fun d _ => ?_
    cases d.types.find? name with
    | some existing => exact .ite (fun _ => .throw (v.admits_of rfl)) fun _ => .pure trivial
    | none =>
      refine .bind (registerFields_obeys fields h.2) fun _ _ => .modify fun d hd => ⟨?_, ?_⟩
      · refine { hd with structs := fun ty hty => ?_ }
        rcases List.mem_append.mp hty with hty | hty
        · exact hd.structs ty hty
        · exact List.mem_singleton.mp hty ▸ h
      · exact .of_tables rfl rfl rfl
  | .array elem _ =>
    rw [registerType]
    exact registerType_obeys elem h
  | .resource _ (some elem) _ _ =>
    rw [registerType]
    exact registerType_obeys elem h
  | .resource _ none _ _ | .void | .numeric _ | .wildcard _ | .value .. =>
    rw [registerType]
    exact .pure trivial

theorem registerFields_obeys (fields : List (String × Ty)) (h : Ty.FieldsWithin v fields) :
    v.drafting.Upholds (registerFields fields) := by
  match fields with
  | [] =>
    rw [registerFields]
    exact .pure trivial
  | (_, ty) :: rest =>
    rw [registerFields]
    exact .bind (registerType_obeys ty h.2.1) fun _ _ => registerFields_obeys rest h.2.2

end

theorem registerResource_obeys {res : Resource} (h : res.Within v) :
    v.drafting.Upholds (registerResource res) := by
  refine .bind .get fun d _ => ?_
  cases d.resources.find? res.name with
  | some existing => exact .ite (fun _ => .throw (v.admits_of rfl)) fun _ => .pure trivial
  | none =>
    refine .bind (registerType_obeys res.ty h.ty) fun _ _ => .modify fun d hd => ⟨?_, ?_⟩
    · refine { hd with resources := fun entry he => ?_ }
      rcases NameTable.mem_insertEntry he with rfl | he
      · exact h
      · exact hd.resources entry he
    · exact .of_tables rfl rfl rfl

theorem addShared_obeys {name : String} {ty : Ty} (hn : v.text name) (h : ty.Within v) :
    v.drafting.Upholds (addShared name ty) := by
  refine .bind .get fun d _ => ?_
  cases d.shared.find? name with
  | some existing => exact .ite (fun _ => .throw (v.admits_of rfl)) fun _ => .pure trivial
  | none =>
    refine .bind (registerType_obeys ty h) fun _ _ => .modify fun d hd => ⟨?_, ?_⟩
    · refine { hd with shared := fun entry he => ?_ }
      rcases NameTable.mem_insertEntry he with rfl | he
      · exact ⟨hn, h⟩
      · exact hd.shared entry he
    · exact .of_tables rfl rfl rfl

end Drafting

section Blocks

structure Draft.Block (d d' : Draft) : Prop where
  outside : d'.outside = d.outside
  stack : d'.scopes.stack = d.scopes.stack
  level : ∀ k, d.Level k → d'.Level (k + 1)

variable {d d' : Draft} {line : Line} {cond target : Expr}

theorem Draft.Settled.open (h : d.Settled d')
    (hline : line.bracing = .opens) : d.Block (d'.write line) where
  outside := (outside_write d' line).trans h.outside
  stack := (congrArg Scopes.stack (scopes_write d' line)).trans h.stack
  level k hk := (h.level k hk).opens hline

theorem Draft.Block.turn (h : d.Block d')
    (hline : line.bracing = .turns) : d.Block (d'.write line) where
  outside := (outside_write d' line).trans h.outside
  stack := (congrArg Scopes.stack (scopes_write d' line)).trans h.stack
  level k hk := (h.level k hk).turns hline

theorem Draft.Block.close (h : d.Block d')
    (hline : line.bracing = .closes) : d.Settled (d'.write line) where
  outside := (outside_write d' line).trans h.outside
  stack := (congrArg Scopes.stack (scopes_write d' line)).trans h.stack
  level k hk := (h.level k hk).closes hline

theorem Draft.Within.rescope (h : d.Within v) (scopes : Scopes) :
    Draft.Within v { d with scopes } := { h with }

theorem Emit.branch_ends {s : Sheet} {value : Expr} {body : Emit Unit} (hd : d.Block s.draft)
    (hs : s.Within v) (ht : target.Within v) (hv : value.Within v)
    (hb : v.emission.Upholds body) : Ends (Emit.branch cond target value body) s
    (fun _ s' => s'.Within v ∧ d.Block s'.draft) fun fault s' => v.Admits fault ∧ s'.Within v ∧
    d.Carried s'.draft := by
  have hbody : v.emission.Upholds (do
      body
      Emit.write (.assign (← Emit.nameOf target) .assign (← Emit.nameOf value))) := by
    refine .bind hb fun _ _ => .bind (obeys_nameOf ht) fun _ ht => .bind (obeys_nameOf hv) fun _ hv =>
      obeys_write (fun part hp => ?_) rfl
    simp only [Line.parts, List.mem_cons, List.not_mem_nil, or_false] at hp
    rcases hp with rfl | rfl
    · exact ht
    · exact hv
  have hstart : Sheet.Within v { s with draft := s.draft.enterScope (some cond) } :=
    ⟨hs.1, hs.2.rescope _⟩
  have heq : Emit.branch cond target value body = (do
      Emit.redraft (·.enterScope (some cond))
      (do
        body
        Emit.write (.assign (← Emit.nameOf target) .assign (← Emit.nameOf value)))
      Emit.drafting .exitScope) := by
    simp only [Emit.branch, bind_assoc]
  rw [heq]
  refine .bind (.bind ((hbody _ hstart).mono (fun _ s1 h1 => ?_) fun fault s1 h1 => ?_))
  · obtain ⟨hgood, hruns, -⟩ := h1
    have hleave : s1.draft.scopes.leave? = some s.draft.scopes := Memo.leave_of_push hruns.stack
    have hexit := exitScope_of_leave hleave
    simp only [Ends, Emit.drafting, hexit]
    refine ⟨⟨hgood.1, hgood.2.rescope _⟩, hruns.outside.trans hd.outside, hd.stack, fun k hk => ?_⟩
    exact (hruns.level k ((hd.level k hk).enterScope _)).leave hleave
  · obtain ⟨hstops, hgood, hfails⟩ := h1
    refine ⟨hstops, hgood, hfails.outside.trans hd.outside, fun k hk => ?_⟩
    exact hfails.level k ((hd.level k hk).enterScope _)

theorem Emit.obeys_branches {yes no : Expr} {name : Spelling}
    (hn : v.text name.text) (ht : target.Within v) (hyes : yes.Within v) (hno : no.Within v)
    {first second : Emit Unit} (hy : v.emission.Upholds first)
    (hn' : v.emission.Upholds second) :
    v.emission.Upholds (do
      Emit.write (.openIf name)
      Emit.branch cond target yes first
      Emit.write .openElse
      Emit.branch cond target no second
      Emit.write .close) := by
  intro s hs
  have hopen : s.draft.Block (s.draft.write (.openIf name)) :=
    Draft.Settled.open (v.drafting.refl s.draft) rfl
  have hs1 : Sheet.Within v { s with draft := s.draft.write (.openIf name) } :=
    ⟨hs.1, hs.2.write (by simpa [Line.Within, Line.parts] using hn)⟩
  refine .bind (.bind ((branch_ends hopen hs1 ht hyes hy).mono (fun _ s2 h2 => ?_)
    fun _ _ h => h))
  have hs3 : Sheet.Within v { s2 with draft := s2.draft.write .openElse } :=
    ⟨h2.1.1, h2.1.2.write (by simp [Line.Within, Line.parts])⟩
  refine .bind (.bind ((branch_ends (h2.2.turn rfl) hs3 ht hno hn').mono (fun _ s4 h4 => ?_)
    fun _ _ h => h))
  exact ⟨⟨h4.1.1, h4.1.2.write (by simp [Line.Within, Line.parts])⟩, h4.2.close rfl, trivial⟩

end Blocks

theorem Emit.obeys_once {e : Expr} {body : Ty → Emit Unit} (he : e.Within v)
    (hb : ∀ ty, ty.Within v → v.emission.Upholds (body ty)) :
    v.emission.Upholds (Emit.once e body) := by
  refine .bind .get fun s _ => .ite (fun _ => .pure trivial) fun _ =>
    .bind (obeys_typing (e.inferType_obeys he)) fun ty hty => .bind (hb ty hty) fun _ _ => ?_
  intro s hs
  exact ⟨⟨hs.1, hs.2.rescope _⟩, .of_tables rfl rfl (Memo.stack_mark _), trivial⟩

theorem Line.within_declare {ty : Ty} {target : Spelling} {value : Initial} (hty : ty.Within v)
    (ht : v.text target.text) (hv : v.text (value.text ty)) :
    (Line.declare ty target value).Within v := by
  intro part hp
  simp only [Line.parts, List.mem_cons, List.not_mem_nil, or_false] at hp
  rcases hp with rfl | rfl | rfl
  · exact hty.name
  · exact ht
  · exact hv

theorem Op.symbol_plain (op : Op) : BraceFree op.symbol := by
  cases op <;> decide

theorem Spelling.within_member {base : Spelling} {name : String} (hb : v.text base.text)
    (hn : v.text name) : v.text (Spelling.member base name).text :=
  v.append _ _ (v.append _ _ hb (v.plain _ (by decide))) hn

theorem Spelling.within_bracketed {base index : String} (hb : v.text base) (hi : v.text index) :
    v.text (base ++ "[" ++ index ++ "]") :=
  v.append _ _ (v.append _ _ (v.append _ _ hb (v.plain _ (by decide))) hi) (v.plain _ (by decide))

namespace Expr

open Emit

mutual

theorem emit_obeys (e : Expr) (h : e.Within v) : v.emission.Upholds e.emit := by
  obtain ⟨hown, hops⟩ := within_iff.mp h
  unfold emit
  cases e with
  | literal id value =>
    exact obeys_once h fun _ _ => .bind (obeys_orFault value.text_gives) fun _ ht =>
      obeys_rename id ht
  | unary id op operand =>
    have ho := hops operand (by simp)
    refine obeys_once h fun ty hty => .bind (emit_obeys operand ho) fun _ _ =>
      .bind (obeys_nameOf ho) fun r hr => .bind (obeys_nameOf h) fun target ht =>
        obeys_write (Line.within_declare hty ht ?_) rfl
    split
    · exact hr
    · exact v.append _ _ (v.plain _ op.symbol_plain) hr
  | binary id op lhs rhs =>
    have hl := hops lhs (by simp)
    have hr := hops rhs (by simp)
    refine obeys_once h fun ty hty => .bind (emit_obeys lhs hl) fun _ _ =>
      .bind (emit_obeys rhs hr) fun _ _ => .bind (obeys_nameOf hr) fun r hr =>
        .bind (obeys_nameOf hl) fun l hl => .ite (fun _ => ?_) fun _ => ?_
    · refine .bind (obeys_write (fun part hp => ?_) rfl) fun _ _ => .bind (obeys_rename id hl)
        fun _ _ => obeys_noteWrite lhs
      simp only [Line.parts, List.mem_cons, List.not_mem_nil, or_false] at hp
      rcases hp with rfl | rfl
      · exact hl
      · exact hr
    · refine .bind (obeys_nameOf h) fun target ht => obeys_write (Line.within_declare hty ht ?_) rfl
      exact v.append _ _ (v.append _ _ hl (v.plain _ op.symbol_plain)) hr
  | call id callee args =>
    rw [operands_call] at hops
    refine obeys_once h fun ty hty => .bind (emitArgs_obeys args hops) fun given hgiven => ?_
    have htexts : ∀ arg ∈ given.map fun (name, ty) => (⟨name.text, ty⟩ : CallArg), arg.Within v := by
      intro arg harg
      obtain ⟨g, hg, rfl⟩ := List.mem_map.mp harg
      exact hgiven g hg
    refine .bind (obeys_orFault (Prototype.Within.callText hown htexts)) fun text htext =>
      .ite (fun _ => ?_) fun _ => ?_
    · exact obeys_write (by simpa [Line.Within, Line.parts] using htext) rfl
    · exact .bind (obeys_nameOf h) fun target ht =>
        obeys_write (Line.within_declare hty ht htext) rfl
  | resource id res =>
    exact obeys_once h fun _ _ => .bind (obeys_drafting (Drafting.registerResource_obeys hown))
      fun _ _ => obeys_rename id (Resource.Within.name hown)
  | input id i =>
    exact obeys_once h fun _ _ => obeys_rename id hown.1
  | array id elem length init =>
    refine obeys_once h fun _ _ => .bind (obeys_drafting (Drafting.registerType_obeys elem hown))
      fun _ _ => .bind (obeys_orFault (gives_mapM fun l _ => l.text_gives)) fun texts htexts =>
        .bind (obeys_nameOf h) fun target ht => obeys_write (fun part hp => ?_) rfl
    simp only [Line.parts, List.mem_cons] at hp
    rcases hp with rfl | rfl | hp
    · exact (show elem.Within v from hown).name
    · exact ht
    · exact htexts part hp
  | swizzle id base lanes | field id base lanes =>
    have hb := hops base (by simp)
    exact obeys_once h fun _ _ => .bind (emit_obeys base hb) fun _ _ => .bind (obeys_nameOf hb)
      fun _ hb => obeys_rename id (Spelling.within_member hb hown)
  | element id base index =>
    have hb := hops base (by simp)
    exact obeys_once h fun _ _ => .bind (emit_obeys base hb) fun _ _ => .bind (obeys_nameOf hb)
      fun _ hb => obeys_rename id (Spelling.within_bracketed hb (v.nat _))
  | elementAt id base index =>
    have hb := hops base (by simp)
    have hi := hops index (by simp)
    exact obeys_once h fun _ _ => .bind (emit_obeys base hb) fun _ _ =>
      .bind (emit_obeys index hi) fun _ _ => .bind (obeys_nameOf hb) fun _ hb =>
        .bind (obeys_nameOf hi) fun _ hi => obeys_rename id (Spelling.within_bracketed hb hi)
  | storage id name ty =>
    exact obeys_once h fun _ _ => obeys_drafting (Drafting.registerType_obeys ty hown.2)
  | zeroed id ty =>
    have hty : ty.Within v := hown
    refine obeys_once h fun _ _ => .bind (obeys_drafting (Drafting.registerType_obeys ty hty))
      fun _ _ => .bind (obeys_nameOf h) fun target ht =>
        obeys_write (Line.within_declare hty ht ?_) rfl
    exact v.append _ _ (v.append _ _ (v.plain _ (by decide)) hty.name) (v.plain _ (by decide))
  | select id cond yes no =>
    have hc := hops cond (by simp)
    have hy := hops yes (by simp)
    have hn := hops no (by simp)
    refine obeys_once h fun ty hty => .bind (emit_obeys cond hc) fun _ _ =>
      .bind (obeys_nameOf h) fun target ht => .bind (obeys_write (fun part hp => ?_) rfl) fun _ _ =>
        .bind (obeys_nameOf hc) fun c hc =>
          obeys_branches hc h hy hn (emit_obeys yes hy) (emit_obeys no hn)
    simp only [Line.parts, List.mem_cons, List.not_mem_nil, or_false] at hp
    rcases hp with rfl | rfl
    · exact hty.name
    · exact ht

theorem emitArgs_obeys (es : List Expr) (h : ∀ e ∈ es, e.Within v) :
    v.emission.Obeys (emitArgs es) fun given => ∀ g ∈ given, v.text g.1.text ∧ g.2.Within v := by
  cases es with
  | nil =>
    rw [emitArgs]
    exact .pure (by simp)
  | cons e rest =>
    rw [emitArgs]
    have he := h e (by simp)
    refine .bind (emit_obeys e he) fun _ _ => .bind (obeys_nameOf he) fun name hname =>
      .bind (obeys_typing (e.inferType_obeys he)) fun ty hty =>
        .bind (emitArgs_obeys rest fun d hd => h d (by simp [hd])) fun given hgiven => .pure ?_
    intro g hg
    rcases List.mem_cons.mp hg with rfl | hg
    · exact ⟨hname, hty⟩
    · exact hgiven g hg

end

end Expr

end ComputeKernel
