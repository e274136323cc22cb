import ComputeKernel.Proofs.ArgumentTypes
import ComputeKernel.Proofs.RememberedTypes
import ComputeKernel.Proofs.TypedEmission

namespace ComputeKernel

variable {op : Op} {l r ty : Ty} {args : List Ty} {e d : Expr}

theorem exists_bind_iff {ε α β : Type} {x : Except ε α} {f : α → Except ε β} :
    (∃ b, x >>= f = .ok b) ↔ ∃ a, x = .ok a ∧ ∃ b, f a = .ok b := by
  constructor
  · rintro ⟨b, h⟩
    obtain ⟨a, hx, hf⟩ := exists_of_bind h
    exact ⟨a, hx, b, hf⟩
  · rintro ⟨a, hx, hf⟩
    exact exists_bind hx hf

namespace Expr

theorem unaryType_void (op : Op) : (∃ ty, unaryType op .void = .ok ty) ↔ op = .assign := by
  cases op <;> simp [unaryType, Ty.isKind, Ty.hasKind, Ty.kind?, Ty.isValue]

theorem arithmeticType_void (h : l = .void ∨ r = .void) :
    arithmeticType op l r = .error (.operator op (.arithmetic l r)) := by
  rcases h with rfl | rfl <;> simp [arithmeticType, Ty.isValue]

theorem binaryType_void (h : l = .void ∨ r = .void) :
    (∃ ty, binaryType op l r = .ok ty) ↔ op = .assign ∧ l = .void ∧ r = .void := by
  have harith : arithmeticType op l r = _ := arithmeticType_void h
  by_cases hsame : l = r
  · obtain ⟨rfl, rfl⟩ : l = .void ∧ r = .void := by grind
    cases op <;> simp [binaryType, harith, Op.isBitwise, Op.isLogical, Op.isRelational, Ty.hasKind,
      Ty.isKind, Ty.kind?, Ty.isVector]
  · have hvoid : ¬(l = .void ∧ r = .void) := fun h => hsame (h.1.trans h.2.symm)
    cases op <;> simp [binaryType, harith, Op.isBitwise, Op.isLogical, Op.isRelational, hsame, hvoid]

end Expr

namespace Builtin

theorem write_of_void {b : Builtin} (h : b.returnType args = .ok ty) (hvoid : Ty.void ∈ args) :
    b = .write := by
  cases b with
  | write => rfl
  | construct ty =>
    obtain ⟨-, -, hvectors, -⟩ := (construct_eq_ok_iff ..).mp h
    exact absurd (hvectors _ hvoid).1 (by decide)
  | laneIndex | laneBit =>
    rcases args with _ | ⟨a, rest⟩
    · cases hvoid
    · cases h
  | math f =>
    rcases args with _ | ⟨a, _ | ⟨c, rest⟩⟩ <;> try cases h
    obtain rfl : Ty.void = a := by simpa using hvoid
    cases f <;> cases h
  | nonUniform | length | transpose | countBits | isNan | isInf | all | any | convert kind
  | bitcast kind | u32ToF16 | f16ToU32 | splat width | ballot | getTbn | getDimensions =>
    rcases args with _ | ⟨a, _ | ⟨c, rest⟩⟩ <;> try cases h
    obtain rfl : Ty.void = a := by simpa using hvoid
    cases h
  | pow | dot | cross | reflect | min | max | mul | read | rayTest | rayQuery =>
    rcases args with _ | ⟨a, _ | ⟨c, _ | ⟨d, rest⟩⟩⟩ <;> try cases h
    obtain rfl | rfl : Ty.void = a ∨ Ty.void = c := by simpa using hvoid
    all_goals grind [returnType, Ty.isFloatVector, Ty.isVector, Ty.isValue, Ty.isStore,
      Ty.isResourceOf, Ty.resourceKind?, Ty.isIntegerVector, Ty.isScalarLike, Ty.isScalar, Ty.kind?,
      Ty.rayDesc]
  | sample | lerp | clamp =>
    rcases args with _ | ⟨a, _ | ⟨c, _ | ⟨d, _ | ⟨e, rest⟩⟩⟩⟩ <;> try cases h
    obtain rfl | rfl | rfl : Ty.void = a ∨ Ty.void = c ∨ Ty.void = d := by simpa using hvoid
    all_goals grind [returnType, Ty.isFloatVector, Ty.isVectorOf, Ty.isVector, Ty.isValue,
      Ty.isResourceOf, Ty.resourceKind?, Ty.isScalarLike, Ty.isScalar]
  | interpolate =>
    rcases args with _ | ⟨a, _ | ⟨c, _ | ⟨d, _ | ⟨e, _ | ⟨f, rest⟩⟩⟩⟩⟩ <;> try cases h
    obtain rfl | rfl | rfl | rfl : Ty.void = a ∨ Ty.void = c ∨ Ty.void = d ∨ Ty.void = e := by
      simpa using hvoid
    all_goals grind [returnType, Ty.isFloatVector, Ty.isVectorOf, Ty.isVector, Ty.isValue]

def WritesVoid (args : List Ty) : Prop :=
  ∃ res index, args = [res, index, .void] ∧ res.access? = some .readWrite ∧ res.isStore = true ∧
    index.isIntegerVector = true ∧ res.elem? = some .void

theorem write_void_iff (hvoid : Ty.void ∈ args) :
    (∃ ty, write.returnType args = .ok ty) ↔ WritesVoid args := by
  constructor
  · rintro ⟨ty, h⟩
    rcases args with _ | ⟨a, _ | ⟨c, _ | ⟨d, _ | ⟨e, rest⟩⟩⟩⟩ <;> try cases h
    simp only [returnType] at h
    split at h
    · rename_i hguard
      simp only [Bool.and_eq_true, beq_iff_eq] at hguard
      obtain ⟨⟨⟨haccess, hstore⟩, hindex⟩, helem⟩ := hguard
      obtain rfl | rfl | rfl : Ty.void = a ∨ Ty.void = c ∨ Ty.void = d := by simpa using hvoid
      · cases hstore
      · cases hindex
      · exact ⟨a, c, rfl, haccess, hstore, hindex, helem⟩
    · cases h
  · rintro ⟨res, index, rfl, haccess, hstore, hindex, helem⟩
    exact ⟨.void, by simp [returnType, haccess, hstore, hindex, helem]⟩

end Builtin

namespace Prototype

def LetsVoid (p : Prototype) (args : List Ty) : Prop :=
  match p.rule with
  | .fixed _ => List.Forall₂ (fun q ty => q.ty.isWildcard = true ∨ q.ty = ty) p.params args
  | .builtin b => b = .write ∧ Builtin.WritesVoid args
  | .custom rule => ∃ ret, rule.returnType args = .ok ret

theorem checkParams_iff (callee : String) (params : List Param) (args : List Ty) :
    (params.length = args.length ∧ checkParams callee params args = .ok ()) ↔
      List.Forall₂ (fun q ty => q.ty.isWildcard = true ∨ q.ty = ty) params args := by
  induction params generalizing args with
  | nil => cases args <;> simp [checkParams]
  | cons q params ih =>
    cases args with
    | nil => simp
    | cons ty args =>
      rw [List.forall₂_cons, ← ih, checkParams]
      by_cases h : q.ty.isWildcard = true ∨ q.ty = ty
      · simp [h]
      · simp [h]

theorem returnType_void_iff (p : Prototype) (hvoid : Ty.void ∈ args) :
    (∃ ty, p.returnType args = .ok ty) ↔ p.LetsVoid args := by
  unfold returnType LetsVoid
  cases hrule : p.rule with
  | fixed ret =>
    rw [← checkParams_iff p.name]
    by_cases hlength : args.length = p.params.length
    · cases checkParams p.name p.params args <;> simp [hlength]
    · simp [hlength, Ne.symm hlength]
  | builtin b =>
    constructor
    · rintro ⟨ty, h⟩
      obtain rfl := Builtin.write_of_void h hvoid
      exact ⟨rfl, (Builtin.write_void_iff hvoid).mp ⟨ty, h⟩⟩
    · rintro ⟨rfl, h⟩
      exact (Builtin.write_void_iff hvoid).mpr h
  | custom rule => exact Iff.rfl

end Prototype

namespace Expr

def LetsVoid (type : Expr → Except Fault Ty) : Expr → Prop
  | .unary _ op _ => op = .assign
  | .binary _ op l r => op = .assign ∧ type l = .ok .void ∧ type r = .ok .void
  | .select _ cond yes no =>
    type cond = .ok .bool ∧ type yes = .ok .void ∧ type no = .ok .void
  | .call _ callee args =>
    ∃ tys, List.Forall₂ (fun a ty => type a = .ok ty) args tys ∧ callee.LetsVoid tys
  | _ => False

theorem LetsVoid.of_agree {type type' : Expr → Except Fault Ty}
    (h : ∀ d ∈ e.operands, type d = type' d) (he : LetsVoid type e) : LetsVoid type' e := by
  cases e with
  | call id callee args =>
    obtain ⟨tys, htys, hcall⟩ := he
    refine ⟨tys, List.forall₂_iff_get.mpr ⟨htys.length_eq, fun i hi hi' => ?_⟩, hcall⟩
    rw [← h _ (by simp), htys.get hi hi']
  | _ => simp_all [LetsVoid]

theorem plainTypes_iff {es : List Expr} {tys : List Ty} :
    plainTypes es = .ok tys ↔ List.Forall₂ (fun e ty => e.plainType = .ok ty) es tys := by
  refine ⟨plainTypes_eq_ok, fun h => ?_⟩
  induction h with
  | nil => rfl
  | cons hty _ ih =>
    rw [plainTypes, hty, ih]
    rfl

theorem plainType_void_iff (hd : d ∈ e.operands) (hvoid : d.plainType = .ok .void) :
    (∃ ty, e.plainType = .ok ty) ↔ LetsVoid plainType e := by
  cases e with
  | literal | resource | input | array | storage | zeroed => simp at hd
  | unary id op a =>
    obtain rfl : d = a := by simpa using hd
    simp [plainType, exists_bind_iff, hvoid, LetsVoid, unaryType_void]
  | binary id op l r =>
    simp only [plainType, exists_bind_iff, LetsVoid]
    constructor
    · rintro ⟨rt, hr, lt, hl, h⟩
      have hside : lt = .void ∨ rt = .void := by
        obtain rfl | rfl : d = l ∨ d = r := by simpa using hd
        · exact .inl (Except.ok.inj (hl.symm.trans hvoid))
        · exact .inr (Except.ok.inj (hr.symm.trans hvoid))
      obtain ⟨rfl, rfl, rfl⟩ := (binaryType_void hside).mp h
      exact ⟨rfl, hl, hr⟩
    · rintro ⟨rfl, hl, hr⟩
      exact ⟨_, hr, _, hl, _, rfl⟩
  | call id callee args =>
    rw [operands_call] at hd
    simp only [plainType, exists_bind_iff, LetsVoid, plainTypes_iff]
    refine exists_congr fun tys => and_congr_right fun htys => callee.returnType_void_iff ?_
    obtain ⟨i, hi, rfl⟩ := List.getElem_of_mem hd
    have hty := htys.get hi (htys.length_eq ▸ hi)
    rw [List.get_eq_getElem, hvoid, Except.ok.injEq] at hty
    exact hty ▸ List.get_mem ..
  | swizzle id base | field id base | element id base =>
    obtain rfl : d = base := by simpa using hd
    simp [plainType, exists_bind_iff, hvoid, LetsVoid, swizzleType, fieldType, elementType, Ty.kind?,
      Ty.isStruct]
  | elementAt id base index =>
    obtain rfl | rfl : d = base ∨ d = index := by simpa using hd
    · simp [plainType, exists_bind_iff, hvoid, LetsVoid, elementType]
    · simp [plainType, exists_bind_iff, hvoid, LetsVoid, checkIndex, Ty.isVector]
  | select id cond yes no =>
    simp only [plainType, exists_bind_iff, LetsVoid]
    constructor
    · rintro ⟨c, hc, _, hcond, a, ha, b, hb, ty, h⟩
      obtain rfl : c = .bool := by simpa [checkCondition] using hcond
      obtain rfl : a = b := by
        by_contra hne
        simp [branchType, hne] at h
      obtain rfl : a = .void := by
        obtain rfl | rfl | rfl : d = cond ∨ d = yes ∨ d = no := by simpa using hd
        · simp [hvoid] at hc
        · exact Except.ok.inj (ha.symm.trans hvoid)
        · exact Except.ok.inj (hb.symm.trans hvoid)
      exact ⟨hc, ha, hb⟩
    · rintro ⟨hc, ha, hb⟩
      exact ⟨_, hc, _, rfl, _, ha, _, hb, _, rfl⟩

end Expr

namespace Session

def typeOf (s : Session) (e : Expr) : Except Fault Ty := reply (e.inferType s.sheet.nodes.types)

def Knows (s : Session) (e : Expr) : Prop := ∃ binding ∈ s.bound, binding.2.Uses e

variable {dag : Dag} {s : Session}

theorem Placed.contains (hs : s.Placed dag) (he : s.Knows e) : dag.contains e := by
  obtain ⟨binding, hb, hu⟩ := he
  exact dag.uses (hs.bound binding hb) hu

theorem typeOf_eq (hs : s.Typed dag) (he : dag.contains e) : s.typeOf e = e.plainType := by
  have h := e.inferType_answers he _ hs.types
  unfold typeOf
  cases hrun : e.inferType s.sheet.nodes.types with
  | ok ty types | error fault types =>
    rw [hrun] at h
    exact h.1.symm

/-- With an operand of type `void` a node has a type only in a copy, where both sides of an assignment
or selection are `void`, and where a function or a resource declares such an operand. -/
theorem void_operand_let_through_iff (settings : Settings) (first : Nat) (steps : List Step)
    (e d : Expr) :
    let s := steps.foldl after (start settings first)
    s.Knows e → d ∈ e.operands → s.typeOf d = .ok .void →
      ((∃ ty, s.typeOf e = .ok ty) ↔ e.LetsVoid s.typeOf) := by
  intro s he hd hvoid
  obtain ⟨dag, hplaced, htyped⟩ := run_typed settings first steps
  have hdag : dag.contains e := hplaced.contains he
  have htype (c : Expr) (hc : c ∈ e.operands) : s.typeOf c = c.plainType :=
    typeOf_eq htyped (dag.operands hdag hc)
  rw [typeOf_eq htyped hdag, Expr.plainType_void_iff hd (htype d hd ▸ hvoid)]
  exact ⟨.of_agree fun c hc => (htype c hc).symm, .of_agree htype⟩

def traced : Expr := .call 1 (.fixed "trace" .void []) []

def copyingTrace : List Step :=
  [⟨.call (.ok (.fixed "trace" .void [])) [], some "traced"⟩,
    ⟨.unary .assign "traced", some "copy"⟩, ⟨.emit "copy", none⟩]

theorem copiedTrace_let_through :
    ∃ s : Session, s.Knows (.unary 2 .assign traced) ∧ s.typeOf traced = .ok .void ∧
      ∃ ty, s.typeOf (.unary 2 .assign traced) = .ok ty := by
  have hknows : (copyingTrace.foldl after (start .default 1)).Knows (.unary 2 .assign traced) :=
    ⟨("copy", .unary 2 .assign traced), List.mem_cons_self, .self⟩
  exact ⟨_, hknows, rfl,
    (void_operand_let_through_iff .default 1 copyingTrace _ traced hknows (by simp) rfl).mpr rfl⟩

theorem copyingTrace_prints_void :
    (copyingTrace.foldl after (start .default 1)).typeOf (.unary 2 .assign traced) = .ok .void ∧
      (copyingTrace.foldl after (start .default 1)).typeOf traced = .ok .void ∧
      traced ∈ (Expr.unary 2 .assign traced).operands ∧
      (copyingTrace.foldl after (start .default 1)).draft.text =
        "trace();\nvoid tmp_2 = tmp_1;\n" :=
  ⟨rfl, rfl, by simp, by decide +kernel⟩

section Selection

open Making

theorem checkLanes_eq_ok_iff (base : Ty) (lanes : String) (cs : List Char) :
    checkLanes base lanes cs = .ok () ↔ ∀ c ∈ cs, ∃ i, lane? c = some i ∧ i < base.rows := by
  induction cs with
  | nil => simp [checkLanes]
  | cons c cs ih =>
    rw [checkLanes]
    cases hc : lane? c with
    | none => simp [hc]
    | some i => by_cases hi : i < base.rows <;> simp [hc, hi, ih]

theorem size_of_lane {c : Char} {i : Nat} (h : lane? c = some i) : c.utf8Size = 1 := by
  unfold lane? at h
  split at h <;> first | rfl | cases h

-- Lanes are counted in bytes, and each that is accepted is one byte long.
theorem size_of_lanes {lanes : String} (h : ∀ c ∈ lanes.toList, ∃ i, lane? c = some i) :
    lanes.utf8ByteSize = lanes.length := by
  rw [← String.ofList_toList (s := lanes), String.length_ofList]
  generalize lanes.toList = cs at *
  induction cs with
  | nil => rfl
  | cons c cs ih =>
    obtain ⟨i, hi⟩ := h c (by simp)
    rw [String.ofList_cons, String.utf8ByteSize_append, String.utf8ByteSize_singleton,
      size_of_lane hi, ih fun d hd => h d (by simp [hd]), List.length_cons, Nat.add_comm]

def Selects (width : Nat) (lanes : String) : Prop :=
  1 ≤ lanes.length ∧ lanes.length ≤ 4 ∧ ∀ c ∈ lanes.toList, ∃ i, lane? c = some i ∧ i < width

theorem isVector_iff : ty.isVector = true ↔ ∃ kind w, ty = .value kind w 1 := by
  cases ty <;> simp [Ty.isVector]

variable {base : Expr} {lanes : String} {n n' : Nodes}

theorem swizzle_eq_ok_iff :
    Making.swizzle base lanes n = .ok e n' ↔ ∃ kind w types,
      base.inferType n.types = .ok (.value kind w 1) types ∧ Selects w lanes ∧
      e = .swizzle n.next base lanes ∧ n' = { n with types, next := n.next + 1 } := by
  unfold Making.swizzle Making.typing
  simp only [Bind.bind, EStateM.bind]
  cases hrun : base.inferType n.types with
  | error fault types => simp
  | ok ty types =>
    simp only [EStateM.Result.ok.injEq]
    have hsize (h : ∀ c ∈ lanes.toList, ∃ i, lane? c = some i ∧ i < ty.rows) :
        lanes.utf8ByteSize = lanes.length :=
      size_of_lanes fun c hc => (h c hc).imp fun _ h => h.1
    constructor
    · intro h
      split at h
      · cases h
      · rename_i hguard
        cases hcheck : checkLanes ty lanes lanes.toList with
        | error fault =>
          rw [hcheck] at h
          cases h
        | ok u =>
          rw [hcheck] at h
          cases h
          have hlanes := (checkLanes_eq_ok_iff ..).mp hcheck
          simp only [hsize hlanes, Bool.or_eq_true, decide_eq_true_eq, Bool.not_eq_true', not_or,
            Bool.not_eq_false] at hguard
          obtain ⟨⟨hvector, hpos⟩, hfour⟩ := hguard
          obtain ⟨kind, w, rfl⟩ := isVector_iff.mp hvector
          exact ⟨kind, w, types, ⟨rfl, rfl⟩, ⟨by omega, by omega, hlanes⟩, rfl, rfl⟩
    · rintro ⟨kind, w, types, ⟨rfl, rfl⟩, ⟨hpos, hfour, hlanes⟩, rfl, rfl⟩
      have hguard : ¬(lanes.length = 0 ∨ 4 < lanes.length) := by omega
      rw [hsize hlanes, (checkLanes_eq_ok_iff ..).mpr hlanes,
        if_neg (by simpa [Ty.isVector] using hguard)]
      rfl

theorem selection_registered_iff {kind : Kind} {w : Nat} (h : Selects w lanes) :
    (lanes.length ≤ kind.maxRows →
      Ty.vector kind lanes.utf8ByteSize = .ok (.value kind lanes.length 1)) ∧
    (kind.maxRows < lanes.length → kind = .u8 ∧
      Ty.vector kind lanes.utf8ByteSize = .error (.unregistered kind lanes.length 1)) := by
  obtain ⟨hpos, hfour, hlanes⟩ := h
  rw [size_of_lanes fun c hc => (hlanes c hc).imp fun _ h => h.1]
  refine ⟨fun hrows => ?_, fun hrows => ⟨?_, ?_⟩⟩
  · simp [Ty.vector, Ty.ofShape, Ty.registered, hpos, hrows]
  · cases kind with
    | u8 => rfl
    | _ => exact absurd hrows (Nat.not_lt.mpr hfour)
  · simp [Ty.vector, Ty.ofShape, Ty.registered, Nat.not_le.mpr hrows]

/-- One to four lanes can be selected from scalars and vectors, each within the width. The selection has
the type of as many lanes, but several lanes of a byte have no type. -/
theorem selection_accepted_iff (settings : Settings) (first : Nat) (steps : List Step)
    (base : Expr) (lanes : String) :
    let s := steps.foldl after (start settings first)
    s.Knows base →
      ((∃ e n, Making.swizzle base lanes s.sheet.nodes = .ok e n) ↔
        ∃ kind w, s.typeOf base = .ok (.value kind w 1) ∧ Selects w lanes) ∧
      ∀ e n, Making.swizzle base lanes s.sheet.nodes = .ok e n →
        ∃ kind w, s.typeOf base = .ok (.value kind w 1) ∧
          e = .swizzle s.sheet.nodes.next base lanes ∧
          (lanes.length ≤ kind.maxRows →
            reply (e.inferType n.types) = .ok (.value kind lanes.length 1)) ∧
          (kind.maxRows < lanes.length → kind = .u8 ∧
            reply (e.inferType n.types) = .error (.unregistered kind lanes.length 1)) := by
  intro s hknows
  obtain ⟨dag, hplaced, htyped⟩ := run_typed settings first steps
  have hbase : dag.contains base := hplaced.contains hknows
  have htype {ty : Ty} {types : IdTable Ty} (h : base.inferType s.sheet.nodes.types = .ok ty types) :
      s.typeOf base = .ok ty := by
    rw [typeOf, h]
    rfl
  refine ⟨⟨?_, ?_⟩, ?_⟩
  · rintro ⟨e, n, h⟩
    obtain ⟨kind, w, types, hrun, hlanes, -⟩ := swizzle_eq_ok_iff.mp h
    exact ⟨kind, w, htype hrun, hlanes⟩
  · rintro ⟨kind, w, h, hlanes⟩
    cases hrun : base.inferType s.sheet.nodes.types with
    | error fault types =>
      rw [typeOf, hrun] at h
      cases h
    | ok ty types =>
      obtain rfl : ty = .value kind w 1 := Except.ok.inj ((htype hrun).symm.trans h)
      exact ⟨_, _, swizzle_eq_ok_iff.mpr ⟨kind, w, types, hrun, hlanes, rfl, rfl⟩⟩
  · intro e n h
    obtain ⟨kind, w, types, hrun, hlanes, rfl, rfl⟩ := swizzle_eq_ok_iff.mp h
    refine ⟨kind, w, htype hrun, rfl, ?_⟩
    obtain ⟨⟨-, hfaithful⟩, hfound, -⟩ := (Expr.inferType_finds hbase htyped.types).of_ok hrun
    have hnew : types.find? s.sheet.nodes.next = none := by
      rw [Option.eq_none_iff_forall_ne_some]
      intro ty hty
      obtain ⟨d, hd, hid, -⟩ := hfaithful _ _ hty
      exact absurd hid (hplaced.below d hd).ne
    have hreply : reply ((Expr.swizzle s.sheet.nodes.next base lanes).inferType types) =
        Ty.vector kind lanes.utf8ByteSize := by
      rw [Expr.inferType, Typing.remember_unknown hnew, bind_assoc,
        run_bind_ok (Expr.inferType_known hfound), show Expr.swizzleType (.value kind w 1) lanes =
          Ty.vector kind lanes.utf8ByteSize from rfl]
      cases Ty.vector kind lanes.utf8ByteSize <;> rfl
    rw [hreply]
    exact selection_registered_iff hlanes

def vector : List Step := [⟨.zeroed (.ok (.value .f32 3 1)), some "v"⟩]

theorem vector_selected :
    ∃ (s : Session) (e : Expr) (n : Nodes), s.Knows (.zeroed 1 (.value .f32 3 1)) ∧
      Making.swizzle (.zeroed 1 (.value .f32 3 1)) "zx" s.sheet.nodes = .ok e n ∧
        reply (e.inferType n.types) = .ok (.value .f32 2 1) := by
  have hknows : (vector.foldl after (start .default 1)).Knows (.zeroed 1 (.value .f32 3 1)) :=
    ⟨("v", .zeroed 1 (.value .f32 3 1)), List.mem_cons_self, .self⟩
  obtain ⟨hiff, htype⟩ :=
    selection_accepted_iff .default 1 vector (.zeroed 1 (.value .f32 3 1)) "zx" hknows
  have hlanes : Selects 3 "zx" := by
    refine ⟨by decide, by decide, fun c hc => ?_⟩
    have hc : c = 'z' ∨ c = 'x' := by simpa using hc
    rcases hc with rfl | rfl
    · exact ⟨2, rfl, by decide⟩
    · exact ⟨0, rfl, by decide⟩
  obtain ⟨e, n, hrun⟩ := hiff.mpr ⟨.f32, 3, rfl, hlanes⟩
  obtain ⟨kind, w, hbase, -, hreply, -⟩ := htype e n hrun
  obtain ⟨rfl, rfl⟩ : kind = .f32 ∧ w = 3 := by cases hbase; exact ⟨rfl, rfl⟩
  exact ⟨_, e, n, hknows, hrun, hreply (by decide)⟩

def doubledByte : List Step := [⟨.zeroed (.ok (.scalar .u8)), some "byte"⟩]

theorem doubledByte_untyped :
    ∃ s : Session, s.Knows (.zeroed 1 (.scalar .u8)) ∧ ¬(Ty.registered .u8 2 1 = true) ∧
      ∃ e n, Making.swizzle (.zeroed 1 (.scalar .u8)) "xx" s.sheet.nodes = .ok e n ∧
        reply (e.inferType n.types) = .error (.unregistered .u8 2 1) :=
  ⟨doubledByte.foldl after (start .default 1),
    ⟨("byte", .zeroed 1 (.scalar .u8)), List.mem_cons_self, .self⟩, by decide, _, _, rfl, rfl⟩

end Selection

end Session

end ComputeKernel
