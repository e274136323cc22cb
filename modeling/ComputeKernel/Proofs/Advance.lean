import ComputeKernel.Proofs.Established

namespace ComputeKernel

def Sheet.blocks (s : Sheet) : Blocks := ({} : Blocks).after s.draft.lines

def Draft.pages (d : Draft) : List (List Line) := d.frames.map Frame.lines ++ [d.body]

def Draft.enclosing (d : Draft) : List Scopes × List (List Line) :=
  (d.frames.map Frame.scopes, d.pages.tail)

def Draft.context (d : Draft) : (List Scopes × List (List Line)) × List Line × List Expr :=
  (d.enclosing, d.functions, d.masks)

theorem Draft.context_write (d : Draft) (line : Line) : (d.write line).context = d.context := by
  unfold Draft.write Draft.context Draft.enclosing Draft.pages
  split <;> simp [*]

structure Sound (dag : Dag) (s : Sheet) : Prop where
  numbered : ∀ e, dag.contains e → e.id < s.nodes.next
  beyond : ∀ id, s.nodes.next ≤ id → s.nodes.names.find? id = none
  own : ∀ e, dag.contains e → e.keepsName = true → s.nodes.OwnName e.id
  typed : dag.Faithful s.nodes.types
  node : ∀ id ∈ s.draft.scopes.visible, ∃ e, dag.contains e ∧ e.id = id
  established : ∀ e, dag.contains e → e.id ∈ s.draft.scopes.visible → e.Established s
  inScope : ∀ e, dag.contains e → e.id ∈ s.draft.scopes.visible →
    InScope s.nodes.types s.blocks (s.nodes.name e)
  masks : ∀ m ∈ s.draft.masks, dag.contains m ∧ m.Established s ∧ (s.nodes.name m).temps = []

structure Advance (names : Line → List Spelling) (dag : Dag) (s : Sheet) (b : Blocks) (dag' : Dag)
    (s' : Sheet) : Prop where
  grows : ∀ e, dag.contains e → dag'.contains e
  sound : Sound dag' s'
  stays : Stays dag s s'
  enclosing : s'.draft.enclosing = s.draft.enclosing
  stack : s'.draft.scopes.stack = s.draft.scopes.stack
  visible : s.draft.scopes.visible ⊆ s'.draft.scopes.visible
  within : b.Within s'.blocks
  text : ∃ lines, s'.draft.lines = s.draft.lines ++ lines ∧
    Scoped names s'.nodes.types s.blocks lines
  functions : ∃ lines, s'.draft.functions = s.draft.functions ++ lines ∧
    ∀ b, Scoped names s'.nodes.types b lines

section Steps

variable {names : Line → List Spelling} {dag dag' dag'' : Dag} {s s' s'' : Sheet} {b c : Blocks}
  {e : Expr}

theorem Sheet.blocks_of_lines {lines : List Line} (h : s'.draft.lines = s.draft.lines ++ lines) :
    s'.blocks = s.blocks.after lines := by
  rw [Sheet.blocks, h, Blocks.after_append]
  rfl

theorem Sheet.blocks_write (s : Sheet) (line : Line) :
    Sheet.blocks { s with draft := s.draft.write line } = s.blocks.step line := by
  rw [blocks, Draft.lines_write, Blocks.after_append]
  rfl

theorem Stays.of_nodes (h : s'.nodes = s.nodes) (ht : s'.draft.types = s.draft.types)
    (hr : s'.draft.resources = s.draft.resources) : Stays dag s s' where
  names _ _ _ := by rw [h]
  own _ _ _ := by rw [h]
  types := h ▸ .refl _
  structs := ht ▸ .refl _
  resources := hr ▸ .refl _

namespace Sound

theorem visible_lt (h : Sound dag s) {id : Nat} (hid : id ∈ s.draft.scopes.visible) :
    id < s.nodes.next := by
  obtain ⟨e, he, rfl⟩ := h.node id hid
  exact h.numbered e he

theorem of_stays (h : Sound dag s) (hst : Stays dag s s') (hnext : s'.nodes.next = s.nodes.next)
    (hbeyond : ∀ id, s.nodes.next ≤ id → s'.nodes.names.find? id = none)
    (hty : dag.Faithful s'.nodes.types)
    (hv : s'.draft.scopes.visible = s.draft.scopes.visible)
    (hm : s'.draft.masks = s.draft.masks) (hb : s.blocks.all ⊆ s'.blocks.all) : Sound dag s' where
  numbered e he := hnext ▸ h.numbered e he
  beyond id hid := hbeyond id (hnext ▸ hid)
  own e he hk := by simpa only [Nodes.OwnName, hst.own e he hk] using h.own e he hk
  typed := hty
  node id hid := h.node id (hv ▸ hid)
  established e he hid := hst.established he (h.established e he (hv ▸ hid))
  inScope e he hid := by
    rw [hst.name he (h.established e he (hv ▸ hid))]
    exact (h.inScope e he (hv ▸ hid)).mono hst.types hb
  masks m hmem := by
    obtain ⟨hc, hest, ht⟩ := h.masks m (hm ▸ hmem)
    exact ⟨hc, hst.established hc hest, by rwa [hst.name hc hest]⟩

theorem rejoin (hs : Sound dag s) (hs' : Sound dag' s')
    (hg : ∀ e, dag.contains e → dag'.contains e) (hst : Stays dag s s')
    (hn : s''.nodes = s'.nodes) (ht : s''.draft.types = s'.draft.types)
    (hr : s''.draft.resources = s'.draft.resources) (hm : s''.draft.masks = s'.draft.masks)
    (hv : s''.draft.scopes.visible = s.draft.scopes.visible)
    (hb : s.blocks.all ⊆ s''.blocks.all) : Sound dag' s'' := by
  have hout : Stays dag' s' s'' := .of_nodes hn ht hr
  have hall : Stays dag s s'' := hst.trans (.of_nodes hn ht hr)
  have old {e : Expr} (he : dag'.contains e) (hid : e.id ∈ s''.draft.scopes.visible) :
      dag.contains e ∧ e.id ∈ s.draft.scopes.visible := by
    rw [hv] at hid
    obtain ⟨d, hd, hdid⟩ := hs.node e.id hid
    exact ⟨dag'.numbered (hg d hd) he hdid ▸ hd, hid⟩
  exact {
    numbered := fun e he => by rw [hn]; exact hs'.numbered e he
    beyond := fun id hid => by rw [hn] at hid ⊢; exact hs'.beyond id hid
    own := fun e he hk => by rw [hn]; exact hs'.own e he hk
    typed := by rw [hn]; exact hs'.typed
    node := fun id hid => by
      obtain ⟨e, he, hid⟩ := hs.node id (hv ▸ hid)
      exact ⟨e, hg e he, hid⟩
    established := fun e he hid => by
      obtain ⟨hc, hv⟩ := old he hid
      exact hall.established hc (hs.established e hc hv)
    inScope := fun e he hid => by
      obtain ⟨hc, hv⟩ := old he hid
      rw [hall.name hc (hs.established e hc hv)]
      exact (hs.inScope e hc hv).mono hall.types hb
    masks := fun m hmem => by
      obtain ⟨hc, hest, htemps⟩ := hs'.masks m (hm ▸ hmem)
      exact ⟨hc, hout.established hc hest, by rwa [hout.name hc hest]⟩ }

end Sound

namespace Advance

theorem refl (h : Sound dag s) : Advance names dag s s.blocks dag s where
  grows := fun _ he => he
  sound := h
  stays := .refl dag s
  enclosing := rfl
  stack := rfl
  visible := fun _ hm => hm
  within := .refl _
  text := ⟨[], (List.append_nil _).symm, trivial⟩
  functions := ⟨[], (List.append_nil _).symm, fun _ => trivial⟩

theorem weaken (h : Advance names dag s c dag' s') (hb : b.Within c) :
    Advance names dag s b dag' s' :=
  { h with within := hb.trans h.within }

theorem stays_trans (h : Advance names dag s b dag' s') (h' : Stays dag' s' s'') :
    Stays dag s s'' where
  names e he hest :=
    (h'.names e (h.grows e he) (h.stays.established he hest)).trans (h.stays.names e he hest)
  own e he hk := (h'.own e (h.grows e he) hk).trans (h.stays.own e he hk)
  types := h.stays.types.trans h'.types
  structs := h.stays.structs.trans h'.structs
  resources := h.stays.resources.trans h'.resources

theorem trans (h : Advance names dag s b dag' s') (h' : Advance names dag' s' c dag'' s'') :
    Advance names dag s c dag'' s'' where
  grows := fun e he => h'.grows e (h.grows e he)
  sound := h'.sound
  stays := h.stays_trans h'.stays
  enclosing := h'.enclosing.trans h.enclosing
  stack := h'.stack.trans h.stack
  visible := fun _ hm => h'.visible (h.visible hm)
  within := h'.within
  text := by
    obtain ⟨lines, hl, hsc⟩ := h.text
    obtain ⟨rest, hl', hsc'⟩ := h'.text
    refine ⟨lines ++ rest, by rw [hl', hl, List.append_assoc], scoped_append.mpr ⟨?_, ?_⟩⟩
    · exact hsc.mono h'.stays.types
    · rwa [← Sheet.blocks_of_lines hl]
  functions := by
    obtain ⟨lines, hl, hsc⟩ := h.functions
    obtain ⟨rest, hl', hsc'⟩ := h'.functions
    refine ⟨lines ++ rest, by rw [hl', hl, List.append_assoc], fun b => scoped_append.mpr ⟨?_, ?_⟩⟩
    · exact (hsc b).mono h'.stays.types
    · exact hsc' _

theorem andThen (h : Advance names dag s b dag' s')
    (h' : Advance names dag' s' s'.blocks dag'' s'') : Advance names dag s b dag'' s'' :=
  (h.trans h').weaken h.within

theorem sparing {names' : Line → List Spelling} (h : Advance names dag s b dag' s')
    (hn : ∀ line, names' line ⊆ names line) : Advance names' dag s b dag' s' :=
  { h with
    text := by
      obtain ⟨lines, hl, hsc⟩ := h.text
      exact ⟨lines, hl, hsc.sparing hn⟩
    functions := by
      obtain ⟨lines, hl, hsc⟩ := h.functions
      exact ⟨lines, hl, fun b => (hsc b).sparing hn⟩ }

theorem of_stays (hs : Sound dag s) (hst : Stays dag s s') (hnext : s'.nodes.next = s.nodes.next)
    (hbeyond : ∀ id, s.nodes.next ≤ id → s'.nodes.names.find? id = none)
    (hty : dag.Faithful s'.nodes.types)
    (hc : s'.draft.context = s.draft.context) (hsc : s'.draft.scopes = s.draft.scopes)
    (hl : s'.draft.lines = s.draft.lines) : Advance names dag s s.blocks dag s' := by
  have hb : s'.blocks = s.blocks := by rw [Sheet.blocks, hl, Sheet.blocks]
  simp only [Draft.context, Prod.mk.injEq] at hc
  obtain ⟨henc, hfun, hm⟩ := hc
  exact {
    grows := fun _ he => he
    sound := hs.of_stays hst hnext hbeyond hty (congrArg Scopes.visible hsc) hm (hb ▸ fun _ hm => hm)
    stays := hst
    enclosing := henc
    stack := congrArg Scopes.stack hsc
    visible := hsc ▸ fun _ hm => hm
    within := hb ▸ .refl _
    text := ⟨[], by rw [hl, List.append_nil], trivial⟩
    functions := ⟨[], by rw [hfun, List.append_nil], fun _ => trivial⟩ }

theorem retype (hs : Sound dag s) {t : IdTable Ty} (ht : s.nodes.types.Extends t)
    (hty : dag.Faithful t) :
    Advance names dag s s.blocks dag { s with nodes := { s.nodes with types := t } } :=
  of_stays hs ⟨fun _ _ _ => rfl, fun _ _ _ => rfl, ht, .refl _, .refl _⟩ rfl hs.beyond hty rfl rfl
    rfl

theorem remode (hs : Sound dag s) (modes : IdTable Divergence) :
    Advance names dag s s.blocks dag { s with nodes := { s.nodes with modes } } :=
  of_stays hs ⟨fun _ _ _ => rfl, fun _ _ _ => rfl, .refl _, .refl _, .refl _⟩ rfl hs.beyond
    hs.typed rfl rfl rfl

theorem redraft (hs : Sound dag s) {d : Draft} (ht : s.draft.types.Extends d.types)
    (hr : s.draft.resources.Extends d.resources) (hc : d.context = s.draft.context)
    (hsc : d.scopes = s.draft.scopes) (hl : d.lines = s.draft.lines) :
    Advance names dag s s.blocks dag { s with draft := d } :=
  of_stays hs ⟨fun _ _ _ => rfl, fun _ _ _ => rfl, .refl _, ht, hr⟩ rfl hs.beyond hs.typed hc hsc hl

theorem rename (hs : Sound dag s) (he : dag.contains e) (hk : e.keepsName = false) {name : Spelling}
    (hname : e.Established s → s.nodes.names.find? e.id = some name) :
    Advance names dag s s.blocks dag { s with nodes := s.nodes.rename e.id name } := by
  refine of_stays hs ⟨fun d hd hest => ?_, fun d hd hdk => ?_, .refl _, .refl _, .refl _⟩ rfl
    (fun id hid => ?_) hs.typed rfl rfl rfl
  · by_cases same : d.id = e.id
    · obtain rfl := dag.numbered hd he same
      simp [Nodes.rename, hname hest]
    · simp [Nodes.rename, same]
  · have hne : d.id ≠ e.id := fun h => by
      rw [dag.numbered hd he h, hk] at hdk
      cases hdk
    simp [Nodes.rename, hne]
  · have hne : id ≠ e.id := fun h => by
      have := hs.numbered e he
      omega
    simpa [Nodes.rename, hne] using hs.beyond id hid

theorem write (h : Advance names dag s c dag' s') (hs : Sound dag s)
    (hv : s'.draft.scopes = s.draft.scopes) (line : Line)
    (hm : ∀ name ∈ names line, InScope s'.nodes.types s'.blocks name)
    (hb : s.blocks.all ⊆ (c.step line).all) :
    Advance names dag s (c.step line) dag' { s' with draft := s'.draft.write line } := by
  have hblocks := Sheet.blocks_write s' line
  have hwithin : (c.step line).Within (s'.blocks.step line) := h.within.step line
  have hctx := Draft.context_write s'.draft line
  simp only [Draft.context, Prod.mk.injEq] at hctx
  obtain ⟨henc, hfun, hmasks⟩ := hctx
  have hscopes := (Draft.scopes_write s'.draft line).trans hv
  exact {
    grows := h.grows
    sound := hs.rejoin h.sound h.grows h.stays rfl (Draft.types_write _ _)
      (Draft.resources_write _ _) hmasks (congrArg Scopes.visible hscopes)
      (hblocks ▸ fun _ hmem => hwithin.all_subset (hb hmem))
    stays := h.stays.trans (.of_nodes rfl (Draft.types_write _ _) (Draft.resources_write _ _))
    enclosing := henc.trans h.enclosing
    stack := congrArg Scopes.stack hscopes
    visible := by
      rw [hscopes]
      exact fun _ hmem => hmem
    within := hblocks ▸ hwithin
    text := by
      obtain ⟨lines, hl, hsc⟩ := h.text
      refine ⟨lines ++ [line], ?_, scoped_append.mpr ⟨hsc, ?_, trivial⟩⟩
      · rw [← List.append_assoc, ← hl]
        exact Draft.lines_write _ _
      · rwa [← Sheet.blocks_of_lines hl]
    functions := by
      obtain ⟨lines, hl, hsc⟩ := h.functions
      exact ⟨lines, hfun.trans hl, hsc⟩ }

theorem statement (hs : Sound dag s) {line : Line}
    (hm : ∀ name ∈ names line, InScope s.nodes.types s.blocks name)
    (hstep : s.blocks.step line = s.blocks.declare line.declared) :
    Advance names dag s s.blocks dag { s with draft := s.draft.write line } := by
  refine ((refl hs).write hs rfl line hm ?_).weaken ?_
  · rw [hstep, Blocks.all_declare]
    exact fun _ hmem => List.mem_append_right _ hmem
  · rw [hstep]
    exact .declared _ _

theorem mark (h : Advance names dag s b dag' s') (he : dag'.contains e) (hest : e.Established s')
    (hin : InScope s'.nodes.types s'.blocks (s'.nodes.name e)) :
    Advance names dag s b dag' { s' with draft := s'.draft.mark e.id } :=
  { h with
    sound := {
      numbered := h.sound.numbered
      beyond := h.sound.beyond
      own := h.sound.own
      typed := h.sound.typed
      node := fun id hid => (Memo.mem_visible_mark.mp hid).elim (fun same => ⟨e, he, same.symm⟩)
        (h.sound.node id)
      established := fun d hd hid => by
        rcases Memo.mem_visible_mark.mp hid with same | hid
        · exact dag'.numbered hd he same ▸ hest
        · exact h.sound.established d hd hid
      inScope := fun d hd hid => by
        rcases Memo.mem_visible_mark.mp hid with same | hid
        · exact dag'.numbered hd he same ▸ hin
        · exact h.sound.inScope d hd hid
      masks := h.sound.masks }
    stays := ⟨h.stays.names, h.stays.own, h.stays.types, h.stays.structs, h.stays.resources⟩
    stack := (Memo.stack_mark e.id).trans h.stack
    visible := fun _ hm => Memo.mem_visible_mark.mpr (.inr (h.visible hm)) }

theorem leave {condition : Option Expr} (hs : Sound dag s)
    (h : Advance names dag { s with draft := s.draft.enterScope condition } b dag' s')
    (hb : s.blocks.Within b) :
    s'.draft.scopes.leave? = some s.draft.scopes ∧
      Advance names dag s b dag' { s' with draft := { s'.draft with scopes := s.draft.scopes } } := by
  have hin : Stays dag s { s with draft := s.draft.enterScope condition } := .of_nodes rfl rfl rfl
  have hout : Stays dag s' { s' with draft := { s'.draft with scopes := s.draft.scopes } } :=
    .of_nodes rfl rfl rfl
  have hst := hin.trans h.stays
  refine ⟨Memo.leave_of_push h.stack, ?_⟩
  · exact {
      grows := h.grows
      sound := hs.rejoin h.sound h.grows hst rfl rfl rfl rfl rfl (hb.trans h.within).all_subset
      stays := hst.trans hout
      enclosing := h.enclosing
      stack := rfl
      visible := fun _ hm => hm
      within := h.within
      text := h.text
      functions := h.functions }

end Advance

theorem Advance.insert (names : Line → List Spelling) (hs : Sound dag s) (e : Expr)
    (hid : e.id = s.nodes.next) (hops : ∀ d ∈ e.operands, dag.contains d) (table : IdTable Spelling)
    (hsame : ∀ id, id ≠ e.id → table.find? id = s.nodes.names.find? id)
    (hown : table.find? e.id = none ∨ ∃ word, table.find? e.id = some (.word word)) :
    ∃ dag', dag'.contains e ∧ Advance names dag s s.blocks dag'
      { s with nodes := { s.nodes with next := s.nodes.next + 1, names := table } } := by
  have hnew (d : Expr) (hd : dag.contains d) : d.id ≠ e.id := by
    have := hs.numbered d hd
    omega
  have hst : Stays dag s
      { s with nodes := { s.nodes with next := s.nodes.next + 1, names := table } } :=
    ⟨fun d hd _ => hsame d.id (hnew d hd), fun d hd _ => hsame d.id (hnew d hd), .refl _, .refl _,
      .refl _⟩
  have old {d : Expr} (hd : dag.contains d ∨ d = e) (hv : d.id ∈ s.draft.scopes.visible) :
      dag.contains d := by
    rcases hd with hd | rfl
    · exact hd
    · have := hs.visible_lt hv
      omega
  refine ⟨dag.insert e hops hnew, .inr rfl, ?_⟩
  exact {
    grows := fun _ hd => .inl hd
    sound := {
      numbered := fun d hd => by
        rcases hd with hd | rfl
        · have := hs.numbered d hd
          simp only
          omega
        · simp only
          omega
      beyond := fun id hle => by
        simp only at hle
        rw [hsame id (by omega)]
        exact hs.beyond id (by omega)
      own := fun d hd hk => by
        rcases hd with hd | rfl
        · simpa only [Nodes.OwnName, hsame d.id (hnew d hd)] using hs.own d hd hk
        · exact hown
      typed := hs.typed.mono fun _ hd => .inl hd
      node := fun id hv => by
        obtain ⟨d, hd, hdid⟩ := hs.node id hv
        exact ⟨d, .inl hd, hdid⟩
      established := fun d hd hv =>
        hst.established (old hd hv) (hs.established d (old hd hv) hv)
      inScope := fun d hd hv => by
        rw [hst.name (old hd hv) (hs.established d (old hd hv) hv)]
        exact hs.inScope d (old hd hv) hv
      masks := fun m hm => by
        obtain ⟨hc, hest, ht⟩ := hs.masks m hm
        exact ⟨.inl hc, hst.established hc hest, by rwa [hst.name hc hest]⟩ }
    stays := hst
    enclosing := rfl
    stack := rfl
    visible := fun _ hm => hm
    within := .refl _
    text := ⟨[], (List.append_nil _).symm, trivial⟩
    functions := ⟨[], (List.append_nil _).symm, fun _ => trivial⟩ }

theorem Advance.make (names : Line → List Spelling) (hs : Sound dag s) (e : Expr)
    (hid : e.id = s.nodes.next) (hops : ∀ d ∈ e.operands, dag.contains d) :
    ∃ dag', dag'.contains e ∧ Advance names dag s s.blocks dag'
      { s with nodes := { s.nodes with next := s.nodes.next + 1 } } :=
  Advance.insert names hs e hid hops _ (fun _ _ => rfl) (.inl (hs.beyond _ (Nat.le_of_eq hid.symm)))

theorem Sound.enterScope (hs : Sound dag s) (condition : Option Expr) :
    Sound dag { s with draft := s.draft.enterScope condition } :=
  hs.of_stays (.of_nodes rfl rfl rfl) rfl hs.beyond hs.typed rfl rfl fun _ hm => hm

end Steps

end ComputeKernel
