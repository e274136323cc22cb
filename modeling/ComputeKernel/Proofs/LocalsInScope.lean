import ComputeKernel.Proofs.LawfulScripts

namespace ComputeKernel

def Sheet.Covers (names : Line → List Spelling) (s : Sheet) : Prop :=
  Scoped names s.nodes.types {} s.draft.functions ∧ Scoped names s.nodes.types {} s.draft.body

section Computable

variable (names : Line → List Spelling) (types : IdTable Ty)

instance (b : Blocks) (name : Spelling) : Decidable (InScope types b name) := by
  unfold InScope
  infer_instance

instance Scoped.decidable : (b : Blocks) → (lines : List Line) →
    Decidable (Scoped names types b lines)
  | _, [] => .isTrue trivial
  | b, line :: lines =>
    have := Scoped.decidable (b.step line) lines
    inferInstanceAs (Decidable (_ ∧ _))

instance (s : Sheet) : Decidable (s.Covers names) := inferInstanceAs (Decidable (_ ∧ _))

end Computable

theorem Sheet.covers_mentioned (s : Sheet) :
    s.Covers Line.mentioned ↔ s.Covers Line.computed ∧ s.Covers Line.borrowed := by
  simp only [Covers, scoped_mentioned]
  exact and_and_and_comm

def Sheet.start (settings : Settings) (first : Nat) : Sheet := ⟨.start first, .start settings⟩

theorem Sound.start (settings : Settings) (first : Nat) :
    Sound (.ofList [] (by simp) (by simp)) (.start settings first) where
  numbered _ he := by cases he
  beyond _ _ := rfl
  own _ he := by cases he
  typed _ _ hf := by cases hf
  node _ hid := by cases hid
  established _ he := by cases he
  inScope _ he := by cases he
  masks _ hm := by cases hm

theorem Advance.covers {names : Line → List Spelling} {dag dag' : Dag} {settings : Settings}
    {first : Nat} {b : Blocks} {s : Sheet}
    (h : Advance names dag (.start settings first) b dag' s) : s.Covers names := by
  have hframes : s.draft.frames = [] := by
    have henc := congrArg Prod.fst h.enclosing
    exact List.map_eq_nil_iff.mp henc
  obtain ⟨text, htext, hscoped⟩ := h.text
  obtain ⟨functions, hfun, hfscoped⟩ := h.functions
  have hbody : s.draft.body = text := by
    simpa [Draft.lines, hframes, Sheet.start, Draft.start] using htext
  have hfunctions : s.draft.functions = functions := by
    simpa [Sheet.start, Draft.start] using hfun
  exact ⟨hfunctions ▸ hfscoped {}, hbody ▸ hscoped⟩

namespace Script

theorem lawful_program (settings : Settings) (configured : Bool) (steps : List Step) :
    Lawful Notebook.held .growing [] (program settings configured steps) fun _ => [] :=
  .ite (.bind (Build.lawful_configure settings) fun _ => lawful_anywhere (lawful_steps steps))
    (lawful_steps steps)

theorem built_covers_iff (settings : Settings) (first : Nat) (configured : Bool)
    (steps : List Step) (w : Workspace Notebook)
    (h : program settings configured steps (.start settings first {}) = .ok () w) :
    w.sheet.Covers Line.computed ∧
      (w.sheet.Covers Line.mentioned ↔ w.sheet.Covers Line.borrowed) := by
  have hrun := lawful_program settings configured steps _ (.start settings first {})
    (Sound.start settings first) (by simp [Workspace.start, Notebook.held])
  obtain ⟨dag, hadv, -, -⟩ := hrun.of_ok h
  have hcomputed : w.sheet.Covers Line.computed := hadv.covers
  exact ⟨hcomputed, by simp [Sheet.covers_mentioned, hcomputed]⟩

def rejoining : List Step :=
  [ .act ⟨"lit", some "c"⟩ (.value (.constant (.bool [true]))),
    .ifThen "lane_if" true "c"
      [.act ⟨"var", some "v"⟩ (.value (.variableOf (.constant (.u32 [1]))))],
    .act ⟨"bin", none⟩ (.value (.binary .add (.value "v") (.constant (.u32 [2])))),
    .define "define" "define_body" (.ok (.fixed "f" .u32 [])) []
      [.act ⟨"bin", some "r"⟩ (.value (.binary .add (.value "v") (.value "v")))] (some "r") ]

theorem rejoining_covered :
    ∃ w, program .default false rejoining (.start .default 1 {}) = .ok () w ∧
      w.sheet.draft.functions ≠ [] ∧ w.sheet.Covers Line.computed ∧
        (w.sheet.Covers Line.mentioned ↔ w.sheet.Covers Line.borrowed) := by
  obtain ⟨_, w, hrun, hfun⟩ := exists_ok_of_ensures (program .default false rejoining)
    (.start .default 1 {}) (fun _ w => w.sheet.draft.functions ≠ []) (by decide +kernel)
  exact ⟨w, hrun, hfun, built_covers_iff .default 1 false rejoining w hrun⟩

def escaping : List Step :=
  [ .act ⟨"lit", some "c"⟩ (.value (.constant (.bool [true]))),
    .ifThen "lane_if" true "c" [.act ⟨"copy", some "d"⟩ (.value (.variableOf (.value "c")))],
    .ifThen "lane_if" true "d" [] ]

theorem escaping_not_covered :
    ∃ w, program .default false escaping (.start .default 1 {}) = .ok () w ∧
      ¬ w.sheet.Covers Line.mentioned := by
  obtain ⟨_, w, hrun, hout⟩ := exists_ok_of_ensures (program .default false escaping)
    (.start .default 1 {}) (fun _ w => ¬ w.sheet.Covers Line.mentioned) (by decide +kernel)
  exact ⟨w, hrun, hout⟩

end Script

end ComputeKernel
