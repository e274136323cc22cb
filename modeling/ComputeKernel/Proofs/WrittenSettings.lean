import Mathlib.Data.List.DropRight
import ComputeKernel.Proofs.StoredFiles
import ComputeKernel.Settings.Text

namespace ComputeKernel

variable {cs value : List Char} {c : Char} {s : Settings}

namespace Text

variable {p : Char → Bool} {a b l : List Char}

theorem rdropWhile_append (xs ys : List Char) : (xs ++ ys).rdropWhile p =
    if ys.rdropWhile p = [] then xs.rdropWhile p else xs ++ ys.rdropWhile p := by
  simp only [List.rdropWhile, List.reverse_append, List.dropWhile_append, List.isEmpty_iff,
    List.reverse_eq_nil_iff]
  split <;> simp

theorem stripWhere_surrounded (hb : ∀ c ∈ b, p c = true) (ha : ∀ c ∈ a, p c = true) :
    stripWhere p (b ++ l ++ a) = stripWhere p l := by
  have hnil : a.rdropWhile p = [] := List.rdropWhile_eq_nil_iff.mpr ha
  change ((b ++ l ++ a).dropWhile p).rdropWhile p = (l.dropWhile p).rdropWhile p
  rw [List.append_assoc, List.dropWhile_append_of_pos hb, List.dropWhile_append]
  split
  · rename_i hempty
    rw [List.isEmpty_iff.mp hempty, List.dropWhile_eq_nil_iff.mpr ha]
  · rw [rdropWhile_append, if_pos hnil]

theorem stripWhere_before (hb : ∀ c ∈ b, p c = true) : stripWhere p (b ++ l) = stripWhere p l := by
  simpa using stripWhere_surrounded hb (l := l) (a := []) (by simp)

theorem stripWhere_after (ha : ∀ c ∈ a, p c = true) : stripWhere p (l ++ a) = stripWhere p l := by
  simpa using stripWhere_surrounded (b := []) (l := l) (by simp) ha

theorem rdropWhile_cons (h : p c = false) (cs : List Char) :
    (c :: cs).rdropWhile p = c :: cs.rdropWhile p := by
  rw [← List.singleton_append, rdropWhile_append]
  split
  · rename_i hnil
    simp [hnil, h]
  · rfl

theorem stripWhere_cons (h : p c = false) (cs : List Char) :
    stripWhere p (c :: cs) = c :: cs.rdropWhile p := by
  change ((c :: cs).dropWhile p).rdropWhile p = _
  rw [List.dropWhile_cons_of_neg (by simp [h]), rdropWhile_cons h]

theorem stripWhere_of_ends (hhead : ∀ c, cs.head? = some c → p c = false)
    (hlast : ∀ c, cs.getLast? = some c → p c = false) : stripWhere p cs = cs := by
  cases cs with
  | nil => rfl
  | cons c cs =>
    rw [stripWhere_cons (hhead c rfl)]
    rcases List.eq_nil_or_concat cs with rfl | ⟨cs, d, rfl⟩
    · rfl
    · have hd : p d = false := hlast d (by simp [List.getLast?_cons])
      rw [List.concat_eq_append, List.rdropWhile_concat_neg _ _ _ (by simp [hd])]

theorem stripWhere_of_forall (h : ∀ c ∈ cs, p c = false) : stripWhere p cs = cs :=
  stripWhere_of_ends (fun c hc => h c (List.mem_of_mem_head? hc)) fun c hc =>
    h c (List.mem_of_getLast? hc)

theorem trim_rdropWhile (cs : List Char) : trim (cs.rdropWhile isBlank) = trim cs := by
  conv_rhs => rw [← List.rdropWhile_append_rtakeWhile (p := isBlank) (l := cs)]
  exact (stripWhere_after fun _ => List.mem_rtakeWhile_imp).symm

theorem lines_append (h : '\n' ∉ cs) (rest : List Char) : lines (cs ++ '\n' :: rest) =
    (if cs.getLast? = some '\r' then cs.dropLast else cs) :: lines rest := by
  obtain ⟨piece, pieces, hpieces⟩ := List.exists_cons_of_ne_nil (splitAt_ne_nil '\n' rest)
  simp only [lines, splitAt_append, splitAt_of_notMem h, List.singleton_append, hpieces,
    List.dropLast_cons_cons, List.getLast?_cons_cons, List.map_cons]
  split <;> simp

theorem lines_of_notMem (h : '\n' ∉ cs) (hne : cs ≠ []) : lines cs = [cs] := by
  obtain ⟨c, cs, rfl⟩ := List.exists_cons_of_ne_nil hne
  simp [lines, splitAt_of_notMem h]

end Text

open Text

def IsMargin (cs : List Char) : Prop := ∀ c ∈ cs, isBlank c = true ∧ c ≠ '\n'

instance : DecidablePred IsMargin := List.decidableBAll fun c => isBlank c = true ∧ c ≠ '\n'

variable {m : List Char}

theorem IsMargin.blank (h : IsMargin m) : ∀ c ∈ m, isBlank c = true :=
  fun c hc => (h c hc).1

theorem IsMargin.no_newline (h : IsMargin m) : '\n' ∉ m := fun hc => (h _ hc).2 rfl

structure IsKey (key : List Char) : Prop where
  nonempty : key ≠ []
  chars : ∀ c ∈ key, isBlank c = false ∧ c ≠ '=' ∧ c ≠ '#' ∧ c ≠ '['

namespace Settings

inductive TextLine.Writes : TextLine → List Char → Prop
  | blank {m : List Char} : IsMargin m → Writes .blank m
  | comment {m words : List Char} : IsMargin m → '\n' ∉ words → Writes .blank (m ++ '#' :: words)
  | heading {m₁ m₂ m₃ m₄ title : List Char} :
      IsMargin m₁ → IsMargin m₂ → IsMargin m₃ → IsMargin m₄ → '\n' ∉ title → trim title = title →
        Writes (.heading title) (m₁ ++ '[' :: (m₂ ++ title ++ m₃ ++ [']']) ++ m₄)
  | assignment {m₁ m₂ m₃ m₄ key value : List Char} :
      IsMargin m₁ → IsMargin m₂ → IsMargin m₃ → IsMargin m₄ → IsKey key → '\n' ∉ value →
        trim value = value →
          Writes (.assignment key value) (m₁ ++ (key ++ m₂ ++ '=' :: (m₃ ++ value ++ m₄)))

namespace TextLine

variable {line : TextLine}

theorem ofChars_eq_of_trim {cs' : List Char} (h : trim cs = trim cs') : ofChars cs = ofChars cs' := by
  simp only [ofChars, h]

theorem Writes.no_newline (h : line.Writes cs) : '\n' ∉ cs := by
  cases h with
  | blank hm => exact hm.no_newline
  | comment hm hwords => simp [hm.no_newline, hwords]
  | heading h₁ h₂ h₃ h₄ htitle => simp [h₁.no_newline, h₂.no_newline, h₃.no_newline, h₄.no_newline, htitle]
  | assignment h₁ h₂ h₃ h₄ hkey hvalue =>
    have hk : '\n' ∉ _ := fun hc => absurd (hkey.chars _ hc).1 (by decide)
    simp [h₁.no_newline, h₂.no_newline, h₃.no_newline, h₄.no_newline, hvalue, hk]

theorem heading?_of_ne (h : c ≠ '[') (cs : List Char) : heading? (c :: cs) = none := by
  unfold heading?
  split
  · rename_i heq
    exact (h (List.cons.inj heq).1).elim
  · rfl

theorem assignment?_append {key : List Char} (h : '=' ∉ key) (value : List Char) :
    assignment? (key ++ '=' :: value) = some (trim key, trim value) := by
  have hne : ∀ c ∈ key, (c != '=') = true := fun c hc => by
    simpa using ne_of_mem_of_not_mem hc h
  rw [assignment?, List.dropWhile_append_of_pos hne, List.takeWhile_append_of_pos hne,
    List.dropWhile_cons_of_neg (by decide), List.takeWhile_cons_of_neg (by decide), List.append_nil]

theorem Writes.ofChars (h : line.Writes cs) : TextLine.ofChars cs = line := by
  cases h with
  | blank hm =>
    have htrim : trim cs = [] := (List.append_nil cs ▸ stripWhere_before hm.blank : _ = trim [])
    simp [TextLine.ofChars, htrim]
  | @comment m words hm hwords =>
    have htrim : trim (m ++ '#' :: words) = '#' :: words.rdropWhile isBlank :=
      (stripWhere_before hm.blank).trans (stripWhere_cons (by decide) words)
    simp [TextLine.ofChars, htrim]
  | @heading m₁ m₂ m₃ m₄ title h₁ h₂ h₃ h₄ htitle htrimmed =>
    have htrim : trim (m₁ ++ '[' :: (m₂ ++ title ++ m₃ ++ [']']) ++ m₄) =
        '[' :: (m₂ ++ title ++ m₃ ++ [']']) :=
      (stripWhere_surrounded h₁.blank h₄.blank).trans (stripWhere_of_ends
        (by simp; decide) (by simp [List.getLast?_cons]; decide))
    have hinner : trim (m₂ ++ title ++ m₃) = title :=
      (stripWhere_surrounded h₂.blank h₃.blank).trans htrimmed
    simp [TextLine.ofChars, htrim, heading?, -List.append_assoc, hinner]
  | @assignment m₁ m₂ m₃ m₄ key value h₁ h₂ h₃ h₄ hkey hvalue htrimmed =>
    obtain ⟨c, key, rfl⟩ := List.exists_cons_of_ne_nil hkey.nonempty
    have hc := hkey.chars c (List.mem_cons_self ..)
    have hequals : '=' ∉ c :: key ++ m₂ := by
      rw [List.mem_append, not_or]
      exact ⟨fun h => (hkey.chars _ h).2.1 rfl, fun h => absurd (h₂ _ h).1 (by decide)⟩
    have htrim : trim (m₁ ++ (c :: key ++ m₂ ++ '=' :: (m₃ ++ value ++ m₄))) =
        c :: key ++ m₂ ++ '=' :: (m₃ ++ value ++ m₄).rdropWhile isBlank := by
      refine (stripWhere_before h₁.blank).trans ?_
      rw [List.cons_append, List.cons_append, stripWhere_cons hc.1, rdropWhile_append,
        rdropWhile_cons (by decide), if_neg (List.cons_ne_nil _ _)]
      rfl
    have hkeyword : trim (c :: key ++ m₂) = c :: key :=
      (stripWhere_after h₂.blank).trans (stripWhere_of_forall fun d hd => (hkey.chars d hd).1)
    have hgiven : trim ((m₃ ++ value ++ m₄).rdropWhile isBlank) = value := by
      rw [trim_rdropWhile]
      exact (stripWhere_surrounded h₃.blank h₄.blank).trans htrimmed
    have hassign := assignment?_append hequals ((m₃ ++ value ++ m₄).rdropWhile isBlank)
    rw [hkeyword, hgiven] at hassign
    have hheading : heading? (c :: key ++ m₂ ++ '=' :: (m₃ ++ value ++ m₄).rdropWhile isBlank) =
        none := heading?_of_ne hc.2.2.2 _
    simp only [TextLine.ofChars, htrim, hheading, hassign]
    simp [hc.2.2.1]

theorem ofChars_append_margin (hm : IsMargin m) : ofChars (cs ++ m) = ofChars cs :=
  ofChars_eq_of_trim (stripWhere_after hm.blank)

theorem ofChars_line_end (cs : List Char) :
    ofChars (if cs.getLast? = some '\r' then cs.dropLast else cs) = ofChars cs := by
  split
  · rename_i hlast
    obtain ⟨cs, rfl⟩ := List.getLast?_eq_some_iff.mp hlast
    rw [List.dropLast_concat]
    exact (ofChars_append_margin (m := ['\r']) (by decide)).symm
  · rfl

end TextLine

inductive Lays : List TextLine → List Char → Prop
  | nil : Lays [] []
  | last {line : TextLine} {cs : List Char} : line.Writes cs → cs ≠ [] → Lays [line] cs
  | cons {line : TextLine} {cs ending rest : List Char} {lines : List TextLine} :
      line.Writes cs → ending = ['\n'] ∨ ending = ['\r', '\n'] → Lays lines rest →
        Lays (line :: lines) (cs ++ ending ++ rest)

variable {lines : List TextLine} {text : List Char} {key : Key} {key' : Key}

theorem Lays.written (h : Lays lines text) : ∀ line ∈ lines, ∃ cs, line.Writes cs := by
  induction h with
  | nil => exact fun _ hline => by cases hline
  | last hline => exact List.forall_mem_singleton.mpr ⟨_, hline⟩
  | cons hline _ _ ih => exact List.forall_mem_cons.mpr ⟨⟨_, hline⟩, ih⟩

theorem Lays.read (h : Lays lines text) : (Text.lines text).map TextLine.ofChars = lines := by
  induction h with
  | nil => rfl
  | last hline hne => rw [lines_of_notMem hline.no_newline hne, List.map_singleton, hline.ofChars]
  | @cons line cs ending rest lines hline hending _ ih =>
    obtain ⟨m, hm, rfl⟩ : ∃ m, IsMargin m ∧ ending = m ++ ['\n'] := by
      rcases hending with rfl | rfl
      · exact ⟨[], by decide, rfl⟩
      · exact ⟨['\r'], by decide, rfl⟩
    have hnew : '\n' ∉ cs ++ m := by simp [hline.no_newline, hm.no_newline]
    have htext : cs ++ (m ++ ['\n']) ++ rest = (cs ++ m) ++ '\n' :: rest := by simp
    rw [htext, lines_append hnew, List.map_cons, TextLine.ofChars_line_end,
      TextLine.ofChars_append_margin hm, hline.ofChars, ih]

def inForce : List Char → List TextLine → List (List Char × List Char)
  | _, [] => []
  | _, .heading title :: rest => inForce title rest
  | title, .assignment key value :: rest =>
    if title = "kernel".toList then (key, value) :: inForce title rest else inForce title rest
  | title, _ :: rest => inForce title rest

def lastValue (key : Key) (es : List (List Char × List Char)) : Option (List Char) :=
  (es.reverse.find? (·.1 = key.word.toList)).map Prod.snd

def IsValid (e : List Char × List Char) : Prop :=
  ∀ key : Key, e.1 = key.word.toList → (assign? .default key e.2).isSome = true

def put (s : Settings) (key : Key) (t : Settings) : Settings :=
  match key with
  | .name => { s with name := t.name }
  | .groupSize => { s with groupSize := t.groupSize }
  | .wave32 => { s with wave32 := t.wave32 }
  | .bindlessBase => { s with bindlessBase := t.bindlessBase }
  | .emitResources => { s with emitResources := t.emitResources }

def numeral (n : UInt32) : List Char := Nat.toDigits 10 n.toNat

inductive Spells (s : Settings) : Key → List Char → Prop
  | name {quotes₁ quotes₂ : List Char} :
      (∀ c ∈ quotes₁, c = '"') → (∀ c ∈ quotes₂, c = '"') →
        s.name.toList.head? ≠ some '"' → s.name.toList.getLast? ≠ some '"' →
          Spells s .name (quotes₁ ++ s.name.toList ++ quotes₂)
  | groupSize {m₁ m₂ m₃ m₄ m₅ m₆ : List Char} :
      IsMargin m₁ → IsMargin m₂ → IsMargin m₃ → IsMargin m₄ → IsMargin m₅ → IsMargin m₆ →
        Spells s .groupSize ('[' :: (m₁ ++ numeral s.groupSize.x ++ m₂ ++ ',' ::
          (m₃ ++ numeral s.groupSize.y ++ m₄ ++ ',' :: (m₅ ++ numeral s.groupSize.z ++ m₆)) ++ [']']))
  | wave32 : Spells s .wave32 (toString s.wave32).toList
  | bindlessBase : Spells s .bindlessBase (numeral s.bindlessBase)
  | emitResources : Spells s .emitResources (toString s.emitResources).toList

section Spelling

variable {n : UInt32} {m₁ m₂ : List Char}

theorem isDigit_of_mem_numeral (h : c ∈ numeral n) : c.isDigit = true :=
  Nat.isDigit_of_mem_toDigits (by decide) (by decide) h

theorem isBlank_of_isDigit (h : c.isDigit = true) : isBlank c = false := by
  have hbounds : 48 ≤ c.toNat ∧ c.toNat ≤ 57 := by
    simpa [Char.isDigit, UInt32.le_iff_toNat_le] using h
  simp only [isBlank, Bool.or_eq_false_iff, Bool.and_eq_false_iff, decide_eq_false_iff_not,
    beq_eq_false_iff_ne]
  omega

theorem digits?_numeral (n : UInt32) : digits? (numeral n) = some n.toNat := by
  have hall : (numeral n).all Char.isDigit = true :=
    List.all_eq_true.mpr fun _ => isDigit_of_mem_numeral
  have hvalue : (numeral n).foldl (fun k c => k * 10 + (c.toNat - '0'.toNat)) 0 = n.toNat := by
    simp only [Nat.mul_comm _ 10]
    exact Nat.ofDigitChars_ten_toDigits
  have hempty : (numeral n).isEmpty = false := by
    simp [numeral]
  simp only [digits?, hempty, hall, hvalue]
  rfl

theorem word?_numeral (n : UInt32) : word? (numeral n) = some n := by
  have hplus : (numeral n).head? ≠ some '+' := fun h =>
    absurd (isDigit_of_mem_numeral (List.mem_of_mem_head? h)) (by decide)
  simp [word?, hplus, digits?_numeral, UInt32.toNat_lt_size]

theorem word?_trim (h₁ : IsMargin m₁) (h₂ : IsMargin m₂) (n : UInt32) :
    word? (trim (m₁ ++ numeral n ++ m₂)) = some n := by
  have htrim : trim (m₁ ++ numeral n ++ m₂) = numeral n :=
    (stripWhere_surrounded h₁.blank h₂.blank).trans
      (stripWhere_of_forall fun _ hc => isBlank_of_isDigit (isDigit_of_mem_numeral hc))
  rw [htrim, word?_numeral]

theorem comma_notMem (h₁ : IsMargin m₁) (h₂ : IsMargin m₂) (n : UInt32) :
    ',' ∉ m₁ ++ numeral n ++ m₂ := by
  have hmargin {m : List Char} (hm : IsMargin m) : ',' ∉ m := fun h =>
    absurd (hm.blank _ h) (by decide)
  have hnumeral : ',' ∉ numeral n := fun h => absurd (isDigit_of_mem_numeral h) (by decide)
  simp [hmargin h₁, hmargin h₂, hnumeral]

theorem bool?_toString (b : Bool) : bool? (toString b).toList = some b := by
  cases b <;> decide

variable {t u : Settings} {key key' : Key}

theorem assign?_of_spells (h : t.Spells key value) (s : Settings) :
    assign? s key value = some (s.put key t) := by
  cases h with
  | @name quotes₁ quotes₂ hq₁ hq₂ hhead hlast =>
    have hends : stripWhere (· == '"') t.name.toList = t.name.toList :=
      stripWhere_of_ends (fun _ hc => beq_eq_false_iff_ne.mpr fun h => hhead (hc.trans (congrArg some h)))
        fun _ hc => beq_eq_false_iff_ne.mpr fun h => hlast (hc.trans (congrArg some h))
    have hstrip : stripWhere (· == '"') (quotes₁ ++ t.name.toList ++ quotes₂) = t.name.toList :=
      (stripWhere_surrounded (fun c hc => by simp [hq₁ c hc]) fun c hc => by simp [hq₂ c hc]).trans
        hends
    simp only [assign?, put, hstrip, String.ofList_toList]
  | groupSize h₁ h₂ h₃ h₄ h₅ h₆ =>
    simp only [assign?, groupSize?, List.getLast?_concat, List.dropLast_concat, if_true,
      splitAt_append, splitAt_of_notMem (comma_notMem h₁ h₂ _),
      splitAt_of_notMem (comma_notMem h₃ h₄ _), splitAt_of_notMem (comma_notMem h₅ h₆ _),
      List.singleton_append, List.map_cons, List.map_nil, word?_trim h₁ h₂,
      word?_trim h₃ h₄, word?_trim h₅ h₆]
    rfl
  | wave32 => simp [assign?, put, bool?_toString]
  | bindlessBase => simp [assign?, put, word?_numeral]
  | emitResources => simp [assign?, put, bool?_toString]

theorem assign?_eq_map (s : Settings) (key : Key) (value : List Char) :
    assign? s key value = (assign? .default key value).map (s.put key) := by
  cases key <;> simp [assign?, put, Function.comp_def]

theorem put_put (s t u : Settings) (key : Key) :
    (s.put key t).put key u = s.put key u ∧ s.put key (t.put key u) = s.put key u := by
  cases key <;> exact ⟨rfl, rfl⟩

theorem put_put_of_ne (h : key ≠ key') (s t u : Settings) :
    (s.put key t).put key' u = (s.put key' u).put key t := by
  cases key <;> cases key' <;> first | rfl | exact absurd rfl h

theorem eq_of_put (h : ∀ key, s.put key t = s) : s = t := by
  have hname := congrArg Settings.name (h .name)
  have hsize := congrArg Settings.groupSize (h .groupSize)
  have hwave := congrArg Settings.wave32 (h .wave32)
  have hbase := congrArg Settings.bindlessBase (h .bindlessBase)
  have hemit := congrArg Settings.emitResources (h .emitResources)
  cases s
  cases t
  simp_all [put]

theorem put_self (s : Settings) (key : Key) : s.put key s = s := by
  cases key <;> rfl

end Spelling

theorem Key.ofChars?_eq_some_iff : Key.ofChars? cs = some key ↔ cs = key.word.toList := by
  constructor
  · intro h
    have hword := List.find?_some h
    exact (eq_of_beq hword).symm
  · rintro rfl
    cases key <;> decide

theorem lastValue_append (key : Key) (es es' : List (List Char × List Char)) :
    lastValue key (es ++ es') = (lastValue key es').or (lastValue key es) := by
  simp [lastValue, Option.map_or]

theorem lastValue_singleton (key : Key) (cs value : List Char) :
    lastValue key [(cs, value)] = if Key.ofChars? cs = some key then some value else none := by
  rw [lastValue, List.reverse_singleton, List.find?_singleton]
  simp only [Key.ofChars?_eq_some_iff, decide_eq_true_eq]
  split <;> rfl

def Settles (es : List (List Char × List Char)) (s₀ s₁ : Settings) : Prop :=
  ∀ key, (lastValue key es = none → s₁.put key s₀ = s₁) ∧
    ∀ value, lastValue key es = some value → assign? s₁ key value = some s₁

namespace Settles

variable {es es' : List (List Char × List Char)} {s₀ s₁ s₂ : Settings} {key : Key}

theorem refl (s : Settings) : Settles [] s s := fun key =>
  ⟨fun _ => put_self s key, fun _ h => by cases h⟩

theorem assign?_of_put (hput : s₂.put key s₁ = s₂)
    (h : assign? s₁ key value = some s₁) : assign? s₂ key value = some s₂ := by
  rw [assign?_eq_map, Option.map_eq_some_iff] at h ⊢
  obtain ⟨t, ht, hst⟩ := h
  refine ⟨t, ht, ?_⟩
  calc s₂.put key t = s₂.put key (s₁.put key t) := (put_put ..).2.symm
    _ = s₂ := by rw [hst, hput]

theorem append (h : Settles es s₀ s₁) (h' : Settles es' s₁ s₂) : Settles (es ++ es') s₀ s₂ := by
  intro key
  rw [lastValue_append]
  cases hlast : lastValue key es' with
  | some value => exact ⟨by simp, fun v hv => (h' key).2 v (hlast.trans hv)⟩
  | none =>
    have hput := (h' key).1 hlast
    refine ⟨fun hnone => ?_, fun value hvalue => assign?_of_put hput ((h key).2 value hvalue)⟩
    calc s₂.put key s₀ = s₂.put key (s₁.put key s₀) := (put_put ..).2.symm
      _ = s₂ := by rw [(h key).1 hnone, hput]

theorem assigned (hkey : Key.ofChars? cs = some key)
    (hassign : assign? s₀ key value = some s₁) : Settles [(cs, value)] s₀ s₁ := by
  rw [assign?_eq_map, Option.map_eq_some_iff] at hassign
  obtain ⟨t, ht, rfl⟩ := hassign
  intro key'
  rw [lastValue_singleton, hkey]
  by_cases h : key = key'
  · subst h
    refine ⟨by simp, fun v hv => ?_⟩
    obtain rfl : value = v := by simpa using hv
    rw [assign?_eq_map, ht, Option.map_some, (put_put ..).1]
  · simp only [Option.some.injEq, h, if_false]
    exact ⟨fun _ => by rw [put_put_of_ne h, put_self], by simp⟩

theorem unknown (hkey : Key.ofChars? cs = none) (s : Settings) : Settles [(cs, value)] s s := by
  intro key
  rw [lastValue_singleton, hkey]
  exact ⟨fun _ => put_self s key, by simp⟩

theorem eq_of_spells {t : Settings} (h : Settles es s₀ s₁)
    (ht : ∀ key, (∃ value, lastValue key es = some value ∧ t.Spells key value) ∨
      (lastValue key es = none ∧ t.put key s₀ = t)) : s₁ = t := by
  refine eq_of_put fun key => ?_
  rcases ht key with ⟨value, hvalue, hspells⟩ | ⟨hnone, hput⟩
  · exact Option.some.inj ((assign?_of_spells hspells s₁).symm.trans ((h key).2 value hvalue))
  · calc s₁.put key t = s₁.put key (t.put key s₀) := by rw [hput]
      _ = s₁.put key s₀ := (put_put ..).2
      _ = s₁ := (h key).1 hnone

end Settles

theorem Reading.line_assignment {title : List Char} (htitle : title = "kernel".toList)
    (hvalid : IsValid (cs, value)) (s : Settings) :
    ∃ s', Reading.line ⟨s, title⟩ (.assignment cs value) = .ok ⟨s', title⟩ ∧
      Settles [(cs, value)] s s' := by
  simp only [Reading.line, if_pos htitle]
  cases hkey : Key.ofChars? cs with
  | none => exact ⟨s, rfl, Settles.unknown hkey s⟩
  | some key =>
    obtain ⟨t, ht⟩ := Option.isSome_iff_exists.mp (hvalid key (Key.ofChars?_eq_some_iff.mp hkey))
    have hassign : assign? s key value = some (s.put key t) := by
      rw [assign?_eq_map, ht, Option.map_some]
    exact ⟨s.put key t, by simp only [hassign], Settles.assigned hkey hassign⟩

theorem Reading.lines_settle {title : List Char} (hwritten : ∀ line ∈ lines, ∃ cs, line.Writes cs)
    (hvalid : ∀ e ∈ inForce title lines, IsValid e) (s : Settings) :
    ∃ r, Reading.lines ⟨s, title⟩ lines = .ok r ∧ Settles (inForce title lines) s r.settings := by
  induction lines generalizing title s with
  | nil => exact ⟨⟨s, title⟩, rfl, Settles.refl s⟩
  | cons line lines ih =>
    obtain ⟨⟨cs, hline⟩, hrest⟩ := List.forall_mem_cons.mp hwritten
    cases hline with
    | blank | comment => exact ih hrest hvalid s
    | heading => exact ih hrest hvalid s
    | @assignment _ _ _ _ key value =>
      rw [inForce] at hvalid ⊢
      by_cases htitle : title = "kernel".toList
      · rw [if_pos htitle] at hvalid ⊢
        obtain ⟨s₁, hread, h₁⟩ := line_assignment htitle (hvalid _ (List.mem_cons_self ..)) s
        obtain ⟨r, hlines, h₂⟩ := ih hrest (fun e he => hvalid e (List.mem_cons_of_mem _ he)) s₁
        refine ⟨r, ?_, h₁.append h₂⟩
        rw [Reading.lines, hread]
        exact hlines
      · rw [if_neg htitle] at hvalid ⊢
        obtain ⟨r, hlines, h⟩ := ih hrest hvalid s
        refine ⟨r, ?_, h⟩
        rw [Reading.lines, Reading.line, if_neg htitle]
        exact hlines

theorem Lays.ofText {text : String} (hlaid : Lays lines text.toList)
    (hvalid : ∀ e ∈ inForce [] lines, IsValid e) (hname : s.name ≠ "")
    (hs : ∀ key, (∃ value, lastValue key (inForce [] lines) = some value ∧ s.Spells key value) ∨
      (lastValue key (inForce [] lines) = none ∧ s.put key .default = s)) :
    Settings.ofText text = .ok s := by
  obtain ⟨r, hread, h⟩ := Reading.lines_settle hlaid.written hvalid .default
  have hsettled : r.settings = s := h.eq_of_spells hs
  have hlines : ({} : Reading).lines ((Text.lines text.toList).map TextLine.ofChars) = .ok r := by
    rw [hlaid.read]
    exact hread
  rw [Settings.ofText, hlines]
  simp [bind, Except.bind, hsettled, hname]

def reset (s : Settings) (key : Key) : Settings := s.put key .default

theorem Spells.put (h : s.Spells key' value)
    (hne : key ≠ key') (t : Settings) : (s.put key t).Spells key' value := by
  cases h <;> cases key <;> first | exact absurd rfl hne | constructor <;> assumption

theorem lastValue_filter_self (key : Key) (es : List (List Char × List Char)) :
    lastValue key (es.filter (·.1 ≠ key.word.toList)) = none := by
  simp [lastValue]

theorem lastValue_filter_of_ne (h : key ≠ key') (es : List (List Char × List Char)) :
    lastValue key' (es.filter (·.1 ≠ key.word.toList)) = lastValue key' es := by
  have hwords {e : List Char × List Char} (he : e.1 = key'.word.toList) : e.1 ≠ key.word.toList :=
    fun he' => h (Option.some.inj
      ((Key.ofChars?_eq_some_iff.mpr he').symm.trans (Key.ofChars?_eq_some_iff.mpr he)))
  rw [lastValue, lastValue, ← List.filter_reverse, List.find?_filter]
  congr 2
  funext e
  simpa using hwords

theorem ofText_reads_back {s : Settings} {lines : List TextLine} {text : String}
    (hlaid : Lays lines text.toList) (hvalid : ∀ e ∈ inForce [] lines, IsValid e)
    (hname : s.name ≠ "")
    (hspelled : ∀ key, ∃ value, lastValue key (inForce [] lines) = some value ∧ s.Spells key value) :
    ofText text = .ok s ∧ ∀ (key : Key) (short : List TextLine) (text' : String),
      Lays short text'.toList →
        inForce [] short = (inForce [] lines).filter (·.1 ≠ key.word.toList) →
          ofText text' = .ok (s.reset key) := by
  refine ⟨hlaid.ofText hvalid hname fun key => .inl (hspelled key), ?_⟩
  intro key short text' hshort hdropped
  refine hshort.ofText (fun e he => ?_) ?_ fun key' => ?_
  · rw [hdropped] at he
    exact hvalid e (List.mem_filter.mp he).1
  · cases key <;> first | exact hname | exact (by decide : Settings.default.name ≠ "")
  · rw [hdropped]
    by_cases h : key = key'
    · subst h
      exact .inr ⟨lastValue_filter_self key _, (put_put ..).1⟩
    · rw [lastValue_filter_of_ne h]
      obtain ⟨value, hvalue, hspells⟩ := hspelled key'
      exact .inl ⟨value, hvalue, hspells.put h _⟩

def blur : Settings := ⟨"blur", ⟨16, 8, 1⟩, true, 7, false⟩

def blurLines : List TextLine :=
  [.blank, .heading "kernel".toList, .assignment "wave32".toList "false".toList,
    .assignment "name".toList "\"blur\"".toList, .assignment "group_size".toList "[16,8, 1]".toList,
    .assignment "wave32".toList "true".toList, .assignment "bindless_space_base".toList "7".toList,
    .heading "test".toList, .assignment "name".toList "x".toList,
    .heading "kernel".toList, .assignment "emit_resources".toList "false".toList]

def blurText : String :=
  "# blur\r\n" ++ ("[ kernel ]\n" ++ ("wave32 = false\r\n" ++ ("name = \"blur\"\n" ++
    ("group_size = [16,8, 1]\n" ++ ("wave32 = true\n" ++ ("bindless_space_base = 7\n" ++
      ("[ test ]\n" ++ ("name = x\n" ++ ("[ kernel ]\n" ++ "emit_resources = false\n")))))))))

theorem blurLines_laid : Lays blurLines blurText.toList := by
  have hset (key value : List Char) (hkey : key ≠ [] ∧
      key.all (fun c => !isBlank c && c != '=' && c != '#' && c != '[') = true)
      (hvalue : '\n' ∉ value) (htrim : trim value = value) :
      (TextLine.assignment key value).Writes (key ++ " = ".toList ++ value) := by
    have h := @TextLine.Writes.assignment [] [' '] [' '] [] key value (by decide) (by decide)
      (by decide) (by decide) ⟨hkey.1, by simpa [and_assoc] using hkey.2⟩ hvalue htrim
    simpa using h
  have htitle (title : List Char) (hnew : '\n' ∉ title) (htrim : trim title = title) :
      (TextLine.heading title).Writes ("[ ".toList ++ title ++ " ]".toList) := by
    have h := @TextLine.Writes.heading [] [' '] [' '] [] title (by decide) (by decide) (by decide)
      (by decide) hnew htrim
    simpa using h
  have hcomment : TextLine.blank.Writes "# blur".toList :=
    @TextLine.Writes.comment [] " blur".toList (by decide) (by decide)
  have hkernel := htitle "kernel".toList (by decide) (by decide)
  have htest := htitle "test".toList (by decide) (by decide)
  have hfalse := hset "wave32".toList "false".toList (by decide) (by decide) (by decide)
  have hname := hset "name".toList "\"blur\"".toList (by decide) (by decide) (by decide)
  have hsize := hset "group_size".toList "[16,8, 1]".toList (by decide) (by decide) (by decide)
  have htrue := hset "wave32".toList "true".toList (by decide) (by decide) (by decide)
  have hbase := hset "bindless_space_base".toList "7".toList (by decide) (by decide) (by decide)
  have hother := hset "name".toList "x".toList (by decide) (by decide) (by decide)
  have hemit := hset "emit_resources".toList "false".toList (by decide) (by decide) (by decide)
  simp only [blurText, String.toList_append]
  exact .cons hcomment (.inr rfl) (.cons hkernel (.inl rfl) (.cons hfalse (.inr rfl)
    (.cons hname (.inl rfl) (.cons hsize (.inl rfl) (.cons htrue (.inl rfl) (.cons hbase (.inl rfl)
      (.cons htest (.inl rfl) (.cons hother (.inl rfl) (.cons hkernel (.inl rfl)
        (.cons hemit (.inl rfl) .nil))))))))))

theorem blur_reads_back : ofText blurText = .ok blur ∧ ∀ (key : Key) (short : List TextLine)
    (text' : String), Lays short text'.toList →
      inForce [] short = (inForce [] blurLines).filter (·.1 ≠ key.word.toList) →
        ofText text' = .ok (blur.reset key) := by
  refine ofText_reads_back blurLines_laid ?_ (by decide) fun key => ?_
  · have hvalid : ∀ e ∈ inForce [] blurLines, ∀ key ∈ Key.all, e.1 = key.word.toList →
        (assign? .default key e.2).isSome = true := by decide
    exact fun e he key => hvalid e he key (by cases key <;> decide)
  · cases key with
    | name => exact ⟨_, rfl, @Spells.name blur ['"'] ['"'] (by simp) (by simp) (by decide) (by decide)⟩
    | groupSize =>
      exact ⟨_, rfl, @Spells.groupSize blur [] [] [] [] [' '] [] (by decide) (by decide) (by decide)
        (by decide) (by decide) (by decide)⟩
    | wave32 => exact ⟨_, rfl, .wave32⟩
    | bindlessBase => exact ⟨_, rfl, .bindlessBase⟩
    | emitResources => exact ⟨_, rfl, .emitResources⟩

end Settings

end ComputeKernel
