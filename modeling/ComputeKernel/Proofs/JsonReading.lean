import ComputeKernel.Json.Value
import ComputeKernel.Text
import Mathlib.Algebra.Order.Field.Rat
import Mathlib.Data.List.Forall2

namespace ComputeKernel.Json

variable {α : Type} {text lead gap last : String} {depth : Nat} {texts : List String}

abbrev Reader (α : Type) := List Char → Option (α × List Char)

def isBlank (c : Char) : Bool := c == ' ' || c == '\t' || c == '\n' || c == '\r'

def skipBlanks (s : List Char) : List Char := s.dropWhile isBlank

def hexValue? (c : Char) : Option Nat :=
  if c.isDigit then some (c.toNat - '0'.toNat)
  else if 'a' ≤ c ∧ c ≤ 'f' then some (c.toNat - 'a'.toNat + 10)
  else if 'A' ≤ c ∧ c ≤ 'F' then some (c.toNat - 'A'.toNat + 10)
  else none

def hexNumber? (digits : List Char) : Option Nat :=
  digits.foldlM (fun n c => (hexValue? c).map (16 * n + ·)) 0

def shortEscape? : Char → Option Char
  | '"' => some '"'
  | '\\' => some '\\'
  | '/' => some '/'
  | 'b' => some '\x08'
  | 'f' => some '\x0c'
  | 'n' => some '\n'
  | 'r' => some '\r'
  | 't' => some '\t'
  | _ => none

def prepend (c : Char) (read : Option (List Char × List Char)) : Option (List Char × List Char) :=
  read.map fun (characters, rest) => (c :: characters, rest)

def readCharacters : List Char → Option (List Char × List Char)
  | [] => none
  | c :: rest =>
    if c = '"' then some ([], rest)
    else if c = '\\' then
      match rest with
      | 'u' :: d₃ :: d₂ :: d₁ :: d₀ :: rest => do
        let unit ← hexNumber? [d₃, d₂, d₁, d₀]
        if 0xd800 ≤ unit ∧ unit < 0xdc00 then
          match rest with
          | '\\' :: 'u' :: d₃ :: d₂ :: d₁ :: d₀ :: rest => do
            let low ← hexNumber? [d₃, d₂, d₁, d₀]
            if 0xdc00 ≤ low ∧ low < 0xe000 then
              prepend (Char.ofNat (0x10000 + (unit - 0xd800) * 0x400 + (low - 0xdc00)))
                (readCharacters rest)
            else none
          | _ => none
        else if 0xdc00 ≤ unit ∧ unit < 0xe000 then none
        else prepend (Char.ofNat unit) (readCharacters rest)
      | e :: rest => do prepend (← shortEscape? e) (readCharacters rest)
      | [] => none
    else if c.toNat < 0x20 then none
    else prepend c (readCharacters rest)

def readDigits (s : List Char) : Option (List Char × List Char) :=
  let digits := s.takeWhile Char.isDigit
  if digits = [] then none else some (digits, s.dropWhile Char.isDigit)

def readFraction : Reader (List Char)
  | '.' :: rest => readDigits rest
  | s => some ([], s)

def readSigned : Reader Int
  | '-' :: rest => do
    let (digits, rest) ← readDigits rest
    some (-(Nat.ofDigitChars 10 digits 0 : Int), rest)
  | '+' :: rest => do
    let (digits, rest) ← readDigits rest
    some ((Nat.ofDigitChars 10 digits 0 : Int), rest)
  | rest => do
    let (digits, rest) ← readDigits rest
    some ((Nat.ofDigitChars 10 digits 0 : Int), rest)

def readExponent : Reader Int
  | [] => some (0, [])
  | c :: rest => if c = 'e' ∨ c = 'E' then readSigned rest else some (0, c :: rest)

def readMagnitude : Reader (Nat × Nat) := fun s => do
  let (whole, s) ← readDigits s
  if whole.head? = some '0' ∧ whole ≠ ['0'] then none
  else
    let (fraction, s) ← readFraction s
    let (exponent, s) ← readExponent s
    let digits := Nat.ofDigitChars 10 (whole ++ fraction) 0
    match exponent - fraction.length with
    | .ofNat zeros => some ((digits * 10 ^ zeros, 0), s)
    | .negSucc places => some ((digits, places + 1), s)

def readNumber : Reader Json
  | '-' :: rest => do
    let ((mantissa, places), rest) ← readMagnitude rest
    some (.number (-mantissa) places, rest)
  | s => do
    let ((mantissa, places), rest) ← readMagnitude s
    some (.number mantissa places, rest)

def readItems (item : Reader α) (close : Char) : Nat → Reader (List α)
  | 0, _ => none
  | count + 1, s => do
    let (first, rest) ← item s
    match skipBlanks rest with
    | c :: rest =>
      if c = close then some ([first], rest)
      else if c = ',' then do
        let (others, rest) ← readItems item close count rest
        some (first :: others, rest)
      else none
    | [] => none

def readBlock (item : Reader α) (close : Char) : Reader (List α) := fun s =>
  if (skipBlanks s).head? = some close then some ([], (skipBlanks s).tail)
  else readItems item close s.length s

def readMember (value : Reader Json) : Reader (String × Json) := fun s =>
  match skipBlanks s with
  | '"' :: rest => do
    let (key, rest) ← readCharacters rest
    match skipBlanks rest with
    | ':' :: rest => do
      let (value, rest) ← value rest
      some ((String.ofList key, value), rest)
    | _ => none
  | _ => none

def readValue : Nat → Reader Json
  | 0, _ => none
  | depth + 1, s =>
    match skipBlanks s with
    | '"' :: rest => do
      let (characters, rest) ← readCharacters rest
      some (.string (String.ofList characters), rest)
    | '[' :: rest => do
      let (items, rest) ← readBlock (readValue depth) ']' rest
      some (.array items, rest)
    | '\x7b' :: rest => do
      let (members, rest) ← readBlock (readMember (readValue depth)) '\x7d' rest
      some (.object members, rest)
    | 't' :: 'r' :: 'u' :: 'e' :: rest => some (.bool true, rest)
    | 'f' :: 'a' :: 'l' :: 's' :: 'e' :: rest => some (.bool false, rest)
    | 'n' :: 'u' :: 'l' :: 'l' :: rest => some (.null, rest)
    | s => readNumber s

def parse (document : String) : Option Json := do
  let (value, rest) ← readValue document.length document.toList
  if skipBlanks rest = [] then some value else none

def Stops (rest : List Char) : Prop :=
  ∀ c ∈ rest.head?, c.isDigit = false ∧ c ≠ '.' ∧ c ≠ 'e' ∧ c ≠ 'E'

def Takes {α : Type} (item : Reader α) (text : String) (a : α) : Prop :=
  ∀ rest, Stops rest → item (text.toList ++ rest) = some (a, rest)

def Spells (depth : Nat) (text : String) (value : Json) : Prop :=
  ∀ n, depth ≤ n → Takes (readValue n) text value

section Blanks

def Blank (text : String) : Prop := ∀ c ∈ text.toList, isBlank c = true

instance (text : String) : Decidable (Blank text) :=
  List.decidableBAll (fun c => isBlank c = true) text.toList

variable {c : Char} {value : Json}

theorem skipBlanks_append (h : Blank text) (s : List Char) :
    skipBlanks (text.toList ++ s) = skipBlanks s := List.dropWhile_append_of_pos h

theorem skipBlanks_cons (h : isBlank c = false) (s : List Char) :
    skipBlanks (c :: s) = c :: s := List.dropWhile_cons_of_neg (by simp [h])

theorem stops_cons (h : c.isDigit = false ∧ c ≠ '.' ∧ c ≠ 'e' ∧ c ≠ 'E')
    (s : List Char) : Stops (c :: s) := by
  intro c' hc'
  cases hc'
  exact h

theorem stops_append (h : Blank text) {s : List Char} (hs : Stops s) :
    Stops (text.toList ++ s) := by
  unfold Blank at h
  cases htext : text.toList with
  | nil => exact hs
  | cons c cs =>
    have hc := h c (by rw [htext]; exact List.mem_cons_self)
    refine stops_cons ?_ _
    simp only [isBlank, Bool.or_eq_true, beq_iff_eq] at hc
    rcases hc with ((rfl | rfl) | rfl) | rfl <;> decide

theorem readValue_append (h : Blank text) (depth : Nat) (s : List Char) :
    readValue depth (text.toList ++ s) = readValue depth s := by
  cases depth with
  | zero => rfl
  | succ depth => rw [readValue, skipBlanks_append h, readValue]

theorem readMember_append (value : Reader Json) (h : Blank text) (s : List Char) :
    readMember value (text.toList ++ s) = readMember value s := by
  rw [readMember, skipBlanks_append h, readMember]

theorem Spells.blanks (h : Spells depth text value)
    {blanks : String} (hb : Blank blanks) : Spells depth (blanks ++ text) value := by
  intro n hn rest hrest
  rw [String.toList_append, List.append_assoc, readValue_append hb]
  exact h n hn rest hrest

theorem Spells.mono {depth' : Nat}
    (h : Spells depth text value) (hle : depth ≤ depth') : Spells depth' text value :=
  fun n hn => h n (Nat.le_trans hle hn)

end Blanks

theorem hexNumber_hexDigits : ∀ n < 0x20, hexNumber? (Text.hexDigits 4 n) = some n := by
  decide

theorem hexDigits_four (n : Nat) : ∃ d₃ d₂ d₁ d₀, Text.hexDigits 4 n = [d₃, d₂, d₁, d₀] :=
  ⟨_, _, _, _, rfl⟩

theorem readCharacters_escapeChar (c : Char) (s : List Char) :
    readCharacters (Text.escapeChar c ++ s) = prepend c (readCharacters s) := by
  unfold Text.escapeChar
  split
  case isTrue hquote => subst hquote; rfl
  case isFalse hquote =>
    split
    case isTrue hslash => subst hslash; rfl
    case isFalse hslash =>
      split
      case isTrue hfeed => subst hfeed; rfl
      case isFalse hfeed =>
        split
        case isTrue hcontrol =>
          obtain ⟨d₃, d₂, d₁, d₀, hdigits⟩ := hexDigits_four c.toNat
          have hnumber := hexNumber_hexDigits c.toNat hcontrol
          have hhigh : ¬ (0xd800 ≤ c.toNat ∧ c.toNat < 0xdc00) := by omega
          have hlow : ¬ (0xdc00 ≤ c.toNat ∧ c.toNat < 0xe000) := by omega
          rw [hdigits] at hnumber ⊢
          rw [readCharacters.eq_def]
          simp [hnumber, hhigh, hlow]
        case isFalse hcontrol =>
          rw [List.singleton_append, readCharacters.eq_def]
          simp [hquote, hslash, hcontrol]

theorem readCharacters_quoted (characters rest : List Char) :
    readCharacters (characters.flatMap Text.escapeChar ++ '"' :: rest) =
      some (characters, rest) := by
  induction characters with
  | nil => simp [readCharacters.eq_def]
  | cons c cs ih =>
    rw [List.flatMap_cons, List.append_assoc, readCharacters_escapeChar, ih]
    rfl

theorem toList_quote (text : String) (rest : List Char) :
    (Text.quote text).toList ++ rest =
      '"' :: (text.toList.flatMap Text.escapeChar ++ '"' :: rest) := by
  simp [Text.quote]

theorem spells_quote (text : String) : Spells 1 (Text.quote text) (.string text) := by
  intro n hn rest _
  obtain ⟨depth, rfl⟩ := Nat.exists_eq_add_of_le' hn
  rw [toList_quote, readValue, skipBlanks_cons rfl]
  simp [readCharacters_quoted]

theorem quote_singleton {c : Char} (h : Text.escapeChar c = [c]) :
    Text.quote c.toString = "\"" ++ c.toString ++ "\"" := by
  rw [← String.toList_inj]
  simp [Text.quote, h]

section Numbers

variable {rest : List Char}

theorem readDigits_append {digits : List Char} (hdigits : ∀ c ∈ digits, c.isDigit = true)
    (hne : digits ≠ []) (hrest : ∀ c, rest.head? = some c → c.isDigit = false) :
    readDigits (digits ++ rest) = some (digits, rest) := by
  have hstop : rest.takeWhile Char.isDigit = [] ∧ rest.dropWhile Char.isDigit = rest := by
    cases rest with
    | nil => exact ⟨rfl, rfl⟩
    | cons c cs =>
      have hc := hrest c rfl
      exact ⟨List.takeWhile_cons_of_neg (by simp [hc]), List.dropWhile_cons_of_neg (by simp [hc])⟩
  unfold readDigits
  rw [List.takeWhile_append_of_pos hdigits, List.dropWhile_append_of_pos hdigits, hstop.1, hstop.2,
    List.append_nil, if_neg hne]

theorem Stops.readFraction (h : Stops rest) : readFraction rest = some ([], rest) := by
  unfold Json.readFraction
  split
  · exact absurd rfl (h '.' rfl).2.1
  · rfl

theorem Stops.readExponent (h : Stops rest) : readExponent rest = some (0, rest) := by
  cases rest with
  | nil => rfl
  | cons c cs =>
    rw [Json.readExponent, if_neg (by simp [(h c rfl).2.2])]

theorem isDigit_decimal (n : Nat) : ∀ c ∈ Nat.toDigits 10 n, c.isDigit = true :=
  fun _ hc => Nat.isDigit_of_mem_toDigits (by decide) (by decide) hc

theorem head_decimal {n : Nat} (h : 0 < n) : (Nat.toDigits 10 n).head? ≠ some '0' := by
  induction n using Nat.strongRecOn with
  | ind n ih =>
    rw [Nat.toDigits_eq_if (by decide)]
    split
    case isTrue hlt =>
      have hne : n ≠ 0 := by omega
      simpa using hne
    case isFalse hle =>
      rw [List.head?_append_of_ne_nil _ Nat.toDigits_ne_nil]
      exact ih (n / 10) (by omega) (by omega)

theorem readDigits_decimal (n : Nat) (h : Stops rest) :
    readDigits (Nat.toDigits 10 n ++ rest) = some (Nat.toDigits 10 n, rest) :=
  readDigits_append (isDigit_decimal n) Nat.toDigits_ne_nil fun c hc => (h c hc).1

theorem not_padded_decimal (n : Nat) :
    ¬((Nat.toDigits 10 n).head? = some '0' ∧ Nat.toDigits 10 n ≠ ['0']) := by
  rintro ⟨hhead, hne⟩
  rcases Nat.eq_zero_or_pos n with rfl | hpos
  · exact hne (Nat.toDigits_zero 10)
  · exact head_decimal hpos hhead

theorem readMagnitude_of_parts {s s₁ s₂ s₃ whole fraction : List Char} {exponent : Int}
    {places : Nat} (hwhole : readDigits s = some (whole, s₁))
    (hpadded : ¬(whole.head? = some '0' ∧ whole ≠ ['0']))
    (hfraction : readFraction s₁ = some (fraction, s₂))
    (hexponent : readExponent s₂ = some (exponent, s₃))
    (hplaces : exponent - fraction.length = -(places : Int)) :
    readMagnitude s = some ((Nat.ofDigitChars 10 (whole ++ fraction) 0, places), s₃) := by
  unfold readMagnitude
  simp only [hwhole, Option.bind_eq_bind, Option.bind_some, if_neg hpadded, hfraction, hexponent,
    hplaces]
  cases places with
  | zero => simp
  | succ places => rfl

theorem readMagnitude_decimal (n : Nat) (h : Stops rest) :
    readMagnitude (Nat.toDigits 10 n ++ rest) = some ((n, 0), rest) := by
  have hplaces : (0 : Int) - ([] : List Char).length = -(0 : Nat) := rfl
  rw [readMagnitude_of_parts (readDigits_decimal n h) (not_padded_decimal n) h.readFraction
    h.readExponent hplaces, List.append_nil, Nat.ofDigitChars_ten_toDigits]

theorem ne_of_isDigit {c d : Char} (hc : c.isDigit = true) (hd : d.isDigit = false) : c ≠ d := by
  rintro rfl
  exact Bool.false_ne_true (hd.symm.trans hc)

theorem readNumber_decimal (n : Nat) (h : Stops rest) :
    readNumber (Nat.toDigits 10 n ++ rest) = some (.number n 0, rest) := by
  unfold readNumber
  split
  case h_1 tail hminus =>
    cases hdigits : Nat.toDigits 10 n with
    | nil => exact absurd hdigits Nat.toDigits_ne_nil
    | cons c cs =>
      rw [hdigits] at hminus
      cases hminus
      exact absurd (isDigit_decimal n '-' (by simp [hdigits])) (by decide)
  case h_2 =>
    rw [readMagnitude_decimal n h]
    rfl

theorem spells_decimal (n : Nat) : Spells 1 (toString n) (.number n 0) := by
  intro depth hdepth rest hrest
  obtain ⟨depth, rfl⟩ := Nat.exists_eq_add_of_le' hdepth
  have hread := readNumber_decimal n hrest
  rw [Nat.toString_eq_ofList_toDigits, String.toList_ofList]
  -- A digit begins no other value.
  cases hdigits : Nat.toDigits 10 n with
  | nil => exact absurd hdigits Nat.toDigits_ne_nil
  | cons c cs =>
    have hc : c.isDigit = true := isDigit_decimal n c (by simp [hdigits])
    have hblank : isBlank c = false := by
      simp [isBlank, ne_of_isDigit hc]
    rw [hdigits, List.cons_append] at hread
    rw [List.cons_append, readValue, skipBlanks_cons hblank]
    split
    case h_7 => exact hread
    all_goals
      rename_i hhead
      exact absurd hc (by rw [List.head_eq_of_cons_eq hhead]; decide)

theorem spells_null : Spells 1 "null" .null := by
  intro n hn rest _
  obtain ⟨depth, rfl⟩ := Nat.exists_eq_add_of_le' hn
  rfl

end Numbers

section Blocks

variable {item : Reader α} {close : Char}

structure Closes (close : Char) (item : Reader α) : Prop where
  notBlank : isBlank close = false
  notComma : ',' ≠ close
  stops : close.isDigit = false ∧ close ≠ '.' ∧ close ≠ 'e' ∧ close ≠ 'E'
  refused : ∀ s, (skipBlanks s).head? = some close → item s = none

def PassesBlanks (item : Reader α) : Prop :=
  ∀ {text : String}, Blank text → ∀ s, item (text.toList ++ s) = item s

theorem readItems_append (hitem : PassesBlanks item) (hgap : Blank gap) (count : Nat)
    (s : List Char) : readItems item close count (gap.toList ++ s) = readItems item close count s := by
  cases count with
  | zero => rfl
  | succ count => rw [readItems, hitem hgap, readItems]

theorem readItems_none {s : List Char} (h : item s = none) (count : Nat) :
    readItems item close count s = none := by
  cases count with
  | zero => rfl
  | succ count =>
    rw [readItems, h]
    rfl

variable {values : List α}

theorem readItems_intercalate (hclose : Closes close item) (hitem : PassesBlanks item)
    (hgap : Blank gap) (hlast : Blank last)
    (h : List.Forall₂ (Takes item) texts values) (hne : texts ≠ []) (rest : List Char)
    {count : Nat} (hcount : texts.length ≤ count) :
    readItems item close count
      ((("," ++ gap).intercalate texts).toList ++ (last.toList ++ close :: rest)) =
        some (values, rest) := by
  induction h generalizing count with
  | nil => exact absurd rfl hne
  | @cons text value texts values hfirst hothers ih =>
    obtain ⟨count, rfl⟩ := Nat.exists_eq_add_of_le' (Nat.le_trans (Nat.succ_pos _) hcount)
    cases hothers with
    | nil =>
      rw [String.intercalate_singleton, readItems,
        hfirst _ (stops_append hlast (stops_cons hclose.stops rest))]
      simp only [Option.bind_eq_bind, Option.bind_some, skipBlanks_append hlast,
        skipBlanks_cons hclose.notBlank, if_pos]
    | cons _ _ =>
      have hmore := ih (List.cons_ne_nil _ _) (Nat.le_of_succ_le_succ hcount)
      have hcomma (s : List Char) : ",".toList ++ s = ',' :: s := rfl
      rw [String.intercalate_cons_cons, String.toList_append, String.toList_append,
        String.toList_append, List.append_assoc, List.append_assoc, List.append_assoc, hcomma,
        readItems, hfirst _ (stops_cons (by decide) _)]
      simp only [Option.bind_eq_bind, Option.bind_some, skipBlanks_cons (c := ',') rfl,
        if_neg hclose.notComma, if_pos, readItems_append hitem hgap, hmore]

theorem length_le_intercalate (gap : String) (texts : List String) :
    texts.length ≤ (("," ++ gap).intercalate texts).toList.length + 1 := by
  induction texts with
  | nil => exact Nat.zero_le _
  | cons text texts ih =>
    cases texts with
    | nil => exact Nat.succ_le_succ (Nat.zero_le _)
    | cons next texts =>
      rw [String.intercalate_cons_cons]
      simp only [String.toList_append, List.length_append, List.length_cons] at ih ⊢
      have hcomma : ",".toList.length = 1 := rfl
      omega

theorem readBlock_intercalate (hclose : Closes close item) (hitem : PassesBlanks item)
    (hlead : Blank lead) (hgap : Blank gap) (hlast : Blank last)
    (h : List.Forall₂ (Takes item) texts values) (hne : texts ≠ [])
    (rest : List Char) :
    readBlock item close (lead.toList ++
      ((("," ++ gap).intercalate texts).toList ++ (last.toList ++ close :: rest))) =
        some (values, rest) := by
  have hlength := length_le_intercalate gap texts
  unfold readBlock
  have hread := readItems_intercalate hclose hitem hgap hlast h hne rest <|
    show texts.length ≤ (lead.toList ++
        ((("," ++ gap).intercalate texts).toList ++ (last.toList ++ close :: rest))).length by
      simp only [List.length_append, List.length_cons]
      omega
  rw [← readItems_append hitem hlead] at hread
  split
  case isTrue hhead =>
    rw [readItems_none (hclose.refused _ hhead)] at hread
    cases hread
  case isFalse => exact hread

end Blocks

section Values

theorem passes_readValue (depth : Nat) : PassesBlanks (readValue depth) :=
  fun h s => readValue_append h depth s

theorem passes_readMember (value : Reader Json) : PassesBlanks (readMember value) :=
  fun h s => readMember_append value h s

theorem closes_array (depth : Nat) : Closes ']' (readValue depth) where
  notBlank := rfl
  notComma := by decide
  stops := by decide
  refused s h := by
    cases depth with
    | zero => rfl
    | succ depth =>
      obtain ⟨rest, hs⟩ := List.head?_eq_some_iff.1 h
      rw [readValue, hs]
      rfl

theorem closes_object (value : Reader Json) : Closes '\x7d' (readMember value) where
  notBlank := rfl
  notComma := by decide
  stops := by decide
  refused s h := by
    obtain ⟨rest, hs⟩ := List.head?_eq_some_iff.1 h
    rw [readMember, hs]
    rfl

variable {value : Json}

theorem spells_array {values : List Json} (hlead : Blank lead)
    (hgap : Blank gap) (hlast : Blank last) (h : List.Forall₂ (Spells depth) texts values)
    (hne : texts ≠ []) :
    Spells (depth + 1) ("[" ++ lead ++ ("," ++ gap).intercalate texts ++ last ++ "]")
      (.array values) := by
  intro n hn rest _
  obtain ⟨n, rfl⟩ := Nat.exists_eq_add_of_le' (Nat.le_trans (Nat.succ_pos _) hn)
  have hitems : List.Forall₂ (Takes (readValue n)) texts values :=
    h.imp fun _ _ hspells => hspells n (Nat.le_of_succ_le_succ hn)
  have hread := readBlock_intercalate (closes_array n) (passes_readValue n) hlead hgap hlast hitems
    hne rest
  have hopen (s : List Char) : skipBlanks ("[".toList ++ s) = '[' :: s := skipBlanks_cons rfl s
  have hclose (s : List Char) : "]".toList ++ s = ']' :: s := rfl
  simp only [String.toList_append, List.append_assoc, readValue, hopen, hclose, hread,
    Option.bind_eq_bind, Option.bind_some]

theorem spells_emptyArray (hgap : Blank gap) : Spells 1 ("[" ++ gap ++ "]") (.array []) := by
  intro n hn rest _
  obtain ⟨n, rfl⟩ := Nat.exists_eq_add_of_le' hn
  have hopen (s : List Char) : skipBlanks ("[".toList ++ s) = '[' :: s := skipBlanks_cons rfl s
  have hclose (s : List Char) : skipBlanks ("]".toList ++ s) = ']' :: s := skipBlanks_cons rfl s
  have hblock : readBlock (readValue n) ']' (gap.toList ++ ("]".toList ++ rest)) =
      some ([], rest) := by
    rw [readBlock, skipBlanks_append hgap, hclose]
    rfl
  simp only [String.toList_append, List.append_assoc, readValue, hopen, hblock,
    Option.bind_eq_bind, Option.bind_some]

theorem takes_member (hlead : Blank lead) (hgap : Blank gap)
    (h : Spells depth text value) (key : String) (n : Nat) (hn : depth ≤ n) :
    Takes (readMember (readValue n)) (lead ++ Text.quote key ++ ":" ++ gap ++ text)
      (key, value) := by
  intro rest hrest
  have hcolon (s : List Char) : skipBlanks (":".toList ++ s) = ':' :: s := skipBlanks_cons rfl s
  simp only [String.toList_append, List.append_assoc]
  rw [readMember_append _ hlead, toList_quote, readMember, skipBlanks_cons rfl]
  simp only [readCharacters_quoted, Option.bind_eq_bind, Option.bind_some, hcolon,
    readValue_append hgap, h n hn rest hrest, String.ofList_toList]

theorem spells_object {members : List (String × Json)} (hlead : Blank lead)
    (hgap : Blank gap) (hlast : Blank last)
    (h : List.Forall₂ (fun text member => ∀ n, depth ≤ n →
      Takes (readMember (readValue n)) text member) texts members) (hne : texts ≠ []) :
    Spells (depth + 1) ("\x7b" ++ lead ++ ("," ++ gap).intercalate texts ++ last ++ "\x7d")
      (.object members) := by
  intro n hn rest _
  obtain ⟨n, rfl⟩ := Nat.exists_eq_add_of_le' (Nat.le_trans (Nat.succ_pos _) hn)
  have hitems : List.Forall₂ (Takes (readMember (readValue n))) texts members :=
    h.imp fun _ _ htakes => htakes n (Nat.le_of_succ_le_succ hn)
  have hread := readBlock_intercalate (closes_object (readValue n)) (passes_readMember _) hlead hgap
    hlast hitems hne rest
  have hopen (s : List Char) : skipBlanks ("\x7b".toList ++ s) = '\x7b' :: s := skipBlanks_cons rfl s
  have hclose (s : List Char) : "\x7d".toList ++ s = '\x7d' :: s := rfl
  simp only [String.toList_append, List.append_assoc, readValue, hopen, hclose, hread,
    Option.bind_eq_bind, Option.bind_some]

theorem parse_of_spells (h : Spells depth text value) (hlast : Blank last)
    (hdepth : depth ≤ (text ++ last).length) : parse (text ++ last) = some value := by
  have hblank : skipBlanks last.toList = [] := by
    have hskip := skipBlanks_append hlast []
    rwa [List.append_nil] at hskip
  have hstops : Stops last.toList := by
    have hs := stops_append hlast (s := []) (nofun)
    rwa [List.append_nil] at hs
  have hread := h _ hdepth last.toList hstops
  rw [parse, String.toList_append, hread]
  simp [hblank]

end Values

end ComputeKernel.Json
