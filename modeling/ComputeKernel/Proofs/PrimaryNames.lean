import ComputeKernel.Code.Line
import ComputeKernel.Proofs.PlainTyping
import ComputeKernel.Proofs.SpelledDecimals
import ComputeKernel.Proofs.Vocabulary

namespace ComputeKernel

namespace Lexeme

def isWordChar (c : Char) : Bool := c.isAlphanum || c == '_'

def Identifier (cs : List Char) : Prop :=
  (∃ c, cs.head? = some c ∧ c.isDigit = false) ∧ ∀ c ∈ cs, isWordChar c = true

def Digits (cs : List Char) : Prop := cs ≠ [] ∧ ∀ c ∈ cs, c.isDigit = true

def Whole (cs : List Char) : Prop := ∃ digits, Digits digits ∧ (cs = digits ∨ cs = '-' :: digits)

def Number (cs : List Char) : Prop :=
  ∃ whole fraction exponent, cs = whole ++ fraction ++ exponent ∧ Whole whole ∧
    (fraction = [] ∨ ∃ digits, Digits digits ∧ fraction = '.' :: digits) ∧
    (exponent = [] ∨ ∃ power, Whole power ∧ exponent = 'e' :: power)

def Component (cs : List Char) : Prop := cs = "true".toList ∨ cs = "false".toList ∨ Number cs

/-- Names of values that need no brackets around them, whatever operators they stand between. -/
inductive Primary : List Char → Prop
  | word {w : List Char} : Identifier w → Primary w
  | constant {kind : Kind} {rows : Nat} {parts : List (List Char)} :
    Ty.registered kind rows 1 = true → (∀ part ∈ parts, Component part) →
      Primary ((Ty.value kind rows 1).name.toList ++ '(' :: ([',', ' '].intercalate parts ++ [')']))
  | member {p w : List Char} : Primary p → Identifier w → Primary (p ++ '.' :: w)
  | element {p digits : List Char} :
    Primary p → Digits digits → Primary (p ++ '[' :: (digits ++ [']']))
  | elementAt {p q : List Char} : Primary p → Primary q → Primary (p ++ '[' :: (q ++ [']']))

section Scanning

def isOpening (c : Char) : Bool := c == '(' || c == '['

def isClosing (c : Char) : Bool := c == ')' || c == ']'

def isOperatorChar (c : Char) : Bool :=
  ['+', '-', '*', '/', '%', '<', '>', '=', '!', '&', '|', '^', '~'].contains c

-- The depth of brackets after a text, as long as no operator stands outside of all of them.
def scan : Nat → List Char → Option Nat
  | depth, [] => some depth
  | depth, c :: cs =>
    if isOpening c then scan (depth + 1) cs
    else if isClosing c then
      match depth with
      | 0 => none
      | depth + 1 => scan depth cs
    else if depth = 0 ∧ isOperatorChar c then none
    else scan depth cs

theorem scan_append (depth : Nat) (xs ys : List Char) :
    scan depth (xs ++ ys) = (scan depth xs).bind fun depth => scan depth ys := by
  fun_induction scan depth xs <;> simp_all [scan]

theorem scan_lift {depth after : Nat} {cs : List Char} (h : scan depth cs = some after) :
    scan (depth + 1) cs = some (after + 1) := by
  fun_induction scan depth cs <;> simp_all [scan]

theorem scan_unbracketed {cs : List Char} (depth : Nat)
    (h : ∀ c ∈ cs, isOpening c = false ∧ isClosing c = false) : scan (depth + 1) cs = some (depth + 1) := by
  induction cs with
  | nil => rfl
  | cons c cs ih => simp_all [scan]

theorem scan_plain {cs : List Char} (depth : Nat)
    (h : ∀ c ∈ cs, isOpening c = false ∧ isClosing c = false ∧ isOperatorChar c = false) :
    scan depth cs = some depth := by
  induction cs with
  | nil => rfl
  | cons c cs ih => simp_all [scan]

theorem plain_of_isWordChar {c : Char} (h : isWordChar c = true) :
    isOpening c = false ∧ isClosing c = false ∧ isOperatorChar c = false := by
  have distinct {d : Char} (hd : isWordChar d = false) : c ≠ d := by
    rintro rfl
    rw [h] at hd
    cases hd
  simp only [isOpening, isClosing, isOperatorChar, Bool.or_eq_false_iff, beq_eq_false_iff_ne,
    List.contains_eq_mem, decide_eq_false_iff_not, List.mem_cons, not_or, List.not_mem_nil,
    not_false_eq_true, and_true]
  and_intros <;> exact distinct (by decide)

theorem isWordChar_of_isDigit {c : Char} (h : c.isDigit = true) : isWordChar c = true := by
  simp [isWordChar, Char.isAlphanum, h]

theorem Identifier.scan {w : List Char} (h : Identifier w) (depth : Nat) :
    scan depth w = some depth :=
  scan_plain depth fun c hc => plain_of_isWordChar (h.2 c hc)

theorem Digits.scan {digits : List Char} (h : Digits digits) (depth : Nat) :
    scan depth digits = some depth :=
  scan_plain depth fun c hc => plain_of_isWordChar (isWordChar_of_isDigit (h.2 c hc))

def Unbracketed (cs : List Char) : Prop := ∀ c ∈ cs, isOpening c = false ∧ isClosing c = false

theorem unbracketed_of_all {cs : List Char} (h : (cs.all fun c => !isOpening c && !isClosing c) = true) :
    Unbracketed cs := by
  simpa [Unbracketed] using h

theorem Unbracketed.append {xs ys : List Char} (hx : Unbracketed xs) (hy : Unbracketed ys) :
    Unbracketed (xs ++ ys) := fun c hc => (List.mem_append.mp hc).elim (hx c) (hy c)

theorem Unbracketed.cons {c : Char} {cs : List Char} (hc : isOpening c = false ∧ isClosing c = false)
    (h : Unbracketed cs) : Unbracketed (c :: cs) := by
  simpa [Unbracketed, hc] using h

theorem Digits.unbracketed {digits : List Char} (h : Digits digits) : Unbracketed digits := by
  intro c hc
  obtain ⟨hopening, hclosing, -⟩ := plain_of_isWordChar (isWordChar_of_isDigit (h.2 c hc))
  exact ⟨hopening, hclosing⟩

theorem Whole.unbracketed {cs : List Char} (h : Whole cs) : Unbracketed cs := by
  obtain ⟨digits, hdigits, rfl | rfl⟩ := h
  · exact hdigits.unbracketed
  · exact .cons (by decide) hdigits.unbracketed

theorem Component.unbracketed {cs : List Char} (h : Component cs) : Unbracketed cs := by
  rcases h with rfl | rfl | ⟨whole, fraction, exponent, rfl, hwhole, hfraction, hexponent⟩
  · exact unbracketed_of_all (by decide)
  · exact unbracketed_of_all (by decide)
  · refine (hwhole.unbracketed.append ?_).append ?_
    · rcases hfraction with rfl | ⟨digits, hdigits, rfl⟩
      · exact fun _ h => by cases h
      · exact .cons (by decide) hdigits.unbracketed
    · rcases hexponent with rfl | ⟨power, hpower, rfl⟩
      · exact fun _ h => by cases h
      · exact .cons (by decide) hpower.unbracketed

theorem unbracketed_intercalate {parts : List (List Char)} (h : ∀ part ∈ parts, Component part) :
    Unbracketed ([',', ' '].intercalate parts) := by
  induction parts with
  | nil => exact fun _ h => by cases h
  | cons part parts ih =>
    have hpart : Unbracketed part := (h part (by simp)).unbracketed
    have hparts := ih fun part hpart => h part (by simp [hpart])
    cases parts with
    | nil => simpa using hpart
    | cons next parts =>
      rw [List.intercalate_cons_cons]
      exact (hpart.append (.cons (by decide) (.cons (by decide) fun _ h => by cases h))).append hparts

theorem identifier_valueName {kind : Kind} {rows : Nat} (h : Ty.registered kind rows 1 = true) :
    Identifier (Ty.value kind rows 1).name.toList := by
  have hrows : rows = 1 ∨ rows = 2 ∨ rows = 3 ∨ rows = 4 := by
    have hbounds : 1 ≤ rows ∧ rows ≤ kind.maxRows := by simpa [Ty.registered] using h
    cases kind <;> simp only [Kind.maxRows] at hbounds <;> omega
  refine ⟨?_, ?_⟩
  · rcases hrows with rfl | rfl | rfl | rfl <;> cases kind <;> exact ⟨_, rfl, by decide⟩
  · rcases hrows with rfl | rfl | rfl | rfl <;> cases kind <;>
      exact List.all_eq_true.mp (by decide)

theorem scan_bracketed {depth : Nat} {p q : List Char} {opening closing : Char}
    (hp : scan depth p = some depth) (ho : isOpening opening = true)
    (hq : scan (depth + 1) q = some (depth + 1))
    (hc : isOpening closing = false ∧ isClosing closing = true) :
    scan depth (p ++ opening :: (q ++ [closing])) = some depth := by
  have hopen (cs : List Char) : scan depth (opening :: cs) = scan (depth + 1) cs := by
    simp [scan, ho]
  have hclose : scan (depth + 1) [closing] = some depth := by
    simp [scan, hc]
  rw [scan_append, hp, Option.bind_some, hopen, scan_append, hq, Option.bind_some, hclose]

theorem Primary.scan {p : List Char} (h : Primary p) (depth : Nat) : scan depth p = some depth := by
  induction h generalizing depth with
  | word hw => exact hw.scan depth
  | constant hty hparts =>
    exact scan_bracketed ((identifier_valueName hty).scan depth) (by decide)
      (scan_unbracketed depth (unbracketed_intercalate hparts)) (by decide)
  | member _ hw ih =>
    rw [scan_append, ih, Option.bind_some]
    exact scan_plain depth fun c hc => (List.mem_cons.mp hc).elim (fun h => h ▸ by decide)
      fun hc => plain_of_isWordChar (hw.2 c hc)
  | element _ hd ih => exact scan_bracketed (ih depth) (by decide) (hd.scan (depth + 1)) (by decide)
  | elementAt _ _ ihp ihq => exact scan_bracketed (ihp depth) (by decide) (ihq (depth + 1)) (by decide)

theorem Primary.head {p : List Char} (h : Primary p) :
    ∃ c, p.head? = some c ∧ isOperatorChar c = false := by
  have hword {w : List Char} (hw : Identifier w) (rest : List Char) :
      ∃ c, (w ++ rest).head? = some c ∧ isOperatorChar c = false := by
    obtain ⟨⟨c, hc, -⟩, hall⟩ := hw
    refine ⟨c, by rw [List.head?_append, hc, Option.some_or], ?_⟩
    exact (plain_of_isWordChar (hall c (List.mem_of_mem_head? hc))).2.2
  induction h with
  | word hw => simpa using hword hw []
  | constant hty _ => exact hword (identifier_valueName hty) _
  | member _ _ ih | element _ _ ih | elementAt _ _ ih =>
    obtain ⟨c, hc, hop⟩ := ih
    exact ⟨c, by rw [List.head?_append, hc, Option.some_or], hop⟩

def OperatorNext (rest : List Char) : Prop := ∀ c, rest.head? = some c → isOperatorChar c = true

theorem scan_operator {c : Char} {cs : List Char} (h : isOperatorChar c = true) :
    scan 0 (c :: cs) = none := by
  have hopening : isOpening c = false := by
    cases hc : isOpening c with
    | false => rfl
    | true =>
      rcases (by simpa [isOpening] using hc : c = '(' ∨ c = '[') with rfl | rfl <;> cases h
  cases hc : isClosing c <;> simp [scan, hopening, hc, h]

theorem eq_nil_of_scan {p x rest : List Char} (hp : scan 0 p = some 0) (hx : scan 0 (p ++ x) = some 0)
    (h : OperatorNext (x ++ rest)) : x = [] := by
  cases x with
  | nil => rfl
  | cons c x =>
    rw [scan_append, hp, Option.bind_some, scan_operator (h c rfl)] at hx
    cases hx

-- A primary ends where the first operator outside of brackets stands.
theorem primary_unique {p q rest rest' : List Char} (hp : Primary p) (hq : Primary q)
    (hrest : OperatorNext rest) (hrest' : OperatorNext rest') (h : p ++ rest = q ++ rest') :
    p = q ∧ rest = rest' := by
  obtain ⟨x, rfl, rfl⟩ | ⟨x, rfl, rfl⟩ := List.append_eq_append_iff.mp h
  · obtain rfl := eq_nil_of_scan (hp.scan 0) (hq.scan 0) hrest
    simp
  · obtain rfl := eq_nil_of_scan (hq.scan 0) (hp.scan 0) hrest'
    simp

theorem segment_unique {ops ops' p q rest rest' : List Char}
    (hops : ∀ c ∈ ops, isOperatorChar c = true) (hops' : ∀ c ∈ ops', isOperatorChar c = true)
    (hp : Primary p) (hq : Primary q) (hrest : OperatorNext rest) (hrest' : OperatorNext rest')
    (h : ops ++ (p ++ rest) = ops' ++ (q ++ rest')) : ops = ops' ∧ p = q ∧ rest = rest' := by
  have longest {ops p : List Char} (rest : List Char) (hops : ∀ c ∈ ops, isOperatorChar c = true)
      (hp : Primary p) : (ops ++ (p ++ rest)).takeWhile isOperatorChar = ops := by
    obtain ⟨c, hc, hop⟩ := hp.head
    obtain ⟨cs, rfl⟩ := List.head?_eq_some_iff.mp hc
    simp [List.takeWhile_append_of_pos hops, hop]
  have heq : ops = ops' := by
    rw [← longest rest hops hp, h, longest rest' hops' hq]
  subst heq
  exact ⟨rfl, primary_unique hp hq hrest hrest' (List.append_cancel_left h)⟩

-- The bracket that opens the index cannot be one inside of a longer name.
theorem eq_of_bracket {p q x q' : List Char} (hp : scan 0 p = some 0) (hq : scan 0 q = some 0)
    (hp' : scan 0 (p ++ x) = some 0) (h : '[' :: q = x ++ '[' :: q') : x = [] ∧ q = q' := by
  cases x with
  | nil => exact ⟨rfl, (List.cons.inj h).2⟩
  | cons c x =>
    obtain ⟨rfl, rfl⟩ := List.cons.inj h
    obtain ⟨depth, hx, -⟩ := Option.bind_eq_some_iff.mp ((scan_append 0 x _).symm.trans hq)
    have hopen : scan 0 ('[' :: x) = scan 1 x := by simp [scan, isOpening]
    rw [scan_append, hp, Option.bind_some, hopen, scan_lift hx] at hp'
    cases hp'

theorem index_unique {p q p' q' : List Char} (hp : scan 0 p = some 0) (hq : scan 0 q = some 0)
    (hp' : scan 0 p' = some 0) (hq' : scan 0 q' = some 0)
    (h : p ++ '[' :: (q ++ [']']) = p' ++ '[' :: (q' ++ [']'])) : p = p' ∧ q = q' := by
  have hclosed : (p ++ '[' :: q) ++ [']'] = (p' ++ '[' :: q') ++ [']'] := by simpa using h
  obtain ⟨x, rfl, hrest⟩ | ⟨x, rfl, hrest⟩ := List.append_eq_append_iff.mp (List.append_cancel_right hclosed)
  · obtain ⟨rfl, rfl⟩ := eq_of_bracket hp hq hp' hrest
    simp
  · obtain ⟨rfl, rfl⟩ := eq_of_bracket hp' hq' hp hrest
    simp

end Scanning

end Lexeme

open Lexeme

def Op.isLeading : Op → Bool
  | .add | .sub | .not | .bitNot => true
  | _ => false

inductive Tree where
  | leaf (name : List Char)
  | unary (op : Op) (operand : Tree)
  | binary (op : Op) (lhs rhs : Tree)

namespace Tree

def text : Tree → List Char
  | .leaf name => name
  | .unary op t => op.symbol.toList ++ t.text
  | .binary op l r => l.text ++ (op.symbol.toList ++ r.text)

def Proper : Tree → Prop
  | .leaf name => Primary name
  | .unary op t => op.isLeading = true ∧ t.Proper
  | .binary _ l r => l.Proper ∧ r.Proper

def Parses (t : Tree) (cs : List Char) : Prop := t.Proper ∧ t.text = cs

theorem symbol_operator (op : Op) :
    op.symbol.toList ≠ [] ∧ ∀ c ∈ op.symbol.toList, isOperatorChar c = true := by
  cases op <;> exact ⟨by decide, List.all_eq_true.mp (by decide)⟩

def isLeadingChar (c : Char) : Bool := ['+', '-', '!', '~'].contains c

theorem operator_of_leading {c : Char} (h : isLeadingChar c = true) : isOperatorChar c = true := by
  have hall : ['+', '-', '!', '~'].all isOperatorChar = true := by decide
  exact List.all_eq_true.mp hall c (by simpa [isLeadingChar] using h)

theorem symbol_leading {op : Op} (h : op.isLeading = true) :
    ∀ c ∈ op.symbol.toList, isLeadingChar c = true := by
  cases op <;> first | exact List.all_eq_true.mp (by decide) | cases h

theorem symbol_tail (op : Op) : ∀ c ∈ op.symbol.toList.tail, isLeadingChar c = false := by
  have hall : (op.symbol.toList.tail.all fun c => !isLeadingChar c) = true := by
    cases op <;> decide
  simpa using hall

theorem ofSymbol_symbol (op : Op) : Op.ofSymbol? op.symbol = some op := by
  cases op <;> decide

-- An operator that may stand before an operand never ends another one.
theorem symbol_split {op op' : Op} {ops : List Char} (hops : ∀ c ∈ ops, isLeadingChar c = true)
    (h : op.symbol.toList ++ ops = op'.symbol.toList) : op = op' ∧ ops = [] := by
  obtain ⟨o, os, ho⟩ := List.exists_cons_of_ne_nil (symbol_operator op).1
  have hnil : ops = [] := by
    refine List.eq_nil_iff_forall_not_mem.mpr fun c hc => ?_
    have hfalse := symbol_tail op' c (by simp [← h, ho, hc])
    rw [hops c hc] at hfalse
    cases hfalse
  subst hnil
  have hsymbol : op.symbol = op'.symbol := String.toList_inj.mp (by simpa using h)
  refine ⟨Option.some.inj ?_, rfl⟩
  rw [← ofSymbol_symbol, ← ofSymbol_symbol, hsymbol]

-- How a text begins: operators before the first name, that name, and what follows it.
structure Opens (t : Tree) (ops name rest : List Char) : Prop where
  text : t.text = ops ++ (name ++ rest)
  leading : ∀ c ∈ ops, isLeadingChar c = true
  primary : Primary name
  single : rest = [] → ops = [] → t = .leaf name
  next : rest ≠ [] → ∃ more other rest', rest = more ++ (other ++ rest') ∧ more ≠ [] ∧
    (∀ c ∈ more, isOperatorChar c = true) ∧ Primary other ∧ OperatorNext rest'

variable {t l r : Tree} {op : Op} {ops name rest a b : List Char}

theorem operatorNext_append {cs : List Char} (hne : cs ≠ [])
    (h : ∀ c ∈ cs, isOperatorChar c = true) (rest : List Char) : OperatorNext (cs ++ rest) := by
  obtain ⟨c, cs, rfl⟩ := List.exists_cons_of_ne_nil hne
  intro d hd
  obtain rfl : c = d := by simpa using hd
  exact h c (by simp)

theorem operatorNext_nil : OperatorNext [] := fun _ h => by cases h

theorem noOperators : ∀ c ∈ ([] : List Char), isOperatorChar c = true := fun _ h => by cases h

theorem operatorNext_symbol (h : OperatorNext rest) (op : Op) (cs : List Char) :
    OperatorNext (rest ++ (op.symbol.toList ++ cs)) := by
  cases rest with
  | nil => exact operatorNext_append (symbol_operator op).1 (symbol_operator op).2 cs
  | cons c rest => exact fun d hd => h d hd

theorem Opens.operators (h : t.Opens ops name rest) : ∀ c ∈ ops, isOperatorChar c = true :=
  fun c hc => operator_of_leading (h.leading c hc)

theorem Opens.operatorNext (h : t.Opens ops name rest) : OperatorNext rest := by
  by_cases hrest : rest = []
  · exact hrest ▸ operatorNext_nil
  · obtain ⟨more, other, rest', rfl, hne, hmore, -⟩ := h.next hrest
    exact operatorNext_append hne hmore _

theorem Proper.opens (h : t.Proper) : ∃ ops name rest, t.Opens ops name rest := by
  induction t with
  | leaf name =>
    exact ⟨[], name, [], by simp [text], by simp, h, fun _ _ => rfl, fun h => absurd rfl h⟩
  | unary op t ih =>
    obtain ⟨ops, name, rest, ht⟩ := ih h.2
    refine ⟨op.symbol.toList ++ ops, name, rest, ?_, ?_, ht.primary, ?_, ht.next⟩
    · rw [text, ht.text, List.append_assoc]
    · exact fun c hc => (List.mem_append.mp hc).elim (symbol_leading h.1 c) (ht.leading c)
    · exact fun _ hnil => absurd (List.append_eq_nil_iff.mp hnil).1 (symbol_operator op).1
  | binary op l r ihl ihr =>
    obtain ⟨ops, name, rest, hl⟩ := ihl h.1
    obtain ⟨ops', name', rest', hr⟩ := ihr h.2
    refine ⟨ops, name, rest ++ (op.symbol.toList ++ r.text), ?_, hl.leading, hl.primary, ?_, ?_⟩
    · rw [text, hl.text, List.append_assoc, List.append_assoc]
    · intro hnil
      simp [(symbol_operator op).1] at hnil
    · intro _
      by_cases hrest : rest = []
      · refine ⟨op.symbol.toList ++ ops', name', rest', ?_, ?_, ?_, hr.primary, hr.operatorNext⟩
        · rw [hrest, hr.text, List.nil_append, List.append_assoc]
        · simp [(symbol_operator op).1]
        · exact fun c hc => (List.mem_append.mp hc).elim ((symbol_operator op).2 c) (hr.operators c)
      · obtain ⟨more, other, rest₂, rfl, hne, hmore, hother, hnext⟩ := hl.next hrest
        exact ⟨more, other, rest₂ ++ (op.symbol.toList ++ r.text), by simp, hne, hmore, hother,
          operatorNext_symbol hnext op _⟩

theorem parses_unary_iff (hop : op.isLeading = true) (ha : Primary a) (t : Tree) :
    t.Parses (op.symbol.toList ++ a) ↔ t = .unary op (.leaf a) := by
  refine ⟨fun ⟨h, htext⟩ => ?_, fun h => h ▸ ⟨⟨hop, ha⟩, rfl⟩⟩
  have hsymbol := (symbol_operator op).2
  rw [← List.append_nil a] at htext
  cases t with
  | leaf name =>
    obtain ⟨hnil, -⟩ := segment_unique hsymbol noOperators ha h operatorNext_nil operatorNext_nil
      (by simpa [text] using htext.symm)
    exact absurd hnil (symbol_operator op).1
  | unary op' t =>
    obtain ⟨ops, name, rest, ht⟩ := h.2.opens
    rw [text, ht.text, ← List.append_assoc] at htext
    obtain ⟨hops, rfl, rfl⟩ := segment_unique (fun c hc => (List.mem_append.mp hc).elim
      ((symbol_operator op').2 c) (ht.operators c)) hsymbol ht.primary ha ht.operatorNext
      operatorNext_nil htext
    obtain ⟨rfl, rfl⟩ := symbol_split ht.leading hops
    rw [ht.single rfl rfl]
  | binary op' l r =>
    obtain ⟨ops, name, rest, hl⟩ := h.1.opens
    rw [text, hl.text, List.append_assoc, List.append_assoc] at htext
    obtain ⟨-, -, hnil⟩ := segment_unique hl.operators hsymbol hl.primary ha
      (operatorNext_symbol hl.operatorNext op' _) operatorNext_nil htext
    simp [(symbol_operator op').1] at hnil

theorem parses_binary_iff (ha : Primary a) (hb : Primary b) (t : Tree) :
    t.Parses (a ++ (op.symbol.toList ++ b)) ↔ t = .binary op (.leaf a) (.leaf b) := by
  refine ⟨fun ⟨h, htext⟩ => ?_, fun h => h ▸ ⟨⟨ha, hb⟩, rfl⟩⟩
  have hsymbol := (symbol_operator op).2
  have hnext := operatorNext_symbol operatorNext_nil op b
  rw [← List.nil_append (a ++ _)] at htext
  cases t with
  | leaf name =>
    obtain ⟨-, -, hnil⟩ := segment_unique noOperators noOperators h ha operatorNext_nil hnext
      (by simpa [text] using htext)
    simp [(symbol_operator op).1] at hnil
  | unary op' t =>
    obtain ⟨ops, name, rest, ht⟩ := h.2.opens
    rw [text, ht.text, ← List.append_assoc] at htext
    obtain ⟨hnil, -⟩ := segment_unique (fun c hc => (List.mem_append.mp hc).elim
      ((symbol_operator op').2 c) (ht.operators c)) noOperators ht.primary ha ht.operatorNext
      hnext htext
    simp [(symbol_operator op').1] at hnil
  | binary op' l r =>
    obtain ⟨ops, name, rest, hl⟩ := h.1.opens
    obtain ⟨ops', name', rest', hr⟩ := h.2.opens
    rw [text, hl.text, List.append_assoc, List.append_assoc] at htext
    obtain ⟨rfl, rfl, hafter⟩ := segment_unique hl.operators noOperators hl.primary ha
      (operatorNext_symbol hl.operatorNext op' _) hnext htext
    rw [← List.append_nil b] at hafter
    by_cases hrest : rest = []
    · subst hrest
      rw [hr.text, List.nil_append, ← List.append_assoc] at hafter
      obtain ⟨hops, rfl, rfl⟩ := segment_unique (fun c hc => (List.mem_append.mp hc).elim
        ((symbol_operator op').2 c) (hr.operators c)) hsymbol hr.primary hb hr.operatorNext
        operatorNext_nil hafter
      obtain ⟨rfl, rfl⟩ := symbol_split hr.leading hops
      rw [hr.single rfl rfl, hl.single rfl rfl]
    · obtain ⟨more, other, rest₂, rfl, hne, hmore, hother, hnext₂⟩ := hl.next hrest
      rw [List.append_assoc, List.append_assoc] at hafter
      obtain ⟨-, -, hnil⟩ := segment_unique hmore hsymbol hother hb (operatorNext_symbol hnext₂ op' _)
        operatorNext_nil hafter
      simp [(symbol_operator op').1] at hnil

end Tree

section Texts

theorem digits_decimal (n : Nat) : Digits (Nat.toDigits 10 n) :=
  ⟨Nat.toDigits_ne_nil, Json.isDigit_decimal n⟩

theorem digits_toString (n : Nat) : Digits (toString n).toList := by
  simpa using digits_decimal n

theorem whole_toString (n : Int) : Whole (toString n).toList := by
  cases n with
  | ofNat m => exact ⟨Nat.toDigits 10 m, digits_decimal m, .inl (by simp [Int.repr_eq_if])⟩
  | negSucc m =>
    exact ⟨Nat.toDigits 10 (m + 1), digits_decimal (m + 1), .inr (by simp [Int.repr_eq_if])⟩

theorem Lexeme.Whole.number {cs : List Char} (h : Whole cs) : Number cs :=
  ⟨cs, [], [], by simp, h, .inl rfl, .inl rfl⟩

theorem whole_sign (d : Decimal) {digits : List Char} (h : Digits digits) :
    Whole (d.sign.toList ++ digits) := by
  unfold Decimal.sign
  split
  · exact ⟨digits, h, .inr rfl⟩
  · exact ⟨digits, h, .inl rfl⟩

theorem number_fixed (d : Decimal) (h : 0 < d.places) : Number d.fixed.toList := by
  have hplaces : Digits (lastDigits d.places d.digits) := by
    refine ⟨fun hnil => ?_, isDigit_lastDigits _ _⟩
    rw [← length_lastDigits d.places d.digits, hnil] at h
    cases h
  refine ⟨_, _, [], ?_, whole_sign d (digits_decimal (d.digits / 10 ^ d.places)),
    .inr ⟨_, hplaces, rfl⟩, .inl rfl⟩
  rw [d.toList_fixed]
  simp

theorem number_scientific (d : Decimal) : Number d.scientific.toList := by
  cases hdigits : Nat.toDigits 10 d.digits with
  | nil => exact absurd hdigits Nat.toDigits_ne_nil
  | cons first rest =>
    have hall : ∀ c ∈ first :: rest, c.isDigit = true := hdigits ▸ Json.isDigit_decimal d.digits
    have hfirst : Digits [first] := ⟨by simp, by simpa using hall first (by simp)⟩
    refine ⟨_, Decimal.pointed rest, _, ?_, whole_sign d hfirst, ?_,
      .inr ⟨_, whole_toString ((rest.length : Int) - d.places), rfl⟩⟩
    · rw [d.toList_scientific hdigits]
      simp
    · unfold Decimal.pointed
      split
      · exact .inl rfl
      · exact .inr ⟨rest, ⟨‹_›, fun c hc => hall c (by simp [hc])⟩, rfl⟩

theorem number_spelling (x : Binary32) : Number x.spelling.toList := by
  unfold Binary32.spelling
  split
  · exact number_scientific _
  · exact number_fixed _ (Nat.succ_pos 5)

theorem component_of_componentTexts {l : Literal} {parts : List String}
    (h : l.componentTexts = .ok parts) : ∀ part ∈ parts, Component part.toList := by
  have hfloats {xs : List Binary32} (h : xs.mapM Literal.floatText = .ok parts) :
      ∀ part ∈ parts, Component part.toList := by
    have hgives : Vocabulary.any.Gives (fun parts => ∀ part ∈ parts, Component part.toList)
        (xs.mapM Literal.floatText) := Vocabulary.gives_mapM fun x _ => Vocabulary.gives_ite
          (fun _ => .inr (.inr (number_spelling x))) fun _ _ => trivial
    rwa [h] at hgives
  cases l with
  | f16 xs | f32 xs => exact hfloats h
  | i32 xs =>
    obtain rfl := Except.ok.inj h
    simp only [List.forall_mem_map]
    exact fun x _ => .inr (.inr (whole_toString x.toInt).number)
  | u32 xs =>
    obtain rfl := Except.ok.inj h
    simp only [List.forall_mem_map]
    exact fun x _ => .inr (.inr (Whole.number ⟨_, digits_toString x.toNat, .inl rfl⟩))
  | bool xs =>
    obtain rfl := Except.ok.inj h
    simp only [List.forall_mem_map]
    intro x _
    cases x
    · exact .inr (.inl rfl)
    · exact .inl rfl

theorem primary_literal {l : Literal} {text : String} (h : l.text = .ok text) :
    Primary text.toList := by
  obtain ⟨parts, hparts, hrest⟩ := exists_of_bind h
  obtain ⟨ty, hty, htext⟩ := exists_of_bind hrest
  obtain rfl := Except.ok.inj htext
  unfold Literal.ty Ty.vector Ty.ofShape at hty
  split at hty
  · obtain rfl := Except.ok.inj hty
    have hcomponents : ∀ part ∈ parts.map String.toList, Component part := by
      simpa using component_of_componentTexts hparts
    have hprimary := Primary.constant ‹_› hcomponents
    simpa [String.toList_intercalate] using hprimary
  · cases hty

theorem primary_temp (id : Nat) : Primary (Spelling.temp id).text.toList := by
  have hdigits : ∀ c ∈ (toString id).toList, isWordChar c = true := fun c hc =>
    isWordChar_of_isDigit ((digits_toString id).2 c hc)
  refine .word ⟨⟨'t', by simp [Spelling.text], by decide⟩, ?_⟩
  rw [Spelling.text, String.toList_append, List.forall_mem_append]
  exact ⟨List.all_eq_true.mp (by decide), hdigits⟩

end Texts

end ComputeKernel
