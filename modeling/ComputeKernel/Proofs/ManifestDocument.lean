import ComputeKernel.Json.Manifest
import ComputeKernel.Proofs.JsonReading
import ComputeKernel.Proofs.ManifestText

namespace ComputeKernel

open Json

namespace ManifestEntry

def extentValue : Extent → Json
  | .unbounded => .string "unbounded"
  | .fixed n => .ofWord n

def fields (e : ManifestEntry) : List (String × Json) :=
  [("name", .string e.name),
    ("type", .string e.typeName),
    ("kind", .string e.kind.word),
    ("dim", .string e.dim.word),
    ("access", .string e.access.word),
    ("elem", .ofOption .string e.elem),
    ("array", .ofOption extentValue e.array),
    ("register", .ofOption .ofWord e.register),
    ("space", .ofOption .ofWord e.space),
    ("letter", .string e.letter.toString)]

def document (e : ManifestEntry) : Json := .object e.fields

def worded? {α : Type} (choices : List α) (word : α → String) (j : Json) : Option α :=
  j.string?.bind fun w => choices.find? (word · == w)

def extentOf? : Json → Option Extent
  | .string "unbounded" => some .unbounded
  | j => j.word?.map .fixed

def ofDocument? (j : Json) : Option ManifestEntry := do
  let [name, typeName, kind, dim, access, elem, array, register, space, letter] ←
    j.record? ["name", "type", "kind", "dim", "access", "elem", "array", "register", "space",
      "letter"] | none
  return {
    name := ← required? Json.string? name
    typeName := ← required? Json.string? typeName
    kind := ← required?
      (worded? [.texture, .buffer, .constant, .sampler, .tlas] ResourceKind.word) kind
    dim := ← required? (worded? [.d1, .d2, .d3, .d1Array, .d2Array] Dim.word) dim
    access := ← required? (worded? [.read, .readWrite] Access.word) access
    elem := ← required? (option? Json.string?) elem
    array := ← required? (option? extentOf?) array
    register := ← required? (option? Json.word?) register
    space := ← required? (option? Json.word?) space
    letter := ← required? Json.char? letter }

end ManifestEntry

namespace Manifest

def document (m : Manifest) : Json :=
  .object
    [("group_size", m.groupSize.toJson), ("resources", .array (m.entries.map ManifestEntry.document))]

def ofDocument? (j : Json) : Option Manifest := do
  let [groupSize, resources] ← j.record? ["group_size", "resources"] | none
  return {
    groupSize := ← required? GroupSize.ofJson? groupSize
    entries := ← required? (Json.list? ManifestEntry.ofDocument?) resources }

end Manifest

section Decoding

theorem word?_ofWord (n : UInt32) : (Json.ofWord n).word? = some n := by
  change (if n.toNat < UInt32.size then some n.toNat.toUInt32 else none) = some n
  rw [if_pos n.toNat_lt]
  exact congrArg some UInt32.ofNat_toNat

variable {α : Type} {write : α → Json} {read : Json → Option α}

theorem option?_ofOption (a : Option α) (h : ∀ a, read (write a) = some a)
    (hnull : ∀ a, write a ≠ .null) : option? read (.ofOption write a) = some a := by
  cases a with
  | none => rfl
  | some a =>
    have hread : option? read (write a) = (read (write a)).map some := by
      unfold option?
      split
      · rename_i hwrite
        exact absurd hwrite (hnull a)
      · rfl
    rw [Json.ofOption, hread, h]
    rfl

theorem option?_string (text : Option String) :
    option? Json.string? (.ofOption .string text) = some text :=
  option?_ofOption text (fun _ => rfl) nofun

theorem option?_word (n : Option UInt32) : option? Json.word? (.ofOption .ofWord n) = some n :=
  option?_ofOption n word?_ofWord nofun

theorem char?_singleton (c : Char) : (Json.string (String.singleton c)).char? = some c := by
  simp [Json.char?]

theorem list?_map (h : ∀ a, read (write a) = some a) (items : List α) :
    Json.list? read (.array (items.map write)) = some items := by
  change (items.map write).mapM read = some items
  induction items with
  | nil => rfl
  | cons a items ih =>
    rw [List.map_cons, List.mapM_cons, h, ih]
    rfl

namespace ManifestEntry

theorem extentOf?_extent (extent : Extent) : extentOf? (extentValue extent) = some extent := by
  cases extent with
  | unbounded => rfl
  | fixed n =>
    change (Json.ofWord n).word?.map Extent.fixed = some (.fixed n)
    rw [word?_ofWord]
    rfl

theorem option?_extent (extent : Option Extent) :
    option? extentOf? (.ofOption extentValue extent) = some extent :=
  option?_ofOption extent extentOf?_extent fun extent h => by cases extent <;> cases h

theorem ofDocument?_document (e : ManifestEntry) : ofDocument? e.document = some e := by
  have hkind : worded? [.texture, .buffer, .constant, .sampler, .tlas] ResourceKind.word
      (.string e.kind.word) = some e.kind := by cases e.kind <;> decide
  have hdim : worded? [.d1, .d2, .d3, .d1Array, .d2Array] Dim.word (.string e.dim.word) =
      some e.dim := by cases e.dim <;> decide
  have haccess : worded? [.read, .readWrite] Access.word (.string e.access.word) =
      some e.access := by cases e.access <;> decide
  simp only [ofDocument?, document, record?, fields, List.map_cons, List.map_nil]
  simp [List.lookup_cons, required?, Json.string?, hkind, hdim, haccess, option?_string, option?_word,
    option?_extent, char?_singleton]

end ManifestEntry

theorem GroupSize.ofJson?_toJson (g : GroupSize) : ofJson? g.toJson = some g := by
  simp [ofJson?, toJson, word?_ofWord]

theorem Manifest.ofDocument?_document (m : Manifest) : ofDocument? m.document = some m := by
  simp only [ofDocument?, document, record?, List.map_cons, List.map_nil]
  simp [List.lookup_cons, required?, GroupSize.ofJson?_toJson,
    list?_map ManifestEntry.ofDocument?_document]

end Decoding

theorem spells_optional {α : Type} {text : α → String} {value : α → Json}
    (h : ∀ a, Spells 1 (text a) (value a)) (a : Option α) :
    Spells 1 (Manifest.optional text a) (.ofOption value a) := by
  cases a with
  | none => exact spells_null
  | some a => exact h a

theorem spells_word (n : UInt32) : Spells 1 (toString n.toNat) (.ofWord n) := spells_decimal n.toNat

theorem spells_extent (extent : Extent) :
    Spells 1 (Manifest.extentJson extent) (ManifestEntry.extentValue extent) := by
  cases extent with
  | unbounded => exact spells_quote "unbounded"
  | fixed n => exact spells_word n

theorem spells_groupSize (g : GroupSize) : Spells 2 ("[" ++ g.text ++ "]") g.toJson := by
  have hitems : List.Forall₂ (Spells 1) [toString g.x.toNat, toString g.y.toNat, toString g.z.toNat]
      [.ofWord g.x, .ofWord g.y, .ofWord g.z] :=
    .cons (spells_word g.x) (.cons (spells_word g.y) (.cons (spells_word g.z) .nil))
  have hspells := spells_array (show Blank "" by decide) (show Blank " " by decide)
    (show Blank "" by decide) hitems (List.cons_ne_nil _ _)
  have htext : "[" ++ "" ++ ("," ++ " ").intercalate
      [toString g.x.toNat, toString g.y.toNat, toString g.z.toNat] ++ "" ++ "]" =
        "[" ++ g.text ++ "]" := by
    simp [GroupSize.text, String.intercalate_cons_cons, String.append_assoc]
  rwa [htext] at hspells

theorem takes_field {text : String} {value : Json} (h : Spells 1 text value) (key : String)
    (hkey : Text.quote key = "\"" ++ key ++ "\"") (n : Nat) (hn : 1 ≤ n) :
    Takes (readMember (readValue n)) ("      \"" ++ key ++ "\": " ++ text) (key, value) := by
  have htakes := takes_member (show Blank "      " by decide) (show Blank " " by decide) h key n hn
  have htext : "      " ++ Text.quote key ++ ":" ++ " " ++ text =
      "      \"" ++ key ++ "\": " ++ text := by
    rw [hkey, ← String.toList_inj]
    simp
  rwa [htext] at htakes

theorem takes_fields (e : ManifestEntry) (hletter : Text.escapeChar e.letter = [e.letter]) :
    List.Forall₂ (fun text field => ∀ n, 1 ≤ n → Takes (readMember (readValue n)) text field)
      ((Manifest.members e).map fun (key, value) => "      \"" ++ key ++ "\": " ++ value)
      e.fields :=
  .cons (takes_field (spells_quote _) "name" rfl) <|
  .cons (takes_field (spells_quote _) "type" rfl) <|
  .cons (takes_field (spells_quote _) "kind" rfl) <|
  .cons (takes_field (spells_quote _) "dim" rfl) <|
  .cons (takes_field (spells_quote _) "access" rfl) <|
  .cons (takes_field (spells_optional spells_quote _) "elem" rfl) <|
  .cons (takes_field (spells_optional spells_extent _) "array" rfl) <|
  .cons (takes_field (spells_optional spells_word _) "register" rfl) <|
  .cons (takes_field (spells_optional spells_word _) "space" rfl) <|
  .cons (takes_field (quote_singleton hletter ▸ spells_quote _) "letter" rfl) .nil

theorem spells_entry (e : ManifestEntry) (hletter : Text.escapeChar e.letter = [e.letter]) :
    Spells 2 (Manifest.entryJson e) e.document := by
  have hspells := (spells_object (show Blank "\n" by decide) (show Blank "\n" by decide)
    (show Blank "\n    " by decide) (takes_fields e hletter) (List.cons_ne_nil _ _)).blanks
    (show Blank "    " by decide)
  have htext (texts : List String) :
      "    " ++ ("\x7b" ++ "\n" ++ ("," ++ "\n").intercalate texts ++ "\n    " ++ "\x7d") =
        "    \x7b\n" ++ ",\n".intercalate texts ++ "\n    \x7d" := by
    rw [← String.toList_inj]
    simp
  rwa [htext] at hspells

namespace Manifest

variable {m : Manifest}

def PlainLetters (m : Manifest) : Prop := ∀ e ∈ m.entries, Text.escapeChar e.letter = [e.letter]

theorem spells_resources (h : m.PlainLetters) :
    Spells 3 ("[\n" ++ ",\n".intercalate (m.entries.map entryJson)
      ++ (if m.entries.isEmpty then "" else "\n") ++ "  ]")
      (.array (m.entries.map ManifestEntry.document)) := by
  cases hentries : m.entries with
  | nil =>
    have hspells := spells_emptyArray (show Blank "\n  " by decide)
    exact hspells.mono (by decide)
  | cons e entries =>
    have hitems : List.Forall₂ (Spells 2) (m.entries.map entryJson)
        (m.entries.map ManifestEntry.document) := by
      rw [List.forall₂_map_left_iff, List.forall₂_map_right_iff, List.forall₂_same]
      exact fun e he => spells_entry e (h e he)
    have hspells := spells_array (show Blank "\n" by decide) (show Blank "\n" by decide)
      (show Blank "\n  " by decide) hitems (by simp [hentries])
    have htext (texts : List String) :
        "[" ++ "\n" ++ ("," ++ "\n").intercalate texts ++ "\n  " ++ "]" =
          "[\n" ++ ",\n".intercalate texts ++ "\n" ++ "  ]" := by
      rw [← String.toList_inj]
      simp
    rw [htext, hentries] at hspells
    exact hspells

theorem parse_json (h : m.PlainLetters) : parse m.json = some m.document := by
  have hsize := takes_member (show Blank "  " by decide) (show Blank " " by decide)
    ((spells_groupSize m.groupSize).mono (show 2 ≤ 3 by decide)) "group_size"
  have hresources := takes_member (show Blank "  " by decide) (show Blank " " by decide)
    (spells_resources h) "resources"
  have hspells := spells_object (show Blank "\n" by decide) (show Blank "\n" by decide)
    (show Blank "\n" by decide) (.cons hsize (.cons hresources .nil)) (List.cons_ne_nil _ _)
  have htext (size resources last : String) :
      "\x7b" ++ "\n" ++ ("," ++ "\n").intercalate
          ["  " ++ Text.quote "group_size" ++ ":" ++ " " ++ ("[" ++ size ++ "]"),
            "  " ++ Text.quote "resources" ++ ":" ++ " "
              ++ ("[\n" ++ resources ++ last ++ "  ]")] ++ "\n" ++ "\x7d" ++ "\n" =
        "\x7b\n  \"group_size\": [" ++ size ++ "],\n  \"resources\": [\n" ++ resources ++ last
          ++ "  ]\n\x7d\n" := by
    rw [← String.toList_inj]
    simp [String.intercalate_cons_cons, Text.quote, Text.escapeChar]
  have hdepth (text : String) : 4 ≤ ("\x7b" ++ "\n" ++ text ++ "\n" ++ "\x7d" ++ "\n").length := by
    simp only [String.length_append]
    have hone : "\x7b".length = 1 ∧ "\n".length = 1 ∧ "\x7d".length = 1 := by decide
    omega
  have hparse := parse_of_spells hspells (show Blank "\n" by decide) (hdepth _)
  rwa [htext] at hparse

end Manifest

theorem Resource.escapeChar_letter (res : Resource) :
    Text.escapeChar res.letter = [res.letter] := by
  unfold letter
  split <;> rfl

namespace Draft

theorem plain_of_listed {resources : List Resource} {entries : List ManifestEntry}
    (h : List.Forall₂ Resource.Listed resources entries) :
    ∀ e ∈ entries, Text.escapeChar e.letter = [e.letter] := by
  induction h with
  | nil => exact fun e he => by cases he
  | @cons res e _ _ hone _ ih =>
    refine List.forall_mem_cons.2 ⟨?_, ih⟩
    rw [hone.letter]
    exact res.escapeChar_letter

theorem plainLetters_of_manifest {d : Draft} {m : Manifest} (h : d.manifest = .ok m) :
    m.PlainLetters := by
  obtain ⟨declarations, hdeclarations, rfl⟩ := manifest_eq_ok h
  exact plain_of_listed (Declaration.listed_ofResources hdeclarations).1

theorem manifest_json_decodes (d : Draft) (m : Manifest) (h : d.manifest = .ok m) :
    parse m.json = some m.document ∧ Manifest.ofDocument? m.document = some m ∧
      ∀ (d' : Draft) (m' : Manifest), d'.manifest = .ok m' → m'.json = m.json → m' = m := by
  have hread := Manifest.parse_json (plainLetters_of_manifest h)
  refine ⟨hread, m.ofDocument?_document, fun d' m' h' hsame => ?_⟩
  have hread' := Manifest.parse_json (plainLetters_of_manifest h')
  rw [hsame, hread] at hread'
  have hdocument : m.document = m'.document := Option.some.inj hread'
  have hdecoded := m'.ofDocument?_document
  rw [← hdocument, m.ofDocument?_document] at hdecoded
  exact (Option.some.inj hdecoded).symm

def awkwardNames : List Session.Step :=
  [⟨.registerResource (.ok (Resource.rwBuffer "\"out\\\n" .u32)), none⟩,
    ⟨.registerResource (.ok (.arrayOf "größe\t" (.texture2D "" .f32x4) (.fixed 3))), none⟩]

theorem awkwardNames_decode :
    ∃ (d : Draft) (m : Manifest), d.manifest = .ok m ∧
      m.entries.map ManifestEntry.name = ["\"out\\\n", "größe\t"] ∧
      parse m.json = some m.document ∧ Manifest.ofDocument? m.document = some m := by
  obtain ⟨d, m, hm, hnames⟩ : ∃ (d : Draft) (m : Manifest), d.manifest = .ok m ∧
      m.entries.map ManifestEntry.name = ["\"out\\\n", "größe\t"] :=
    ⟨(awkwardNames.foldl Session.after (.start .default 1)).draft, _, rfl, by decide +kernel⟩
  obtain ⟨hparse, hdecode, -⟩ := manifest_json_decodes d m hm
  exact ⟨d, m, hm, hnames, hparse, hdecode⟩

end Draft

end ComputeKernel
