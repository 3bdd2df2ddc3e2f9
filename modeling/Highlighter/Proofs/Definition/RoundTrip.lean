import Highlighter.Definition.Json
import Highlighter.Proofs.Json.Printing
import Highlighter.Proofs.Json.Records

/-!
Definitions are read back from their texts as they were written.
-/

namespace Highlighter

open Json

/-! ### Adjustments and precedence -/

namespace Adjust

/-- Whether 64 bits hold the number of characters. -/
def FitsWord : Adjust → Prop
  | shift n => -0x8000000000000000 ≤ n ∧ n < 0x8000000000000000
  | exclude => True

theorem gives_toJson {a : Adjust} (h : a.FitsWord) : Gives (fun _ ↦ Adjust.decode) a.toJson a := by
  cases a with
  | shift n => exact gives_untagged rfl rfl (if_pos h.2)
  | exclude => exact gives_untagged rfl rfl rfl

theorem isPlain_toJson {a : Adjust} (h : a.FitsWord) (depth : ℕ) : IsPlain depth a.toJson := by
  cases a with
  | shift n =>
    have hn : -0x8000000000000000 ≤ n ∧ n < 0x8000000000000000 := h
    rw [toJson, ofInt, IsPlain]
    omega
  | exclude => exact trivial

end Adjust

theorem isPlain_strings (depth : ℕ) (strings : List String) :
    IsPlain (depth + 1) (.ofList (strings.map .string)) := by
  refine arePlain_of_forall fun v hv ↦ ?_
  obtain ⟨s, -, rfl⟩ := List.mem_map.1 hv
  exact trivial

namespace Precedence

theorem namesOfJson?_map (names : List String) :
    namesOfJson? (names.map .string) = some names := by
  induction names with
  | nil => rfl
  | cons name names ih =>
    rw [List.map_cons, namesOfJson?, ih]
    rfl

theorem isPlain_toJson (e : Precedence) (depth : ℕ) : IsPlain (depth + 1) e.toJson := by
  cases e with
  | single name => exact trivial
  | group names => exact isPlain_strings depth names

theorem gives_toJson (e : Precedence) : Gives (fun _ ↦ Precedence.decode) e.toJson e := by
  refine gives_untagged ?_ (firstFault?_eq_none _ (e.isPlain_toJson 0)) ?_
  · cases e with
    | single name => rfl
    | group names =>
      rw [toJson, ofList, settle, settleItems_eq_map, List.map_map]
      rfl
  · cases e with
    | single name => rfl
    | group names => exact congrArg (Option.map group) (namesOfJson?_map names)

end Precedence

/-! ### Records -/

theorem written_cons {σ : Type} {p : Slot σ} (h : p.isWritten = true) (slots : List (Slot σ)) :
    Slot.written (p :: slots) = (p.key, p.value) :: Slot.written slots := by
  rw [Slot.written, List.filter_cons_of_pos h]
  rfl

theorem written_optional {σ : Type} (key : String) (value : Option String)
    (set : Option String → σ → σ) (slots : List (Slot σ)) :
    Slot.written (.optional key value set :: slots) =
      memberIfSome key value ++ Slot.written slots := by
  cases value <;> rfl

theorem isPlain_optional {σ : Type} (depth : ℕ) (key : String) (value : Option String)
    (set : Option String → σ → σ) : IsPlain depth (Slot.optional key value set).value := by
  cases value <;> exact trivial

theorem isPlain_written {σ : Type} {slots : List (Slot σ)} {depth : ℕ}
    (h : ∀ p ∈ slots, IsPlain depth p.value) :
    IsPlain (depth + 1) (.ofMembers (Slot.written slots)) := by
  refine havePlain_of_forall fun m hm ↦ ?_
  obtain ⟨p, hp, rfl⟩ := List.mem_map.1 hm
  exact h p (List.mem_filter.1 hp).1

theorem Adjust.isWritten_toJson {σ : Type} (key : String) (a : Adjust) (put : σ → σ) :
    Slot.isWritten ⟨key, a.toJson, put⟩ = true := by
  cases a <;> rfl

namespace Extension

def FitsWord (e : Extension) : Prop := e.start.FitsWord ∧ e.stop.FitsWord

def slots (e : Extension) : List (Slot Extension) :=
  [⟨"start", e.start.toJson, fun x ↦ { x with start := e.start }⟩,
    ⟨"end", e.stop.toJson, fun x ↦ { x with stop := e.stop }⟩]

theorem toJson_eq (e : Extension) : e.toJson = .ofMembers (Slot.written e.slots) := by
  rw [slots, written_cons (Adjust.isWritten_toJson ..), written_cons (Adjust.isWritten_toJson ..)]
  rfl

theorem writes_slots {e : Extension} (h : e.FitsWord) : Shape.Writes (fun _ ↦ shape) e.slots e where
  takes src :=
    .cons (takes_field (Adjust.gives_toJson h.1) (Adjust.isWritten_toJson ..)) <|
    .cons (takes_field (Adjust.gives_toJson h.2) (Adjust.isWritten_toJson ..)) .nil
  apart := by simp [slots]
  all _ := rfl

theorem gives_toJson {e : Extension} (h : e.FitsWord) :
    Gives (fun src ↦ shape.decode src) e.toJson e := by
  rw [toJson_eq]
  exact (writes_slots h).gives

theorem isPlain_toJson {e : Extension} (h : e.FitsWord) (depth : ℕ) :
    IsPlain (depth + 1) e.toJson := by
  rw [toJson_eq]
  refine isPlain_written ?_
  simp only [slots, List.forall_mem_cons]
  exact ⟨Adjust.isPlain_toJson h.1 depth, Adjust.isPlain_toJson h.2 depth, nofun⟩

end Extension

namespace LabelDefinition

def slots (d : LabelDefinition) : List (Slot LabelDefinition) :=
  [⟨"name", .string d.name, fun l ↦ { l with name := d.name }⟩,
    ⟨"color", .string d.color, fun l ↦ { l with color := d.color }⟩,
    ⟨"search", .string d.search.name, fun l ↦ { l with search := d.search }⟩,
    .optional "separators" d.separators fun a l ↦ { l with separators := a },
    .optional "start" d.start fun a l ↦ { l with start := a },
    .optional "end" d.stop fun a l ↦ { l with stop := a },
    .optional "pattern" d.pattern fun a l ↦ { l with pattern := a },
    ⟨"multi_line", .bool d.multiLine, fun l ↦ { l with multiLine := d.multiLine }⟩,
    ⟨"extension", d.extension.toJson, fun l ↦ { l with extension := d.extension }⟩,
    .optional "requires" d.requires fun a l ↦ { l with requires := a }]

theorem toJson_eq (d : LabelDefinition) : d.toJson = .ofMembers (Slot.written d.slots) := by
  rw [slots, written_cons rfl, written_cons rfl, written_cons rfl, written_optional,
    written_optional, written_optional, written_optional, written_cons rfl, written_cons rfl,
    written_optional]
  simp [toJson, Slot.written]

theorem writes_slots {d : LabelDefinition} (h : d.extension.FitsWord) :
    Shape.Writes shape d.slots d where
  takes src :=
    .cons (takes_requiredField (gives_string d.name) rfl) <|
    .cons (takes_requiredField (gives_string d.color) rfl) <|
    .cons (takes_field (gives_variant (by cases d.search <;> rfl)) rfl) <|
    .cons (takes_optional "separators" d.separators rfl) <|
    .cons (takes_optional "start" d.start rfl) <|
    .cons (takes_optional "end" d.stop rfl) <|
    .cons (takes_optional "pattern" d.pattern rfl) <|
    .cons (takes_field (gives_bool d.multiLine) rfl) <|
    .cons (takes_field (Extension.gives_toJson h) rfl) <|
    .cons (takes_optional "requires" d.requires rfl) .nil
  apart := by simp [slots, Slot.optional]
  all _ := rfl

theorem gives_toJson {d : LabelDefinition} (h : d.extension.FitsWord) :
    Gives (fun src ↦ (shape src).decode src) d.toJson d := by
  rw [toJson_eq]
  exact (writes_slots h).gives

theorem isPlain_toJson {d : LabelDefinition} (h : d.extension.FitsWord) (depth : ℕ) :
    IsPlain (depth + 2) d.toJson := by
  rw [toJson_eq]
  refine isPlain_written ?_
  simp only [slots, List.forall_mem_cons]
  exact ⟨trivial, trivial, trivial, isPlain_optional .., isPlain_optional .., isPlain_optional ..,
    isPlain_optional .., trivial, Extension.isPlain_toJson h depth, isPlain_optional .., nofun⟩

end LabelDefinition

namespace Definition

/-- Whether 64 bits hold all numbers of characters in a definition. -/
def FitsWords (d : Definition) : Prop := ∀ l ∈ d.labels, l.extension.FitsWord

def slots (d : Definition) : List (Slot Definition) :=
  [⟨"name", .string d.name, fun x ↦ { x with name := d.name }⟩,
    ⟨"extensions", .ofList (d.extensions.map .string),
      fun x ↦ { x with extensions := d.extensions }⟩,
    ⟨"aliases", .ofList (d.aliases.map .string), fun x ↦ { x with aliases := d.aliases }⟩,
    .optional "base_color" d.baseColor fun a x ↦ { x with baseColor := a },
    .optional "extends" d.base fun a x ↦ { x with base := a },
    ⟨"labels", .ofList (d.labels.map LabelDefinition.toJson),
      fun x ↦ { x with labels := d.labels }⟩,
    ⟨"precedence", .ofList (d.precedence.map Precedence.toJson),
      fun x ↦ { x with precedence := d.precedence }⟩,
    ⟨"sub_schemes", .ofMembers (d.subSchemes.entries.map fun e ↦ (e.1, .string e.2)),
      fun x ↦ { x with subSchemes := d.subSchemes }⟩]

theorem toJson_eq (d : Definition) : d.toJson = .ofMembers (Slot.written d.slots) := by
  rw [slots, written_cons rfl, written_cons rfl, written_cons rfl, written_optional,
    written_optional, written_cons rfl, written_cons rfl, written_cons rfl]
  simp [toJson, Slot.written]

theorem writes_slots {d : Definition} (h : d.FitsWords) : Shape.Writes shape d.slots d where
  takes src :=
    .cons (takes_requiredField (gives_string d.name) rfl) <|
    .cons (takes_field (gives_list fun s _ ↦ gives_string s) rfl) <|
    .cons (takes_field (gives_list fun s _ ↦ gives_string s) rfl) <|
    .cons (takes_optional "base_color" d.baseColor rfl) <|
    .cons (takes_optional "extends" d.base rfl) <|
    .cons (takes_field (gives_list fun l hl ↦ LabelDefinition.gives_toJson (h l hl)) rfl) <|
    .cons (takes_field (gives_list fun e _ ↦ Precedence.gives_toJson e) rfl) <|
    .cons (takes_field (gives_table d.subSchemes gives_string) rfl) .nil
  apart := by simp [slots, Slot.optional]
  all _ := rfl

theorem gives_toJson {d : Definition} (h : d.FitsWords) : Gives decode d.toJson d := by
  rw [toJson_eq]
  exact (writes_slots h).gives

theorem isPlain_toJson {d : Definition} (h : d.FitsWords) : IsPlain 4 d.toJson := by
  rw [toJson_eq]
  refine isPlain_written ?_
  simp only [slots, List.forall_mem_cons]
  refine ⟨trivial, isPlain_strings 2 _, isPlain_strings 2 _, isPlain_optional ..,
    isPlain_optional .., arePlain_of_forall fun v hv ↦ ?_, arePlain_of_forall fun v hv ↦ ?_,
    havePlain_of_forall fun m hm ↦ ?_, nofun⟩
  · obtain ⟨l, hl, rfl⟩ := List.mem_map.1 hv
    exact LabelDefinition.isPlain_toJson (h l hl) 0
  · obtain ⟨e, -, rfl⟩ := List.mem_map.1 hv
    exact e.isPlain_toJson 1
  · obtain ⟨e, -, rfl⟩ := List.mem_map.1 hm
    exact trivial

/-- A definition is read back from its text, directly or from the value that the text was read to
before. -/
theorem ofText_print {d : Definition} (h : d.FitsWords) :
    ofText (Json.print d.toJson) = .ok d ∧ listOfText (Json.print d.toJson) = .ok [d] := by
  have hplain := isPlain_toJson h
  have htext : decode .text d.toJson = .ok d := gives_toJson h .text
  have hvalue : decode .value d.toJson.settle = .ok d := gives_toJson h .value
  constructor
  · rw [ofText, decodeText, read_print hplain (by decide)]
    simp only [htext, bind, Except.bind]
    rfl
  · rw [listOfText, parse_print hplain (by decide)]
    rw [toJson_eq, settle_ofMembers] at hvalue ⊢
    simp only [bind, Except.bind, ofMembers] at hvalue ⊢
    rw [hvalue]
    rfl

/-- A label with the extreme numbers of characters, entries of both kinds, and strings that need
escapes. -/
def notes : Definition where
  name := "no\"tes\\"
  extensions := ["note", "\x01"]
  baseColor := some "ä\n"
  labels := [{
    name := "NOTE"
    color := "keyword"
    search := .separators
    pattern := some "n+\t"
    extension := ⟨.shift (-0x8000000000000000), .shift 0x7fffffffffffffff⟩ }, {
    name := "BLOCK"
    color := "#102030"
    start := some "<"
    multiLine := true
    extension := ⟨.exclude, .shift 0⟩
    requires := some "NOTE" }]
  precedence := [.single "NOTE", .group ["BLOCK", "NOTE"], .group []]
  subSchemes := .ofList [("NOTE", "text"), ("BLOCK", "")]

theorem ofText_print_notes :
    notes.FitsWords ∧ ofText (Json.print notes.toJson) = .ok notes ∧
      listOfText (Json.print notes.toJson) = .ok [notes] := by
  have h : notes.FitsWords := by
    intro l hl
    rcases List.mem_cons.1 hl with rfl | hl
    · exact ⟨⟨by decide, by decide⟩, by decide, by decide⟩
    · cases List.mem_singleton.1 hl
      exact ⟨trivial, by decide, by decide⟩
  exact ⟨h, ofText_print h⟩

/-- Several definitions are read back from the text of their list. -/
theorem listOfText_print_ofList {definitions : List Definition}
    (h : ∀ d ∈ definitions, d.FitsWords) :
    listOfText (Json.print (.ofList (definitions.map toJson))) = .ok definitions := by
  have hplain : IsPlain 5 (.ofList (definitions.map toJson)) := arePlain_of_forall fun v hv ↦ by
    obtain ⟨d, hd, rfl⟩ := List.mem_map.1 hv
    exact isPlain_toJson (h d hd)
  have hvalue : decodeList (decode .value) (ofList (definitions.map toJson)).settle =
      .ok definitions := gives_list (fun d hd ↦ gives_toJson (h d hd)) .value
  rw [listOfText, parse_print hplain (by decide)]
  rw [ofList, settle] at hvalue ⊢
  exact hvalue

end Definition

end Highlighter
