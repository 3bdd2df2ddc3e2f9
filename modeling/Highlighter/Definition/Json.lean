import Highlighter.Definition.Basic
import Highlighter.Json.Decode

/-!
Definitions as JSON. What a definition leaves open is not written; everything else is.
-/

namespace Highlighter

open Json

def SearchKind.variants : List (String × SearchKind) :=
  [("all_text", .allText), ("separators", .separators), ("single_char", .singleChar)]

def SearchKind.name : SearchKind → String
  | allText => "all_text"
  | separators => "separators"
  | singleChar => "single_char"

namespace Adjust

/-- A number of characters that 64 bits hold, or the word for none of them. -/
def ofJson? : Json → Option Adjust
  | .number (.integer n) => if n < 0x8000000000000000 then some (.shift n) else none
  | .string s => if s = "exclude" then some .exclude else none
  | .object [(k, .null)] _ => if k = "exclude" then some .exclude else none
  | _ => none

def decode : Decoder Adjust := decodeUntagged "AdjustDefinition" ofJson?

def toJson : Adjust → Json
  | shift n => .ofInt n
  | exclude => .string "exclude"

end Adjust

namespace Extension

def shape : Shape Extension where
  name := "ExtensionDefinition"
  initial := {}
  fields := [
    field "start" Adjust.decode (fun a e ↦ { e with start := a }),
    field "end" Adjust.decode (fun a e ↦ { e with stop := a })]

def toJson (e : Extension) : Json := .ofMembers [("start", e.start.toJson), ("end", e.stop.toJson)]

end Extension

def memberIfSome (key : String) (value : Option String) : List (String × Json) :=
  match value with
  | none => []
  | some s => [(key, .string s)]

namespace LabelDefinition

def shape (src : Source) : Shape LabelDefinition where
  name := "LabelDefinition"
  initial := { name := "", color := "" }
  fields := [
    requiredField "name" decodeString (fun a d ↦ { d with name := a }),
    requiredField "color" decodeString (fun a d ↦ { d with color := a }),
    field "search" (decodeVariant src SearchKind.variants) (fun a d ↦ { d with search := a }),
    field "separators" (decodeOption decodeString) (fun a d ↦ { d with separators := a }),
    field "start" (decodeOption decodeString) (fun a d ↦ { d with start := a }),
    field "end" (decodeOption decodeString) (fun a d ↦ { d with stop := a }),
    field "pattern" (decodeOption decodeString) (fun a d ↦ { d with pattern := a }),
    field "multi_line" decodeBool (fun a d ↦ { d with multiLine := a }),
    field "extension" (Extension.shape.decode src) (fun a d ↦ { d with extension := a }),
    field "requires" (decodeOption decodeString) (fun a d ↦ { d with requires := a })]

def toJson (d : LabelDefinition) : Json :=
  .ofMembers <|
    [("name", .string d.name), ("color", .string d.color), ("search", .string d.search.name)] ++
    memberIfSome "separators" d.separators ++ memberIfSome "start" d.start ++
    memberIfSome "end" d.stop ++ memberIfSome "pattern" d.pattern ++
    [("multi_line", .bool d.multiLine), ("extension", d.extension.toJson)] ++
    memberIfSome "requires" d.requires

end LabelDefinition

namespace Precedence

def namesOfJson? : List Json → Option (List String)
  | [] => some []
  | .string s :: rest => (namesOfJson? rest).map (s :: ·)
  | _ :: _ => none

def ofJson? : Json → Option Precedence
  | .string s => some (single s)
  | .array items _ => (namesOfJson? items).map group
  | _ => none

def decode : Decoder Precedence := decodeUntagged "PrecedenceDefinition" ofJson?

def toJson : Precedence → Json
  | single name => .string name
  | group names => .ofList (names.map .string)

end Precedence

namespace Definition

def shape (src : Source) : Shape Definition where
  name := "SchemeDefinition"
  initial := { name := "" }
  fields := [
    requiredField "name" decodeString (fun a d ↦ { d with name := a }),
    field "extensions" (decodeList decodeString) (fun a d ↦ { d with extensions := a }),
    field "aliases" (decodeList decodeString) (fun a d ↦ { d with aliases := a }),
    field "base_color" (decodeOption decodeString) (fun a d ↦ { d with baseColor := a }),
    field "extends" (decodeOption decodeString) (fun a d ↦ { d with base := a }),
    field "labels" (decodeList ((LabelDefinition.shape src).decode src))
      (fun a d ↦ { d with labels := a }),
    field "precedence" (decodeList Precedence.decode) (fun a d ↦ { d with precedence := a }),
    field "sub_schemes" (decodeTable decodeString) (fun a d ↦ { d with subSchemes := a })]

def decode (src : Source) : Decoder Definition := (shape src).decode src

def toJson (d : Definition) : Json :=
  .ofMembers <|
    [("name", .string d.name), ("extensions", .ofList (d.extensions.map .string)),
      ("aliases", .ofList (d.aliases.map .string))] ++
    memberIfSome "base_color" d.baseColor ++ memberIfSome "extends" d.base ++
    [("labels", .ofList (d.labels.map LabelDefinition.toJson)),
      ("precedence", .ofList (d.precedence.map Precedence.toJson)),
      ("sub_schemes", .ofMembers (d.subSchemes.entries.map (fun e ↦ (e.1, .string e.2))))]

def ofText (t : Text) : Except DecodeError Definition := decodeText decode t

/-- The definitions that a text holds: one, or a list of them. -/
def listOfText (t : Text) : Except DecodeError (List Definition) := do
  match ← Json.parse t with
  | .array items fault => decodeList (decode .value) (.array items fault)
  | v => return [← decode .value v]

end Definition

end Highlighter
