import Highlighter.Json.Reader
import Highlighter.Text.Quoted

/-!
What a JSON value means as text, number, list or record. Decoding follows the order in which the
value was written, so of several errors the one that stands first counts.
-/

namespace Highlighter.Json

/-- How a value was come by: while its text was being read, or from a text that had been read to
its end before. -/
inductive Source where
  | text
  | value
  deriving DecidableEq, Repr

inductive Found where
  | null
  | bool (b : Bool)
  | number (n : Number)
  | string (s : String)
  | sequence
  | map
  deriving DecidableEq, Repr

def Found.describe : Found → String
  | null => "null"
  | bool b => "boolean `" ++ (if b then "true" else "false") ++ "`"
  | number (.integer n) => "integer `" ++ toString n ++ "`"
  | number n => "floating point `" ++ n.print ++ "`"
  | string s => "string " ++ String.ofList (Text.quoted s.toList)
  | sequence => "sequence"
  | map => "map"

inductive DecodeError where
  | fault (f : Fault)
  | wrongType (found : Found) (wanted : String)
  | wrongValue (found : Found) (wanted : String)
  | wrongLength (length : Nat) (wanted : String)
  | unknownField (name : String) (fields : List String)
  | duplicateField (name : String)
  | missingField (name : String)
  | unknownVariant (name : String) (variants : List String)
  | noVariant (type : String)
  deriving DecidableEq, Repr

def oneOf (names : List String) : String :=
  match names.map (fun n ↦ "`" ++ n ++ "`") with
  | [] => ""
  | [a] => a
  | [a, b] => a ++ " or " ++ b
  | names => "one of " ++ ", ".intercalate names

def DecodeError.message (text : Text) : DecodeError → String
  | fault f => f.message text
  | wrongType found wanted => "invalid type: " ++ found.describe ++ ", expected " ++ wanted
  | wrongValue found wanted => "invalid value: " ++ found.describe ++ ", expected " ++ wanted
  | wrongLength n wanted => "invalid length " ++ toString n ++ ", expected " ++ wanted
  | unknownField name fields => "unknown field `" ++ name ++ "`, expected " ++ oneOf fields
  | duplicateField name => "duplicate field `" ++ name ++ "`"
  | missingField name => "missing field `" ++ name ++ "`"
  | unknownVariant name variants => "unknown variant `" ++ name ++ "`, expected " ++ oneOf variants
  | noVariant type => "data did not match any variant of untagged enum " ++ type

abbrev Decoder (α : Type) := Json → Except DecodeError α

def mismatch (wanted : String) : Json → DecodeError
  | null => .wrongType .null wanted
  | bool b => .wrongType (.bool b) wanted
  | number n => .wrongType (.number n) wanted
  | string s => .wrongType (.string s) wanted
  | array _ _ => .wrongType .sequence wanted
  | object _ _ => .wrongType .map wanted
  | broken f => .fault f

/-- What is left of an array or object has to be its end. -/
def atEnd (fault : Option Fault) : Except DecodeError Unit :=
  match fault with
  | none => .ok ()
  | some f => .error (.fault f)

def decodeString : Decoder String
  | string s => .ok s
  | v => .error (mismatch "a string" v)

def decodeBool : Decoder Bool
  | bool b => .ok b
  | v => .error (mismatch "a boolean" v)

/-- A natural number of 64 bits; `wanted` is its name in messages. -/
def decodeNat (wanted : String) : Decoder Nat
  | number (.integer n) =>
    if 0 ≤ n then .ok n.toNat else .error (.wrongValue (.number (.integer n)) wanted)
  | v => .error (mismatch wanted v)

def decodeOption {α : Type} (d : Decoder α) : Decoder (Option α)
  | null => .ok none
  | v => (d v).map some

def decodeItems {α : Type} (d : Decoder α) : List Json → Except DecodeError (List α)
  | [] => .ok []
  | v :: rest => do return (← d v) :: (← decodeItems d rest)

def decodeList {α : Type} (d : Decoder α) : Decoder (List α)
  | array items fault => do
    let list ← decodeItems d items
    atEnd fault
    return list
  | v => .error (mismatch "a sequence" v)

def decodeEntries {α : Type} (d : Decoder α) (done : Table α) :
    List (String × Json) → Except DecodeError (Table α)
  | [] => .ok done
  | (k, v) :: rest => do decodeEntries d (done.put k (← d v)) rest

def decodeTable {α : Type} (d : Decoder α) : Decoder (Table α)
  | object members fault => do
    let table ← decodeEntries d .empty members
    atEnd fault
    return table
  | v => .error (mismatch "a map" v)

def decodeVariantName {α : Type} (variants : List (String × α)) (name : String) :
    Except DecodeError α :=
  match variants.lookup name with
  | some a => .ok a
  | none => .error (.unknownVariant name (variants.map Prod.fst))

def decodeUnit : Decoder Unit
  | null => .ok ()
  | v => .error (mismatch "unit" v)

/-- One of several names, written as a string or as the only key of an object that maps it to
`null`. A text that has something else in its place is not read on. -/
def decodeVariant {α : Type} (src : Source) (variants : List (String × α)) : Decoder α
  | string s => decodeVariantName variants s
  | broken f => .error (.fault f)
  | object members fault =>
    match src, members with
    | .text, [] => .error (.fault (fault.getD ⟨.expectedValue, none⟩))
    | .text, (k, v) :: rest => do
      let a ← decodeVariantName variants k
      decodeUnit v
      match rest, fault with
      | [], none => return a
      | [], some ⟨.endInObject, place⟩ => throw (.fault ⟨.endInObject, place⟩)
      | _, _ => throw (.fault ⟨.expectedValue, none⟩)
    | .value, [(k, v)] => do
      let a ← decodeVariantName variants k
      decodeUnit v
      return a
    | .value, _ => .error (.wrongValue .map "map with a single key")
  | v =>
    match src with
    | .text => .error (.fault ⟨.expectedValue, none⟩)
    | .value => .error (mismatch "string or map" v)

/-- A value that is read to its end before its meaning is looked for among several alternatives. -/
def decodeUntagged {α : Type} (type : String) (pick : Json → Option α) : Decoder α := fun v ↦
  match v.firstFault? with
  | some f => .error (.fault f)
  | none =>
    match pick v with
    | some a => .ok a
    | none => .error (.noVariant type)

/-! ### Records -/

structure Field (σ : Type) where
  name : String
  required : Bool := false
  store : Json → σ → Except DecodeError σ

def field {σ α : Type} (name : String) (d : Decoder α) (set : α → σ → σ) : Field σ :=
  { name, store := fun v s ↦ (d v).map (set · s) }

def requiredField {σ α : Type} (name : String) (d : Decoder α) (set : α → σ → σ) : Field σ :=
  { field name d set with required := true }

/-- A record with its fields in the order of their declaration, and with the values they have if
they are left out. -/
structure Shape (σ : Type) where
  name : String
  initial : σ
  fields : List (Field σ)

namespace Shape

variable {σ : Type} (sh : Shape σ)

def fieldNames : List String := sh.fields.map Field.name

def storeMembers (seen : List String) (s : σ) :
    List (String × Json) → Except DecodeError (σ × List String)
  | [] => .ok (s, seen)
  | (k, v) :: rest =>
    match sh.fields.find? (·.name == k) with
    | none => .error (.unknownField k sh.fieldNames)
    | some f =>
      if k ∈ seen then .error (.duplicateField k)
      else do storeMembers (k :: seen) (← f.store v s) rest

def describeLength : String :=
  "struct " ++ sh.name ++ " with " ++ toString sh.fields.length ++ " elements"

def storeItems (src : Source) (total index : Nat) (fault : Option Fault) (s : σ) :
    List (Field σ) → List Json → Except DecodeError σ
  | f :: fs, v :: vs => do storeItems src total (index + 1) fault (← f.store v s) fs vs
  | fs, [] => do
    atEnd fault
    match fs.findIdx? (·.required) with
    | some k => throw (.wrongLength (index + k) sh.describeLength)
    | none => return s
  | [], _ :: _ =>
    match src with
    | .text => .error (.fault ⟨.trailingCharacters, none⟩)
    | .value => .error (.wrongLength total "fewer elements in array")

/-- A record written as an object, or as an array of its fields. -/
def decode (src : Source) : Decoder σ
  | object members fault => do
    let (s, seen) ← sh.storeMembers [] sh.initial members
    atEnd fault
    match sh.fields.find? (fun f ↦ f.required && !seen.contains f.name) with
    | some f => throw (.missingField f.name)
    | none => return s
  | array items fault => sh.storeItems src items.length 0 fault sh.initial sh.fields items
  | v => .error (mismatch ("struct " ++ sh.name) v)

end Shape

def decodeText {α : Type} (d : Source → Decoder α) (t : Text) : Except DecodeError α := do
  let r := read t
  let a ← d .text r.value
  atEnd r.after
  return a

def fails {α : Type} (d : Source → Decoder α) (e : DecodeError) (t : Text) : Bool :=
  match decodeText d t with
  | .ok _ => false
  | .error e' => e' = e

def isNumberChar (c : Char) : Bool :=
  c.isDigit || c == '.' || c == 'e' || c == 'E' || c == '+' || c == '-'

/-- How much of a text has been read when an error is noticed: its shortest beginning that fails
in the same way, with the rest of a number, or with the blanks behind a key. A list or an object
in the wrong place is not entered. -/
def readLength {α : Type} (d : Source → Decoder α) (t : Text) (e : DecodeError) : Nat :=
  let n := ((List.range t.length).find? (fun n ↦ fails d e (t.take n))).getD t.length
  let rest := t.drop n
  let blanks := rest.length - (skipBlanks rest).length
  match e with
  | .wrongType (.number _) _ | .wrongValue _ _ => n + (rest.takeWhile isNumberChar).length
  | .wrongType .sequence _ | .wrongType .map _ => n - 1
  | .unknownField _ _ | .duplicateField _ => n + blanks
  | .fault _ => min t.length (n + blanks + 1)
  | _ => n

def placedMessage {α : Type} (d : Source → Decoder α) (t : Text) (e : DecodeError) : String :=
  match e with
  | .fault ⟨flaw, some left⟩ => Fault.message ⟨flaw, some left⟩ t
  | _ => e.message t ++ describePlace (bytes (t.take (readLength d t e))) t

def parse (t : Text) : Except DecodeError Json :=
  let r := read t
  match r.firstFault? with
  | some f => .error (.fault f)
  | none => .ok r.value.settle

end Highlighter.Json
