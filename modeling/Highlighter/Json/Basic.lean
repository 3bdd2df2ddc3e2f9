import Highlighter.Table

/-!
JSON values as they are read from a text, which may break off: what was read up to a fault is kept,
so that a fault in the meaning of an early part can be told from one in the writing of a later part.
-/

namespace Highlighter

inductive Json.Flaw where
  | endInValue
  | endInList
  | endInObject
  | endInString
  | expectedValue
  | expectedWord
  | expectedColon
  | expectedListEnd
  | expectedObjectEnd
  | keyNotString
  | trailingComma
  | trailingCharacters
  | invalidNumber
  | numberOutOfRange
  | invalidEscape
  | loneSurrogate
  | unfinishedSurrogate
  | controlCharacter
  | nestedTooDeep
  deriving DecidableEq, Repr

namespace Json.Flaw

def isTruncation : Flaw → Bool
  | endInValue | endInList | endInObject | endInString => true
  | _ => false

def message : Flaw → String
  | endInValue => "EOF while parsing a value"
  | endInList => "EOF while parsing a list"
  | endInObject => "EOF while parsing an object"
  | endInString => "EOF while parsing a string"
  | expectedValue => "expected value"
  | expectedWord => "expected ident"
  | expectedColon => "expected `:`"
  | expectedListEnd => "expected `,` or `]`"
  | expectedObjectEnd => "expected `,` or `\x7d`"
  | keyNotString => "key must be a string"
  | trailingComma => "trailing comma"
  | trailingCharacters => "trailing characters"
  | invalidNumber => "invalid number"
  | numberOutOfRange => "number out of range"
  | invalidEscape => "invalid escape"
  | loneSurrogate => "lone leading surrogate in hex escape"
  | unfinishedSurrogate => "unexpected end of hex escape"
  | controlCharacter => "control character (\\u0000-\\u001F) found while parsing a string"
  | nestedTooDeep => "recursion limit exceeded"

end Json.Flaw

/-- A flaw and its place, given by the number of bytes of the text behind it. -/
structure Json.Fault where
  flaw : Json.Flaw
  bytesLeft : Option Nat := none
  deriving DecidableEq, Repr

/-- Integers of 64 bits, signed or not, and any other numbers by the bits of a double. -/
inductive Json.Number where
  | integer (n : Int)
  | double (bits : UInt64)
  deriving DecidableEq, Repr

/-- A value. Arrays and objects have a fault instead of their end if reading stopped in them. -/
inductive Json where
  | null
  | bool (b : Bool)
  | number (n : Json.Number)
  | string (s : String)
  | array (items : List Json) (fault : Option Json.Fault)
  | object (members : List (String × Json)) (fault : Option Json.Fault)
  | broken (fault : Json.Fault)
  deriving Repr, Inhabited

namespace Json

def ofInt (n : Int) : Json := .number (.integer n)

def ofList (items : List Json) : Json := .array items none

def ofMembers (members : List (String × Json)) : Json := .object members none

mutual

def firstFault? : Json → Option Fault
  | null => none
  | bool _ => none
  | number _ => none
  | string _ => none
  | array items fault => (firstFaultIn? items).or fault
  | object members fault => (firstFaultOf? members).or fault
  | broken fault => some fault

def firstFaultIn? : List Json → Option Fault
  | [] => none
  | v :: rest => (firstFault? v).or (firstFaultIn? rest)

def firstFaultOf? : List (String × Json) → Option Fault
  | [] => none
  | (_, v) :: rest => (firstFault? v).or (firstFaultOf? rest)

end

mutual

/-- The value with the members of every object in the order of their keys, of several with one key
the last. -/
def settle : Json → Json
  | null => null
  | bool b => bool b
  | number n => number n
  | string s => string s
  | array items fault => array (settleItems items) fault
  | object members fault => object (settleMembers .empty members).entries fault
  | broken fault => broken fault

def settleItems : List Json → List Json
  | [] => []
  | v :: rest => settle v :: settleItems rest

def settleMembers (done : Table Json) : List (String × Json) → Table Json
  | [] => done
  | (k, v) :: rest => settleMembers (done.put k (settle v)) rest

end

end Json

end Highlighter
