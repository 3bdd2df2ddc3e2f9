import Highlighter.Json.Number
import Highlighter.Text.Hexadecimal

/-!
Reading JSON texts. A text that is not JSON gives the value up to its first fault.

Arrays and objects can be nested. Their readers take `fuel`: of two steps in a row one uses up a
character, so two more than twice the length of the text is enough.
-/

namespace Highlighter.Json

def bytes : Text → Nat
  | [] => 0
  | c :: t => c.utf8Size + bytes t

/-- A fault noticed after the text before `rest`. -/
def Fault.before (flaw : Flaw) (rest : Text) : Fault := ⟨flaw, some (bytes rest)⟩

/-- A fault noticed at the first byte of `rest`. -/
def Fault.atHead (flaw : Flaw) (rest : Text) : Fault := ⟨flaw, some (bytes rest - 1)⟩

def skipBlanks (t : Text) : Text :=
  t.dropWhile fun c ↦ c == ' ' || c == '\n' || c == '\t' || c == '\r'

/-! ### Numbers -/

/-- Adds digits to a significand as long as it fits into 64 bits; the rest of them is counted. -/
def addDigits (significand : Nat) : Text → Nat × Nat
  | [] => (significand, 0)
  | c :: t =>
    let next := 10 * significand + (c.toNat - 48)
    if next ≤ 0xffffffffffffffff then addDigits next t else (significand, t.length + 1)

def readExponent (t : Text) : Except Fault (Int × Text) :=
  let (negative, t) := match t with
    | '+' :: r => (false, r)
    | '-' :: r => (true, r)
    | _ => (false, t)
  match t with
  | [] => .error (.before .endInValue t)
  | c :: r =>
    if c.isDigit then
      let (digits, rest) := t.span Char.isDigit
      let n : Int := digits.foldl (fun n c ↦ 10 * n + (c.toNat - 48)) (0 : Nat)
      .ok (if negative then -n else n, rest)
    else .error (.before .invalidNumber r)

def finishDouble (negative : Bool) (significand : Nat) (exponent : Int) (rest : Text) :
    Except Fault (Number × Text) :=
  match Number.ofScaled? negative significand exponent with
  | some n => .ok (n, rest)
  | none => .error (.before .numberOutOfRange rest)

/-- The rest of a number after its point, if it has one, and its digits. -/
def readScale (negative : Bool) (significand : Nat) (exponent : Int) (t : Text) :
    Except Fault (Number × Text) :=
  match t with
  | 'e' :: r | 'E' :: r => do
    let (e, rest) ← readExponent r
    finishDouble negative significand (exponent + e) rest
  | _ => finishDouble negative significand exponent t

def readNumber (negative : Bool) (t : Text) : Except Fault (Number × Text) :=
  match t with
  | [] => .error (.before .endInValue t)
  | c :: r =>
    if !c.isDigit then .error (.before .invalidNumber r)
    else
      let (digits, rest) := if c = '0' then ([c], r) else t.span Char.isDigit
      let (significand, dropped) := addDigits 0 digits
      match rest with
      | '.' :: r =>
        let (decimals, rest) := r.span Char.isDigit
        match decimals, rest with
        | [], [] => .error (.atHead .endInValue rest)
        | [], _ => .error (.atHead .invalidNumber rest)
        | _, _ =>
          let (significand, ignored) := addDigits significand decimals
          readScale negative significand ((dropped + ignored : Nat) - decimals.length) rest
      | 'e' :: _ | 'E' :: _ => readScale negative significand dropped rest
      | d :: _ =>
        if c = '0' ∧ d.isDigit then .error (.atHead .invalidNumber rest)
        else if dropped = 0 then .ok (.ofNatural negative significand, rest)
        else finishDouble negative significand dropped rest
      | [] =>
        if dropped = 0 then .ok (.ofNatural negative significand, rest)
        else finishDouble negative significand dropped rest

/-! ### Strings -/

def readUnit (t : Text) : Except Fault (Nat × Text) :=
  match t with
  | a :: b :: c :: d :: rest =>
    match Text.hexValue? a, Text.hexValue? b, Text.hexValue? c, Text.hexValue? d with
    | some a, some b, some c, some d => .ok (((a * 16 + b) * 16 + c) * 16 + d, rest)
    | _, _, _, _ => .error ⟨.invalidEscape, some (bytes t - 4)⟩
  | _ =>
    if bytes t < 4 then .error ⟨.endInString, some 0⟩
    else .error ⟨.invalidEscape, some (bytes t - 4)⟩

/-- The second half of a character beyond 16 bits. -/
def readLowUnit : Text → Except Fault (Nat × Text)
  | '\\' :: 'u' :: t => do
    let (n, rest) ← readUnit t
    if 0xDC00 ≤ n ∧ n ≤ 0xDFFF then .ok (n, rest) else .error (.before .loneSurrogate rest)
  | ['\\'] => .error (.before .endInString [])
  | '\\' :: t => .error (.atHead .unfinishedSurrogate t)
  | [] => .error (.before .endInString [])
  | t => .error (.atHead .unfinishedSurrogate t)

def readEscapedChar : Text → Except Fault (Char × Text)
  | [] => .error (.before .endInString [])
  | '"' :: t => .ok ('"', t)
  | '\\' :: t => .ok ('\\', t)
  | '/' :: t => .ok ('/', t)
  | 'b' :: t => .ok ('\x08', t)
  | 'f' :: t => .ok ('\x0c', t)
  | 'n' :: t => .ok ('\n', t)
  | 'r' :: t => .ok ('\r', t)
  | 't' :: t => .ok ('\t', t)
  | 'u' :: t => do
    let (n, rest) ← readUnit t
    if 0xDC00 ≤ n ∧ n ≤ 0xDFFF then .error (.before .loneSurrogate rest)
    else if 0xD800 ≤ n ∧ n ≤ 0xDBFF then
      let (low, rest) ← readLowUnit rest
      .ok (.ofNat (0x10000 + (n - 0xD800) * 0x400 + (low - 0xDC00)), rest)
    else .ok (.ofNat n, rest)
  | _ :: t => .error (.before .invalidEscape t)

/-- The characters of a string after its opening quote, and the text after its closing one. -/
def readString : Nat → Text → Except Fault (Text × Text)
  | 0, t => .error (.before .endInString t)
  | _ + 1, [] => .error (.before .endInString [])
  | _ + 1, '"' :: t => .ok ([], t)
  | fuel + 1, '\\' :: t => do
    let (c, rest) ← readEscapedChar t
    let (chars, rest) ← readString fuel rest
    .ok (c :: chars, rest)
  | fuel + 1, c :: t =>
    if c.toNat < 32 then .error (.before .controlCharacter t)
    else do
      let (chars, rest) ← readString fuel t
      .ok (c :: chars, rest)

/-! ### Values -/

def readWord (value : Json) : Text → Text → Json × Option Text
  | [], t => (value, some t)
  | _ :: _, [] => (broken (.before .endInValue []), none)
  | c :: word, d :: t =>
    if c = d then readWord value word t else (broken (.before .expectedWord t), none)

def brokenAt (flaw : Flaw) (t : Text) : Json × Option Text := (broken (.atHead flaw t), none)

mutual

/-- A value and the text after it, unless that is out of reach behind a fault. `depth` is one more
than the number of brackets that may still be opened. -/
def readValue : Nat → Nat → Text → Json × Option Text
  | 0, _, t => brokenAt .endInValue t
  | fuel + 1, depth, t =>
    match skipBlanks t with
    | [] => brokenAt .endInValue []
    | 'n' :: r => readWord null "ull".toList r
    | 't' :: r => readWord (bool true) "rue".toList r
    | 'f' :: r => readWord (bool false) "alse".toList r
    | '"' :: r =>
      match readString (fuel + 1) r with
      | .ok (chars, rest) => (string (String.ofList chars), some rest)
      | .error f => (broken f, none)
    | '[' :: r =>
      if depth ≤ 1 then brokenAt .nestedTooDeep ('[' :: r) else readItems fuel (depth - 1) [] r
    | '\x7b' :: r =>
      if depth ≤ 1 then brokenAt .nestedTooDeep ('\x7b' :: r) else readMembers fuel (depth - 1) [] r
    | c :: r =>
      if c = '-' ∨ c.isDigit then
        match if c = '-' then readNumber true r else readNumber false (c :: r) with
        | .ok (n, rest) => (number n, some rest)
        | .error f => (broken f, none)
      else brokenAt .expectedValue (c :: r)

/-- The items of an array after those read before, last first. -/
def readItems : Nat → Nat → List Json → Text → Json × Option Text
  | 0, _, before, t => (array before.reverse (some (.atHead .endInList t)), none)
  | fuel + 1, depth, before, t =>
    let item (t : Text) : Json × Option Text :=
      match readValue fuel depth t with
      | (v, some rest) => readItems fuel depth (v :: before) rest
      | (v, none) => (array (v :: before).reverse (firstFault? v), none)
    match skipBlanks t with
    | [] => (array before.reverse (some (.atHead .endInList [])), none)
    | ']' :: r => (array before.reverse none, some r)
    | c :: r =>
      if before.isEmpty then item (c :: r)
      else if c = ',' then
        match skipBlanks r with
        | ']' :: r =>
          let f := Fault.atHead .trailingComma (']' :: r)
          (array (broken f :: before).reverse (some f), none)
        | r => item r
      else (array before.reverse (some (.atHead .expectedListEnd (c :: r))), none)

/-- The members of an object after those read before, last first. -/
def readMembers : Nat → Nat → List (String × Json) → Text → Json × Option Text
  | 0, _, before, t => (object before.reverse (some (.atHead .endInObject t)), none)
  | fuel + 1, depth, before, t =>
    let stop (f : Fault) : Json × Option Text := (object before.reverse (some f), none)
    let member (t : Text) : Json × Option Text :=
      match readString (fuel + 1) t with
      | .error f => stop f
      | .ok (key, rest) =>
        let key := String.ofList key
        let value := match skipBlanks rest with
          | [] => brokenAt .endInObject []
          | ':' :: r => readValue fuel depth r
          | r => brokenAt .expectedColon r
        match value with
        | (v, some rest) => readMembers fuel depth ((key, v) :: before) rest
        | (v, none) => (object ((key, v) :: before).reverse (firstFault? v), none)
    match skipBlanks t with
    | [] => stop (.atHead .endInObject [])
    | '\x7d' :: r => (object before.reverse none, some r)
    | '"' :: r =>
      if before.isEmpty then member r else stop (.atHead .expectedObjectEnd ('"' :: r))
    | c :: r =>
      if before.isEmpty then stop (.atHead .keyNotString (c :: r))
      else if c = ',' then
        match skipBlanks r with
        | [] => stop (.atHead .endInValue [])
        | '"' :: r => member r
        | '\x7d' :: r => stop (.atHead .trailingComma ('\x7d' :: r))
        | r => stop (.atHead .keyNotString r)
      else stop (.atHead .expectedObjectEnd (c :: r))

end

structure Reading where
  value : Json
  after : Option Fault
  deriving Repr

def read (t : Text) : Reading :=
  match readValue (2 * t.length + 2) 128 t with
  | (v, none) => ⟨v, none⟩
  | (v, some rest) =>
    match skipBlanks rest with
    | [] => ⟨v, none⟩
    | r => ⟨v, some (.atHead .trailingCharacters r)⟩

def Reading.firstFault? (r : Reading) : Option Fault := r.value.firstFault?.or r.after

/-- The line and the column of the place behind so many bytes of a text. Lines count from one on;
the column is the number of bytes before it in its line. -/
def placeFrom (offset line column : Nat) : Text → Nat × Nat
  | [] => (line, column)
  | c :: t =>
    if offset = 0 then (line, column)
    else if c.utf8Size ≤ offset then
      if c = '\n' then placeFrom (offset - 1) (line + 1) 0 t
      else placeFrom (offset - c.utf8Size) line (column + c.utf8Size) t
    else (line, column + offset)

def describePlace (offset : Nat) (t : Text) : String :=
  let (line, column) := placeFrom offset 1 0 t
  " at line " ++ toString line ++ " column " ++ toString column

def Fault.message (f : Fault) (text : Text) : String :=
  match f.bytesLeft with
  | none => f.flaw.message
  | some left => f.flaw.message ++ describePlace (bytes text - left) text

end Highlighter.Json
