import Highlighter.Regex.Basic
import Highlighter.Text.Hexadecimal

/-!
The written form of regular expressions. A pattern that is not well formed has no regular
expression; that is all a reader tells about it.

Classes and groups can be nested. Their readers take `fuel`: each step uses one of it up together
with a character at least, so one more than the length of the pattern is enough.
-/

namespace Highlighter.Regex

structure Modes where
  anyCase : Bool := false
  multiLine : Bool := false
  dotAll : Bool := false
  lazy : Bool := false
  deriving DecidableEq, Repr

inductive Atom where
  | char (c : Char)
  | set (s : CharSet)
  | boundary (b : Boundary)
  deriving DecidableEq, Repr

def validChar? (n : Nat) : Option Char := if n.isValidChar then some (.ofNat n) else none

def readHexDigits : Nat → Nat → Text → Option (Nat × Text)
  | 0, value, t => some (value, t)
  | _ + 1, _, [] => none
  | n + 1, value, c :: t => do readHexDigits n (16 * value + (← Text.hexValue? c)) t

/-- A code point in hexadecimal: so many digits, or any number of them in braces. -/
def readCodePoint (digits : Nat) : Text → Option (Char × Text)
  | '{' :: t =>
    match t.span (· != '}') with
    | ([], _) | (_, []) => none
    | (inner, _ :: rest) => do
      let (n, _) ← readHexDigits inner.length 0 inner
      return (← validChar? n, rest)
  | t => do
    let (n, rest) ← readHexDigits digits 0 t
    return (← validChar? n, rest)

/-- A word boundary may name one of its four halves in braces. -/
def readWordBoundary (t : Text) : Option (Boundary × Text) :=
  match t with
  | '{' :: r =>
    if r.head?.any (fun c ↦ c.isAlpha || c == '-') then
      let (name, rest) := r.span (fun c ↦ c.isAlpha || c == '-')
      match rest with
      | '}' :: rest =>
        if name = "start".toList then some (.wordStart, rest)
        else if name = "end".toList then some (.wordEnd, rest)
        else if name = "start-half".toList then some (.noWordBefore, rest)
        else if name = "end-half".toList then some (.noWordAfter, rest)
        else none
      | _ => none
    else some (.word, t)
  | _ => some (.word, t)

/-- The part of an escape after its backslash. Punctuation stands for itself; a letter or a digit
without a meaning is refused. -/
def readEscape : Text → Option (Atom × Text)
  | [] => none
  | c :: t =>
    match c with
    | 'd' => some (.set .decimal, t)
    | 'D' => some (.set (.compl .decimal), t)
    | 's' => some (.set .blank, t)
    | 'S' => some (.set (.compl .blank), t)
    | 'w' => some (.set .word, t)
    | 'W' => some (.set (.compl .word), t)
    | 'a' => some (.char '\x07', t)
    | 'f' => some (.char '\x0c', t)
    | 't' => some (.char '\t', t)
    | 'n' => some (.char '\n', t)
    | 'r' => some (.char '\r', t)
    | 'v' => some (.char '\x0b', t)
    | 'A' => some (.boundary .textStart, t)
    | 'z' => some (.boundary .textEnd, t)
    | 'B' => some (.boundary .notWord, t)
    | '<' => some (.boundary .wordStart, t)
    | '>' => some (.boundary .wordEnd, t)
    | 'b' => (readWordBoundary t).map (fun (b, rest) ↦ (.boundary b, rest))
    | 'x' => (readCodePoint 2 t).map (fun (c, rest) ↦ (.char c, rest))
    | 'u' => (readCodePoint 4 t).map (fun (c, rest) ↦ (.char c, rest))
    | 'U' => (readCodePoint 8 t).map (fun (c, rest) ↦ (.char c, rest))
    | _ => if c.isAlphanum || 128 ≤ c.toNat then none else some (.char c, t)

/-! ### Classes -/

def asciiClass? (name : String) : Option CharSet :=
  let upper := CharSet.range 'A' 'Z'
  let lower := CharSet.range 'a' 'z'
  let digit := CharSet.range '0' '9'
  match name with
  | "alnum" => some (.union digit (.union upper lower))
  | "alpha" => some (.union upper lower)
  | "ascii" => some (.range '\x00' '\x7f')
  | "blank" => some (.ofList ['\t', ' '])
  | "cntrl" => some (.union (.range '\x00' '\x1f') (.single '\x7f'))
  | "digit" => some digit
  | "graph" => some (.range '!' '~')
  | "lower" => some lower
  | "print" => some (.range ' ' '~')
  | "punct" => some (.union (.range '!' '/') (.union (.range ':' '@')
      (.union (.range '[' '\x60') (.range '\x7b' '~'))))
  | "space" => some (.ofList ['\t', '\n', '\x0b', '\x0c', '\r', ' '])
  | "upper" => some upper
  | "word" => some (.union digit (.union upper (.union lower (.single '_'))))
  | "xdigit" => some (.union digit (.union (.range 'A' 'F') (.range 'a' 'f')))
  | _ => none

/-- In modes that take letters for those of the other case, a set with all of these. -/
def Modes.fold (modes : Modes) (s : CharSet) : CharSet := if modes.anyCase then .anyCase s else s

/-- A named class, `:name:]` or `:^name:]`, after its opening bracket. -/
def readAsciiClass (modes : Modes) : Text → Option (CharSet × Text)
  | ':' :: t =>
    let (negated, t) := match t with
      | '^' :: rest => (true, rest)
      | _ => (false, t)
    match t.span (· != ':') with
    | (name, ':' :: ']' :: rest) => do
      let s := modes.fold (← asciiClass? (String.ofList name))
      return (if negated then .compl s else s, rest)
    | _ => none
  | _ => none

inductive SetOperator where
  | inter
  | diff
  | symmDiff
  deriving DecidableEq, Repr

def SetOperator.apply : SetOperator → CharSet → CharSet → CharSet
  | inter, s, t => .inter s t
  | diff, s, t => .inter s (.compl t)
  | symmDiff, s, t => .union (.inter s (.compl t)) (.inter t (.compl s))

/-- What a class has read so far: the operation that waits for its right side, and the union of
the items on that side. -/
structure ClassState where
  waiting : Option (SetOperator × CharSet) := none
  items : CharSet := .none

namespace ClassState

def add (st : ClassState) (s : CharSet) : ClassState := { st with items := .union st.items s }

def value (st : ClassState) : CharSet :=
  match st.waiting with
  | none => st.items
  | some (op, left) => op.apply left st.items

def operate (st : ClassState) (op : SetOperator) : ClassState := { waiting := some (op, st.value) }

end ClassState

def readClassAtom : Text → Option (Atom × Text)
  | [] => none
  | '\\' :: t => readEscape t
  | c :: t => some (.char c, t)

def readClassItem (modes : Modes) (t : Text) : Option (CharSet × Text) := do
  let (first, rest) ← readClassAtom t
  let single : Option (CharSet × Text) :=
    match first with
    | .char c => some (modes.fold (.single c), rest)
    | .set s => some (s, rest)
    | .boundary _ => none
  match rest with
  | [] => none
  | '-' :: after =>
    match after with
    | [] => none
    | ']' :: _ | '-' :: _ => single
    | _ => do
      let (last, rest) ← readClassAtom after
      match first, last with
      | .char a, .char b => if a ≤ b then some (modes.fold (.range a b), rest) else none
      | _, _ => none
  | _ => single

def readClassHyphens (modes : Modes) (st : ClassState) : Text → ClassState × Text
  | '-' :: t => readClassHyphens modes (st.add (.single '-')) t
  | t => (st, t)

/-- The signs after the opening bracket of a class that have a meaning of their own there. -/
def openClass (modes : Modes) (t : Text) : Bool × ClassState × Text :=
  let (negated, t) := match t with
    | '^' :: rest => (true, rest)
    | _ => (false, t)
  match readClassHyphens modes {} t with
  | (st, ']' :: rest) =>
    if st.items = .none then (negated, st.add (.single ']'), rest) else (negated, st, ']' :: rest)
  | (st, rest) => (negated, st, rest)

/-- A class, after its opening bracket and what `openClass` reads. -/
def readClass (modes : Modes) : Nat → Bool → ClassState → Text → Option (CharSet × Text)
  | 0, _, _, _ => none
  | _ + 1, _, _, [] => none
  | _ + 1, negated, st, ']' :: t => some (if negated then .compl st.value else st.value, t)
  | fuel + 1, negated, st, '[' :: t =>
    match readAsciiClass modes t with
    | some (s, rest) => readClass modes fuel negated (st.add s) rest
    | none => do
      let (innerNegated, innerState, inner) := openClass modes t
      let (s, rest) ← readClass modes fuel innerNegated innerState inner
      readClass modes fuel negated (st.add s) rest
  | fuel + 1, negated, st, '&' :: '&' :: t => readClass modes fuel negated (st.operate .inter) t
  | fuel + 1, negated, st, '-' :: '-' :: t => readClass modes fuel negated (st.operate .diff) t
  | fuel + 1, negated, st, '~' :: '~' :: t => readClass modes fuel negated (st.operate .symmDiff) t
  | fuel + 1, negated, st, c :: t => do
    let (s, rest) ← readClassItem modes (c :: t)
    readClass modes fuel negated (st.add s) rest

/-! ### Repetition and groups -/

/-- A repetition count with blanks around it; at most 32 bits. -/
def readCount (t : Text) : Option Nat × Text :=
  let (digits, rest) := (t.dropWhile Text.isBlank).span Char.isDigit
  let n := digits.foldl (fun n c ↦ 10 * n + (c.toNat - 48)) 0
  (if digits.isEmpty || 0x100000000 ≤ n then none else some n, rest.dropWhile Text.isBlank)

def readBounds (t : Text) : Option ((Nat × Option Nat) × Text) :=
  match readCount t with
  | (some n, '}' :: rest) => some ((n, some n), rest)
  | (some n, ',' :: '}' :: rest) => some ((n, none), rest)
  | (some n, ',' :: rest) =>
    match readCount rest with
    | (some m, '}' :: rest) => if n ≤ m then some ((n, some m), rest) else none
    | _ => none
  | _ => none

def readRepetition (modes : Modes) (t : Text) : Option ((Nat × Option Nat × Bool) × Text) := do
  let ((least, most), rest) ← match t with
    | '*' :: rest => some ((0, none), rest)
    | '+' :: rest => some ((1, none), rest)
    | '?' :: rest => some ((0, some 1), rest)
    | '{' :: rest => readBounds rest
    | _ => none
  match rest with
  | '?' :: rest => return ((least, most, !modes.lazy), rest)
  | _ => return ((least, most, modes.lazy), rest)

def Modes.switch (modes : Modes) (on : Bool) : Char → Option Modes
  | 'i' => some { modes with anyCase := on }
  | 'm' => some { modes with multiLine := on }
  | 's' => some { modes with dotAll := on }
  | 'U' => some { modes with lazy := on }
  | 'u' => if on then some modes else none
  | _ => none

/-- Mode letters up to the colon or parenthesis that ends them, which is returned with the modes.
Each letter stands once, and a hyphen is followed by one. -/
def readModes (modes : Modes) (on : Bool) (seen : List Char) : Text → Option (Modes × Bool × Text)
  | ':' :: t => if seen.head? = some '-' then none else some (modes, true, t)
  | ')' :: t => if seen = [] ∨ seen.head? = some '-' then none else some (modes, false, t)
  | '-' :: t => if '-' ∈ seen then none else readModes modes false ('-' :: seen) t
  | c :: t => do
    if c ∈ seen then none
    else readModes (← modes.switch on c) on (c :: seen) t
  | [] => none

def literal (modes : Modes) (c : Char) : Regex :=
  .set (modes.fold (.single c))

def Atom.regex (modes : Modes) : Atom → Regex
  | char c => literal modes c
  | set s => .set s
  | boundary b => .boundary b

/-- What a group has read so far. A mode switch stands among the items as `none`: it matches
nothing and cannot be repeated. -/
structure GroupState where
  alternatives : List Regex := []
  items : List (Option Regex) := []

namespace GroupState

def add (st : GroupState) (r : Regex) : GroupState := { st with items := some r :: st.items }

def sequence (st : GroupState) : Regex :=
  match st.items.reverse.filterMap id with
  | [] => .empty
  | r :: rest => rest.foldl .seq r

def nextAlternative (st : GroupState) : GroupState :=
  { alternatives := st.sequence :: st.alternatives }

def value (st : GroupState) : Regex := st.alternatives.foldl (fun r s ↦ .alt s r) st.sequence

def repeatLast (st : GroupState) (least : Nat) (most : Option Nat) (lazy : Bool) :
    Option GroupState :=
  match st.items with
  | some r :: rest => some { st with items := some (.repeated r least most lazy) :: rest }
  | _ => none

end GroupState

def isRepetitionSign (c : Char) : Bool := c == '*' || c == '+' || c == '?' || c == '{'

/-- The expression up to the end of the text or of the group it stands in. -/
def readGroup : Nat → Modes → GroupState → Text → Option (Regex × Text)
  | 0, _, _, _ => none
  | _ + 1, _, st, [] => some (st.value, [])
  | _ + 1, _, st, ')' :: t => some (st.value, ')' :: t)
  | fuel + 1, modes, st, '|' :: t => readGroup fuel modes st.nextAlternative t
  | fuel + 1, modes, st, '(' :: '?' :: t => do
    let (inner, isGroup, rest) ← readModes modes true [] t
    if isGroup then
      match ← readGroup fuel inner {} rest with
      | (r, ')' :: rest) => readGroup fuel modes (st.add r) rest
      | _ => none
    else readGroup fuel inner { st with items := none :: st.items } rest
  | fuel + 1, modes, st, '(' :: t => do
    match ← readGroup fuel modes {} t with
    | (r, ')' :: rest) => readGroup fuel modes (st.add r) rest
    | _ => none
  | fuel + 1, modes, st, '[' :: t => do
    let (negated, first, inner) := openClass modes t
    let (s, rest) ← readClass modes fuel negated first inner
    readGroup fuel modes (st.add (.set s)) rest
  | fuel + 1, modes, st, '\\' :: t => do
    let (a, rest) ← readEscape t
    readGroup fuel modes (st.add (a.regex modes)) rest
  | fuel + 1, modes, st, '.' :: t =>
    let s := if modes.dotAll then .compl .none else .compl (.single '\n')
    readGroup fuel modes (st.add (.set s)) t
  | fuel + 1, modes, st, '^' :: t =>
    readGroup fuel modes (st.add (.boundary (if modes.multiLine then .lineStart else .textStart))) t
  | fuel + 1, modes, st, '$' :: t =>
    readGroup fuel modes (st.add (.boundary (if modes.multiLine then .lineEnd else .textEnd))) t
  | fuel + 1, modes, st, c :: t =>
    if isRepetitionSign c then do
      let ((least, most, lazy), rest) ← readRepetition modes (c :: t)
      readGroup fuel modes (← st.repeatLast least most lazy) rest
    else readGroup fuel modes (st.add (literal modes c)) t

def parse? (pattern : Text) : Option Regex :=
  match readGroup (pattern.length + 1) {} {} pattern with
  | some (r, []) => some r
  | _ => none

end Highlighter.Regex
