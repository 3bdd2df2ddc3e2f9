import Highlighter.Scheme.Rule

/-!
Schemes: the rules of one language, which of its labels colors a character that several cover, and
the schemes of the texts embedded in it.
-/

namespace Highlighter

/-- One rank of precedence: a label, or several between which the place in the line decides. -/
inductive Precedence where
  | single (name : String)
  | group (names : List String)
  deriving DecidableEq, Repr

namespace Precedence

def names : Precedence → List String
  | single name => [name]
  | group names => names

def contains (p : Precedence) (name : String) : Bool := p.names.contains name

/-- The entry for some names: none for no name, and a group only for more than one. -/
def ofNames? : List String → Option Precedence
  | [] => none
  | [name] => some (single name)
  | names => some (group names)

end Precedence

structure Scheme where
  name : String
  baseColor : Color
  rules : List Rule
  precedence : List Precedence
  /-- The scheme of the text inside a label's regions, in the order of the labels' names. -/
  subSchemes : List (String × Scheme)

namespace Scheme

instance : Inhabited Scheme := ⟨⟨"", .plain, [], [], []⟩⟩

def orderOf? (s : Scheme) (name : String) : Option Nat := s.rules.findIdx? (·.name == name)

def rule? (s : Scheme) (name : String) : Option Rule := s.rules.find? (·.name == name)

def rankOf? (s : Scheme) (name : String) : Option Nat := s.precedence.findIdx? (·.contains name)

def subScheme? (s : Scheme) (name : String) : Option Scheme := s.subSchemes.lookup name

def hasSubSchemes (s : Scheme) : Bool := !s.subSchemes.isEmpty

end Scheme

end Highlighter
