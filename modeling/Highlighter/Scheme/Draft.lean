import Highlighter.Scheme.Basic
import Highlighter.Table

/-!
Drafts of schemes. A draft takes anything; a scheme is made of it only if its names fit together.
-/

namespace Highlighter

/-- Why a draft, or a written definition, is no scheme. -/
inductive SchemeError where
  | duplicateLabel (scheme label : String)
  | unknownPrecedenceLabel (scheme label : String)
  | duplicatePrecedenceLabel (scheme label : String)
  | unknownSubSchemeLabel (scheme label : String)
  | unknownScheme (scheme reference : String)
  | missingStartPattern (scheme label : String)
  | invalidColor (scheme label color : String)
  deriving DecidableEq, Repr

def SchemeError.message : SchemeError → String
  | duplicateLabel s l => "scheme `" ++ s ++ "` defines label `" ++ l ++ "` more than once"
  | unknownPrecedenceLabel s l =>
    "scheme `" ++ s ++ "` lists unknown label `" ++ l ++ "` in its precedence"
  | duplicatePrecedenceLabel s l =>
    "scheme `" ++ s ++ "` lists label `" ++ l ++ "` in its precedence more than once"
  | unknownSubSchemeLabel s l =>
    "scheme `" ++ s ++ "` maps unknown label `" ++ l ++ "` to a sub-scheme"
  | unknownScheme s r => "scheme `" ++ s ++ "` references unknown scheme `" ++ r ++ "`"
  | missingStartPattern s l =>
    "scheme `" ++ s ++ "` defines delimited label `" ++ l ++ "` without a start pattern"
  | invalidColor s l c =>
    "scheme `" ++ s ++ "` gives label `" ++ l ++ "` an invalid color `" ++ c ++ "`"

namespace Scheme

structure Draft where
  name : String
  baseColor : Color := .plain
  rules : List Rule := []
  precedence : List Precedence := []
  subSchemes : List (String × Scheme) := []

namespace Draft

def new (name : String) : Draft := { name }

def withBaseColor (d : Draft) (c : Color) : Draft := { d with baseColor := c }

def label (d : Draft) (r : Rule) : Draft := { d with rules := d.rules ++ [r] }

def labels (d : Draft) (rs : List Rule) : Draft := { d with rules := d.rules ++ rs }

def defines (d : Draft) (name : String) : Bool := d.rules.any (·.name == name)

/-- Adds the rules of another scheme whose labels the draft does not define. -/
def extend (d : Draft) (base : Scheme) : Draft :=
  { d with rules := d.rules ++ base.rules.filter (fun r ↦ !d.defines r.name) }

def rank (d : Draft) (name : String) : Draft :=
  { d with precedence := d.precedence ++ [.single name] }

def rankGroup (d : Draft) (names : List String) : Draft :=
  { d with precedence := d.precedence ++ (Precedence.ofNames? names).toList }

def embed (d : Draft) (label : String) (scheme : Scheme) : Draft :=
  { d with subSchemes := d.subSchemes ++ [(label, scheme)] }

/-- The first name that stands in a list a second time, or already in `seen`. -/
def firstRepeated (seen : List String) : List String → Option String
  | [] => none
  | name :: rest => if name ∈ seen then some name else firstRepeated (name :: seen) rest

/-- The first fault in the precedence list: a name that is no label, or one listed before. -/
def checkRanks (d : Draft) (listed : List String) : List String → Except SchemeError Unit
  | [] => .ok ()
  | name :: rest =>
    if !d.defines name then .error (.unknownPrecedenceLabel d.name name)
    else if name ∈ listed then .error (.duplicatePrecedenceLabel d.name name)
    else checkRanks d (name :: listed) rest

def rankedNames (d : Draft) : List String := d.precedence.flatMap Precedence.names

/-- The precedence with a rank of its own for every label that was not ranked. -/
def completePrecedence (d : Draft) : List Precedence :=
  d.precedence ++
    (d.rules.filter (fun r ↦ !d.rankedNames.contains r.name)).map (fun r ↦ .single r.name)

def build (d : Draft) : Except SchemeError Scheme := do
  match firstRepeated [] (d.rules.map (·.name)) with
  | some label => throw (.duplicateLabel d.name label)
  | none => pure ()
  checkRanks d [] d.rankedNames
  match d.subSchemes.find? (fun p ↦ !d.defines p.1) with
  | some (label, _) => throw (.unknownSubSchemeLabel d.name label)
  | none => pure ()
  return ⟨d.name, d.baseColor, d.rules, d.completePrecedence, (Table.ofList d.subSchemes).entries⟩

end Draft

end Scheme

end Highlighter
