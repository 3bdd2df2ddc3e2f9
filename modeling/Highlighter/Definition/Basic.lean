import Highlighter.Scheme.Draft
import Highlighter.Theme

/-!
Definitions: schemes as they are written in files, with colors by role and other schemes by name.
-/

namespace Highlighter

inductive SearchKind where
  | allText
  | separators
  | singleChar
  deriving DecidableEq, Repr, Inhabited

structure LabelDefinition where
  name : String
  color : String
  search : SearchKind := .allText
  separators : Option String := none
  start : Option String := none
  stop : Option String := none
  pattern : Option String := none
  multiLine : Bool := false
  extension : Extension := {}
  requires : Option String := none
  deriving DecidableEq, Repr

structure Definition where
  name : String
  extensions : List String := []
  aliases : List String := []
  baseColor : Option String := none
  base : Option String := none
  labels : List LabelDefinition := []
  precedence : List Precedence := []
  subSchemes : Table String := .empty
  deriving DecidableEq, Repr

namespace LabelDefinition

/-- The rule of a label in the color it was resolved to. Only what belongs to its way of searching
counts. -/
def rule (d : LabelDefinition) (scheme : String) (color : Color) : Except SchemeError Rule := do
  let rule ← match d.search with
    | .allText =>
      match d.start with
      | none => throw (.missingStartPattern scheme d.name)
      | some start =>
        let rule := Rule.delimited d.name color start.toList
        pure (match d.stop with
          | none => rule
          | some stop => rule.withCloser stop.toList)
    | .separators =>
      let rule := Rule.token d.name color
      let rule := match d.separators with
        | none => rule
        | some chars => rule.withSeparators chars.toList
      pure (match d.pattern with
        | none => rule
        | some pattern => rule.withPattern pattern.toList)
    | .singleChar =>
      let rule := Rule.singleChar d.name color
      pure (match d.pattern with
        | none => rule
        | some pattern => rule.withPattern pattern.toList)
  return { rule with
    multiLine := d.multiLine
    requires := d.requires
    extension := d.extension }

end LabelDefinition

namespace Definition

variable (d : Definition) (theme : Theme) (lookup : String → Option Scheme)

def resolveScheme (reference : String) : Except SchemeError Scheme :=
  match lookup reference with
  | some s => .ok s
  | none => .error (.unknownScheme d.name reference)

def resolveColor (label value : String) : Except SchemeError Color :=
  match theme.resolve? value.toList with
  | some c => .ok c
  | none => .error (.invalidColor d.name label value)

def labelRule (label : LabelDefinition) : Except SchemeError Rule := do
  label.rule d.name (← d.resolveColor theme label.name label.color)

/-- The ranks of a base scheme, unless the definition has its own, and those. -/
def entries (base : Option Scheme) : List Precedence :=
  match base with
  | some b => if d.precedence.isEmpty then b.precedence else d.precedence
  | none => d.precedence

def embedAll (draft : Scheme.Draft) : List (String × String) → Except SchemeError Scheme.Draft
  | [] => .ok draft
  | (label, reference) :: rest => do
    embedAll (draft.embed label (← d.resolveScheme lookup reference)) rest

/-- The scheme that a definition describes, on the base of the schemes it refers to. -/
def compile : Except SchemeError Scheme := do
  let base ← d.base.mapM (d.resolveScheme lookup)
  let baseColor ← match d.baseColor with
    | some value => d.resolveColor theme "" value
    | none => pure (match base with
      | some b => b.baseColor
      | none => theme.base)
  let rules ← d.labels.mapM (d.labelRule theme)
  let draft := ((Scheme.Draft.new d.name).withBaseColor baseColor).labels rules
  let draft := match base with
    | some b => draft.extend b
    | none => draft
  let draft := (d.entries base).foldl
    (fun draft e ↦ match e with
      | .single name => draft.rank name
      | .group names => draft.rankGroup names) draft
  let draft := match base with
    | some b =>
      (b.subSchemes.filter (fun e ↦ !d.subSchemes.has e.1)).foldl
        (fun draft e ↦ draft.embed e.1 e.2) draft
    | none => draft
  let draft ← d.embedAll lookup draft d.subSchemes.entries
  draft.build

end Definition

end Highlighter
