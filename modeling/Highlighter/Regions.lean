import Highlighter.Occurrences
import Highlighter.Label.Continuation

/-!
Regions: delimiters in pairs. The rules of one precedence entry share a line: what lies inside a
region of one of them opens no region of another.
-/

namespace Highlighter

structure Opening where
  label : Label
  closings : List Label
  deriving DecidableEq, Repr

namespace Opening

/-- By place, and at one place in the order of the rules. -/
def le (a b : Opening) : Bool :=
  decide (a.label.matched.1 < b.label.matched.1) ||
    (a.label.matched.1 == b.label.matched.1 && decide (a.label.order ≤ b.label.order))

end Opening

namespace Label

/-- A region up to a closing delimiter that starts at or after `from_`, if there is one, and the
column after that. Without one it stays open. -/
def close (l : Label) (from_ : Nat) (closings : List Label) : Label × Option Nat :=
  match closings.find? (fun c ↦ decide (from_ ≤ c.matched.1)) with
  | some c =>
    ({ l with stop := .column (max (c.stop.resolve maxOffset) l.start)
              matched := (l.matched.1, c.matched.2) }, some c.matched.2)
  | none => ({ l with stop := .lineEnd }, none)

def resume (l : Label) (offset : Nat) (color : Color) (order : Nat) : Label :=
  { l with start := offset, kind := .continued, color, order, matched := (offset, offset) }

/-- The regions that the openings at or after `cursor` open, one after the other. The openings are
in the order `Opening.le`. -/
def pairFrom (cursor : Nat) : List Opening → List Label
  | [] => []
  | o :: rest =>
    if o.label.matched.1 < cursor then pairFrom cursor rest
    else match o.label.close o.label.matched.2 o.closings with
      | (region, some next) => region :: pairFrom next rest
      | (region, none) => [region]

end Label

namespace Scheme

/-- The delimited rules of a precedence entry, with their order in the scheme and in that order. -/
def delimitedRules (s : Scheme) (entry : Precedence) : List (Nat × Rule) :=
  Sorting.sort (fun a b ↦ decide (a.1 ≤ b.1)) <| entry.names.filterMap fun name ↦ do
    let order ← s.orderOf? name
    let r ← s.rules[order]?
    if r.strategy = .allText then some (order, r) else none

/-- The region of a precedence entry that an earlier line left open, with its rule. -/
def resumed? (s : Scheme) (rules : List (Nat × Rule)) (inherited : Continuations) :
    Option (Nat × Rule × Label) :=
  rules.findSome? fun (order, r) ↦
    (inherited.find? ⟨s.name, r.name⟩).map (fun l ↦ (order, r, l))

def openings (s : Scheme) (offset : Nat) (t : Text) (entry : Precedence) : List (List Opening) :=
  (s.delimitedRules entry).map fun (order, r) ↦
    let closings := r.closings s.name order offset t
    (r.openings s.name order offset t).map (⟨·, closings⟩)

def sortedOpenings (s : Scheme) (offset : Nat) (t : Text) (entry : Precedence) : List Opening :=
  Sorting.sort Opening.le (s.openings offset t entry).flatten

/-- The regions of the delimited rules of one precedence entry. Only a text at the start of its
line goes on with an inherited region. -/
def pairedRegions (s : Scheme) (offset : Nat) (t : Text) (inherited : Continuations)
    (entry : Precedence) : List Label :=
  match if offset = 0 then s.resumed? (s.delimitedRules entry) inherited else none with
  | none => Label.pairFrom offset (s.sortedOpenings offset t entry)
  | some (order, r, l) =>
    match (l.resume offset r.color order).close offset (r.closings s.name order offset t) with
    | (region, some next) => region :: Label.pairFrom next (s.sortedOpenings offset t entry)
    | (region, none) => [region]

def entryWords (s : Scheme) (offset : Nat) (t : Text) (entry : Precedence) : List Label :=
  entry.names.flatMap fun name ↦
    match s.orderOf? name, s.rule? name with
    | some order, some r =>
      if r.strategy = .allText then [] else r.words s.name order offset t
    | _, _ => []

end Scheme

namespace Label

def clampTo (l : Label) : Stop → Label
  | .column limit => { l with start := min l.start limit, stop := l.stop.min (.column limit) }
  | .lineEnd => l

end Label

def Scheme.regions (s : Scheme) (offset : Nat) (stop : Stop) (t : Text)
    (inherited : Continuations) (level : Nat) : List Label :=
  (s.precedence.flatMap fun entry ↦
    s.entryWords offset t entry ++ s.pairedRegions offset t inherited entry).map
      fun l ↦ { l with level }.clampTo stop

end Highlighter
