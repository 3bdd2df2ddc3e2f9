/-!
Positions in a text of several lines, and the notices of what an editing step did to its lines.
-/

namespace Highlighter

structure Position where
  line : Nat
  column : Nat
  deriving DecidableEq, Repr

namespace Position

def le (p q : Position) : Bool :=
  decide (p.line < q.line) || (decide (p.line = q.line) && decide (p.column ≤ q.column))

theorem le_iff {p q : Position} :
    le p q = true ↔ p.line < q.line ∨ p.line = q.line ∧ p.column ≤ q.column := by
  simp only [le, Bool.or_eq_true, Bool.and_eq_true, decide_eq_true_eq]

theorem le_total (p q : Position) : le p q || le q p := by
  rw [Bool.or_eq_true, le_iff, le_iff]
  omega

theorem le_trans {p q r : Position} (h₁ : le p q = true) (h₂ : le q r = true) : le p r = true := by
  rw [le_iff] at *
  omega

theorem le_antisymm {p q : Position} (h₁ : le p q = true) (h₂ : le q p = true) : p = q := by
  cases p
  cases q
  simp only [le_iff, mk.injEq] at *
  omega

end Position

/-- How many numbers a machine word can be. -/
def wordSize : Nat := 0x10000000000000000

inductive Edit where
  | changed (line : Nat)
  | inserted (first count : Nat)
  | removed (first count : Nat)
  deriving DecidableEq, Repr

namespace Edit

def firstLine : Edit → Nat
  | changed line => line
  | inserted first _ => first
  | removed first _ => first

def isStructural : Edit → Bool
  | changed _ => false
  | inserted _ _ => true
  | removed _ _ => true

/-- The index after the edit of a line that had the given index before it, if it is still there. -/
def mapLine : Edit → Nat → Option Nat
  | changed _, line => some line
  | inserted first count, line => some (if first ≤ line then line + count else line)
  | removed first count, line =>
    if line < first then some line
    else if line < first + count then none
    else some (line - count)

/-- Whether the sum that is taken to map a line is no machine word. -/
def overflows : Edit → Nat → Bool
  | changed _, _ => false
  | inserted first count, line => decide (first ≤ line ∧ wordSize ≤ line + count)
  | removed first count, line => decide (first ≤ line ∧ wordSize ≤ first + count)

/-- As `mapLine`, with sums and differences of machine words, which wrap around. -/
def mapWord : Edit → Nat → Option Nat
  | changed _, line => some line
  | inserted first count, line => some (if first ≤ line then (line + count) % wordSize else line)
  | removed first count, line =>
    if line < first then some line
    else if line < (first + count) % wordSize then none
    else some (if count ≤ line then line - count else line + wordSize - count)

theorem mapWord_eq_mapLine {e : Edit} {line : Nat} (h : e.overflows line = false) :
    e.mapWord line = e.mapLine line := by
  cases e with
  | changed k => rfl
  | inserted first count =>
    rw [overflows, decide_eq_false_iff_not] at h
    rw [mapWord, mapLine]
    split
    · rw [Nat.mod_eq_of_lt (by omega)]
    · rfl
  | removed first count =>
    rw [overflows, decide_eq_false_iff_not] at h
    rw [mapWord, mapLine]
    split
    · rfl
    · rw [Nat.mod_eq_of_lt (by omega)]
      split
      · rfl
      · rw [if_pos (by omega)]

end Edit

end Highlighter
