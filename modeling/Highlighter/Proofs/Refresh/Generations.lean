import Highlighter.Refresh.Queue
import Mathlib.Data.Finset.Max
import Mathlib.Data.Prod.Lex

/-!
Queues as sets of lines with generations. A line keeps the generation in which it was queued, the
least generation goes first, and the current one is over as soon as a line of it is taken out.
-/

namespace Highlighter

namespace GenerationQueue

@[ext]
structure Entry where
  generation : ℕ
  line : ℕ

/-- Entries in the order of their generations, and in that of their lines within a generation. -/
instance : LinearOrder Entry :=
  LinearOrder.lift' (fun e ↦ toLex (e.generation, e.line)) fun e e' h ↦ by
    cases e
    cases e'
    cases h
    rfl

theorem Entry.lt_iff {e e' : Entry} : e < e' ↔
    e.generation < e'.generation ∨ e.generation = e'.generation ∧ e.line < e'.line :=
  Prod.Lex.toLex_lt_toLex

end GenerationQueue

open GenerationQueue

structure GenerationQueue where
  entries : Finset Entry
  /-- The generation of the lines that are queued now. -/
  current : ℕ

namespace GenerationQueue

def new : GenerationQueue := ⟨∅, 0⟩

def lines (a : GenerationQueue) : Finset ℕ := a.entries.image Entry.line

def push (a : GenerationQueue) (k : ℕ) : Bool × GenerationQueue :=
  if k ∈ a.lines then (false, a)
  else (true, { a with entries := insert ⟨a.current, k⟩ a.entries })

/-- The least entry. -/
def next? (a : GenerationQueue) : Option Entry :=
  if h : a.entries.Nonempty then some (a.entries.min' h) else none

def pop (a : GenerationQueue) : Option ℕ × GenerationQueue :=
  match a.next? with
  | none => (none, a)
  | some e =>
    (some e.line, { entries := a.entries.erase e
                    current := if e.generation = a.current then a.current + 1 else a.current })

def remove (a : GenerationQueue) (k : ℕ) : Bool × GenerationQueue :=
  (decide (k ∈ a.lines), { a with entries := a.entries.filter (·.line ≠ k) })

/-- Moves the lines, and leaves the generations. -/
def move (a : GenerationQueue) : Edit → GenerationQueue
  | .changed _ => a
  | .inserted first count =>
    { a with
      entries := a.entries.image fun e ↦
        { e with line := if e.line < first then e.line else e.line + count } }
  | .removed first count =>
    { a with
      entries := (a.entries.filter fun e ↦ e.line < first ∨ first + count ≤ e.line).image fun e ↦
        { e with line := if e.line < first then e.line else e.line - count } }

def perform (a : GenerationQueue) : RefreshQueue.Step → RefreshQueue.Answer × GenerationQueue
  | .push k =>
    let (b, a) := a.push k
    (.flag b, a)
  | .pop =>
    let (k, a) := a.pop
    (.next k, a)
  | .contains k => (.flag (decide (k ∈ a.lines)), a)
  | .remove k =>
    let (b, a) := a.remove k
    (.flag b, a)
  | .move e => (.nothing, a.move e)
  | .clear => (.nothing, { a with entries := ∅ })

/-- Whether a step leads out of the machine words: a line would move out of them, or the lines to
be removed reach out of them while one is queued behind the first. -/
def Overflows (a : GenerationQueue) : RefreshQueue.Step → Prop
  | .move (.inserted first count) => ∃ e ∈ a.entries, first ≤ e.line ∧ wordSize ≤ e.line + count
  | .move (.removed first count) => wordSize ≤ first + count ∧ ∃ e ∈ a.entries, first ≤ e.line
  | _ => False

instance (a : GenerationQueue) : DecidablePred a.Overflows
  | .move (.inserted first count) =>
    inferInstanceAs (Decidable (∃ e ∈ a.entries, first ≤ e.line ∧ wordSize ≤ e.line + count))
  | .move (.removed first count) =>
    inferInstanceAs (Decidable (wordSize ≤ first + count ∧ ∃ e ∈ a.entries, first ≤ e.line))
  | .push _ | .pop | .contains _ | .remove _ | .move (.changed _) | .clear =>
    inferInstanceAs (Decidable False)

def perform? (a : GenerationQueue) (s : RefreshQueue.Step) :
    Option (RefreshQueue.Answer × GenerationQueue) :=
  if a.Overflows s then none else some (a.perform s)

def after? (a : GenerationQueue) (steps : List RefreshQueue.Step) : Option GenerationQueue :=
  steps.foldlM (fun a s ↦ (a.perform? s).map Prod.snd) a

theorem next?_eq_some {a : GenerationQueue} {e : Entry} (he : e ∈ a.entries)
    (hle : ∀ x ∈ a.entries, e ≤ x) : a.next? = some e := by
  have hne : a.entries.Nonempty := ⟨e, he⟩
  rw [next?, dif_pos hne]
  exact congrArg some ((a.entries.isLeast_min' hne).unique ⟨he, hle⟩)

theorem current_move (a : GenerationQueue) (e : Edit) : (a.move e).current = a.current := by
  cases e with
  | changed line => rfl
  | inserted first count => rfl
  | removed first count => rfl

theorem mem_move_entries {a : GenerationQueue} {e : Edit} {x : Entry} :
    x ∈ (a.move e).entries ↔
      ∃ y ∈ a.entries, y.generation = x.generation ∧ e.mapLine y.line = some x.line := by
  cases e with
  | changed line =>
    constructor
    · exact fun hx ↦ ⟨x, hx, rfl, rfl⟩
    · rintro ⟨y, hy, hg, hl⟩
      obtain rfl : y = x := Entry.ext hg (Option.some.inj hl)
      exact hy
  | inserted first count =>
    rw [move, Finset.mem_image]
    refine exists_congr fun y ↦ and_congr_right fun _ ↦ ?_
    rw [Entry.ext_iff]
    refine and_congr_right fun _ ↦ ?_
    dsimp only [Edit.mapLine]
    by_cases hlt : y.line < first
    · rw [if_pos hlt, if_neg (Nat.not_le.2 hlt), Option.some.injEq]
    · rw [if_neg hlt, if_pos (Nat.le_of_not_lt hlt), Option.some.injEq]
  | removed first count =>
    simp only [move, Finset.mem_image, Finset.mem_filter, and_assoc]
    refine exists_congr fun y ↦ and_congr_right fun _ ↦ ?_
    rw [Entry.ext_iff, and_left_comm]
    refine and_congr_right fun _ ↦ ?_
    dsimp only [Edit.mapLine]
    by_cases hlt : y.line < first
    · rw [if_pos hlt, if_pos hlt, Option.some.injEq, and_iff_right (.inl hlt)]
    · rw [if_neg hlt, if_neg hlt]
      by_cases hin : y.line < first + count
      · rw [if_pos hin, iff_false_right (by simp)]
        omega
      · rw [if_neg hin, Option.some.injEq, and_iff_right (.inr (Nat.le_of_not_lt hin))]

theorem after?_cons (a : GenerationQueue) (s : RefreshQueue.Step) (steps : List RefreshQueue.Step) :
    a.after? (s :: steps) = if a.Overflows s then none else (a.perform s).2.after? steps := by
  rw [after?, List.foldlM_cons, perform?]
  split <;> rfl

end GenerationQueue

end Highlighter
