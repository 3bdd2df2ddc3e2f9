import Highlighter.Brackets.Balance

/-!
Lines checked one after the other: only their brackets count, and there is no problem exactly if
these are balanced.
-/

namespace Highlighter

/-- A line to be checked, but for the columns that are masked. -/
structure MaskedLine where
  number : Nat
  text : Text
  masked : Nat → Bool

namespace BracketChecker

def checkLines (b : BracketChecker) (lines : List MaskedLine) : BracketChecker :=
  lines.foldl (fun b l ↦ b.checkLine l.number l.text l.masked) b

/-- One bracket, wherever it is. -/
def next (b : BracketChecker) (o : OpenBracket) : BracketChecker := b.check o.line o.column o.char

end BracketChecker

namespace MaskedLine

open BracketChecker

/-- The brackets from a column on that are not masked, with their places. -/
def bracketsFrom (l : MaskedLine) (column : Nat) (t : Text) : List OpenBracket :=
  ((t.zipIdx column).filter fun (c, column) ↦ isBracket c && !l.masked column).map
    fun (c, column) ↦ ⟨c, l.number, column⟩

def brackets (l : MaskedLine) : List OpenBracket := l.bracketsFrom 0 l.text

theorem bracketsFrom_cons (l : MaskedLine) (column : Nat) (c : Char) (t : Text) :
    l.bracketsFrom column (c :: t) =
      if isBracket c && !l.masked column then
        ⟨c, l.number, column⟩ :: l.bracketsFrom (column + 1) t
      else l.bracketsFrom (column + 1) t := by
  simp only [bracketsFrom, List.zipIdx_cons, List.filter_cons]
  split
  · rfl
  · rfl

theorem map_char_brackets (l : MaskedLine) :
    l.brackets.map OpenBracket.char = bracketsOf l.masked l.text := by
  rw [brackets, bracketsFrom, List.map_map, bracketsOf]
  rfl

end MaskedLine

namespace BracketChecker

variable {b : BracketChecker}

theorem check_of_not_isBracket {c : Char} (h : isBracket c = false) (line column : Nat) :
    b.check line column c = b := by
  obtain ⟨hopen, hclose⟩ := Bool.or_eq_false_iff.1 h
  rw [check, hopen, hclose]
  rfl

/-- Only brackets that are not masked have an effect. -/
theorem checkFrom_eq_foldl (l : MaskedLine) (column : Nat) (t : Text) :
    checkFrom l.masked l.number column t b = (l.bracketsFrom column t).foldl next b := by
  induction t generalizing column b with
  | nil => rfl
  | cons c t ih =>
    rw [checkFrom, ih, MaskedLine.bracketsFrom_cons]
    cases hm : l.masked column with
    | true => rw [if_pos rfl, Bool.not_true, Bool.and_false, if_neg Bool.false_ne_true]
    | false =>
      rw [if_neg Bool.false_ne_true, Bool.not_false, Bool.and_true]
      cases hc : isBracket c with
      | true => rw [if_pos rfl, List.foldl_cons, next]
      | false => rw [if_neg Bool.false_ne_true, check_of_not_isBracket hc]

theorem checkLines_eq_foldl (lines : List MaskedLine) :
    b.checkLines lines = (lines.flatMap MaskedLine.brackets).foldl next b := by
  induction lines generalizing b with
  | nil => rfl
  | cons l lines ih =>
    rw [List.flatMap_cons, List.foldl_append, ← ih]
    show checkLines (checkFrom l.masked l.number 0 l.text b) lines = _
    rw [checkFrom_eq_foldl]
    rfl

/-! ### The cases of one bracket -/

variable {o : OpenBracket} {expected : Char}

theorem next_of_opener (h : (closerFor? o.char).isSome) :
    b.next o = { b with stack := o :: b.stack } := by
  rw [next, check, if_pos h]

theorem closerFor?_of_isCloser {c : Char} (h : isCloser c = true) : closerFor? c = none := by
  simp only [isCloser, Bool.or_eq_true, beq_iff_eq] at h
  obtain (rfl | rfl) | rfl := h <;> rfl

theorem isCloser_of_closerFor? {c closer : Char} (h : closerFor? c = some closer) :
    isCloser closer = true := by
  rw [closerFor?] at h
  split at h
  · cases h; rfl
  · split at h
    · cases h; rfl
    · split at h
      · cases h; rfl
      · cases h

theorem next_of_closer (h : isCloser o.char = true) :
    b.next o = b.close o.line o.column o.char := by
  rw [next, check, closerFor?_of_isCloser h, h]
  rfl

theorem next_of_unexpected (h : isCloser o.char = true) (hs : b.stack = []) :
    b.next o = b.report o.line o.column (.unexpected o.char) := by
  rw [next_of_closer h, close, hs]

theorem next_of_partner {top : OpenBracket} {rest : List OpenBracket} (hs : b.stack = top :: rest)
    (hc : closerFor? top.char = some o.char) : b.next o = { b with stack := rest } := by
  rw [next_of_closer (isCloser_of_closerFor? hc), close, hs]
  simp only [hc, if_true]

theorem next_of_mismatched {top : OpenBracket} {rest : List OpenBracket}
    (h : isCloser o.char = true) (hs : b.stack = top :: rest)
    (hc : closerFor? top.char = some expected) (hne : expected ≠ o.char) :
    b.next o = b.report o.line o.column (.mismatched expected o.char) := by
  rw [next_of_closer h, close, hs]
  simp only [hc, if_neg hne]

/-! ### Balance -/

theorem foldl_next_of_balanced {w : Text} (h : Balanced w) {brackets : List OpenBracket}
    (hw : brackets.map OpenBracket.char = w) : brackets.foldl next b = b := by
  induction h generalizing b brackets with
  | nil => rw [List.map_eq_nil_iff.1 hw]; rfl
  | @pair opener closer inner rest hc hi hr ihi ihr =>
    obtain ⟨o, brackets, rfl, rfl, hrest⟩ := List.map_eq_cons_iff.1 hw
    obtain ⟨inside, others, rfl, hinside, hothers⟩ := List.map_eq_append_iff.1 hrest
    obtain ⟨c, after, rfl, rfl, hafter⟩ := List.map_eq_cons_iff.1 hothers
    have ho : (closerFor? o.char).isSome := by rw [hc]; rfl
    rw [List.foldl_cons, next_of_opener ho, List.foldl_append, ihi hinside, List.foldl_cons,
      next_of_partner rfl hc, ihr hafter]

/-- What has been found stays found. -/
theorem mem_problems_next {p : BracketProblem} (h : p ∈ b.problems) (o : OpenBracket) :
    p ∈ (b.next o).problems := by
  rw [next, check]
  split
  · exact h
  · split
    · rw [close]
      split
      · exact List.mem_cons_of_mem _ h
      · split
        · exact h
        · split
          · exact h
          · exact List.mem_cons_of_mem _ h
    · exact h

theorem mem_problems_foldl_next {p : BracketProblem} (h : p ∈ b.problems)
    (brackets : List OpenBracket) : p ∈ (brackets.foldl next b).problems := by
  induction brackets generalizing b with
  | nil => exact h
  | cons o brackets ih => exact ih (mem_problems_next h o)

theorem finish_eq_nil_iff : b.finish = [] ↔ b.problems = [] ∧ b.stack = [] := by
  simp [finish]

/-- Whether a text closes what is open, innermost first, and is balanced but for that. -/
def Closes : List OpenBracket → Text → Prop
  | [], w => Balanced w
  | o :: stack, w => ∃ inner closer rest, w = inner ++ closer :: rest ∧
      closerFor? o.char = some closer ∧ Balanced inner ∧ Closes stack rest

/-- A pair may stand in front of what closes. -/
theorem Closes.pair {stack : List OpenBracket} {opener closer : Char} {inner rest : Text}
    (h : closerFor? opener = some closer) (hi : Balanced inner) (hr : Closes stack rest) :
    Closes stack (opener :: (inner ++ closer :: rest)) := by
  cases stack with
  | nil => exact Balanced.pair h hi hr
  | cons o stack =>
    obtain ⟨inner', closer', rest', rfl, hc, hi', hr'⟩ := hr
    refine ⟨opener :: (inner ++ closer :: inner'), closer', rest', ?_, hc, .pair h hi hi', hr'⟩
    rw [List.cons_append, List.append_assoc, List.cons_append]

theorem closes_of_finish {brackets : List OpenBracket} (hb : ∀ o ∈ brackets, isBracket o.char)
    (hs : ∀ o ∈ b.stack, (closerFor? o.char).isSome)
    (h : (brackets.foldl next b).finish = []) : Closes b.stack (brackets.map OpenBracket.char) := by
  induction brackets generalizing b with
  | nil =>
    obtain ⟨-, hstack⟩ := finish_eq_nil_iff.1 h
    rw [List.foldl_nil] at hstack
    rw [hstack]
    exact Balanced.nil
  | cons o brackets ih =>
    rw [List.forall_mem_cons] at hb
    rw [List.foldl_cons] at h
    have hnone : (b.next o).problems = [] := by
      refine List.eq_nil_iff_forall_not_mem.2 fun p hp ↦ ?_
      have hmem := mem_problems_foldl_next hp brackets
      rw [(finish_eq_nil_iff.1 h).1] at hmem
      exact List.not_mem_nil hmem
    by_cases ho : (closerFor? o.char).isSome
    · rw [next_of_opener ho] at h
      obtain ⟨inner, closer, rest, hw, hc, hi, hr⟩ :=
        ih (b := { b with stack := o :: b.stack }) hb.2 (List.forall_mem_cons.2 ⟨ho, hs⟩) h
      rw [List.map_cons, hw]
      exact hr.pair hc hi
    · have hcloser : isCloser o.char = true := (Bool.or_eq_true_iff.1 hb.1).resolve_left ho
      cases hstack : b.stack with
      | nil =>
        rw [next_of_unexpected hcloser hstack] at hnone
        cases hnone
      | cons top rest =>
        rw [hstack, List.forall_mem_cons] at hs
        obtain ⟨expected, hc⟩ := Option.isSome_iff_exists.1 hs.1
        by_cases he : expected = o.char
        · rw [he] at hc
          rw [next_of_partner hstack hc] at h
          exact ⟨[], o.char, _, rfl, hc, .nil, ih (b := { b with stack := rest }) hb.2 hs.2 h⟩
        · rw [next_of_mismatched hcloser hstack hc he] at hnone
          cases hnone

theorem finish_foldl_next_eq_nil_iff {brackets : List OpenBracket}
    (hb : ∀ o ∈ brackets, isBracket o.char) :
    (brackets.foldl next {}).finish = [] ↔ Balanced (brackets.map OpenBracket.char) := by
  constructor
  · exact closes_of_finish (b := {}) hb (by simp)
  · intro h
    rw [foldl_next_of_balanced h rfl]
    rfl

end BracketChecker

end Highlighter
