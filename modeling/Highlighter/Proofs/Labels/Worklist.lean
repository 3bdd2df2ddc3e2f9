import Highlighter.Proofs.Labels.Starts

/-!
The labeling of a line as a loop over a list of stretches, which grows when embedded text is found.
The loop comes to an end, and cuts every text out of the line within its ends.
-/

namespace Highlighter

/-- The characters from one column to another one, if the line has these columns. -/
def Text.slice? (line : Text) (start stop : Nat) : Option Text :=
  if start ≤ stop ∧ stop ≤ line.length then some ((line.drop start).take (stop - start)) else none

theorem Stretch.slice?_eq {s : Stretch} {line : Text} (h : s.isLabeled line.length = true) :
    line.slice? (min s.start line.length)
      (max (s.stop.resolve line.length) (min s.start line.length)) = some (s.textIn line) := by
  have hstart := start_le_of_isLabeled h
  have hstop : s.stop.resolve line.length ≤ line.length := by
    cases s.stop with
    | column n => exact Nat.min_le_right n _
    | lineEnd => exact Nat.le_refl _
  have hle : s.start ≤ s.stop.resolve line.length := by
    rw [isLabeled, Bool.or_eq_true, decide_eq_true_eq, Bool.and_eq_true, beq_iff_eq] at h
    omega
  rw [Nat.min_eq_left hstart, Nat.max_eq_left hle, Text.slice?, if_pos ⟨hle, hstop⟩, textIn]

/-- A line that is being labeled: the stretches that are still to be labeled, each with its level
and the next one first, and the labels that were found. -/
structure Worklist where
  stretches : List (Nat × Stretch)
  labels : List Label

namespace Worklist

section Loop

variable (line : Text) (inherited : Continuations) (maxNesting : Nat)

/-- Adds what was found in a stretch. The text embedded in it comes next, unless it is too deep. -/
def add (w : Worklist) (level : Nat) (s : Scheme) : List Label → Worklist
  | [] => w
  | l :: rest =>
    let placed := Label.place (w.labels ++ Label.number w.labels.length (l :: rest)) line.length
    let inner := if level + 1 ≤ maxNesting then Label.embedded placed w.labels.length s else []
    ⟨inner.map (level + 1, ·) ++ w.stretches, placed⟩

/-- Labels a stretch whose text is cut out of the line, if the line has the columns for that. -/
def label? (w : Worklist) (level : Nat) (s : Stretch) : Option Worklist :=
  if s.isLabeled line.length then
    let start := min s.start line.length
    let stop := max (s.stop.resolve line.length) start
    (line.slice? start stop).map fun t ↦
      w.add line maxNesting level s.scheme (s.scheme.regions start s.stop t inherited level)
  else some w

/-- Whether the loop comes to an end with some labels. -/
inductive Finishes : Worklist → List Label → Prop
  | done (labels : List Label) : Finishes ⟨[], labels⟩ labels
  | next {level : Nat} {s : Stretch} {w w' : Worklist} {result : List Label}
      (h : w.label? line inherited maxNesting level s = some w') (hw : Finishes w' result) :
      Finishes ⟨(level, s) :: w.stretches, w.labels⟩ result

end Loop

variable {line : Text} {inherited : Continuations} {maxNesting level nesting : Nat}
variable {labels result result' : List Label} {w : Worklist} {s : Stretch}
variable {rest : List (Nat × Stretch)}

theorem Finishes.eq (h : Finishes line inherited maxNesting w result)
    (h' : Finishes line inherited maxNesting w result') : result = result' := by
  induction h with
  | done labels =>
    cases h' with
    | done => rfl
  | @next level s w w' result hw _ ih =>
    generalize he : Worklist.mk ((level, s) :: w.stretches) w.labels = u at h'
    cases h' with
    | done => cases he
    | @next _ _ v _ _ hv hrest =>
      cases w
      cases v
      cases he
      cases hw.symm.trans hv
      exact ih hrest

theorem label?_of_isLabeled (h : s.isLabeled line.length = true) :
    w.label? line inherited maxNesting level s = some (w.add line maxNesting level s.scheme
      (s.scheme.regions (min s.start line.length) s.stop (s.textIn line) inherited level)) := by
  rw [label?, if_pos h]
  dsimp only
  rw [s.slice?_eq h, Option.map_some]

/-- The stretches in some embedded text are labeled before those that wait already. -/
theorem finishes_foldl {inner : List Stretch} {f : List Label → Stretch → List Label}
    (hf : ∀ s rest labels result, Finishes line inherited maxNesting ⟨rest, f labels s⟩ result →
      Finishes line inherited maxNesting ⟨(level, s) :: rest, labels⟩ result)
    (h : Finishes line inherited maxNesting ⟨rest, inner.foldl f labels⟩ result) :
    Finishes line inherited maxNesting ⟨inner.map (level, ·) ++ rest, labels⟩ result := by
  induction inner generalizing labels with
  | nil => exact h
  | cons s inner ih => exact hf s _ labels result (ih h)

/-- The loop does with a stretch what the recursion does, and goes on with the others. -/
theorem finishes_addStretch (hn : level + nesting = maxNesting)
    (h : Finishes line inherited maxNesting
      ⟨rest, Label.addStretch line inherited nesting level s labels⟩ result) :
    Finishes line inherited maxNesting ⟨(level, s) :: rest, labels⟩ result := by
  induction nesting generalizing level s rest labels result with
  | zero =>
    rw [Label.addStretch] at h
    split at h
    · next hs =>
      refine .next (w := ⟨rest, labels⟩) (label?_of_isLabeled hs) ?_
      split at h
      · next he => rwa [he]
      · next he =>
        rw [he, add, if_neg (by omega)]
        exact h
    · next hs => exact .next (w := ⟨rest, labels⟩) (if_neg hs) h
  | succ n ih =>
    rw [Label.addStretch] at h
    split at h
    · next hs =>
      refine .next (w := ⟨rest, labels⟩) (label?_of_isLabeled hs) ?_
      split at h
      · next he => rwa [he]
      · next he =>
        have hn' : level + 1 + n = maxNesting := by omega
        rw [he, add, if_pos (by omega)]
        exact finishes_foldl (fun s rest labels result ↦ ih hn') h
    · next hs => exact .next (w := ⟨rest, labels⟩) (if_neg hs) h

theorem finishes_iff (s : Scheme) (line : Text) (inherited : Continuations) (maxNesting : Nat)
    {result : List Label} :
    Finishes line inherited maxNesting ⟨[(0, ⟨0, .lineEnd, s⟩)], []⟩ result ↔
      result = s.labelLine line inherited maxNesting := by
  have h : Finishes line inherited maxNesting ⟨[(0, ⟨0, .lineEnd, s⟩)], []⟩
      (s.labelLine line inherited maxNesting) :=
    finishes_addStretch (Nat.zero_add maxNesting) (.done _)
  exact ⟨fun h' ↦ h'.eq h, fun he ↦ he ▸ h⟩

end Worklist

end Highlighter
