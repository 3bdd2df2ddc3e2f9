import Highlighter.Proofs.Brackets.Account
import Highlighter.Proofs.Document.Settled
import Highlighter.Proofs.Labels.Containers
import Highlighter.Proofs.Labels.Handover

/-!
Brackets that labels mask. An enabled label inside a disabled one masks brackets too, although it
does not count. So the brackets that are checked are those outside of the labels that count exactly
if no other label hides one of these.
-/

namespace Highlighter

/-- Whether a label is inside a disabled one. -/
def Label.isInDisabled (placed : List Label) (l : Label) : Bool :=
  placed.any fun c ↦ l.containers.contains c.id && c.disabled

theorem Label.Nested.contains_activeIds {length : ℕ} {placed : List Label} {l : Label}
    (h : Nested length placed) (hn : (placed.map Label.id).Nodup) (hl : l ∈ placed) :
    (activeIds placed).contains l.id = (!l.disabled && !isInDisabled placed l) := by
  rw [Bool.eq_iff_iff, List.contains_iff_mem, h.mem_activeIds_iff hn hl, Counts, isInDisabled,
    Bool.and_eq_true, Bool.not_eq_true', Bool.not_eq_true', List.any_eq_false]
  refine and_congr_right fun _ ↦ forall₂_congr fun c _ ↦ ?_
  rw [Bool.and_eq_true, List.contains_iff_mem, not_and, Bool.not_eq_true]

/-- Masking leaves out some of the brackets of a line. -/
theorem MaskedLine.brackets_eq_filter (l : MaskedLine) :
    l.brackets =
      (brackets ⟨l.number, l.text, fun _ ↦ false⟩).filter fun o ↦ !l.masked o.column := by
  rw [brackets, brackets, bracketsFrom, bracketsFrom, List.filter_map, List.filter_filter]
  refine congrArg (List.map _) (List.filter_congr fun c _ ↦ ?_)
  show (BracketChecker.isBracket c.1 && !l.masked c.2) =
    (!l.masked c.2 && (BracketChecker.isBracket c.1 && !false))
  rw [Bool.not_false, Bool.and_true, Bool.and_comm]

namespace BracketChecker

variable {source : List Text} {masked masked' : ℕ → ℕ → ℕ → Bool}

/-- The lines of a text, masked by line, length of the line and column. -/
def maskedLines (source : List Text) (masked : ℕ → ℕ → ℕ → Bool) : List MaskedLine :=
  source.zipIdx.map fun (t, line) ↦ ⟨line, t, masked line t.length⟩

/-- All brackets of a text, with their places. -/
def bracketsIn (source : List Text) : List OpenBracket :=
  (maskedLines source fun _ _ _ ↦ false).flatMap MaskedLine.brackets

def isMaskedIn (source : List Text) (masked : ℕ → ℕ → ℕ → Bool) (o : OpenBracket) : Bool :=
  masked o.line (source.getD o.line []).length o.column

theorem flatMap_brackets_maskedLines (source : List Text) (masked : ℕ → ℕ → ℕ → Bool) :
    (maskedLines source masked).flatMap MaskedLine.brackets =
      (bracketsIn source).filter fun o ↦ !isMaskedIn source masked o := by
  rw [bracketsIn, maskedLines, maskedLines, List.flatMap_map, List.flatMap_map,
    List.filter_flatMap]
  refine List.flatMap_congr fun numbered hmem ↦ ?_
  obtain ⟨t, line⟩ := numbered
  have ht : source[line]? = some t := List.mem_zipIdx_iff_getElem?.1 hmem
  rw [MaskedLine.brackets_eq_filter]
  refine List.filter_congr fun o ho ↦ ?_
  have hline : o.line = line := (MaskedLine.of_mem_bracketsFrom ho).1
  rw [isMaskedIn, hline, List.getD_eq_getElem?_getD, ht]
  rfl

/-- The same brackets are left exactly if each one is masked in both or in neither. -/
theorem flatMap_brackets_maskedLines_eq_iff :
    (maskedLines source masked).flatMap MaskedLine.brackets =
        (maskedLines source masked').flatMap MaskedLine.brackets ↔
      ∀ o ∈ bracketsIn source, isMaskedIn source masked o = isMaskedIn source masked' o := by
  rw [flatMap_brackets_maskedLines, flatMap_brackets_maskedLines]
  constructor
  · intro heq o ho
    have hleft {m : ℕ → ℕ → ℕ → Bool} : (!isMaskedIn source m o) = true ↔
        o ∈ (bracketsIn source).filter fun o ↦ !isMaskedIn source m o := by
      rw [List.mem_filter, and_iff_right ho]
    exact Bool.not_inj (Bool.eq_iff_iff.2 (by rw [hleft, heq, ← hleft]))
  · exact fun h ↦ List.filter_congr fun o ho ↦ congrArg (!·) (h o ho)

end BracketChecker

namespace Document

open BracketChecker

variable {d : Document} {source : List Text} {line : ℕ}

/-- Whether a label of one of the names that counts covers a column. -/
def isMaskedByActive (d : Document) (names : List String) (line length column : ℕ) : Bool :=
  (d.labels line).any fun l ↦
    (Label.activeIds (d.labels line)).contains l.id && names.contains l.name &&
      l.covers column length

/-- Whether an enabled label of one of the names, but inside a disabled one, covers a column. -/
def isHidden (d : Document) (names : List String) (line length column : ℕ) : Bool :=
  (d.labels line).any fun l ↦ !l.disabled && Label.isInDisabled (d.labels line) l &&
    names.contains l.name && l.covers column length

theorem Reads.contains_activeIds (h : d.Reads source) {l : Label} (hl : l ∈ d.labels line) :
    (Label.activeIds (d.labels line)).contains l.id =
      (!l.disabled && !Label.isInDisabled (d.labels line) l) := by
  by_cases hline : line < source.length
  · rw [h.labels_eq hline] at hl ⊢
    have hof := d.scheme.ofLine_labelLine (source.getD line []) (d.freshlyInheritedBy source line)
      d.settings.maxNesting
    exact hof.nested.contains_activeIds (hof.ids.nodup_iff.2 List.nodup_range) hl
  · rw [h.labels_eq_nil (Nat.not_lt.1 hline)] at hl
    cases hl

/-- What is masked is covered by a label that counts, or hidden. -/
theorem Reads.isMasked_eq (h : d.Reads source) (names : List String) :
    d.isMasked names = fun line length column ↦
      d.isMaskedByActive names line length column || d.isHidden names line length column := by
  funext line length column
  rw [Bool.eq_iff_iff, Bool.or_eq_true, isMasked, isMaskedByActive, isHidden]
  simp only [List.any_eq_true]
  rw [← exists_or]
  refine exists_congr fun l ↦ ?_
  rw [← and_or_left]
  refine and_congr_right fun hl ↦ ?_
  rw [h.contains_activeIds hl, ← Bool.or_eq_true, ← Bool.eq_iff_iff]
  cases l.disabled <;> cases Label.isInDisabled (d.labels line) l <;> simp

theorem checkBrackets_eq (d : Document) (source : List Text) (names : List String) :
    d.checkBrackets source names =
      (checkLines {} (maskedLines source (d.isMasked names))).finish := by
  rw [checkBrackets, checkLines, maskedLines, List.foldl_map]

/-- Whether no bracket is hidden but those that labels that count cover too. -/
def HidesNoBracket (d : Document) (source : List Text) (names : List String) : Prop :=
  ∀ o ∈ bracketsIn source, isMaskedIn source (d.isHidden names) o = true →
    isMaskedIn source (d.isMaskedByActive names) o = true

instance (d : Document) (source : List Text) (names : List String) :
    Decidable (d.HidesNoBracket source names) :=
  inferInstanceAs (Decidable (∀ o ∈ bracketsIn source, _))

theorem Reads.unmasked_eq_iff (h : d.Reads source) (names : List String) :
    (maskedLines source (d.isMasked names)).flatMap MaskedLine.brackets =
        (maskedLines source (d.isMaskedByActive names)).flatMap MaskedLine.brackets ↔
      d.HidesNoBracket source names := by
  rw [flatMap_brackets_maskedLines_eq_iff, h.isMasked_eq]
  refine forall₂_congr fun o _ ↦ ?_
  rw [isMaskedIn, isMaskedIn, isMaskedIn, Bool.or_eq_left_iff_imp]

/-- In a settled document the brackets are checked that none of the labels with the given names
covers, neither one that counts nor an enabled one inside a disabled one. They are the brackets
outside of those that count exactly if none of these is hidden; then the problems are the same. -/
theorem checkBrackets_masks (h : d.IsSettledOn source) (names : List String) :
    (d.checkBrackets source names = (checkLines {} (maskedLines source fun line length column ↦
      d.isMaskedByActive names line length column || d.isHidden names line length column)).finish) ∧
    ((maskedLines source (d.isMasked names)).flatMap MaskedLine.brackets =
        (maskedLines source (d.isMaskedByActive names)).flatMap MaskedLine.brackets ↔
      d.HidesNoBracket source names) ∧
    (d.HidesNoBracket source names → d.checkBrackets source names =
      (checkLines {} (maskedLines source (d.isMaskedByActive names))).finish) := by
  have hunmasked := h.reads.unmasked_eq_iff names
  refine ⟨?_, hunmasked, fun hnone ↦ ?_⟩
  · rw [checkBrackets_eq, h.reads.isMasked_eq]
  · rw [checkBrackets_eq, checkLines_eq_foldl, hunmasked.2 hnone, ← checkLines_eq_foldl]

def labeledDocument (source : List Text) : Document :=
  ((new Scheme.documents {} source.length).runUntilIdle 0 source).2

def maskedNames : List String := ["COMMENT", "TAG"]

/-- A tag inside an apostrophe, where no string is allowed, but also inside a comment. -/
def apostrophe : List Text := ["<!-- it's <b ( > -->)".toList]

theorem checkBrackets_masks_apostrophe :
    let d := labeledDocument apostrophe
    d.IsSettledOn apostrophe ∧ d.HidesNoBracket apostrophe maskedNames ∧
      d.isHidden maskedNames 0 21 13 = true ∧
      d.checkBrackets apostrophe maskedNames = [⟨0, 20, .unexpected ')'⟩] := by
  intro d
  obtain ⟨hsettled, htext, hnone, hhidden, hproblems⟩ : d.isSettled = true ∧
      d.records.map LineRecord.text = apostrophe.map some ∧
      d.HidesNoBracket apostrophe maskedNames ∧ d.isHidden maskedNames 0 21 13 = true ∧
      (checkLines {} (maskedLines apostrophe (d.isMaskedByActive maskedNames))).finish =
        [⟨0, 20, .unexpected ')'⟩] := by decide +kernel
  have h : d.IsSettledOn apostrophe :=
    ⟨⟨Scheme.documents, {}, 1, [.runUntilIdle 0 apostrophe], rfl⟩, hsettled, htext⟩
  exact ⟨h, hnone, hhidden, ((checkBrackets_masks h maskedNames).2.2 hnone).trans hproblems⟩

/-- A quotation mark outside of a tag, and a comment after it. -/
def quotationMark : List Text := ["\" <!-- ( -->".toList]

theorem not_checkBrackets_masks_quotationMark :
    let d := labeledDocument quotationMark
    d.IsSettledOn quotationMark ∧ d.checkBrackets quotationMark maskedNames = [] ∧
      (checkLines {} (maskedLines quotationMark (d.isMaskedByActive maskedNames))).finish =
        [⟨0, 7, .unclosed '('⟩] := by
  intro d
  obtain ⟨hsettled, htext, hproblems⟩ : d.isSettled = true ∧
      d.records.map LineRecord.text = quotationMark.map some ∧
      d.checkBrackets quotationMark maskedNames = [] ∧
      (checkLines {} (maskedLines quotationMark (d.isMaskedByActive maskedNames))).finish =
        [⟨0, 7, .unclosed '('⟩] := by decide +kernel
  exact ⟨⟨⟨Scheme.documents, {}, 1, [.runUntilIdle 0 quotationMark], rfl⟩, hsettled, htext⟩,
    hproblems⟩

end Document

end Highlighter
