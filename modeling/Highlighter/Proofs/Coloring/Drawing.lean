import Mathlib.Data.List.Chain
import Highlighter.Document

/-!
Drawn lines: no character of the text is lost, no span is empty, the color changes from each span to
the next, and each character has the color that is found for its column.
-/

namespace Highlighter

namespace StyledLine

variable {line : StyledLine} {span last : Span} {spans before : List Span} {t : Text} {i : ℕ}

/-- The color of the character at a column: that of the span that holds it. -/
def colorIn? : List Span → ℕ → Option Color
  | [], _ => none
  | s :: rest, i => if i < s.text.length then some s.color else colorIn? rest (i - s.text.length)

def colorAt? (line : StyledLine) (i : ℕ) : Option Color := colorIn? line.spans i

/-- Whether no span is empty and no two neighbors could be one span. -/
structure IsMerged (spans : List Span) : Prop where
  nonempty : ∀ s ∈ spans, s.text ≠ []
  differ : spans.IsChain fun a b ↦ a.color ≠ b.color

/-- Whether a line shows a text in the colors given for its columns, in as few spans as can be. -/
structure Draws (line : StyledLine) (t : Text) (color : ℕ → Color) : Prop where
  text : line.text = t
  merged : IsMerged line.spans
  colors : ∀ i < t.length, line.colorAt? i = some (color i)

/-! ### The characters of a line with their colors -/

def cells (spans : List Span) : List (Char × Color) := spans.flatMap fun s ↦ s.text.map (·, s.color)

theorem cells_append (spans more : List Span) : cells (spans ++ more) = cells spans ++ cells more :=
  List.flatMap_append

theorem map_fst_cells (spans : List Span) :
    (cells spans).map Prod.fst = spans.flatMap Span.text := by
  induction spans with
  | nil => rfl
  | cons s spans ih =>
    show (s.text.map (·, s.color) ++ cells spans).map Prod.fst = s.text ++ spans.flatMap Span.text
    rw [List.map_append, ih, List.map_map]
    congr 1
    exact List.map_id _

theorem colorIn?_eq (spans : List Span) (i : ℕ) :
    colorIn? spans i = (cells spans)[i]?.map Prod.snd := by
  induction spans generalizing i with
  | nil => rfl
  | cons s spans ih =>
    show colorIn? (s :: spans) i = (s.text.map (·, s.color) ++ cells spans)[i]?.map Prod.snd
    rw [colorIn?, List.getElem?_append, List.length_map]
    split
    · next hi => simp [hi]
    · exact ih _

/-! ### Adding a span -/

theorem pushSpan_concat (span last : Span) (before : List Span) :
    pushSpan span (before ++ [last]) = before ++ pushSpan span [last] := by
  induction before with
  | nil => rfl
  | cons s before ih =>
    cases before with
    | nil => rfl
    | cons s' before => exact congrArg (s :: ·) ih

theorem cells_pushSpan (span : Span) (spans : List Span) :
    cells (pushSpan span spans) = cells spans ++ cells [span] := by
  obtain rfl | ⟨before, last, rfl⟩ := List.eq_nil_or_concat' spans
  · rfl
  · rw [pushSpan_concat, cells_append, cells_append, List.append_assoc, pushSpan]
    congr 1
    split
    · next hc => simp [cells, hc]
    · exact cells_append [last] [span]

theorem isMerged_pushSpan (hs : span.text ≠ []) (h : IsMerged spans) :
    IsMerged (pushSpan span spans) := by
  obtain rfl | ⟨before, last, rfl⟩ := List.eq_nil_or_concat' spans
  · exact ⟨by simpa [pushSpan] using hs, .singleton _⟩
  · obtain ⟨hbefore, -, hlast⟩ := List.isChain_append.1 h.differ
    have hnonempty : ∀ s ∈ before, s.text ≠ [] := fun s hm ↦
      h.nonempty s (List.mem_append_left _ hm)
    rw [pushSpan_concat, pushSpan]
    split
    · next hc =>
      refine ⟨fun s hm ↦ ?_, List.isChain_append.2 ⟨hbefore, .singleton _, fun a ha b hb ↦ ?_⟩⟩
      · obtain hm | hm := List.mem_append.1 hm
        · exact hnonempty s hm
        · rw [List.mem_singleton.1 hm]
          exact List.append_ne_nil_of_right_ne_nil _ hs
      · cases hb
        exact hlast a ha last rfl
    · next hc =>
      have hpair : [last, span].IsChain fun a b ↦ a.color ≠ b.color :=
        .cons_cons hc (.singleton _)
      refine ⟨fun s hm ↦ ?_, List.isChain_append.2 ⟨hbefore, hpair, fun a ha b hb ↦ ?_⟩⟩
      · obtain hm | hm := List.mem_append.1 hm
        · exact hnonempty s hm
        · obtain rfl | hm := List.mem_cons.1 hm
          · exact h.nonempty s (List.mem_append_right _ List.mem_cons_self)
          · rwa [List.mem_singleton.1 hm]
      · cases hb
        exact hlast a ha last rfl

theorem cells_push (line : StyledLine) (span : Span) :
    cells (line.push span).spans = cells line.spans ++ cells [span] := by
  rw [push]
  split
  · next he => simp [cells, List.isEmpty_iff.1 he]
  · exact cells_pushSpan span line.spans

theorem isMerged_push (h : IsMerged line.spans) (span : Span) :
    IsMerged (line.push span).spans := by
  rw [push]
  split
  · exact h
  · next he => exact isMerged_pushSpan (fun hnil ↦ he (List.isEmpty_iff.2 hnil)) h

theorem pushSpan_pushSpan (a b : Text) (c : Color) (spans : List Span) :
    pushSpan ⟨b, c⟩ (pushSpan ⟨a, c⟩ spans) = pushSpan ⟨a ++ b, c⟩ spans := by
  obtain rfl | ⟨before, last, rfl⟩ := List.eq_nil_or_concat' spans
  · simp [pushSpan]
  · rw [pushSpan_concat, pushSpan_concat, pushSpan, pushSpan]
    split
    · next hc => rw [pushSpan_concat, pushSpan, if_pos hc, List.append_assoc]
    · rw [List.append_cons, pushSpan_concat]
      simp [pushSpan]

/-- Two texts of one color are added as one. -/
theorem push_push (line : StyledLine) (a b : Text) (c : Color) :
    (line.push ⟨a, c⟩).push ⟨b, c⟩ = line.push ⟨a ++ b, c⟩ := by
  cases a with
  | nil => rfl
  | cons x a =>
    cases b with
    | nil => rw [List.append_nil]; rfl
    | cons y b => exact congrArg StyledLine.mk (pushSpan_pushSpan (x :: a) (y :: b) c line.spans)

end StyledLine

namespace Run

open StyledLine

variable (runs : List Run) (fallback : Color)

/-- A text drawn with the characters of one color gathered and added as one span where the color
changes; `pending` are those not yet added, of the color `last`. -/
def gatherFrom (i : ℕ) (pending : Text) (last : Color) : Text → StyledLine → StyledLine
  | [], line => line.push ⟨pending, last⟩
  | c :: t, line =>
    let next := (colorAt? runs i).getD fallback
    if next ≠ last ∧ pending ≠ [] then gatherFrom (i + 1) [c] next t (line.push ⟨pending, last⟩)
    else gatherFrom (i + 1) (pending ++ [c]) next t line

def gather (t : Text) : StyledLine := gatherFrom runs fallback 0 [] fallback t .empty

/-- What is pending can as well be added at once. -/
theorem gatherFrom_eq (i : ℕ) (pending : Text) (last : Color) (t : Text) (line : StyledLine) :
    gatherFrom runs fallback i pending last t line =
      drawFrom runs fallback i t (line.push ⟨pending, last⟩) := by
  induction t generalizing i pending last line with
  | nil => rfl
  | cons c t ih =>
    rw [gatherFrom, drawFrom]
    split
    · exact ih _ _ _ _
    · next hsame =>
      rw [ih]
      by_cases hlast : (colorAt? runs i).getD fallback = last
      · rw [hlast, push_push]
      · rw [not_and, not_not] at hsame
        rw [hsame hlast]
        rfl

theorem gather_eq_draw (t : Text) : gather runs fallback t = draw runs t fallback :=
  gatherFrom_eq runs fallback 0 [] fallback t .empty

theorem cells_drawFrom (i : ℕ) (t : Text) (line : StyledLine) :
    cells (drawFrom runs fallback i t line).spans =
      cells line.spans ++ t.mapIdx fun k c ↦ (c, (colorAt? runs (i + k)).getD fallback) := by
  induction t generalizing i line with
  | nil => exact (List.append_nil _).symm
  | cons c t ih =>
    rw [drawFrom, ih, cells_push, List.mapIdx_cons, List.append_assoc]
    simp [cells, Nat.add_comm, Nat.add_left_comm]

theorem isMerged_drawFrom (i : ℕ) (t : Text) {line : StyledLine} (h : IsMerged line.spans) :
    IsMerged (drawFrom runs fallback i t line).spans := by
  induction t generalizing i line with
  | nil => exact h
  | cons c t ih => exact ih (i + 1) (isMerged_push h _)

theorem draws_draw (t : Text) :
    Draws (draw runs t fallback) t fun i ↦ (colorAt? runs i).getD fallback := by
  have hcells : cells (draw runs t fallback).spans =
      t.mapIdx fun i c ↦ (c, (colorAt? runs i).getD fallback) := by
    refine (cells_drawFrom runs fallback 0 t .empty).trans ?_
    simp only [Nat.zero_add]
    rfl
  refine ⟨?_, isMerged_drawFrom runs fallback 0 t ⟨nofun, .nil⟩, fun i hi ↦ ?_⟩
  · rw [StyledLine.text, ← map_fst_cells, hcells]
    exact List.ext_getElem? fun i ↦ by simp [Function.comp_def]
  · rw [StyledLine.colorAt?, colorIn?_eq, hcells, List.getElem?_mapIdx, List.getElem?_eq_getElem hi]
    rfl

end Run

namespace Document

open StyledLine

/-- A line of a document is drawn without loss, in as few spans as can be, and in the colors that
the document gives for its columns, whatever text it was labeled with. The same holds of any runs
and any fallback color; and it makes no difference whether the characters of one color are gathered
first. -/
theorem draws_styledLine :
    (∀ (d : Document) (line : ℕ) (t : Text), Draws (d.styledLine line t) t (d.colorAt line)) ∧
      ∀ (runs : List Run) (t : Text) (fallback : Color),
        Draws (Run.draw runs t fallback) t (fun i ↦ (Run.colorAt? runs i).getD fallback) ∧
          Run.gather runs fallback t = Run.draw runs t fallback :=
  ⟨fun d line t ↦ Run.draws_draw (d.runs line) d.scheme.baseColor t,
    fun runs t fallback ↦ ⟨Run.draws_draw runs fallback t, Run.gather_eq_draw runs fallback t⟩⟩

end Document

end Highlighter
