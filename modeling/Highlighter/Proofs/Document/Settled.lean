import Highlighter.Proofs.Document.Cascade

/-!
Settled documents. Whatever was done with a document, it is coherent; so as soon as no line waits,
and the lines are those of a text, each line has the labels that it has in this text.
-/

namespace Highlighter.Document

variable {d : Document} {source : List Text} {line : ℕ}

/-! ### What can be done with a document -/

theorem coherent_unlabeled (scheme : Scheme) (settings : Settings) (lineCount : ℕ) :
    (unlabeled scheme settings lineCount).Coherent [] := by
  refine coherent_of_awaits fun line hl ↦ .inl (isPending_iff.2 ?_)
  exact RefreshQueue.mem_pushAll.2 (.inl (List.mem_range.2 hl))

/-- No more lines are removed than there are. -/
theorem removeLines_min (d : Document) {first : ℕ} (count : ℕ) (hf : first < d.lineCount) :
    d.removeLines first (min (first + count) d.lineCount - first) = d.removeLines first count := by
  have hstop : min (first + (min (first + count) d.lineCount - first)) d.lineCount =
      min (first + count) d.lineCount := by omega
  have hiff : min (first + count) d.lineCount - first = 0 ∨ d.lineCount ≤ first ↔
      count = 0 ∨ d.lineCount ≤ first := by omega
  simp only [removeLines, hstop, hiff]

/-- Removing all lines leaves a new one, which waits. -/
theorem coherent_removeLines_all {count : ℕ} (h0 : d.lineCount ≠ 0) (hc : d.lineCount ≤ count) :
    (d.removeLines 0 count).Coherent [] := by
  have hn : ¬(count = 0 ∨ d.lineCount ≤ 0) := by omega
  have hrest : d.records.take 0 ++ d.records.drop (min (0 + count) d.lineCount) = [] := by
    rw [Nat.zero_add, Nat.min_eq_right hc]
    exact List.drop_length
  have hcount : (d.removeLines 0 count).lineCount = 1 := by
    rw [lineCount, records_removeLines hn, hrest]
    rfl
  refine coherent_of_awaits fun line hl ↦ .inl ((isPending_removeLines_iff hn).2 (.inl ?_))
  omega

theorem Coherent.removeLines (h : d.Coherent []) (first count : ℕ) :
    (d.removeLines first count).Coherent [] := by
  by_cases hf : first < d.lineCount
  · rw [← d.removeLines_min count hf]
    by_cases hl : min (first + count) d.lineCount - first < d.lineCount
    · exact coherent_removeLines h (by omega) hl
    · obtain rfl : first = 0 := by omega
      exact coherent_removeLines_all (by omega) (by omega)
  · rwa [Document.removeLines, if_pos (.inr (Nat.not_lt.1 hf))]

theorem Coherent.applyEdit (h : d.Coherent []) (now : ℤ) (e : Edit) :
    (applyEdit now d e).Coherent [] := by
  cases e with
  | changed line => exact h.of_postpones (d.postpones_requestRefresh line now false)
  | inserted first count =>
    rw [Document.applyEdit, ← insertLines_min]
    exact coherent_insertLines h (Nat.min_le_right _ _)
  | removed first count => exact h.removeLines first count

theorem Coherent.perform (h : d.Coherent []) (a : Step) : (d.perform a).Coherent [] := by
  cases a with
  | setScheme scheme => exact coherent_unlabeled scheme d.settings d.lineCount
  | apply edits now =>
    exact List.foldlRecOn (motive := fun d : Document ↦ d.Coherent []) edits _ h
      fun _ h e _ ↦ h.applyEdit now e
  | request line now force => exact h.of_postpones (d.postpones_requestRefresh line now force)
  | refreshAll => exact h.of_postpones d.postpones_refreshAll
  | refreshNow line now source => exact coherent_refreshNow line h
  | frame now source => exact coherent_frame h
  | runUntilIdle now source => exact coherent_runUntilIdle h

theorem coherent_after_new (scheme : Scheme) (settings : Settings) (lineCount : ℕ)
    (steps : List Step) : ((new scheme settings lineCount).after steps).Coherent [] :=
  List.foldlRecOn (motive := fun d : Document ↦ d.Coherent []) steps _
    (coherent_unlabeled scheme settings (max lineCount 1)) fun _ h a _ ↦ h.perform a

/-! ### Settled documents -/

/-- Whether a document, after whatever was done with it, has no line that waits, and its lines are
those of a text. -/
structure IsSettledOn (d : Document) (source : List Text) : Prop where
  reached : ∃ scheme settings lineCount steps, d = (new scheme settings lineCount).after steps
  isSettled : d.isSettled = true
  map_text : d.records.map LineRecord.text = source.map some

theorem IsSettledOn.reads (h : d.IsSettledOn source) : d.Reads source := by
  obtain ⟨scheme, settings, lineCount, steps, hd⟩ := h.reached
  have hc : d.Coherent [] := hd ▸ coherent_after_new scheme settings lineCount steps
  refine reads_of_isSettled h.isSettled hc ⟨?_, fun line r t hr _ _ ht ↦ ?_⟩
  · rw [← h.map_text, List.length_map]
    rfl
  · have hline : d.records[line]? = some r := hr
    rw [← h.map_text, List.getElem?_map, hline, ← ht]
    rfl

theorem Reads.labels_eq (h : d.Reads source) (hl : line < source.length) :
    d.labels line = d.scheme.labelLine (source.getD line []) (d.freshlyInheritedBy source line)
      d.settings.maxNesting := by
  obtain ⟨r, hr⟩ := d.exists_record (h.lineCount.symm ▸ hl)
  rw [labels, getD_records hr, (h.inherited_and_labeled hr).2, freshAt_eq]
  rfl

theorem Reads.labels_eq_nil (h : d.Reads source) (hl : source.length ≤ line) :
    d.labels line = [] := by
  have hnone : d.records[line]? = none :=
    List.getElem?_eq_none (Nat.le_trans (Nat.le_of_eq h.lineCount) hl)
  rw [labels, List.getD_eq_getElem?_getD, hnone]
  rfl

theorem Reads.freshlyInheritedBy_succ (h : d.Reads source) (hl : line < source.length) :
    d.freshlyInheritedBy source (line + 1) = Label.offered (d.labels line) := by
  rw [h.labels_eq hl, freshlyInheritedBy, freshAt_eq]
  rfl

end Highlighter.Document
