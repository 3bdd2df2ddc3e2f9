import Highlighter.Proofs.Document.Records
import Highlighter.Proofs.Refresh.Windows

/-!
Documents that are worked on: what can be done with them, and the frames that it is made of. In
every document that is reached the queue holds lines of the document, each of them once.
-/

namespace Highlighter.Document

/-- What can be done with a document. Whatever looks at lines brings them along. -/
inductive Step where
  | setScheme (scheme : Scheme)
  | apply (edits : List Edit) (now : ℤ)
  | request (line : ℕ) (now : ℤ) (force : Bool)
  | refreshAll
  | refreshNow (line : ℕ) (now : ℤ) (source : List Text)
  | frame (now : ℤ) (source : List Text)
  | runUntilIdle (now : ℤ) (source : List Text)

def perform (d : Document) : Step → Document
  | .setScheme scheme => d.withScheme scheme
  | .apply edits now => d.applyEdits edits now
  | .request line now force => d.requestRefresh line now force
  | .refreshAll => d.refreshAll
  | .refreshNow line now source => d.refreshNow line now source
  | .frame now source => (d.frame now source).2
  | .runUntilIdle now source => (d.runUntilIdle now source).2

def after (d : Document) (steps : List Step) : Document := steps.foldl perform d

/-! ### Frames -/

/-- The lines that a frame labels, in this order. -/
def batch (d : Document) (now : ℤ) : List ℕ :=
  ((d.promote now).queue.popMany d.settings.frameBudget).1.filter
    fun line ↦ decide (line < d.lineCount)

/-- The document from whose queue a frame has taken its lines. -/
def drawn (d : Document) (now : ℤ) : Document :=
  { d.promote now with queue := ((d.promote now).queue.popMany d.settings.frameBudget).2 }

section Frames

variable (d : Document) (now : ℤ) (source : List Text)

theorem lineCount_promote : (d.promote now).lineCount = d.lineCount := by
  simp [promote, lineCount]

theorem lineCount_drawn : (d.drawn now).lineCount = d.lineCount := d.lineCount_promote now

/-- A frame labels the lines of its batch one by one. -/
theorem frame_eq : d.frame now source =
    ((d.batch now).length, (d.batch now).foldl (relabel source now) (d.drawn now)) := by
  rw [frame, batch, ← d.lineCount_promote now]
  rfl

theorem lineCount_foldl_relabel (lines : List ℕ) :
    (lines.foldl (relabel source now) d).lineCount = d.lineCount := by
  induction lines generalizing d with
  | nil => rfl
  | cons line lines ih => rw [List.foldl_cons, ih, lineCount_relabel]

theorem lineCount_frame : (d.frame now source).2.lineCount = d.lineCount := by
  rw [frame_eq]
  exact (lineCount_foldl_relabel _ now source _).trans (d.lineCount_drawn now)

theorem toList_drawn :
    (d.drawn now).queue.toList = (d.promote now).queue.toList.drop d.settings.frameBudget :=
  (RefreshQueue.popMany_eq d.settings.frameBudget (d.promote now).queue).2

variable {d now}

theorem lt_of_mem_batch {line : ℕ} (h : line ∈ d.batch now) : line < d.lineCount :=
  of_decide_eq_true (List.mem_filter.1 h).2

end Frames

/-! ### The queue of a document -/

/-- Whether the queue holds lines of the document only, and none of them twice. -/
structure QueuesLines (d : Document) : Prop where
  tidy : d.queue.Tidy
  lt : ∀ line, d.isPending line = true → line < d.lineCount

namespace QueuesLines

variable {d d' : Document}

theorem enqueue (h : d.QueuesLines) {line : ℕ} (hl : line < d.lineCount) :
    (d.enqueue line).QueuesLines := by
  refine ⟨h.tidy.push line, fun k hk ↦ ?_⟩
  rcases isPending_enqueue.1 hk with rfl | hk
  · exact hl
  · exact h.lt k hk

theorem pushAll (h : d.QueuesLines) (lines : List ℕ) (hl : ∀ line ∈ lines, line < d.lineCount)
    (hq : d'.queue = d.queue.pushAll lines) (hc : d'.lineCount = d.lineCount) :
    d'.QueuesLines := by
  refine ⟨hq ▸ h.tidy.pushAll lines, fun k hk ↦ ?_⟩
  rw [isPending_iff, hq, RefreshQueue.mem_pushAll] at hk
  rw [hc]
  rcases hk with hk | hk
  · exact hl k hk
  · exact h.lt k (isPending_iff.2 hk)

theorem of_records (h : d.QueuesLines) (hq : d'.queue = d.queue)
    (hc : d'.lineCount = d.lineCount) : d'.QueuesLines := by
  refine ⟨hq ▸ h.tidy, fun k hk ↦ ?_⟩
  rw [isPending_iff, hq] at hk
  exact hc ▸ h.lt k (isPending_iff.2 hk)

theorem refreshAll (h : d.QueuesLines) : d.refreshAll.QueuesLines :=
  h.pushAll (List.range d.lineCount) (fun _ hl ↦ List.mem_range.1 hl) rfl rfl

theorem unlabeled (scheme : Scheme) (settings : Settings) (lineCount : ℕ) :
    (Document.unlabeled scheme settings lineCount).QueuesLines := by
  refine QueuesLines.refreshAll ⟨RefreshQueue.tidy_new, fun k hk ↦ ?_⟩
  cases isPending_iff.1 hk

theorem requestRefresh (h : d.QueuesLines) (line : ℕ) (now : ℤ) (force : Bool) :
    (d.requestRefresh line now force).QueuesLines := by
  cases hr : d.record? line with
  | none =>
    have he : d.requestRefresh line now force = d := by simp only [Document.requestRefresh, hr]
    exact he.symm ▸ h
  | some r =>
    rcases r.throttle.request_run_or_deferred now d.settings.minRefreshInterval force with
      hx | ⟨hx, -⟩
    · rw [requestRefresh_of_run hr hx]
      exact h.enqueue (List.getElem?_eq_some_iff.1 hr).1
    · rw [requestRefresh_of_ne_run hr hx]
      exact h.of_records rfl (by simp [lineCount])

theorem insertLines (h : d.QueuesLines) (first count : ℕ) :
    (d.insertLines first count).QueuesLines := by
  by_cases h0 : count = 0
  · simpa only [Document.insertLines, if_pos h0] using h
  have hf : min first d.lineCount ≤ d.lineCount := Nat.min_le_right _ _
  rw [← insertLines_min]
  generalize min first d.lineCount = first at hf
  constructor
  · rw [insertLines_eq h0 hf]
    exact (h.tidy.move _).pushAll _
  · intro k hk
    rw [lineCount_insertLines h0 hf]
    rcases (isPending_insertLines h0 hf).1 hk with ⟨-, hk⟩ | ⟨line, hl, hm⟩
    · omega
    · have hlt := h.lt line hl
      simp only [Edit.mapLine, Option.some.injEq] at hm
      split at hm <;> omega

theorem removeLines (h : d.QueuesLines) (first count : ℕ) :
    (d.removeLines first count).QueuesLines := by
  rw [Document.removeLines]
  split
  · exact h
  · next hn =>
    dsimp only
    have hstop : min (first + count) d.lineCount ≤ d.records.length := Nat.min_le_right _ _
    generalize min (first + count) d.lineCount = stop at hstop
    have hlen : (d.records.take first ++ d.records.drop stop).length ≤
        (if (d.records.take first ++ d.records.drop stop).isEmpty then [{}]
          else d.records.take first ++ d.records.drop stop : List LineRecord).length := by
      cases d.records.take first ++ d.records.drop stop <;> simp
    generalize (if (d.records.take first ++ d.records.drop stop).isEmpty then [{}]
      else d.records.take first ++ d.records.drop stop : List LineRecord) = records at hlen
    have hmoved : QueuesLines { d with
        records, queue := d.queue.move (.removed first (stop - first)) } := by
      refine ⟨h.tidy.move _, fun k hk ↦ ?_⟩
      obtain ⟨line, hl, hm⟩ := RefreshQueue.mem_move.1 (isPending_iff.1 hk)
      have hlt : line < d.records.length := h.lt line (isPending_iff.2 hl)
      show k < records.length
      simp only [Edit.mapLine] at hm
      simp only [List.length_append, List.length_take, List.length_drop] at hlen
      grind
    split
    · next hlt => exact hmoved.enqueue hlt
    · exact hmoved

theorem applyEdits (h : d.QueuesLines) (edits : List Edit) (now : ℤ) :
    (d.applyEdits edits now).QueuesLines := by
  induction edits generalizing d with
  | nil => exact h
  | cons e edits ih =>
    refine ih (d := applyEdit now d e) ?_
    cases e with
    | changed line => exact h.requestRefresh line now false
    | inserted first count => exact h.insertLines first count
    | removed first count => exact h.removeLines first count

theorem promote (h : d.QueuesLines) (now : ℤ) : (d.promote now).QueuesLines :=
  h.pushAll ((List.range d.lineCount).filter
      fun line ↦ (d.records.getD line {}).throttle.isDue now)
    (fun _ hl ↦ List.mem_range.1 (List.mem_filter.1 hl).1) rfl (d.lineCount_promote now)

theorem drawn (h : d.QueuesLines) (now : ℤ) : (d.drawn now).QueuesLines := by
  have hp := h.promote now
  refine ⟨hp.tidy.popMany _, fun k hk ↦ ?_⟩
  exact hp.lt k (isPending_iff.2 (RefreshQueue.mem_popMany.2 (.inr (isPending_iff.1 hk))))

/-- A frame draws the front of the queue, and leaves no line of it out. -/
theorem batch_eq (h : d.QueuesLines) (now : ℤ) :
    d.batch now = (d.promote now).queue.toList.take d.settings.frameBudget := by
  have hp := h.promote now
  obtain ⟨hfront, -⟩ := RefreshQueue.popMany_eq d.settings.frameBudget (d.promote now).queue
  have hb : d.batch now =
      ((d.promote now).queue.toList.take d.settings.frameBudget).filter
        fun line ↦ decide (line < d.lineCount) :=
    congrArg (List.filter fun line ↦ decide (line < d.lineCount)) hfront
  rw [hb, List.filter_eq_self]
  intro line hl
  have hlt := hp.lt line (isPending_iff.2 (List.mem_of_mem_take hl))
  exact decide_eq_true (hlt.trans_eq (d.lineCount_promote now))

theorem batch_append (h : d.QueuesLines) (now : ℤ) :
    d.batch now ++ (d.drawn now).queue.toList = (d.promote now).queue.toList := by
  rw [h.batch_eq, toList_drawn, List.take_append_drop]

theorem relabel (h : d.QueuesLines) (source : List Text) (now : ℤ) (line : ℕ) :
    (Document.relabel source now d line).QueuesLines := by
  constructor
  · have ht := h.tidy.remove line
    rw [relabel_eq]
    dsimp only
    split
    · exact ht
    · split
      · exact ht
      · exact ht.push (line + 1)
  · intro k hk
    rw [lineCount_relabel]
    rcases (isPending_relabel source now).1 hk with hk | ⟨-, next, hn, -⟩
    · rw [RefreshQueue.toList_remove] at hk
      exact h.lt k (isPending_iff.2 (List.mem_of_mem_erase hk))
    · exact (List.getElem?_eq_some_iff.1 hn).1

theorem foldl_relabel (h : d.QueuesLines) (source : List Text) (now : ℤ) (lines : List ℕ) :
    (lines.foldl (Document.relabel source now) d).QueuesLines := by
  induction lines generalizing d with
  | nil => exact h
  | cons line lines ih => exact ih (h.relabel source now line)

theorem frame (h : d.QueuesLines) (now : ℤ) (source : List Text) :
    (d.frame now source).2.QueuesLines := by
  rw [frame_eq]
  exact (h.drawn now).foldl_relabel source now _

theorem runUntilIdle (h : d.QueuesLines) (now : ℤ) (source : List Text) :
    (d.runUntilIdle now source).2.QueuesLines :=
  frames_induction (fun h ↦ h.frame now source) _ h

theorem refreshNow (h : d.QueuesLines) (line : ℕ) (now : ℤ) (source : List Text) :
    (d.refreshNow line now source).QueuesLines := by
  rw [Document.refreshNow]
  split
  · exact h.relabel source now line
  · exact h

theorem perform (h : d.QueuesLines) (a : Step) : (d.perform a).QueuesLines := by
  cases a with
  | setScheme scheme => exact unlabeled scheme d.settings d.lineCount
  | apply edits now => exact h.applyEdits edits now
  | request line now force => exact h.requestRefresh line now force
  | refreshAll => exact h.refreshAll
  | refreshNow line now source => exact h.refreshNow line now source
  | frame now source => exact h.frame now source
  | runUntilIdle now source => exact h.runUntilIdle now source

theorem after (h : d.QueuesLines) (steps : List Step) : (d.after steps).QueuesLines := by
  induction steps generalizing d with
  | nil => exact h
  | cons a steps ih => exact ih (h.perform a)

theorem after_new (scheme : Scheme) (settings : Settings) (lineCount : ℕ) (steps : List Step) :
    ((Document.new scheme settings lineCount).after steps).QueuesLines :=
  (unlabeled scheme settings (max lineCount 1)).after steps

end QueuesLines

end Highlighter.Document
