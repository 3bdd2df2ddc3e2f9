import Mathlib.Algebra.BigOperators.Group.List.Basic
import Mathlib.Algebra.Order.BigOperators.Group.Finset
import Mathlib.Algebra.Ring.Nat
import Highlighter.Proofs.Document.Runs

/-!
Frames that run until no line waits. Labeling a line may put the next one into the queue and no
other, so a waiting line counts for as many labelings as there are lines from it to the end.
-/

namespace Highlighter

theorem RefreshQueue.Tidy.perm_push {q : RefreshQueue} (h : q.Tidy) {line : ℕ}
    (hl : line ∉ q.toList) : (q.push line).2.toList.Perm (line :: q.toList) := by
  rw [List.perm_ext_iff_of_nodup (h.push line).nodup (List.nodup_cons.2 ⟨hl, h.nodup⟩)]
  intro k
  rw [RefreshQueue.mem_push, List.mem_cons]

theorem Throttle.isDue_takeDue (t : Throttle) (now : ℤ) : (t.takeDue now).2.isDue now = false := by
  rw [takeDue]
  split
  · rfl
  · next h => exact Bool.eq_false_of_not_eq_true h

namespace Document

variable {d d' : Document} {now : ℤ} {source : List Text} {lines : List ℕ} {line : ℕ}

/-- Frames one after the other until one labels no line, with all lines that they label. -/
inductive Idles (now : ℤ) (source : List Text) : Document → List ℕ → Document → Prop
  | done {d : Document} : d.batch now = [] → Idles now source d [] (d.frame now source).2
  | more {d d' : Document} {lines : List ℕ} :
      d.batch now ≠ [] → Idles now source (d.frame now source).2 lines d' →
      Idles now source d (d.batch now ++ lines) d'

/-- There are enough frames: each of them but the last labels a line. -/
theorem Idles.frames_eq (h : Idles now source d lines d') {fuel : ℕ} (hf : lines.length < fuel) :
    frames now source fuel d = (lines.length, d') := by
  induction h generalizing fuel with
  | @done d hb =>
    obtain ⟨fuel, rfl⟩ := Nat.exists_eq_add_one_of_ne_zero (Nat.ne_zero_of_lt hf)
    have he : d.frame now source = (0, (d.frame now source).2) := by
      rw [frame_eq, hb]
      rfl
    rw [frames, he]
    rfl
  | @more d d' lines hb h ih =>
    obtain ⟨fuel, rfl⟩ := Nat.exists_eq_add_one_of_ne_zero (Nat.ne_zero_of_lt hf)
    obtain ⟨n, hn⟩ := Nat.exists_eq_add_one_of_ne_zero (mt List.length_eq_zero_iff.1 hb)
    have he : d.frame now source = (n + 1, (d.frame now source).2) := by
      rw [← hn, frame_eq]
    rw [List.length_append] at hf ⊢
    rw [frames, he, hn]
    simp only
    rw [ih (by omega)]

/-! ### Refreshes that are due -/

/-- Whether no refresh that was put off is due. -/
def NoneDue (d : Document) (now : ℤ) : Prop := ∀ r ∈ d.records, r.throttle.isDue now = false

theorem noneDue_promote (d : Document) (now : ℤ) : (d.promote now).NoneDue now := by
  intro r hr
  obtain ⟨r', -, rfl⟩ := List.mem_map.1 hr
  exact r'.throttle.isDue_takeDue now

theorem NoneDue.promote_eq (h : d.NoneDue now) : d.promote now = d := by
  have hdue : ((List.range d.lineCount).filter
      fun line ↦ (d.records.getD line {}).throttle.isDue now) = [] := by
    refine List.filter_eq_nil_iff.2 fun k hk ↦ ?_
    have hk : k < d.records.length := List.mem_range.1 hk
    rw [getD_records (List.getElem?_eq_getElem hk), h _ (List.getElem_mem hk)]
    exact Bool.false_ne_true
  have hrecords : d.records.map (fun r ↦ { r with throttle := (r.throttle.takeDue now).2 }) =
      d.records := by
    refine (List.map_congr_left fun r hr ↦ ?_).trans (List.map_id d.records)
    rw [Throttle.takeDue, h r hr]
    rfl
  simp only [promote, hdue, hrecords]
  rfl

theorem NoneDue.relabel (h : d.NoneDue now) (source : List Text) (hl : line < d.lineCount) :
    (relabel source now d line).NoneDue now := by
  intro r hr
  obtain ⟨k, hk⟩ := List.mem_iff_getElem?.1 hr
  have hk : (Document.relabel source now d line).record? k = some r := hk
  rw [record?_relabel source now hl] at hk
  split at hk
  · cases hk
    rfl
  · split at hk
    · obtain ⟨next, hn, rfl⟩ := Option.map_eq_some_iff.1 hk
      exact h next (List.mem_of_getElem? hn)
    · exact h r (List.mem_of_getElem? hk)

theorem NoneDue.foldl_relabel (h : d.NoneDue now) (hl : ∀ line ∈ lines, line < d.lineCount) :
    (lines.foldl (Document.relabel source now) d).NoneDue now := by
  induction lines generalizing d with
  | nil => exact h
  | cons line lines ih =>
    obtain ⟨hline, hl⟩ := List.forall_mem_cons.1 hl
    refine ih (h.relabel source hline) fun k hk ↦ ?_
    rw [lineCount_relabel]
    exact hl k hk

theorem noneDue_frame (d : Document) (now : ℤ) (source : List Text) :
    (d.frame now source).2.NoneDue now := by
  rw [frame_eq]
  refine NoneDue.foldl_relabel (d := d.drawn now) (d.noneDue_promote now) fun line hl ↦ ?_
  rw [lineCount_drawn]
  exact lt_of_mem_batch hl

theorem noneDue_frames (d : Document) (now : ℤ) (source : List Text) (fuel : ℕ) :
    (frames now source (fuel + 1) d).2.NoneDue now := by
  induction fuel generalizing d with
  | zero =>
    have hf := d.noneDue_frame now source
    rw [frames]
    split <;> next he => rwa [he] at hf
  | succ fuel ih =>
    have hf := d.noneDue_frame now source
    rw [frames]
    split
    · next he => rwa [he] at hf
    · exact ih _

/-- Only the first frame takes up what is due. -/
theorem Idles.of_promote (h : Idles now source (d.promote now) lines d') :
    Idles now source d lines d' := by
  have hp : (d.promote now).promote now = d.promote now := (d.noneDue_promote now).promote_eq
  have hb : (d.promote now).batch now = d.batch now := by
    rw [batch, batch, hp, lineCount_promote]
    rfl
  have hf : (d.promote now).frame now source = d.frame now source := by
    rw [frame_eq, frame_eq, hb, drawn, drawn, hp]
    rfl
  cases h with
  | done he =>
    rw [hf]
    exact .done (hb ▸ he)
  | more hne h =>
    rw [hb] at hne ⊢
    rw [hf] at h
    exact .more hne h

/-! ### The labelings that may be left -/

/-- How many lines there are from those in the queue to the end, counted for each of them. -/
def load (d : Document) : ℕ := (d.queue.toList.map fun line ↦ d.lineCount - line).sum

theorem load_relabel (h : d.QueuesLines) (source : List Text) (now : ℤ)
    (hl : line < d.lineCount) :
    (relabel source now d line).load + 1 ≤ d.load + (d.lineCount - line) := by
  have hremove : ((d.queue.remove line).2.toList.map fun k ↦ d.lineCount - k).sum ≤ d.load := by
    rw [RefreshQueue.toList_remove]
    exact (List.erase_sublist.map _).sum_le_sum (by simp)
  have ht := h.tidy.remove line
  rw [load, lineCount_relabel]
  rw [relabel_eq]
  dsimp only
  split
  · exact Nat.add_le_add hremove (by omega)
  · next next hn =>
    split
    · exact Nat.add_le_add hremove (by omega)
    · -- the next line takes over all but one of the labelings that were left to this one
      have hlt : line + 1 < d.lineCount := (List.getElem?_eq_some_iff.1 hn).1
      show (((d.queue.remove line).2.push (line + 1)).2.toList.map _).sum + 1 ≤ _
      by_cases hp : line + 1 ∈ (d.queue.remove line).2.toList
      · rw [RefreshQueue.push, if_pos (RefreshQueue.contains_iff_mem.2 hp)]
        exact Nat.add_le_add hremove (by omega)
      · rw [((ht.perm_push hp).map _).sum_eq, List.map_cons, List.sum_cons]
        omega

theorem load_foldl_relabel (h : d.QueuesLines) (source : List Text) (now : ℤ)
    (hl : ∀ line ∈ lines, line < d.lineCount) :
    (lines.foldl (relabel source now) d).load + lines.length ≤
      d.load + (lines.map fun line ↦ d.lineCount - line).sum := by
  induction lines generalizing d with
  | nil => simp
  | cons line lines ih =>
    obtain ⟨hline, hl⟩ := List.forall_mem_cons.1 hl
    have hstep := load_relabel h source now hline
    have hrest := ih (h.relabel source now line) fun k hk ↦ by
      rw [lineCount_relabel]
      exact hl k hk
    rw [lineCount_relabel] at hrest
    simp only [List.foldl_cons, List.length_cons, List.map_cons, List.sum_cons]
    omega

/-- A frame makes up for each line that it labels. -/
theorem load_frame (h : d.QueuesLines) (now : ℤ) (source : List Text) :
    (d.frame now source).2.load + (d.batch now).length ≤ (d.promote now).load := by
  have hl : ∀ line ∈ d.batch now, line < (d.drawn now).lineCount := fun line hl ↦ by
    rw [lineCount_drawn]
    exact lt_of_mem_batch hl
  have hfold := load_foldl_relabel (h.drawn now) source now hl
  have hsplit : (d.promote now).load =
      ((d.batch now).map fun line ↦ d.lineCount - line).sum + (d.drawn now).load := by
    rw [load, load, lineCount_promote, lineCount_drawn, ← h.batch_append, List.map_append,
      List.sum_append]
  rw [lineCount_drawn] at hfold
  rw [frame_eq]
  dsimp only
  omega

/-- A frame that labels no line found no line waiting. -/
theorem QueuesLines.toList_promote_eq_nil (h : d.QueuesLines) (hb : d.batch now = []) :
    (d.promote now).queue.toList = [] := by
  rw [h.batch_eq, List.take_eq_nil_iff] at hb
  refine hb.resolve_left ?_
  rw [Settings.frameBudget]
  omega

/-- Frames come to an end, with an empty queue. -/
theorem exists_idles (h : d.QueuesLines) (hn : d.NoneDue now) (source : List Text) :
    ∃ lines d', Idles now source d lines d' ∧ d'.queue.isEmpty = true ∧ lines.length ≤ d.load := by
  induction hload : d.load using Nat.strong_induction_on generalizing d with
  | _ n ih =>
    subst hload
    by_cases hb : d.batch now = []
    · refine ⟨[], _, .done hb, ?_, Nat.zero_le _⟩
      rw [frame_eq, hb, RefreshQueue.isEmpty_iff]
      exact (toList_drawn d now).trans (by rw [h.toList_promote_eq_nil hb, List.drop_nil])
    · have hlen := List.length_pos_iff.2 hb
      have hload := load_frame h now source
      rw [hn.promote_eq] at hload
      obtain ⟨lines, d', hidles, hempty, hle⟩ := ih (d.frame now source).2.load (by omega)
        (h.frame now source) (d.noneDue_frame now source) rfl
      refine ⟨d.batch now ++ lines, d', .more hb hidles, hempty, ?_⟩
      rw [List.length_append]
      omega

def isDue (d : Document) (now : ℤ) (line : ℕ) : Bool :=
  (d.records.getD line {}).throttle.isDue now

theorem isPending_promote (h : d.QueuesLines) (now : ℤ) (line : ℕ) :
    (d.promote now).isPending line = true ↔
      line < d.lineCount ∧ (d.isPending line || d.isDue now line) = true := by
  rw [isPending_iff]
  simp only [promote, RefreshQueue.mem_pushAll, List.mem_filter, List.mem_range, Bool.or_eq_true,
    ← isPending_iff, isDue]
  constructor
  · rintro (⟨hl, hd⟩ | hp)
    · exact ⟨hl, .inr hd⟩
    · exact ⟨h.lt line hp, .inl hp⟩
  · rintro ⟨hl, hp | hd⟩
    · exact .inr hp
    · exact .inl ⟨hl, hd⟩

theorem load_promote (h : d.QueuesLines) (now : ℤ) :
    (d.promote now).load =
      ∑ line ∈ Finset.range d.lineCount with (d.isPending line || d.isDue now line) = true,
        (d.lineCount - line) := by
  rw [load, lineCount_promote, ← List.sum_toFinset _ (h.promote now).tidy.nodup]
  refine Finset.sum_congr (Finset.ext fun line ↦ ?_) fun _ _ ↦ rfl
  rw [List.mem_toFinset, ← isPending_iff, isPending_promote h, Finset.mem_filter,
    Finset.mem_range]

theorem load_promote_le (h : d.QueuesLines) (now : ℤ) :
    (d.promote now).load ≤ d.lineCount * d.lineCount := by
  rw [load_promote h]
  refine (Finset.sum_le_card_nsmul _ _ d.lineCount fun line _ ↦ Nat.sub_le _ _).trans ?_
  refine Nat.mul_le_mul_right _ ((Finset.card_filter_le _ _).trans_eq ?_)
  rw [Finset.card_range]

/-- Whatever was done with a document before, frames run until its queue is empty. They label at
most as many lines as there are from those that wait or are due to the end, counted for each. -/
theorem runUntilIdle_idles (scheme : Scheme) (settings : Settings) (lineCount : ℕ)
    (steps : List Step) (now : ℤ) (source : List Text) :
    let d := (Document.new scheme settings lineCount).after steps
    ∃ lines d', Idles now source d lines d' ∧ d.runUntilIdle now source = (lines.length, d') ∧
      d'.queue.isEmpty = true ∧ (∀ line, d'.isPending line = false) ∧
      lines.length ≤
        ∑ line ∈ Finset.range d.lineCount with (d.isPending line || d.isDue now line) = true,
          (d.lineCount - line) := by
  intro d
  have h : d.QueuesLines := .after_new scheme settings lineCount steps
  obtain ⟨lines, d', hidles, hempty, hle⟩ :=
    exists_idles (h.promote now) (d.noneDue_promote now) source
  have hidles := hidles.of_promote
  refine ⟨lines, d', hidles, ?_, hempty, fun line ↦ ?_, load_promote h now ▸ hle⟩
  · refine hidles.frames_eq ?_
    have hbound := load_promote_le h now
    omega
  · refine Bool.eq_false_iff.2 fun hp ↦ ?_
    rw [isPending_iff, RefreshQueue.isEmpty_iff.1 hempty] at hp
    cases hp

end Document

end Highlighter
