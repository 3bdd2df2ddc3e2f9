import Highlighter.Proofs.Document.Idle

/-!
One frame: the lines that it labels, what all others keep, and the lines that wait after it.
-/

namespace Highlighter.Document

variable {d : Document} {now : ℤ} {source : List Text} {lines before after : List ℕ} {line k : ℕ}

/-- The text with which a line was labeled last, and its labels. -/
def labeling? (d : Document) (line : ℕ) : Option (Option Text × LabeledLine) :=
  (d.record? line).map fun r ↦ (r.text, r.labeled)

/-- Whether labeling a line changes what the next line inherits. -/
def Hands (d : Document) (source : List Text) (now : ℤ) (line next : ℕ) : Prop :=
  next = line + 1 ∧ ((relabel source now d line).record? next).map LineRecord.inherited ≠
    (d.record? next).map LineRecord.inherited

/-! ### The labeling of one line -/

theorem hands_iff (hl : line < d.lineCount) :
    d.Hands source now line k ↔ k = line + 1 ∧ ∃ next, d.record? k = some next ∧
      next.inherited ≠ (d.labelNow source now line).offered := by
  refine and_congr_right fun hk ↦ ?_
  subst hk
  rw [record?_relabel source now hl, if_neg (Nat.succ_ne_self line), if_pos rfl]
  cases d.record? (line + 1) with
  | none => simp
  | some next => simp [eq_comm]

theorem isPending_relabel_iff (h : d.QueuesLines) (hl : line < d.lineCount) :
    (relabel source now d line).isPending k = true ↔
      (d.isPending k = true ∧ k ≠ line) ∨ d.Hands source now line k := by
  rw [isPending_relabel, RefreshQueue.toList_remove, h.tidy.nodup.mem_erase_iff, hands_iff hl,
    isPending_iff, and_comm]

/-- A line that is not labeled can only be told what it inherits. -/
theorem record?_relabel_of_ne (source : List Text) (now : ℤ) (hl : line < d.lineCount)
    (hk : k ≠ line) :
    ∃ inherited, (relabel source now d line).record? k =
      (d.record? k).map fun r ↦ { r with inherited } := by
  rw [record?_relabel source now hl, if_neg hk]
  cases d.record? k with
  | none => exact ⟨[], ite_self none⟩
  | some r =>
    split
    · exact ⟨_, rfl⟩
    · exact ⟨r.inherited, rfl⟩

/-! ### The labeling of several lines -/

theorem lt_lineCount_relabel (source : List Text) (now : ℤ) (line : ℕ)
    (hl : ∀ k ∈ lines, k < d.lineCount) :
    ∀ k ∈ lines, k < (relabel source now d line).lineCount := by
  intro k hk
  rw [lineCount_relabel]
  exact hl k hk

theorem exists_append_cons_iff {α : Type} {P : List α → α → List α → Prop} {a : α}
    {l : List α} :
    (∃ before b after, a :: l = before ++ b :: after ∧ P before b after) ↔
      P [] a l ∨ ∃ before b after, l = before ++ b :: after ∧ P (a :: before) b after := by
  constructor
  · rintro ⟨before, b, after, he, hp⟩
    cases before with
    | nil =>
      obtain ⟨rfl, rfl⟩ := List.cons.inj he
      exact .inl hp
    | cons c before =>
      obtain ⟨rfl, rfl⟩ := List.cons.inj he
      exact .inr ⟨before, b, after, rfl, hp⟩
  · rintro (hp | ⟨before, b, after, rfl, hp⟩)
    · exact ⟨[], a, l, rfl, hp⟩
    · exact ⟨a :: before, b, after, rfl, hp⟩

/-- Lines that are labeled wait no longer, unless they are handed something afterwards. -/
theorem isPending_foldl_relabel (h : d.QueuesLines) (hl : ∀ line ∈ lines, line < d.lineCount) :
    (lines.foldl (relabel source now) d).isPending k = true ↔
      (d.isPending k = true ∧ k ∉ lines) ∨
        ∃ before line after, lines = before ++ line :: after ∧
          (before.foldl (relabel source now) d).Hands source now line k ∧ k ∉ after := by
  induction lines generalizing d with
  | nil => simp
  | cons line lines ih =>
    obtain ⟨hline, hl⟩ := List.forall_mem_cons.1 hl
    rw [List.foldl_cons, ih (h.relabel source now line) (lt_lineCount_relabel source now line hl),
      exists_append_cons_iff, isPending_relabel_iff h hline, List.mem_cons, not_or, ← and_assoc,
      or_and_right, or_assoc]
    rfl

theorem record?_foldl_relabel_of_not_mem (source : List Text) (now : ℤ)
    (hl : ∀ line ∈ lines, line < d.lineCount) (hk : k ∉ lines) :
    ∃ inherited, (lines.foldl (relabel source now) d).record? k =
      (d.record? k).map fun r ↦ { r with inherited } := by
  induction lines generalizing d with
  | nil =>
    cases hr : d.record? k with
    | none => exact ⟨[], hr⟩
    | some r => exact ⟨r.inherited, hr⟩
  | cons line lines ih =>
    obtain ⟨hline, hl⟩ := List.forall_mem_cons.1 hl
    rw [List.mem_cons, not_or] at hk
    obtain ⟨_, hstep⟩ := record?_relabel_of_ne source now hline hk.1
    obtain ⟨inherited, hrest⟩ := ih (lt_lineCount_relabel source now line hl) hk.2
    rw [hstep, Option.map_map] at hrest
    exact ⟨inherited, hrest⟩

theorem labeling?_foldl_relabel_of_not_mem (hl : ∀ line ∈ lines, line < d.lineCount)
    (hk : k ∉ lines) : (lines.foldl (relabel source now) d).labeling? k = d.labeling? k := by
  obtain ⟨inherited, h⟩ := record?_foldl_relabel_of_not_mem source now hl hk
  rw [labeling?, h, Option.map_map]
  rfl

/-- A line that is labeled once keeps its labels while others are labeled. -/
theorem record?_foldl_relabel_of_append (hl : ∀ k ∈ before ++ line :: after, k < d.lineCount)
    (hn : (before ++ line :: after).Nodup) :
    ∃ inherited, ((before ++ line :: after).foldl (relabel source now) d).record? line =
      some { (before.foldl (relabel source now) d).labelNow source now line with inherited } := by
  have hafter : line ∉ after := (List.nodup_cons.1 (List.nodup_append.1 hn).2.1).1
  rw [List.foldl_append, List.foldl_cons]
  have hcount := lineCount_foldl_relabel d now source before
  generalize before.foldl (relabel source now) d = d' at hcount ⊢
  rw [← hcount] at hl
  obtain ⟨hline, hl⟩ := List.forall_mem_cons.1 (List.forall_mem_append.1 hl).2
  obtain ⟨inherited, h⟩ := record?_foldl_relabel_of_not_mem source now
    (lt_lineCount_relabel source now line hl) hafter
  rw [record?_relabel source now hline, if_pos rfl] at h
  exact ⟨inherited, h⟩

/-! ### A frame -/

theorem labeling?_drawn (d : Document) (now : ℤ) (line : ℕ) :
    (d.drawn now).labeling? line = d.labeling? line := by
  have h : (d.drawn now).record? line = (d.promote now).record? line := rfl
  rw [labeling?, h, record?_promote, Option.map_map]
  rfl

/-- A frame labels the first lines of the queue as far as its budget goes, after those whose
refresh is due were put into it. No other line gets labels. What waits afterwards is the rest of
the queue, and the lines that were handed something new and not labeled since. -/
theorem frame_labels_batch (scheme : Scheme) (settings : Settings) (lineCount : ℕ)
    (steps : List Step) (now : ℤ) (source : List Text) :
    let d := (Document.new scheme settings lineCount).after steps
    let queue := (d.promote now).queue
    let batch := queue.toList.take d.settings.frameBudget
    let labeled (lines : List ℕ) := lines.foldl (relabel source now) (d.drawn now)
    (∀ line, line ∈ queue.toList ↔
      line < d.lineCount ∧ (d.isPending line || d.isDue now line) = true) ∧
    (∀ n, (queue.popMany n).1 = queue.toList.take n) ∧
    batch.Nodup ∧ batch.length = min d.settings.frameBudget queue.size ∧
    d.frame now source = (batch.length, labeled batch) ∧
    (∀ before line after, batch = before ++ line :: after →
      ∃ inherited, (labeled batch).record? line =
        some { (labeled before).labelNow source now line with inherited }) ∧
    (∀ line, line ∉ batch → (labeled batch).labeling? line = d.labeling? line) ∧
    ∀ line, (labeled batch).isPending line = true ↔
      line ∈ queue.toList.drop d.settings.frameBudget ∨
        ∃ before last after, batch = before ++ last :: after ∧
          (labeled before).Hands source now last line ∧ line ∉ after := by
  intro d queue batch labeled
  have h : d.QueuesLines := .after_new scheme settings lineCount steps
  have hbatch : d.batch now = batch := h.batch_eq now
  have hsplit : batch ++ (d.drawn now).queue.toList = queue.toList := hbatch ▸ h.batch_append now
  have hnodup : (batch ++ (d.drawn now).queue.toList).Nodup := hsplit ▸ (h.promote now).tidy.nodup
  have hlt : ∀ line ∈ batch, line < (d.drawn now).lineCount := fun line hl ↦ by
    rw [lineCount_drawn]
    exact lt_of_mem_batch (hbatch ▸ hl)
  refine ⟨fun line ↦ ?_, fun n ↦ (RefreshQueue.popMany_eq n queue).1, hnodup.of_append_left,
    List.length_take, ?_, fun before line after he ↦ ?_, fun line hl ↦ ?_, fun line ↦ ?_⟩
  · rw [← isPending_promote h, isPending_iff]
  · rw [frame_eq, hbatch]
  · have hlines : ∀ k ∈ before ++ line :: after, k < (d.drawn now).lineCount := he ▸ hlt
    have hn : (before ++ line :: after).Nodup := he ▸ hnodup.of_append_left
    rw [he]
    exact record?_foldl_relabel_of_append hlines hn
  · rw [← labeling?_drawn d now]
    exact labeling?_foldl_relabel_of_not_mem hlt hl
  · have hrest : (d.drawn now).isPending line = true ∧ line ∉ batch ↔
        line ∈ queue.toList.drop d.settings.frameBudget := by
      rw [isPending_iff, ← toList_drawn, and_iff_left_iff_imp]
      exact fun hd hb ↦ (List.disjoint_of_nodup_append hnodup) hb hd
    rw [← hrest]
    exact isPending_foldl_relabel (h.drawn now) hlt

end Highlighter.Document
