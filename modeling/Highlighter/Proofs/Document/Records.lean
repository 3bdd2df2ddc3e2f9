import Highlighter.Document
import Highlighter.Proofs.Buffer.Replay
import Highlighter.Proofs.Refresh.Waiting

/-!
What each operation of a document does to its records and to the lines that wait.
-/

namespace Highlighter

namespace Throttle

/-- A request runs and leaves no trace, or it is put off. -/
theorem request_run_or_deferred (t : Throttle) (now : Int) (interval : Nat) (force : Bool) :
    t.request now interval force = (.run, t) ∨
      (t.request now interval force).1 ≠ .run ∧
        (t.request now interval force).2.isDeferred = true := by
  rw [request]
  split
  · exact .inl rfl
  · split
    · exact .inl rfl
    · split
      · next hd => exact .inr ⟨by simp, hd⟩
      · exact .inr ⟨by simp, rfl⟩

theorem request_forced (t : Throttle) (now : Int) (interval : Nat) :
    t.request now interval true = (.run, t) := by
  rw [request]
  split <;> rfl

theorem isDue_of_takeDue {t : Throttle} {now : Int} (h : t.isDeferred = true)
    (h' : (t.takeDue now).2.isDeferred = false) : t.isDue now = true := by
  rw [takeDue] at h'
  split at h'
  · next hd => exact hd
  · rw [h] at h'; cases h'

end Throttle

namespace Document

theorem isPending_iff {d : Document} {line : Nat} :
    d.isPending line = true ↔ line ∈ d.queue.toList := RefreshQueue.contains_iff_mem

theorem isPending_enqueue {d : Document} {k line : Nat} :
    (d.enqueue line).isPending k = true ↔ k = line ∨ d.isPending k = true := by
  rw [isPending_iff, isPending_iff]
  exact RefreshQueue.mem_push

theorem getD_records {d : Document} {line : Nat} {r : LineRecord} (h : d.record? line = some r) :
    d.records.getD line {} = r := by
  rw [List.getD_eq_getElem?_getD]
  exact congrArg (Option.getD · {}) h

theorem exists_record {d : Document} {line : Nat} (h : line < d.lineCount) :
    ∃ r, d.record? line = some r := ⟨d.records[line], List.getElem?_eq_getElem h⟩

/-- Whether two documents label lines alike. -/
def SameRules (d d' : Document) : Prop := d'.scheme = d.scheme ∧ d'.settings = d.settings

theorem SameRules.refl (d : Document) : d.SameRules d := ⟨rfl, rfl⟩

theorem SameRules.trans {d d' d'' : Document} (h : d.SameRules d') (h' : d'.SameRules d'') :
    d.SameRules d'' := ⟨h'.1.trans h.1, h'.2.trans h.2⟩

/-! ### Requests -/

/-- Whether a document differs from another one only in that more lines wait: each line keeps
what is known of it, and gives up being deferred only for a place in the queue. -/
structure Postpones (d d' : Document) : Prop where
  rules : d.SameRules d'
  lineCount : d'.lineCount = d.lineCount
  pending : ∀ line, d.isPending line = true → d'.isPending line = true
  record : ∀ line r', d'.record? line = some r' → ∃ r, d.record? line = some r ∧
    r' = { r with throttle := r'.throttle } ∧
    (r.isDeferred = true → r'.isDeferred = true ∨ d'.isPending line = true)

theorem Postpones.of_queue {d d' : Document} (hs : d.SameRules d')
    (hr : d'.records = d.records)
    (hp : ∀ line, d.isPending line = true → d'.isPending line = true) : d.Postpones d' where
  rules := hs
  lineCount := by simp only [Document.lineCount, hr]
  pending := hp
  record line r' h := ⟨r', by simpa only [record?, hr] using h, rfl, Or.inl⟩

theorem postpones_enqueue (d : Document) (line : Nat) : d.Postpones (d.enqueue line) :=
  .of_queue ⟨rfl, rfl⟩ rfl fun _ h ↦ isPending_enqueue.2 (.inr h)

theorem postpones_refreshAll (d : Document) : d.Postpones d.refreshAll :=
  .of_queue ⟨rfl, rfl⟩ rfl fun _ h ↦
    isPending_iff.2 (RefreshQueue.mem_pushAll.2 (.inr (isPending_iff.1 h)))

theorem requestRefresh_of_run {d : Document} {line : Nat} {now : Int} {force : Bool}
    {r : LineRecord} (hr : d.record? line = some r)
    (h : r.throttle.request now d.settings.minRefreshInterval force = (.run, r.throttle)) :
    d.requestRefresh line now force = d.enqueue line := by
  have hs : d.records.set line r = d.records := by
    obtain ⟨hl, rfl⟩ := List.getElem?_eq_some_iff.1 hr
    exact List.set_getElem_self hl
  simp only [requestRefresh, hr, h, hs]

theorem requestRefresh_of_ne_run {d : Document} {line : Nat} {now : Int} {force : Bool}
    {r : LineRecord} (hr : d.record? line = some r)
    (h : (r.throttle.request now d.settings.minRefreshInterval force).1 ≠ .run) :
    d.requestRefresh line now force =
      { d with records := d.records.set line { r with
          throttle := (r.throttle.request now d.settings.minRefreshInterval force).2 } } := by
  simp only [requestRefresh, hr]

theorem records_requestRefresh_forced (d : Document) (line : Nat) (now : Int) :
    (d.requestRefresh line now true).records = d.records := by
  cases hr : d.record? line with
  | none => simp only [requestRefresh, hr]
  | some r =>
    rw [requestRefresh_of_run hr (r.throttle.request_forced now d.settings.minRefreshInterval)]
    rfl

theorem postpones_requestRefresh (d : Document) (line : Nat) (now : Int) (force : Bool) :
    d.Postpones (d.requestRefresh line now force) := by
  cases hr : d.record? line with
  | none =>
    have h : d.requestRefresh line now force = d := by simp only [requestRefresh, hr]
    rw [h]
    exact .of_queue ⟨rfl, rfl⟩ rfl fun _ h ↦ h
  | some r =>
    obtain h | ⟨h, hd⟩ := r.throttle.request_run_or_deferred now d.settings.minRefreshInterval force
    · rw [requestRefresh_of_run hr h]
      exact d.postpones_enqueue line
    · rw [requestRefresh_of_ne_run hr h]
      refine ⟨⟨rfl, rfl⟩, by simp [lineCount], fun _ h ↦ h, fun k r' hk ↦ ?_⟩
      rw [record?, List.getElem?_set] at hk
      split at hk
      · next he =>
        subst he
        split at hk
        · cases hk; exact ⟨r, hr, rfl, fun _ ↦ .inl hd⟩
        · cases hk
      · exact ⟨r', hk, rfl, Or.inl⟩

theorem record?_requestRefresh (d : Document) (line : Nat) (now : Int) (force : Bool) (k : Nat) :
    (d.requestRefresh line now force).record? k =
      if k = line then
        (d.record? k).map fun r ↦ { r with
          throttle := (r.throttle.request now d.settings.minRefreshInterval force).2 }
      else d.record? k := by
  rw [requestRefresh]
  split
  · next hr =>
    split
    · next hk => rw [hk, hr]; rfl
    · rfl
  · next r hr =>
    have hl : line < d.records.length := (List.getElem?_eq_some_iff.1 hr).1
    have hset : (d.records.set line { r with
        throttle := (r.throttle.request now d.settings.minRefreshInterval force).2 })[k]? = _ :=
      List.getElem?_set
    dsimp only
    split
    all_goals
      rw [record?]
      refine hset.trans ?_
      by_cases hk : k = line
      · subst hk
        rw [if_pos rfl, if_pos hl, if_pos rfl, hr]
        rfl
      · rw [if_neg (Ne.symm hk), if_neg hk]
        rfl

theorem isPending_requestRefresh {d : Document} {line : Nat} {now : Int} {force : Bool}
    {k : Nat} :
    (d.requestRefresh line now force).isPending k = true ↔
      d.isPending k = true ∨ k = line ∧ ∃ r, d.record? k = some r ∧
        (r.throttle.request now d.settings.minRefreshInterval force).1 = .run := by
  cases hr : d.record? line with
  | none =>
    have he : d.requestRefresh line now force = d := by simp only [requestRefresh, hr]
    rw [he]
    constructor
    · exact Or.inl
    · rintro (hk | ⟨rfl, r, hs, -⟩)
      · exact hk
      · rw [hr] at hs; cases hs
  | some r =>
    obtain h | ⟨h, -⟩ := r.throttle.request_run_or_deferred now d.settings.minRefreshInterval force
    · rw [requestRefresh_of_run hr h, isPending_enqueue, or_comm]
      refine or_congr_right (iff_self_and.2 fun hk ↦ ?_)
      rw [hk]
      exact ⟨r, hr, by rw [h]⟩
    · rw [requestRefresh_of_ne_run hr h]
      refine (or_iff_left ?_).symm
      rintro ⟨rfl, r', hs, hrun⟩
      obtain rfl : r = r' := Option.some.inj (hr.symm.trans hs)
      exact h hrun

/-- A line whose refresh was requested waits, in the queue or for its throttle. -/
theorem waits_requestRefresh {d : Document} {line : Nat} {now : Int} {force : Bool}
    {r : LineRecord} (h : (d.requestRefresh line now force).record? line = some r) :
    (d.requestRefresh line now force).isPending line = true ∨ r.isDeferred = true := by
  obtain ⟨r', hr, -⟩ := (d.postpones_requestRefresh line now force).record line r h
  obtain hx | ⟨hx, hd⟩ :=
    r'.throttle.request_run_or_deferred now d.settings.minRefreshInterval force
  · rw [requestRefresh_of_run hr hx]
    exact .inl (isPending_enqueue.2 (.inl rfl))
  · rw [requestRefresh_of_ne_run hr hx, record?, List.getElem?_set, if_pos rfl] at h
    split at h
    · cases h; exact .inr hd
    · cases h

theorem postpones_promote (d : Document) (now : Int) : d.Postpones (d.promote now) := by
  refine ⟨⟨rfl, rfl⟩, by simp [promote, lineCount], fun k hk ↦ ?_, fun k r' hk ↦ ?_⟩
  · exact isPending_iff.2 (RefreshQueue.mem_pushAll.2 (.inr (isPending_iff.1 hk)))
  · simp only [record?, promote, List.getElem?_map, Option.map_eq_some_iff] at hk
    obtain ⟨r, hr, rfl⟩ := hk
    refine ⟨r, hr, rfl, fun hd ↦ ?_⟩
    cases ht : (r.throttle.takeDue now).2.isDeferred with
    | true => exact .inl ht
    | false =>
      refine .inr (isPending_iff.2 (RefreshQueue.mem_pushAll.2 (.inl ?_)))
      have hk : k < d.lineCount := (List.getElem?_eq_some_iff.1 hr).1
      have hg : d.records.getD k {} = r := getD_records hr
      have hdue := Throttle.isDue_of_takeDue hd ht
      rw [List.mem_filter, hg]
      exact ⟨List.mem_range.2 hk, hdue⟩

theorem record?_promote (d : Document) (now : Int) (k : Nat) :
    (d.promote now).record? k =
      (d.record? k).map fun r ↦ { r with throttle := (r.throttle.takeDue now).2 } := by
  simp only [record?, promote, List.getElem?_map]

/-! ### Lines that come and go -/

/-- What a line at the given place inherits when it is new there. -/
def offeredBefore (d : Document) : Nat → Continuations
  | 0 => []
  | n + 1 => (d.records.getD n {}).offered

theorem insertLines_min (d : Document) (first count : Nat) :
    d.insertLines (min first d.lineCount) count = d.insertLines first count := by
  simp only [insertLines, Nat.min_assoc, Nat.min_self]

theorem insertLines_eq {d : Document} {first count : Nat} (hc : count ≠ 0)
    (hf : first ≤ d.lineCount) :
    d.insertLines first count =
      { d with
        records := d.records.take first ++
          ({ inherited := d.offeredBefore first } :: List.replicate (count - 1) {}) ++
          d.records.drop first
        queue := (d.queue.move (.inserted first count)).pushAll (List.range' first count) } := by
  rw [insertLines, if_neg hc, Nat.min_eq_left hf]
  cases first <;> rfl

theorem record?_insertLines {d : Document} {first count : Nat} (hc : count ≠ 0)
    (hf : first ≤ d.lineCount) (k : Nat) :
    (d.insertLines first count).record? k =
      if k < first then d.record? k
      else if k < first + count then
        some { inherited := if k = first then d.offeredBefore first else [] }
      else d.record? (k - count) := by
  rw [insertLines_eq hc hf, record?, getElem?_splice hf]
  simp only [List.length_cons, List.length_replicate, Nat.sub_add_cancel (Nat.pos_of_ne_zero hc)]
  split
  · rfl
  · split
    · next h h' =>
      by_cases he : k = first
      · simp [he]
      · have hi : k - first = k - first - 1 + 1 := by omega
        rw [hi, List.getElem?_cons_succ, List.getElem?_replicate, if_pos (by omega), if_neg he]
    · next h h' => exact congrArg d.record? (by omega : k - first - count + first = k - count)

theorem isPending_insertLines {d : Document} {first count : Nat} (hc : count ≠ 0)
    (hf : first ≤ d.lineCount) {k : Nat} :
    (d.insertLines first count).isPending k = true ↔
      (first ≤ k ∧ k < first + count) ∨
        ∃ line, d.isPending line = true ∧ (Edit.inserted first count).mapLine line = some k := by
  rw [isPending_iff, insertLines_eq hc hf]
  simp only [RefreshQueue.mem_pushAll, RefreshQueue.mem_move, List.mem_range'_1, isPending_iff]

/-- The records after a removal. If no line is left, there is a new one. -/
theorem records_removeLines {d : Document} {first count : Nat}
    (h : ¬(count = 0 ∨ d.lineCount ≤ first)) :
    (d.removeLines first count).records =
      let rest := d.records.take first ++ d.records.drop (min (first + count) d.lineCount)
      if rest.isEmpty then [{}] else rest := by
  rw [removeLines, if_neg h]
  dsimp only
  split <;> split <;> rfl

theorem isPending_removeLines_iff {d : Document} {first count k : Nat}
    (h : ¬(count = 0 ∨ d.lineCount ≤ first)) :
    (d.removeLines first count).isPending k = true ↔
      k = first ∧ first < (d.removeLines first count).lineCount ∨
        k ∈ (d.queue.move
          (.removed first (min (first + count) d.lineCount - first))).toList := by
  have hmoved : ∀ d' : Document,
      let d'' := if first < d'.lineCount then d'.enqueue first else d'
      (d''.isPending k = true ↔ k = first ∧ first < d''.lineCount ∨ k ∈ d'.queue.toList) := by
    intro d'
    dsimp only
    split
    · next hf =>
      rw [isPending_enqueue, isPending_iff]
      exact or_congr_left (iff_self_and.2 fun _ ↦ hf)
    · next hf =>
      rw [isPending_iff]
      exact (or_iff_right fun hk ↦ hf hk.2).symm
  rw [removeLines, if_neg h]
  exact hmoved _

theorem removeLines_eq {d : Document} {first count : Nat} (hc : count ≠ 0)
    (hf : first + count ≤ d.lineCount) (hl : count < d.lineCount) :
    d.removeLines first count =
      let d' := { d with
        records := d.records.take first ++ d.records.drop (first + count)
        queue := d.queue.move (.removed first count) }
      if first < d'.lineCount then d'.enqueue first else d' := by
  have hn : ¬(count = 0 ∨ d.lineCount ≤ first) := by omega
  have hr : (d.records.take first ++ d.records.drop (first + count)).isEmpty = false := by
    rw [List.isEmpty_eq_false_iff_exists_mem]
    refine List.exists_mem_of_length_pos ?_
    have h : d.lineCount = d.records.length := rfl
    simp only [List.length_append, List.length_take, List.length_drop]
    omega
  simp only [removeLines, if_neg hn, Nat.min_eq_left hf, hr, Nat.add_sub_cancel_left]
  rfl

theorem lineCount_removed {d : Document} {first count : Nat} (hf : first + count ≤ d.lineCount) :
    (d.records.take first ++ d.records.drop (first + count)).length = d.lineCount - count := by
  have h : d.lineCount = d.records.length := rfl
  simp only [List.length_append, List.length_take, List.length_drop]
  omega

theorem record?_removeLines {d : Document} {first count : Nat} (hc : count ≠ 0)
    (hf : first + count ≤ d.lineCount) (hl : count < d.lineCount) (k : Nat) :
    (d.removeLines first count).record? k =
      if k < first then d.record? k else d.record? (k + count) := by
  have hk : (d.removeLines first count).record? k =
      (d.records.take first ++ [] ++ d.records.drop (first + count))[k]? := by
    rw [removeLines_eq hc hf hl, List.append_nil]
    dsimp only
    split <;> rfl
  have hfirst : first ≤ d.records.length := Nat.le_trans (Nat.le_add_right _ _) hf
  rw [hk, getElem?_splice hfirst]
  split
  · rfl
  · rw [List.length_nil, if_neg (by omega)]
    exact congrArg d.record? (by omega : k - first - 0 + (first + count) = k + count)

theorem isPending_removeLines {d : Document} {first count : Nat} (hc : count ≠ 0)
    (hf : first + count ≤ d.lineCount) (hl : count < d.lineCount) {k : Nat} :
    (d.removeLines first count).isPending k = true ↔
      (k = first ∧ first + count < d.lineCount) ∨
        ∃ line, d.isPending line = true ∧ (Edit.removed first count).mapLine line = some k := by
  have hd : ∀ d' : Document, d'.queue = d.queue.move (.removed first count) →
      (d'.isPending k = true ↔
        ∃ line, d.isPending line = true ∧ (Edit.removed first count).mapLine line = some k) := by
    intro d' hq
    simp only [isPending_iff, hq, RefreshQueue.mem_move]
  rw [removeLines_eq hc hf hl]
  dsimp only
  have hlen := lineCount_removed hf
  split
  · next h =>
    rw [isPending_enqueue, hd _ rfl]
    have h' : first + count < d.lineCount := by
      rw [lineCount, hlen] at h
      omega
    simp [h']
  · next h =>
    have h' : ¬first + count < d.lineCount := by
      rw [lineCount, hlen] at h
      omega
    rw [hd _ rfl]
    simp [h']

theorem sameRules_insertLines (d : Document) (first count : Nat) :
    d.SameRules (d.insertLines first count) := by
  rw [insertLines]
  split <;> exact ⟨rfl, rfl⟩

theorem sameRules_removeLines (d : Document) (first count : Nat) :
    d.SameRules (d.removeLines first count) := by
  rw [removeLines]
  split
  · exact .refl d
  · dsimp only
    split <;> split <;> exact ⟨rfl, rfl⟩

theorem lineCount_insertLines {d : Document} {first count : Nat} (hc : count ≠ 0)
    (hf : first ≤ d.lineCount) : (d.insertLines first count).lineCount = d.lineCount + count := by
  have h : d.lineCount = d.records.length := rfl
  rw [insertLines_eq hc hf]
  simp only [lineCount, List.length_append, List.length_take, List.length_drop, List.length_cons,
    List.length_replicate]
  omega

theorem lineCount_removeLines {d : Document} {first count : Nat} (hc : count ≠ 0)
    (hf : first + count ≤ d.lineCount) (hl : count < d.lineCount) :
    (d.removeLines first count).lineCount = d.lineCount - count := by
  rw [removeLines_eq hc hf hl, ← lineCount_removed hf]
  dsimp only
  split <;> rfl

/-! ### Labeling -/

/-- The record of a line that is labeled now. -/
def labelNow (d : Document) (source : List Text) (now : Int) (line : Nat) : LineRecord where
  text := some (source.getD line [])
  labeled := LabeledLine.ofText d.scheme d.settings.maxNesting (d.inheritedBy line)
    (source.getD line [])
  inherited := d.inheritedBy line
  throttle := { lastRun := some now }

section Relabel

variable (source : List Text) (now : Int) (d : Document) (line : Nat)

theorem relabel_eq :
    relabel source now d line =
      let d' := { d with
        records := d.records.set line (d.labelNow source now line)
        queue := (d.queue.remove line).2 }
      match d.record? (line + 1) with
      | none => d'
      | some next =>
        if next.inherited = (d.labelNow source now line).offered then d'
        else
          { d' with
            records := d'.records.set (line + 1)
              { next with inherited := (d.labelNow source now line).offered } }.enqueue
                (line + 1) := by
  have h : (d.records.set line (d.labelNow source now line))[line + 1]? = d.record? (line + 1) :=
    List.getElem?_set_ne (by omega)
  rw [← h]
  rfl

theorem sameRules_relabel : d.SameRules (relabel source now d line) := by
  rw [relabel_eq]
  dsimp only
  split
  · exact ⟨rfl, rfl⟩
  · split <;> exact ⟨rfl, rfl⟩

theorem lineCount_relabel : (relabel source now d line).lineCount = d.lineCount := by
  rw [relabel_eq]
  dsimp only
  split
  · simp [lineCount]
  · split <;> simp [lineCount, enqueue]

variable {d line}

/-- Only the line itself gets new labels, and the next one is told what it inherits now. -/
theorem record?_relabel (h : line < d.lineCount) (k : Nat) :
    (relabel source now d line).record? k =
      if k = line then some (d.labelNow source now line)
      else if k = line + 1 then
        (d.record? k).map fun r ↦ { r with inherited := (d.labelNow source now line).offered }
      else d.record? k := by
  have hset : (d.records.set line (d.labelNow source now line))[k]? =
      if k = line then some (d.labelNow source now line) else d.record? k := by
    have hl : line < d.records.length := h
    by_cases hk : k = line
    · subst hk; simp [hl]
    · rw [List.getElem?_set_ne (Ne.symm hk), if_neg hk]; rfl
  rw [relabel_eq]
  dsimp only
  split
  · next hn =>
    rw [record?, hset]
    by_cases hk : k = line + 1
    · rw [hk, hn, if_neg (by omega), if_neg (by omega), if_pos rfl]; rfl
    · rw [if_neg hk]
  · next next hn =>
    split
    · next he =>
      rw [record?, hset]
      by_cases hk : k = line + 1
      · rw [hk, hn, if_neg (by omega), if_neg (by omega), if_pos rfl, ← he]; rfl
      · rw [if_neg hk]
    · next he =>
      have hl : line + 1 < d.records.length := (List.getElem?_eq_some_iff.1 hn).1
      rw [record?, enqueue]
      by_cases hk : k = line + 1
      · subst hk
        rw [List.getElem?_set_self (by simpa using hl), if_neg (by omega), if_pos rfl, hn]
        rfl
      · rw [List.getElem?_set_ne (Ne.symm hk), hset, if_neg hk]

theorem isPending_relabel {k : Nat} :
    (relabel source now d line).isPending k = true ↔
      k ∈ (d.queue.remove line).2.toList ∨
        k = line + 1 ∧ ∃ next, d.record? k = some next ∧
          next.inherited ≠ (d.labelNow source now line).offered := by
  rw [relabel_eq]
  dsimp only
  split
  · next hn =>
    rw [isPending_iff]
    constructor
    · exact Or.inl
    · rintro (hk | ⟨rfl, next, hs, -⟩)
      · exact hk
      · rw [hn] at hs; cases hs
  · next next hn =>
    split
    · next he =>
      rw [isPending_iff]
      constructor
      · exact Or.inl
      · rintro (hk | ⟨rfl, next', hs, hne⟩)
        · exact hk
        · rw [hn] at hs; cases hs; exact absurd he hne
    · next he =>
      rw [isPending_enqueue, isPending_iff]
      constructor
      · rintro (rfl | hk)
        · exact .inr ⟨rfl, next, hn, he⟩
        · exact .inl hk
      · rintro (hk | ⟨rfl, -⟩)
        · exact .inr hk
        · exact .inl rfl

theorem isPending_relabel_of_ne {k : Nat} (hk : k ≠ line) (h : d.isPending k = true) :
    (relabel source now d line).isPending k = true :=
  (isPending_relabel source now).2
    (.inl ((RefreshQueue.mem_remove_of_ne hk).2 (isPending_iff.1 h)))

variable {source now}

/-- Lines are labeled one after the other; those that are still to come are known meanwhile. -/
theorem foldl_relabel_induction {P : List Nat → Document → Prop}
    (hstep : ∀ {d line lines}, line < d.lineCount → P (line :: lines) d →
      P lines (relabel source now d line))
    {lines : List Nat} (hl : ∀ line ∈ lines, line < d.lineCount) (h : P lines d) :
    P [] (lines.foldl (relabel source now) d) := by
  induction lines generalizing d with
  | nil => exact h
  | cons line lines ih =>
    refine ih (fun k hk ↦ ?_) (hstep (hl line List.mem_cons_self) h)
    rw [lineCount_relabel]
    exact hl k (List.mem_cons_of_mem _ hk)

/-- What each frame keeps is kept until none of them labels a line. -/
theorem frames_induction {P : Document → Prop} (hstep : ∀ {d}, P d → P (d.frame now source).2)
    (fuel : Nat) (h : P d) : P (frames now source fuel d).2 := by
  induction fuel generalizing d with
  | zero => exact h
  | succ fuel ih =>
    have h' : P (d.frame now source).2 := hstep h
    rw [frames]
    split
    · next he => rw [he] at h'; exact h'
    · next he => rw [he] at h'; exact ih h'

end Relabel

end Document

end Highlighter
