import Highlighter.Proofs.Document.Records

/-!
Coherence of a document: a line that does not wait to be labeled has the labels of its text and of
what the line before it offers. Requests, edits and labelings keep it; a labeling may break it for
the next line only, which waits from then on.
-/

namespace Highlighter.Document

/-- Whether a line waits to be labeled, in the queue or in the batch that was taken from it. -/
def Awaits (d : Document) (batch : List Nat) (line : Nat) : Prop :=
  d.isPending line = true ∨ line ∈ batch

structure Coherent (d : Document) (batch : List Nat) : Prop where
  labeled : ∀ line r, d.record? line = some r → ¬d.Awaits batch line →
    ∃ t, r.text = some t ∧
      r.labeled = LabeledLine.ofText d.scheme d.settings.maxNesting r.inherited t
  first : ∀ r, d.record? 0 = some r → ¬d.Awaits batch 0 → r.inherited = []
  /-- What an unlabeled line offers is not known, so nothing is said of the line after it. -/
  handed : ∀ line r next, d.record? line = some r → d.record? (line + 1) = some next →
    r.isLabeled = true → ¬d.Awaits batch (line + 1) → next.inherited = r.offered

/-- Whether known lines are as many as there are, and have the texts of those that wait for
nothing, neither for a frame nor for their throttle. -/
structure Tracks (d : Document) (batch : List Nat) (known : KnownLines) : Prop where
  length : known.length = d.lineCount
  text : ∀ line r t, d.record? line = some r → ¬d.Awaits batch line → r.isDeferred = false →
    r.text = some t → known[line]? = some (some t)

variable {d d' : Document} {batch : List Nat} {known : KnownLines}

/-! ### Requests -/

theorem Postpones.awaits (h : d.Postpones d') {line : Nat} (hw : d.Awaits batch line) :
    d'.Awaits batch line := hw.imp_left (h.pending line)

theorem Coherent.of_postpones (hc : d.Coherent batch) (h : d.Postpones d') :
    d'.Coherent batch where
  labeled line r' hr' hw := by
    obtain ⟨r, hr, he, -⟩ := h.record line r' hr'
    obtain ⟨t, ht, hl⟩ := hc.labeled line r hr (mt h.awaits hw)
    rw [he, h.rules.1, h.rules.2]
    exact ⟨t, ht, hl⟩
  first r' hr' hw := by
    obtain ⟨r, hr, he, -⟩ := h.record 0 r' hr'
    rw [he]
    exact hc.first r hr (mt h.awaits hw)
  handed line r' next' hr' hn' hl hw := by
    obtain ⟨r, hr, he, -⟩ := h.record line r' hr'
    obtain ⟨next, hn, hen, -⟩ := h.record (line + 1) next' hn'
    rw [he] at hl
    rw [hen, he]
    exact hc.handed line r next hr hn hl (mt h.awaits hw)

theorem Tracks.of_postpones (ht : d.Tracks batch known) (h : d.Postpones d') :
    d'.Tracks batch known where
  length := by rw [ht.length, h.lineCount]
  text line r' t hr' hw hd hx := by
    obtain ⟨r, hr, he, hdef⟩ := h.record line r' hr'
    rw [he] at hx
    refine ht.text line r t hr (mt h.awaits hw) ?_ hx
    cases hb : r.isDeferred with
    | false => rfl
    | true =>
      obtain hd' | hp := hdef hb
      · rw [hd] at hd'; cases hd'
      · exact absurd (.inl hp) hw

/-! ### Edits -/

/-- After an insertion a line that does not wait is an old one, and did not wait where it was. -/
theorem not_awaits_insertLines {first count k : Nat} (h0 : count ≠ 0) (hf : first ≤ d.lineCount)
    (hw : ¬(d.insertLines first count).Awaits [] k) :
    (k < first ∧ ¬d.Awaits [] k) ∨ (first + count ≤ k ∧ ¬d.Awaits [] (k - count)) := by
  simp only [Awaits, List.not_mem_nil, or_false, isPending_insertLines h0 hf, not_or,
    not_exists, not_and] at hw ⊢
  by_cases hk : k < first
  · refine .inl ⟨hk, fun hp ↦ hw.2 k hp ?_⟩
    simp only [Edit.mapLine]
    rw [if_neg (by omega)]
  · have hk' : first + count ≤ k := Nat.le_of_not_lt (hw.1 (by omega))
    refine .inr ⟨hk', fun hp ↦ hw.2 (k - count) hp ?_⟩
    simp only [Edit.mapLine]
    rw [if_pos (by omega), Nat.sub_add_cancel (by omega)]

/-- After a removal the line behind the gap waits, and another line only if it did before. -/
theorem not_awaits_removeLines {first count k : Nat} {r : LineRecord} (h0 : count ≠ 0)
    (hf : first + count ≤ d.lineCount) (hl : count < d.lineCount)
    (hr : (d.removeLines first count).record? k = some r)
    (hw : ¬(d.removeLines first count).Awaits [] k) :
    (k < first ∧ ¬d.Awaits [] k) ∨ (first < k ∧ ¬d.Awaits [] (k + count)) := by
  have hlt : k + count < d.lineCount := by
    have hk := (List.getElem?_eq_some_iff.1 hr).1
    have hlen := lineCount_removeLines h0 hf hl
    rw [lineCount] at hlen
    omega
  simp only [Awaits, List.not_mem_nil, or_false, isPending_removeLines h0 hf hl, not_or,
    not_exists, not_and] at hw ⊢
  by_cases hk : k < first
  · refine .inl ⟨hk, fun hp ↦ hw.2 k hp ?_⟩
    simp only [Edit.mapLine]
    rw [if_pos hk]
  · have hne : k ≠ first := fun he ↦ hw.1 he (by omega)
    refine .inr ⟨by omega, fun hp ↦ hw.2 (k + count) hp ?_⟩
    simp only [Edit.mapLine]
    rw [if_neg (by omega), if_neg (by omega), Nat.add_sub_cancel]

theorem coherent_insertLines (hc : d.Coherent []) {first count : Nat} (hf : first ≤ d.lineCount) :
    (d.insertLines first count).Coherent [] := by
  by_cases h0 : count = 0
  · rw [insertLines, if_pos h0]; exact hc
  have hrec := record?_insertLines h0 hf
  constructor
  case labeled =>
    intro k r hr hw
    rw [hrec] at hr
    rw [(sameRules_insertLines d first count).1, (sameRules_insertLines d first count).2]
    obtain ⟨hk, hw'⟩ | ⟨hk, hw'⟩ := not_awaits_insertLines h0 hf hw
    · rw [if_pos hk] at hr
      exact hc.labeled k r hr hw'
    · rw [if_neg (by omega), if_neg (by omega)] at hr
      exact hc.labeled _ r hr hw'
  case first =>
    intro r hr hw
    rw [hrec] at hr
    obtain ⟨hk, hw'⟩ | ⟨hk, hw'⟩ := not_awaits_insertLines h0 hf hw
    · rw [if_pos hk] at hr
      exact hc.first r hr hw'
    · omega
  case handed =>
    intro k r next hr hn hl hw
    rw [hrec] at hr hn
    obtain ⟨hk, hw'⟩ | ⟨hk, hw'⟩ := not_awaits_insertLines h0 hf hw
    · rw [if_pos hk] at hn
      rw [if_pos (by omega)] at hr
      exact hc.handed k r next hr hn hl hw'
    · rw [if_neg (by omega), if_neg (by omega)] at hn
      rw [if_neg (by omega)] at hr
      split at hr
      · -- the line before is the last new one, which is not labeled
        cases hr; cases hl
      · have hs : k + 1 - count = k - count + 1 := by omega
        rw [hs] at hn hw'
        exact hc.handed _ r next hr hn hl hw'

theorem coherent_removeLines (hc : d.Coherent []) {first count : Nat}
    (hf : first + count ≤ d.lineCount) (hl : count < d.lineCount) :
    (d.removeLines first count).Coherent [] := by
  by_cases h0 : count = 0
  · rw [removeLines, if_pos (.inl h0)]; exact hc
  have hrec := record?_removeLines h0 hf hl
  constructor
  case labeled =>
    intro k r hr hw
    rw [(sameRules_removeLines d first count).1, (sameRules_removeLines d first count).2]
    obtain ⟨hk, hw'⟩ | ⟨hk, hw'⟩ := not_awaits_removeLines h0 hf hl hr hw
    · rw [hrec, if_pos hk] at hr
      exact hc.labeled k r hr hw'
    · rw [hrec, if_neg (by omega)] at hr
      exact hc.labeled _ r hr hw'
  case first =>
    intro r hr hw
    obtain ⟨hk, hw'⟩ | ⟨hk, hw'⟩ := not_awaits_removeLines h0 hf hl hr hw
    · rw [hrec, if_pos hk] at hr
      exact hc.first r hr hw'
    · omega
  case handed =>
    intro k r next hr hn hlab hw
    obtain ⟨hk, hw'⟩ | ⟨hk, hw'⟩ := not_awaits_removeLines h0 hf hl hn hw
    · rw [hrec, if_pos hk] at hn
      rw [hrec, if_pos (by omega)] at hr
      exact hc.handed k r next hr hn hlab hw'
    · rw [hrec, if_neg (by omega), Nat.add_right_comm] at hn
      rw [hrec, if_neg (by omega)] at hr
      rw [Nat.add_right_comm] at hw'
      exact hc.handed _ r next hr hn hlab hw'

theorem tracks_insertLines (ht : d.Tracks [] known) {first count : Nat}
    (hf : first ≤ d.lineCount) :
    (d.insertLines first count).Tracks []
      (known.take first ++ List.replicate count none ++ known.drop first) := by
  by_cases h0 : count = 0
  · subst h0
    rw [insertLines, if_pos rfl]
    simpa using ht
  refine ⟨?_, fun k r t hr hw hd hx ↦ ?_⟩
  · have hlen := ht.length
    rw [lineCount_insertLines h0 hf]
    simp only [List.length_append, List.length_take, List.length_drop, List.length_replicate]
    omega
  · rw [record?_insertLines h0 hf] at hr
    rw [getElem?_splice (ht.length ▸ hf), List.length_replicate]
    obtain ⟨hk, hw'⟩ | ⟨hk, hw'⟩ := not_awaits_insertLines h0 hf hw
    · rw [if_pos hk] at hr ⊢
      exact ht.text k r t hr hw' hd hx
    · rw [if_neg (by omega), if_neg (by omega)] at hr ⊢
      rw [show k - first - count + first = k - count by omega]
      exact ht.text _ r t hr hw' hd hx

theorem tracks_removeLines (ht : d.Tracks [] known) {first count : Nat}
    (hf : first + count ≤ d.lineCount) (hl : count < d.lineCount) :
    (d.removeLines first count).Tracks []
      (known.take first ++ known.drop (first + count)) := by
  by_cases h0 : count = 0
  · subst h0
    rw [removeLines, if_pos (.inl rfl)]
    simpa using ht
  refine ⟨?_, fun k r t hr hw hd hx ↦ ?_⟩
  · have hlen := ht.length
    rw [lineCount_removeLines h0 hf hl]
    simp only [List.length_append, List.length_take, List.length_drop]
    omega
  · have hk' : first ≤ known.length := ht.length ▸ Nat.le_trans (Nat.le_add_right _ _) hf
    rw [← List.append_nil (known.take first), getElem?_splice hk', List.length_nil]
    have hrec := record?_removeLines h0 hf hl k
    rw [hr] at hrec
    obtain ⟨hk, hw'⟩ | ⟨hk, hw'⟩ := not_awaits_removeLines h0 hf hl hr hw
    · rw [if_pos hk] at hrec ⊢
      exact ht.text k r t hrec.symm hw' hd hx
    · rw [if_neg (by omega)] at hrec
      rw [if_neg (by omega), if_neg (by omega),
        show k - first - 0 + (first + count) = k + count by omega]
      exact ht.text _ r t hrec.symm hw' hd hx

/-- A line that was changed waits, so nothing has to be known of it. -/
theorem tracks_requestRefresh (ht : d.Tracks [] known) (line : Nat) (now : Int) (force : Bool) :
    (d.requestRefresh line now force).Tracks [] (known.set line none) := by
  have hp := ht.of_postpones (d.postpones_requestRefresh line now force)
  refine ⟨by rw [List.length_set, hp.length], fun k r t hr hw hd hx ↦ ?_⟩
  by_cases hk : k = line
  · subst hk
    obtain h | h := waits_requestRefresh hr
    · exact absurd (.inl h) hw
    · rw [hd] at h; cases h
  · rw [List.getElem?_set_ne (Ne.symm hk)]
    exact hp.text k r t hr hw hd hx

theorem applyEdit_keeps {e : Edit} {next : KnownLines} (now : Int) (hc : d.Coherent [])
    (ht : d.Tracks [] known) (hf : e.follow? known = some next) (hn : next ≠ []) :
    (applyEdit now d e).Coherent [] ∧ (applyEdit now d e).Tracks [] next := by
  have hlen := ht.length
  cases e with
  | changed line =>
    rw [Edit.follow?] at hf
    split at hf
    · cases hf
      exact ⟨hc.of_postpones (d.postpones_requestRefresh line now false),
        tracks_requestRefresh ht line now false⟩
    · cases hf
  | inserted first count =>
    rw [Edit.follow?] at hf
    split at hf
    · next h =>
      cases hf
      exact ⟨coherent_insertLines hc (hlen ▸ h), tracks_insertLines ht (hlen ▸ h)⟩
    · cases hf
  | removed first count =>
    rw [Edit.follow?] at hf
    split at hf
    · next h =>
      cases hf
      have hl : count < d.lineCount := by
        have hpos := List.length_pos_iff.2 hn
        simp only [List.length_append, List.length_take, List.length_drop] at hpos
        omega
      exact ⟨coherent_removeLines hc (hlen ▸ h) hl, tracks_removeLines ht (hlen ▸ h) hl⟩
    · cases hf

theorem applyEdits_keeps {edits : List Edit} {last : KnownLines} (now : Int)
    (h : Edit.Leads edits known last) (hc : d.Coherent []) (ht : d.Tracks [] known) :
    (d.applyEdits edits now).Coherent [] ∧ (d.applyEdits edits now).Tracks [] last := by
  induction h generalizing d with
  | nil => exact ⟨hc, ht⟩
  | cons he hn h ih =>
    obtain ⟨hc', ht'⟩ := applyEdit_keeps now hc ht he hn
    exact ih hc' ht'

/-! ### Labeling -/

section Relabel

variable {source : List Text} {now : Int} {line : Nat}

theorem not_awaits_relabel {k : Nat} (hk : k ≠ line)
    (hw : ¬(relabel source now d line).Awaits batch k) : ¬d.Awaits (line :: batch) k := by
  rintro (hp | hb)
  · exact hw (.inl (isPending_relabel_of_ne source now hk hp))
  · obtain rfl | hb := List.mem_cons.1 hb
    · exact hk rfl
    · exact hw (.inr hb)

/-- The next line inherits what it did before, or it waits. -/
theorem record?_succ_of_not_awaits {r : LineRecord} (hl : line < d.lineCount)
    (hr : (relabel source now d line).record? (line + 1) = some r)
    (hw : ¬(relabel source now d line).Awaits batch (line + 1)) :
    d.record? (line + 1) = some r := by
  rw [record?_relabel source now hl, if_neg (by omega), if_pos rfl, Option.map_eq_some_iff] at hr
  obtain ⟨next, hn, rfl⟩ := hr
  by_cases he : next.inherited = (d.labelNow source now line).offered
  · rw [hn, ← he]
  · exact absurd (.inl ((isPending_relabel source now).2 (.inr ⟨rfl, next, hn, he⟩))) hw

theorem record?_of_not_awaits {k : Nat} {r : LineRecord} (hl : line < d.lineCount)
    (hk : k ≠ line) (hr : (relabel source now d line).record? k = some r)
    (hw : ¬(relabel source now d line).Awaits batch k) : d.record? k = some r := by
  by_cases hs : k = line + 1
  · subst hs; exact record?_succ_of_not_awaits hl hr hw
  · rwa [record?_relabel source now hl, if_neg hk, if_neg hs] at hr

theorem coherent_relabel (hc : d.Coherent (line :: batch)) (hl : line < d.lineCount) :
    (relabel source now d line).Coherent batch := by
  have hrec := record?_relabel source now hl
  constructor
  case labeled =>
    intro k r hr hw
    rw [(sameRules_relabel source now d line).1, (sameRules_relabel source now d line).2]
    by_cases hk : k = line
    · rw [hrec, if_pos hk] at hr
      cases hr
      exact ⟨_, rfl, rfl⟩
    · exact hc.labeled k r (record?_of_not_awaits hl hk hr hw) (not_awaits_relabel hk hw)
  case first =>
    intro r hr hw
    by_cases hk : 0 = line
    · rw [hrec, if_pos hk] at hr
      cases hr
      subst hk
      rfl
    · exact hc.first r (record?_of_not_awaits hl hk hr hw) (not_awaits_relabel hk hw)
  case handed =>
    intro k r next hr hn hlab hw
    by_cases hk : k + 1 = line
    · rw [hrec, if_neg (by omega), if_neg (by omega)] at hr
      rw [hrec, if_pos hk] at hn
      cases hn
      subst hk
      simp only [labelNow, inheritedBy, getD_records hr, hlab, if_true]
    · have hn' := record?_of_not_awaits hl hk hn hw
      by_cases hkl : k = line
      · subst hkl
        rw [hrec, if_pos rfl] at hr
        cases hr
        rw [hrec, if_neg (by omega), if_pos rfl, hn'] at hn
        exact (congrArg LineRecord.inherited (Option.some.inj hn)).symm
      · have hw' := not_awaits_relabel hk hw
        rw [hrec, if_neg hkl] at hr
        split at hr
        · obtain ⟨r', hr', rfl⟩ := Option.map_eq_some_iff.1 hr
          exact hc.handed k r' next hr' hn' hlab hw'
        · exact hc.handed k r next hr hn' hlab hw'

theorem tracks_relabel (ht : d.Tracks (line :: batch) (source.map some)) (hl : line < d.lineCount) :
    (relabel source now d line).Tracks batch (source.map some) := by
  refine ⟨by rw [ht.length, lineCount_relabel], fun k r t hr hw hd hx ↦ ?_⟩
  by_cases hk : k = line
  · rw [record?_relabel source now hl, if_pos hk] at hr
    cases hr
    cases hx
    have hs : line < source.length := by
      have hlen := ht.length
      rw [List.length_map] at hlen
      omega
    simp [hk, hs]
  · exact ht.text k r t (record?_of_not_awaits hl hk hr hw) (not_awaits_relabel hk hw) hd hx

end Relabel

end Highlighter.Document
