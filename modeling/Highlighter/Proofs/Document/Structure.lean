import Highlighter.Proofs.Document.Incremental
import Highlighter.Proofs.Document.Runs

/-!
Lines that come and go: the records and the waiting lines of a document move as an edit says, and
nothing else happens to them.
-/

namespace Highlighter

namespace Edit

variable {e : Edit} {n line k : ℕ}

/-- Whether an edit brings lines to a text of so many lines or takes some away, but not all. -/
def RestructuresIn (n : ℕ) : Edit → Prop
  | changed _ => False
  | inserted first count => 0 < count ∧ first ≤ n
  | removed first count => 0 < count ∧ first + count ≤ n ∧ count < n

instance (n : ℕ) : DecidablePred (RestructuresIn n)
  | changed _ => .isFalse id
  | inserted first count => inferInstanceAs (Decidable (0 < count ∧ first ≤ n))
  | removed first count =>
    inferInstanceAs (Decidable (0 < count ∧ first + count ≤ n ∧ count < n))

def lineCountAfter (n : ℕ) : Edit → ℕ
  | changed _ => n
  | inserted _ count => n + count
  | removed _ count => n - count

/-- Whether a line of the text after the edit is new. -/
def Brings : Edit → ℕ → Prop
  | changed _, _ => False
  | inserted first count, k => first ≤ k ∧ k < first + count
  | removed _ _, _ => False

/-- Whether the lines above a line of the text after the edit are gone. -/
def Uncovers : Edit → ℕ → Prop
  | changed _, _ => False
  | inserted _ _, _ => False
  | removed first _, k => k = first

/-- The lines after an edit are those that it brings and those that were there before. -/
theorem lt_lineCountAfter_iff (h : e.RestructuresIn n) :
    k < e.lineCountAfter n ↔ e.Brings k ∨ ∃ line < n, e.mapLine line = some k := by
  cases e with
  | changed line => exact h.elim
  | inserted first count =>
    obtain ⟨-, hf⟩ := h
    simp only [lineCountAfter, Brings, mapLine, Option.some.injEq]
    constructor
    · intro hk
      by_cases hlt : k < first
      · exact .inr ⟨k, by omega, if_neg (by omega)⟩
      · by_cases hnew : k < first + count
        · exact .inl ⟨by omega, hnew⟩
        · exact .inr ⟨k - count, by omega, by rw [if_pos (by omega)]; omega⟩
    · rintro (hk | ⟨line, hl, hk⟩)
      · omega
      · split at hk <;> omega
  | removed first count =>
    obtain ⟨-, hf, -⟩ := h
    simp only [lineCountAfter, Brings, mapLine, false_or]
    constructor
    · intro hk
      by_cases hlt : k < first
      · exact ⟨k, by omega, if_pos hlt⟩
      · refine ⟨k + count, by omega, ?_⟩
        rw [if_neg (by omega), if_neg (by omega), Nat.add_sub_cancel]
    · rintro ⟨line, hl, hk⟩
      grind

theorem not_brings_of_mapLine (h : e.mapLine line = some k) : ¬e.Brings k := by
  cases e with
  | changed line => exact id
  | inserted first count =>
    simp only [mapLine, Option.some.injEq] at h
    simp only [Brings]
    split at h <;> omega
  | removed first count => exact id

end Edit

namespace Document

variable {d : Document} {e : Edit} {line k : ℕ} {now : ℤ}

theorem lineCount_applyEdit (h : e.RestructuresIn d.lineCount) :
    (applyEdit now d e).lineCount = e.lineCountAfter d.lineCount := by
  cases e with
  | changed line => exact h.elim
  | inserted first count => exact lineCount_insertLines (Nat.ne_of_gt h.1) h.2
  | removed first count => exact lineCount_removeLines (Nat.ne_of_gt h.1) h.2.1 h.2.2

theorem record?_applyEdit (h : e.RestructuresIn d.lineCount) (hk : e.mapLine line = some k) :
    (applyEdit now d e).record? k = d.record? line := by
  cases e with
  | changed line => exact h.elim
  | inserted first count =>
    rw [applyEdit, record?_insertLines (Nat.ne_of_gt h.1) h.2]
    grind [Edit.mapLine]
  | removed first count =>
    rw [applyEdit, record?_removeLines (Nat.ne_of_gt h.1) h.2.1 h.2.2]
    grind [Edit.mapLine]

theorem isPending_applyEdit (h : e.RestructuresIn d.lineCount) :
    (applyEdit now d e).isPending k = true ↔
      e.Brings k ∨ (e.Uncovers k ∧ k < e.lineCountAfter d.lineCount) ∨
        ∃ line, d.isPending line = true ∧ e.mapLine line = some k := by
  cases e with
  | changed line => exact h.elim
  | inserted first count =>
    rw [applyEdit, isPending_insertLines (Nat.ne_of_gt h.1) h.2]
    simp only [Edit.Brings, Edit.Uncovers, false_and, false_or]
  | removed first count =>
    rw [applyEdit, isPending_removeLines (Nat.ne_of_gt h.1) h.2.1 h.2.2]
    obtain ⟨-, hf, hl⟩ := h
    simp only [Edit.Brings, Edit.Uncovers, Edit.lineCountAfter, false_or]
    refine or_congr_left (and_congr_right fun hk ↦ ?_)
    omega

/-- The lines that an edit brings are unlabeled. The first of them is told what it inherits. -/
theorem record?_applyEdit_of_brings (h : e.RestructuresIn d.lineCount) (hk : e.Brings k) :
    (applyEdit now d e).record? k =
      some { inherited := if k = e.firstLine then d.offeredBefore k else [] } := by
  cases e with
  | changed line => exact h.elim
  | inserted first count =>
    have hinherited : (if k = first then d.offeredBefore first else []) =
        if k = first then d.offeredBefore k else [] :=
      ite_congr rfl (fun he ↦ by rw [he]) fun _ ↦ rfl
    rw [applyEdit, record?_insertLines (Nat.ne_of_gt h.1) h.2, if_neg (Nat.not_lt.2 hk.1),
      if_pos hk.2, hinherited]
    rfl
  | removed first count => exact hk.elim

theorem isPending_applyEdit_of_mapLine (h : e.RestructuresIn d.lineCount)
    (hl : line < d.lineCount) (hk : e.mapLine line = some k) :
    (applyEdit now d e).isPending k = true ↔ d.isPending line = true ∨ e.Uncovers k := by
  have hlt : k < e.lineCountAfter d.lineCount :=
    (Edit.lt_lineCountAfter_iff h).2 (.inr ⟨line, hl, hk⟩)
  have hmoved : (∃ line', d.isPending line' = true ∧ e.mapLine line' = some k) ↔
      d.isPending line = true := by
    constructor
    · rintro ⟨line', hp, hk'⟩
      exact Edit.mapLine_inj hk hk' ▸ hp
    · exact fun hp ↦ ⟨line, hp, hk⟩
  rw [isPending_applyEdit h, or_iff_right (Edit.not_brings_of_mapLine hk), and_iff_left hlt,
    hmoved, or_comm]

/-- Whatever was done with a document before: when lines come or go, each line that stays keeps its
record and waits as it did, and so does the line below a gap in any case. New lines are unlabeled
and wait. There are no other lines. -/
theorem applyEdits_restructures (scheme : Scheme) (settings : Settings) (lineCount : ℕ)
    (steps : List Step) (now : ℤ) {e : Edit}
    (he : e.RestructuresIn ((Document.new scheme settings lineCount).after steps).lineCount) :
    let d := (Document.new scheme settings lineCount).after steps
    let d' := d.applyEdits [e] now
    d'.lineCount = e.lineCountAfter d.lineCount ∧
      (∀ line k, line < d.lineCount → e.mapLine line = some k →
        (∃ r, d.record? line = some r ∧ d'.record? k = some r) ∧
          (d'.isPending k = true ↔ d.isPending line = true ∨ e.Uncovers k)) ∧
      (∀ k, e.Brings k →
        d'.record? k = some { inherited := if k = e.firstLine then d.offeredBefore k else [] } ∧
          d'.isPending k = true) ∧
      (∀ k, k < d'.lineCount ↔ e.Brings k ∨ ∃ line < d.lineCount, e.mapLine line = some k) ∧
      (∀ k, d'.isPending k = true → k < d'.lineCount) ∧ d'.queue.toList.Nodup := by
  intro d d'
  have hq : d.QueuesLines := .after_new scheme settings lineCount steps
  have hq' : d'.QueuesLines := hq.applyEdits [e] now
  have hcount : d'.lineCount = e.lineCountAfter d.lineCount := lineCount_applyEdit he
  refine ⟨hcount, fun line k hl hk ↦ ⟨?_, isPending_applyEdit_of_mapLine he hl hk⟩,
    fun k hk ↦ ⟨record?_applyEdit_of_brings he hk, (isPending_applyEdit he).2 (.inl hk)⟩,
    fun k ↦ ?_, hq'.lt, hq'.tidy.nodup⟩
  · obtain ⟨r, hr⟩ := d.exists_record hl
    exact ⟨r, hr, (record?_applyEdit he hk).trans hr⟩
  · rw [hcount]
    exact Edit.lt_lineCountAfter_iff he

/-- One line waits, and the refresh of another one is put off. -/
def waiting : Document :=
  (Document.new Session.remarks {} 5).after
    [.runUntilIdle 0 ["a<b".toList, "c".toList, "d".toList, "e>f".toList, "g".toList],
      .request 4 10 false, .request 0 20 true]

theorem applyEdits_restructures_waiting :
    (Edit.removed 1 2).RestructuresIn waiting.lineCount ∧
      (waiting.applyEdits [.removed 1 2] 30).lineCount = 3 ∧
      ((waiting.applyEdits [.removed 1 2] 30).isPending 0 = true ∧
        (waiting.applyEdits [.removed 1 2] 30).isPending 1 = true ∧
        ¬(waiting.applyEdits [.removed 1 2] 30).isPending 2 = true) ∧
      ∃ r, r.isDeferred = true ∧ (waiting.applyEdits [.removed 1 2] 30).record? 2 = some r := by
  have he : (Edit.removed 1 2).RestructuresIn waiting.lineCount := by decide +kernel
  have hlines : waiting.lineCount = 5 := by decide +kernel
  have hforced : waiting.isPending 0 = true := by decide +kernel
  have hdeferred : waiting.isPending 4 = false := by decide +kernel
  have hrecord : (waiting.record? 4).map LineRecord.isDeferred = some true := by decide +kernel
  obtain ⟨hcount, hmoved, -⟩ := applyEdits_restructures Session.remarks {} 5 _ 30 he
  rw [← waiting] at hcount hmoved
  obtain ⟨-, hfirst⟩ := hmoved 0 0 (hlines ▸ by decide) rfl
  obtain ⟨-, hgap⟩ := hmoved 3 1 (hlines ▸ by decide) rfl
  obtain ⟨⟨r, hr, hr'⟩, hlast⟩ := hmoved 4 2 (hlines ▸ by decide) rfl
  rw [hr, Option.map_some, Option.some.injEq] at hrecord
  rw [hlines] at hcount
  refine ⟨he, hcount, ⟨hfirst.2 (.inl hforced), hgap.2 (.inr rfl), fun hp ↦ ?_⟩, r, hrecord, hr'⟩
  have hwaits := (hlast.1 hp).resolve_right (by decide : (2 : ℕ) ≠ 1)
  rw [hdeferred] at hwaits
  cases hwaits

end Document

end Highlighter
