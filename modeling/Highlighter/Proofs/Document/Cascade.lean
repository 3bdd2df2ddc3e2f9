import Highlighter.Proofs.Document.Idle
import Highlighter.Proofs.Document.Incremental

/-!
What a change of one line costs: from that line down the lines are labeled again, one in each
frame, up to the first that offers the next line what it did before.
-/

namespace Highlighter

namespace Scheme

variable {s : Scheme} {maxNesting : ℕ} {source : List Text} {inherited : Continuations}

/-- A line of a text that is labeled from top to bottom. Behind the end of the text lines are
empty. -/
def lineAt (s : Scheme) (maxNesting : ℕ) (inherited : Continuations) (source : List Text) :
    ℕ → LabeledLine
  | 0 => .ofText s maxNesting inherited (source.getD 0 [])
  | line + 1 =>
    .ofText s maxNesting (s.lineAt maxNesting inherited source line).offered
      (source.getD (line + 1) [])

theorem lineAt_set (t : Text) {i line : ℕ} (h : line < i) :
    s.lineAt maxNesting inherited (source.set i t) line =
      s.lineAt maxNesting inherited source line := by
  have hg (k : ℕ) (hk : k < i) : (source.set i t).getD k [] = source.getD k [] := by
    rw [List.getD_eq_getElem?_getD, List.getElem?_set_ne (Nat.ne_of_gt hk),
      List.getD_eq_getElem?_getD]
  induction line with
  | zero => rw [lineAt, lineAt, hg 0 h]
  | succ line ih => rw [lineAt, lineAt, ih (by omega), hg _ h]

theorem lineAt_cons (t : Text) (line : ℕ) :
    s.lineAt maxNesting inherited (t :: source) (line + 1) =
      s.lineAt maxNesting (LabeledLine.ofText s maxNesting inherited t).offered source line := by
  induction line with
  | zero => rfl
  | succ line ih =>
    rw [lineAt, ih, lineAt]
    rfl

theorem getElem?_labelLines {line : ℕ} (h : line < source.length) :
    (s.labelLines maxNesting inherited source)[line]? =
      some (s.lineAt maxNesting inherited source line) := by
  induction source generalizing line inherited with
  | nil => cases h
  | cons t source ih =>
    cases line with
    | zero => rfl
    | succ line =>
      rw [labelLines, List.getElem?_cons_succ, ih (Nat.lt_of_succ_lt_succ h), lineAt_cons]

end Scheme

namespace Document

variable {d e : Document} {source : List Text} {i k line : ℕ} {t : Text} {now : ℤ}

/-- Whether every line has the labels of a text as it stands, and inherits what the line above it
offers. -/
structure Reads (d : Document) (source : List Text) : Prop where
  lineCount : d.lineCount = source.length
  labeled : ∀ line r, d.record? line = some r → r.text = some (source.getD line []) ∧
    r.labeled =
      LabeledLine.ofText d.scheme d.settings.maxNesting r.inherited (source.getD line [])
  first : ∀ r, d.record? 0 = some r → r.inherited = []
  handed : ∀ line r next, d.record? line = some r → d.record? (line + 1) = some next →
    next.inherited = r.offered

/-- A line of a text, labeled by the rules of a document. -/
def freshAt (d : Document) (source : List Text) (line : ℕ) : LabeledLine :=
  d.scheme.lineAt d.settings.maxNesting [] source line

def freshlyInheritedBy (d : Document) (source : List Text) : ℕ → Continuations
  | 0 => []
  | line + 1 => (d.freshAt source line).offered

theorem freshAt_eq (d : Document) (source : List Text) (line : ℕ) :
    d.freshAt source line = LabeledLine.ofText d.scheme d.settings.maxNesting
      (d.freshlyInheritedBy source line) (source.getD line []) := by
  cases line <;> rfl

theorem freshlyInheritedBy_set (d : Document) (source : List Text) (t : Text) (h : k ≤ i) :
    d.freshlyInheritedBy (source.set i t) k = d.freshlyInheritedBy source k := by
  cases k with
  | zero => rfl
  | succ m => exact congrArg LabeledLine.offered (Scheme.lineAt_set t h)

theorem Reads.inherited_and_labeled (h : d.Reads source) {r : LineRecord}
    (hr : d.record? line = some r) :
    r.inherited = d.freshlyInheritedBy source line ∧ r.labeled = d.freshAt source line := by
  induction line generalizing r with
  | zero =>
    have hi := h.first r hr
    rw [(h.labeled 0 r hr).2, hi]
    exact ⟨rfl, rfl⟩
  | succ line ih =>
    have hlt : line + 1 < d.lineCount := (List.getElem?_eq_some_iff.1 hr).1
    obtain ⟨r', hr'⟩ := d.exists_record (by omega : line < d.lineCount)
    have hi := h.handed line r' r hr' hr
    rw [LineRecord.offered, (ih hr').2] at hi
    rw [(h.labeled _ r hr).2, hi]
    exact ⟨rfl, rfl⟩

/-- Whether a line offers the next one something else in a text than it does now. -/
def OffersOther (d : Document) (source : List Text) (line : ℕ) : Prop :=
  (d.scheme.labelLines d.settings.maxNesting [] source)[line]?.map LabeledLine.offered ≠
    (d.record? line).map LineRecord.offered

instance (d : Document) (source : List Text) (line : ℕ) :
    Decidable (d.OffersOther source line) :=
  inferInstanceAs (Decidable (_ ≠ _))

theorem offersOther_iff {r : LineRecord} (hl : line < source.length)
    (hr : d.record? line = some r) :
    d.OffersOther source line ↔ (d.freshAt source line).offered ≠ r.offered := by
  rw [OffersOther, Scheme.getElem?_labelLines hl, hr]
  simp [freshAt]

/-! ### One frame of a cascade -/

/-- The records of the lines from the first changed one up to another one are labeled afresh; that
one has been told what it inherits. -/
def recordIn (d : Document) (source : List Text) (now : ℤ) (i k line : ℕ) : Option LineRecord :=
  (d.record? line).map fun r ↦
    if i ≤ line ∧ line < k then
      { text := some (source.getD line [])
        labeled := d.freshAt source line
        inherited := d.freshlyInheritedBy source line
        throttle := { lastRun := some now } }
    else if line = k then { r with inherited := d.freshlyInheritedBy source line }
    else r

structure Cascades (d : Document) (source : List Text) (now : ℤ) (i k : ℕ) (e : Document) :
    Prop where
  rules : d.SameRules e
  queues : e.QueuesLines
  record : ∀ line, e.record? line = d.recordIn source now i k line

section Step

variable (hs : d.isSettled = true)

include hs in
theorem Cascades.noneDue (h : d.Cascades source now i k e) : e.NoneDue now := by
  intro r hr
  obtain ⟨line, hline⟩ := List.mem_iff_getElem?.1 hr
  have hline : e.record? line = some r := hline
  rw [h.record, recordIn, Option.map_eq_some_iff] at hline
  obtain ⟨r', hr', rfl⟩ := hline
  have hdeferred : r'.throttle.deferredUntil = none := by
    simpa [LineRecord.isDeferred, Throttle.isDeferred] using isDeferred_of_isSettled hs hr'
  split
  · rfl
  · split <;> simp [Throttle.isDue, hdeferred]

variable (hr : d.Reads source)

include hs in
theorem Cascades.record?_drawn (h : d.Cascades (source.set i t) now i k e) (line : ℕ) :
    (e.drawn now).record? line = d.recordIn (source.set i t) now i k line := by
  rw [← h.record, drawn, (h.noneDue hs).promote_eq]
  rfl

include hs hr in
/-- The line above offers what it does in the text as it is now. -/
theorem Cascades.inheritedBy_drawn (h : d.Cascades (source.set i t) now i k e) (hik : i ≤ k)
    (hk : k < d.lineCount) :
    (e.drawn now).inheritedBy k = d.freshlyInheritedBy (source.set i t) k := by
  cases k with
  | zero => rfl
  | succ m =>
    obtain ⟨r, hm⟩ := d.exists_record (by omega : m < d.lineCount)
    have hrec := h.record?_drawn hs m
    rw [recordIn, hm, Option.map_some] at hrec
    by_cases him : i ≤ m
    · rw [if_pos ⟨him, Nat.lt_succ_self m⟩] at hrec
      rw [inheritedBy, getD_records hrec]
      rfl
    · -- the first changed line, below one that is labeled as before
      rw [if_neg (by omega), if_neg (by omega)] at hrec
      have hlabeled : r.isLabeled = true := by
        rw [LineRecord.isLabeled, (hr.labeled m r hm).1]
        rfl
      rw [inheritedBy, getD_records hrec, if_pos hlabeled, LineRecord.offered,
        (hr.inherited_and_labeled hm).2, d.freshlyInheritedBy_set source t (by omega)]
      rfl

include hs hr in
theorem Cascades.labelNow_drawn (h : d.Cascades (source.set i t) now i k e) (hik : i ≤ k)
    (hk : k < d.lineCount) :
    (e.drawn now).labelNow (source.set i t) now k =
      { text := some ((source.set i t).getD k [])
        labeled := d.freshAt (source.set i t) k
        inherited := d.freshlyInheritedBy (source.set i t) k
        throttle := { lastRun := some now } } := by
  have hrules : d.SameRules (e.drawn now) := h.rules.trans ⟨rfl, rfl⟩
  rw [labelNow, h.inheritedBy_drawn hs hr hik hk, hrules.1, hrules.2, ← freshAt_eq]

include hs hr in
/-- A frame labels the one line that waits. -/
theorem Cascades.relabel (h : d.Cascades (source.set i t) now i k e) (hik : i ≤ k)
    (hk : k < d.lineCount) :
    d.Cascades (source.set i t) now i (k + 1)
      (relabel (source.set i t) now (e.drawn now) k) := by
  have hlt : k < (e.drawn now).lineCount := by
    obtain ⟨r, hk⟩ := d.exists_record hk
    have hrec := h.record?_drawn hs k
    rw [recordIn, hk, Option.map_some] at hrec
    exact lt_lineCount hrec
  refine ⟨?_, (h.queues.drawn now).relabel _ now k, fun line ↦ ?_⟩
  · exact (h.rules.trans ⟨rfl, rfl⟩).trans (sameRules_relabel _ now (e.drawn now) k)
  · rw [record?_relabel _ now hlt, h.record?_drawn hs, h.labelNow_drawn hs hr hik hk, recordIn,
      recordIn]
    by_cases hlk : line = k
    · subst hlk
      obtain ⟨r, hline⟩ := d.exists_record hk
      rw [if_pos rfl, hline, Option.map_some, if_pos ⟨hik, Nat.lt_succ_self line⟩]
    · rw [if_neg hlk]
      by_cases hlk' : line = k + 1
      · subst hlk'
        simp [freshlyInheritedBy, LineRecord.offered]
      · simp only [if_neg hlk', if_neg hlk]
        have hiff : i ≤ line ∧ line < k + 1 ↔ i ≤ line ∧ line < k := by omega
        simp only [hiff]

include hs in
theorem Cascades.batch_eq (h : d.Cascades source now i k e) :
    e.batch now = e.queue.toList.take e.settings.frameBudget := by
  rw [h.queues.batch_eq, (h.noneDue hs).promote_eq]

include hs in
/-- There is room in a frame for one line at least. -/
theorem Cascades.batch_eq_singleton (h : d.Cascades source now i k e)
    (hq : e.queue.toList = [k]) : e.batch now = [k] := by
  rw [h.batch_eq hs, hq, List.take_of_length_le (Nat.le_max_right _ 1)]

include hs hr in
/-- If the line offers something else than before, the next one waits then, and else none. -/
theorem Cascades.isPending_relabel (h : d.Cascades (source.set i t) now i k e) (hik : i ≤ k)
    (hk : k < d.lineCount) (hq : e.queue.toList = [k]) {p : ℕ} :
    (Document.relabel (source.set i t) now (e.drawn now) k).isPending p = true ↔
      p = k + 1 ∧ k + 1 < d.lineCount ∧ d.OffersOther (source.set i t) k := by
  have hdrawn : (e.drawn now).queue.toList = [] := by
    have happend := h.queues.batch_append now
    rw [(h.noneDue hs).promote_eq, hq, h.batch_eq_singleton hs hq] at happend
    exact (List.cons.inj happend).2
  have hset : k < (source.set i t).length := by
    rw [List.length_set, ← hr.lineCount]
    exact hk
  obtain ⟨r, hkr⟩ := d.exists_record hk
  rw [Document.isPending_relabel, RefreshQueue.toList_remove, hdrawn, List.erase_nil,
    h.record?_drawn hs, h.labelNow_drawn hs hr hik hk, offersOther_iff hset hkr]
  constructor
  · rintro (hp | ⟨rfl, next, hn, hne⟩)
    · cases hp
    · rw [recordIn, Option.map_eq_some_iff] at hn
      obtain ⟨next', hn', rfl⟩ := hn
      refine ⟨rfl, lt_lineCount hn', fun he ↦ hne ?_⟩
      rw [if_neg (by omega), if_neg (by omega), hr.handed k r next' hkr hn', ← he]
      rfl
  · rintro ⟨rfl, hlt, hne⟩
    obtain ⟨next, hn⟩ := d.exists_record hlt
    refine .inr ⟨rfl, next, ?_, fun he ↦ hne ?_⟩
    · rw [recordIn, hn, Option.map_some, if_neg (by omega), if_neg (by omega)]
    · rw [← hr.handed k r next hkr hn, he]
      rfl

include hs in
/-- A frame in which no line waits changes nothing, and is the last one. -/
theorem Cascades.idles_nil (h : d.Cascades (source.set i t) now i k e)
    (hq : e.queue.toList = []) :
    ∃ d', Idles now (source.set i t) e [] d' ∧ d.Cascades (source.set i t) now i k d' := by
  have hbatch : e.batch now = [] := by
    rw [h.batch_eq hs, hq, List.take_nil]
  refine ⟨_, .done hbatch, ?_⟩
  rw [frame_eq, hbatch]
  exact ⟨h.rules.trans ⟨rfl, rfl⟩, h.queues.drawn now, h.record?_drawn hs⟩

include hs hr in
/-- The frames from the one that labels a line on label the lines below it, up to the first that
offers what it did before. -/
theorem Cascades.exists_idles (h : d.Cascades (source.set i t) now i k e) (hik : i ≤ k)
    (hk : k < d.lineCount) (hq : e.queue.toList = [k]) :
    ∃ j d', k ≤ j ∧ j < d.lineCount ∧
      (∀ l, k ≤ l → l < j → d.OffersOther (source.set i t) l) ∧
      (d.OffersOther (source.set i t) j → j + 1 = d.lineCount) ∧
      Idles now (source.set i t) e (List.range' k (j - k + 1)) d' ∧
      d.Cascades (source.set i t) now i (j + 1) d' := by
  induction hn : d.lineCount - k generalizing k e with
  | zero => omega
  | succ n ih =>
    have hbatch : e.batch now = [k] := h.batch_eq_singleton hs hq
    have hne : e.batch now ≠ [] := by simp [hbatch]
    have hframe : (e.frame now (source.set i t)).2 =
        Document.relabel (source.set i t) now (e.drawn now) k := by
      rw [frame_eq, hbatch]
      rfl
    have hrelabel := h.relabel hs hr hik hk
    have hpending (p : ℕ) := h.isPending_relabel hs hr hik hk hq (p := p)
    rw [← hframe] at hrelabel hpending
    by_cases hnext : k + 1 < d.lineCount ∧ d.OffersOther (source.set i t) k
    · have hqueue : (e.frame now (source.set i t)).2.queue.toList = [k + 1] := by
        refine List.perm_singleton.1 ((List.perm_ext_iff_of_nodup hrelabel.queues.tidy.nodup
          (List.nodup_singleton _)).2 fun p ↦ ?_)
        rw [← isPending_iff, hpending, List.mem_singleton, and_iff_left hnext]
      obtain ⟨j, d', hkj, hj, hother, hlast, hidles, hcascades⟩ :=
        ih hrelabel (by omega) hnext.1 hqueue (by omega)
      refine ⟨j, d', by omega, hj, fun l hl hlj ↦ ?_, hlast, ?_, hcascades⟩
      · obtain rfl | hl := Nat.eq_or_lt_of_le hl
        · exact hnext.2
        · exact hother l hl hlj
      · have hlines : List.range' k (j - k + 1) =
            e.batch now ++ List.range' (k + 1) (j - (k + 1) + 1) := by
          rw [hbatch, List.range'_succ, show j - (k + 1) + 1 = j - k by omega]
          rfl
        rw [hlines]
        exact .more hne hidles
    · have hqueue : (e.frame now (source.set i t)).2.queue.toList = [] := by
        refine List.eq_nil_iff_forall_not_mem.2 fun p hp ↦ ?_
        exact hnext ((hpending p).1 (isPending_iff.2 hp)).2
      obtain ⟨d', hidles, hcascades⟩ := hrelabel.idles_nil hs hqueue
      have hlast : d.OffersOther (source.set i t) k → k + 1 = d.lineCount := by
        intro hother
        have hend : ¬k + 1 < d.lineCount := fun hlt ↦ hnext ⟨hlt, hother⟩
        omega
      refine ⟨k, d', Nat.le_refl k, hk, fun l hl hlk ↦ by omega, hlast, ?_, hcascades⟩
      have hlines : List.range' k (k - k + 1) = e.batch now ++ [] := by
        rw [hbatch, Nat.sub_self]
        rfl
      rw [hlines]
      exact .more hne hidles

end Step

theorem queuesLines_of_isSettled (hs : d.isSettled = true) : d.QueuesLines := by
  rw [isSettled, Bool.and_eq_true] at hs
  have hempty := RefreshQueue.isEmpty_iff.1 hs.1
  refine ⟨⟨fun window hw ↦ ?_, ?_⟩, fun line hl ↦ ?_⟩
  · rw [List.flatten_eq_nil_iff.1 hempty window hw]
    exact .nil
  · rw [hempty]
    exact .nil
  · rw [isPending_iff, hempty] at hl
    cases hl

theorem toList_enqueue_of_isSettled (hs : d.isSettled = true) (i : ℕ) :
    (d.enqueue i).queue.toList = [i] := by
  have hempty : d.queue.toList = [] := by
    rw [isSettled, Bool.and_eq_true] at hs
    exact RefreshQueue.isEmpty_iff.1 hs.1
  have hnot : i ∉ d.queue.toList := by simp [hempty]
  have hperm := (queuesLines_of_isSettled hs).tidy.perm_push hnot
  rw [hempty] at hperm
  exact List.perm_singleton.1 hperm

theorem Reads.cascades_enqueue (hr : d.Reads source) (hs : d.isSettled = true)
    (hi : i < d.lineCount) (t : Text) (now : ℤ) :
    d.Cascades (source.set i t) now i i (d.enqueue i) := by
  refine ⟨⟨rfl, rfl⟩, (queuesLines_of_isSettled hs).enqueue hi, fun line ↦ ?_⟩
  show d.record? line = d.recordIn (source.set i t) now i i line
  cases hline : d.record? line with
  | none => rw [recordIn, hline, Option.map_none]
  | some r =>
    rw [recordIn, hline, Option.map_some, if_neg (by omega)]
    split
    · next he =>
      rw [d.freshlyInheritedBy_set source t he.le, ← (hr.inherited_and_labeled hline).1]
    · rfl

theorem Cascades.labeled_eq {j : ℕ} (h : d.Cascades source now i (j + 1) e)
    (hcount : source.length = d.lineCount) (hj : j < d.lineCount) (hik : i ≤ k) (hkj : k ≤ j) :
    (e.record? k).map LineRecord.labeled =
      (d.scheme.labelLines d.settings.maxNesting [] source)[k]? := by
  obtain ⟨r, hk⟩ := d.exists_record (by omega : k < d.lineCount)
  rw [h.record, recordIn, hk, Scheme.getElem?_labelLines (by omega)]
  simp only [Option.map_some, if_pos (show i ≤ k ∧ k < j + 1 by omega)]
  rfl

/-- The lines around those that were labeled are as before. The line below the last one was handed
what it had. -/
theorem Cascades.record?_eq {j : ℕ} (h : d.Cascades (source.set i t) now i (j + 1) e)
    (hr : d.Reads source) (hj : j < d.lineCount)
    (hlast : d.OffersOther (source.set i t) j → j + 1 = d.lineCount) (hk : k < i ∨ j < k) :
    e.record? k = d.record? k := by
  rw [h.record, recordIn]
  cases hline : d.record? k with
  | none => rfl
  | some r =>
    rw [Option.map_some, if_neg (by omega)]
    split
    · next he =>
      subst he
      obtain ⟨last, hlast'⟩ := d.exists_record hj
      have hlt : j < (source.set i t).length := by
        rw [List.length_set, ← hr.lineCount]
        exact hj
      have hsame : ¬d.OffersOther (source.set i t) j := by
        intro hother
        have hend := hlast hother
        have hlt' := lt_lineCount hline
        omega
      rw [offersOther_iff hlt hlast', not_not] at hsame
      rw [freshlyInheritedBy, hsame, ← hr.handed j last r hlast' hline]
    · rfl

/-- In a document in which no line waits, a change of one line that is let through costs the
labeling of this line and of those below it, each once, up to the first that offers what it did
before. No other line changes at all. -/
theorem runUntilIdle_cascade (hs : d.isSettled = true) (hr : d.Reads source)
    (hi : i < d.lineCount) (t : Text) (asked now : ℤ) (force : Bool)
    (hrun : ((d.records.getD i {}).throttle.request asked d.settings.minRefreshInterval force).1 =
      .run) :
    let changed := source.set i t
    let asking := d.requestRefresh i asked force
    ∃ j d', i ≤ j ∧ j < d.lineCount ∧ (∀ k, i ≤ k → k < j → d.OffersOther changed k) ∧
      (d.OffersOther changed j → j + 1 = d.lineCount) ∧
      Idles now changed asking (List.range' i (j - i + 1)) d' ∧
      asking.runUntilIdle now changed = (j - i + 1, d') ∧
      (∀ k, i ≤ k → k ≤ j → (d'.record? k).map LineRecord.labeled =
        (d.scheme.labelLines d.settings.maxNesting [] changed)[k]?) ∧
      ∀ k, k < i ∨ j < k → d'.record? k = d.record? k := by
  intro changed asking
  obtain ⟨r, hri⟩ := d.exists_record hi
  rw [getD_records hri] at hrun
  have hasking : asking = d.enqueue i := by
    rcases r.throttle.request_run_or_deferred asked d.settings.minRefreshInterval force with
      hx | ⟨hx, -⟩
    · exact requestRefresh_of_run hri hx
    · exact absurd hrun hx
  have hqueue := toList_enqueue_of_isSettled hs i
  obtain ⟨j, d', hij, hj, hother, hlast, hidles, hcascades⟩ :=
    (hr.cascades_enqueue hs hi t now).exists_idles hs hr (Nat.le_refl i) hi hqueue
  have hcount : changed.length = d.lineCount := by rw [List.length_set, hr.lineCount]
  have hfuel : (List.range' i (j - i + 1)).length <
      (d.enqueue i).lineCount * (d.enqueue i).lineCount + (d.enqueue i).queue.size + 1 := by
    have hlines : (d.enqueue i).lineCount = d.lineCount := rfl
    rw [List.length_range', RefreshQueue.size, hqueue, List.length_singleton, hlines]
    have hsquare := Nat.le_mul_self d.lineCount
    omega
  have hframes := hidles.frames_eq hfuel
  rw [List.length_range'] at hframes
  rw [hasking]
  exact ⟨j, d', hij, hj, hother, hlast, hidles, hframes,
    fun k hik hkj ↦ hcascades.labeled_eq hcount hj hik hkj,
    fun k hk ↦ hcascades.record?_eq hr hj hlast hk⟩

theorem reads_of_isSettled (hs : d.isSettled = true) (hc : d.Coherent [])
    (ht : d.Tracks [] (source.map some)) : d.Reads source where
  lineCount := by rw [← ht.length, List.length_map]
  labeled line r hr := by
    have hl : line < source.length := by
      have hlt := lt_lineCount hr
      rwa [← ht.length, List.length_map] at hlt
    have hsource : source[line]? = some (source.getD line []) := by simp [hl]
    have htext := text_of_isSettled hs hc ht hr hsource
    obtain ⟨t, ht', hlabeled⟩ := hc.labeled line r hr (not_awaits_of_isSettled hs line)
    rw [htext] at ht'
    cases ht'
    exact ⟨htext, hlabeled⟩
  first r hr := hc.first r hr (not_awaits_of_isSettled hs 0)
  handed line r next hr hn := by
    obtain ⟨t, htext, -⟩ := hc.labeled line r hr (not_awaits_of_isSettled hs line)
    refine hc.handed line r next hr hn ?_ (not_awaits_of_isSettled hs (line + 1))
    rw [LineRecord.isLabeled, htext]
    rfl

end Document

namespace Session

theorem Sound.reads {s : Session} (h : s.Sound) (hp : s.buffer.pending = [])
    (hs : s.document.isSettled = true) : s.document.Reads s.buffer.lines :=
  Document.reads_of_isSettled hs h.coherent (h.tracks_lines hp)

/-- A remark over three lines, and a line below it. -/
def settledRemark : Session := (start remarks {} "a<b\nc\nd>e\nf".toList).after [.runUntilIdle 0]

theorem sound_settledRemark : settledRemark.Sound :=
  sound_after (sound_start remarks {} "a<b\nc\nd>e\nf".toList)
    (show (start remarks {} "a<b\nc\nd>e\nf".toList).Orderly [.runUntilIdle 0] by decide +kernel)

end Session

namespace Document

open Session (settledRemark)

/-- A remark is taken back: its line and the two below it are labeled again, and no more. -/
theorem runUntilIdle_cascade_remark :
    let d := settledRemark.document
    let source := settledRemark.buffer.lines
    let changed := source.set 0 "ab".toList
    let asking := d.requestRefresh 0 500 false
    d.isSettled = true ∧ d.Reads source ∧ 0 < d.lineCount ∧
      ((d.records.getD 0 {}).throttle.request 500 d.settings.minRefreshInterval false).1 = .run ∧
      ∃ d', Idles 600 changed asking [0, 1, 2] d' ∧
        asking.runUntilIdle 600 changed = (3, d') ∧
        d'.record? 3 = d.record? 3 := by
  have hs : settledRemark.document.isSettled = true := by decide +kernel
  have hr : settledRemark.document.Reads settledRemark.buffer.lines :=
    Session.sound_settledRemark.reads (by decide +kernel) hs
  have hcount : settledRemark.document.lineCount = 4 := by decide +kernel
  have hrun : ((settledRemark.document.records.getD 0 {}).throttle.request 500
      settledRemark.document.settings.minRefreshInterval false).1 = .run := by decide +kernel
  have h0 : settledRemark.document.OffersOther
      (settledRemark.buffer.lines.set 0 "ab".toList) 0 := by decide +kernel
  have h1 : settledRemark.document.OffersOther
      (settledRemark.buffer.lines.set 0 "ab".toList) 1 := by decide +kernel
  have h2 : ¬settledRemark.document.OffersOther
      (settledRemark.buffer.lines.set 0 "ab".toList) 2 := by decide +kernel
  have hi : 0 < settledRemark.document.lineCount := by omega
  obtain ⟨j, d', -, hj, hother, hlast, hidles, hidle, -, hsame⟩ :=
    runUntilIdle_cascade hs hr hi "ab".toList 500 600 false hrun
  have hj2 : ¬2 < j := fun h ↦ h2 (hother 2 (Nat.zero_le 2) h)
  obtain rfl : j = 2 := by
    have hj0 : j ≠ 0 := by
      rintro rfl
      have := hlast h0
      omega
    have hj1 : j ≠ 1 := by
      rintro rfl
      have := hlast h1
      omega
    omega
  exact ⟨hs, hr, hi, hrun, d', hidles, hidle, hsame 3 (.inr (by omega))⟩

end Document

end Highlighter
