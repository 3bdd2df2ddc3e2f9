import Highlighter.Proofs.Document.Chronicle
import Highlighter.Proofs.Document.Idle
import Highlighter.Proofs.Document.Incremental

/-!
How often a line is labeled. Requests alone do not make it be labeled twice within the interval
between two refreshes, and none of them gets lost.
-/

namespace Highlighter

/-! ### The history of one line -/

namespace Event

def sinceLabeled (history : List Event) : List Event :=
  history.takeWhile fun e ↦ e.labeledAt?.isNone

/-- Whether a line was queued since it was labeled last for another reason than requests. -/
def IsCaused (history : List Event) : Prop := ∃ cause, queued cause ∈ sinceLabeled history

def IsAsked (history : List Event) : Prop := ∃ now, requested now ∈ sinceLabeled history

/-- Whether only for such a reason two labelings by frames come one after the other within the
interval. -/
def IsSpaced (interval : ℕ) : List Event → Prop
  | [] => True
  | labeled now directly :: history =>
    (∀ last, lastLabeled? history = some last → now < last + interval →
      directly = true ∨ IsCaused history) ∧ IsSpaced interval history
  | _ :: history => IsSpaced interval history

variable {interval : ℕ} {history later between earlier : List Event}

theorem sinceLabeled_append {e : Event} {t : ℤ} (hb : ∀ e ∈ between, e.labeledAt? = none)
    (he : e.labeledAt? = some t) : sinceLabeled (between ++ e :: earlier) = between := by
  rw [sinceLabeled, List.takeWhile_append_of_pos (fun e he ↦ by simp [hb e he])]
  simp [he]

theorem lastLabeled?_append (hb : ∀ e ∈ between, e.labeledAt? = none) :
    lastLabeled? (between ++ earlier) = lastLabeled? earlier := by
  rw [lastLabeled?, List.findSome?_append, List.findSome?_eq_none_iff.2 hb]
  rfl

theorem IsSpaced.of_append (h : IsSpaced interval (later ++ earlier)) :
    IsSpaced interval earlier := by
  induction later with
  | nil => exact h
  | cons e later ih =>
    cases e with
    | requested now => exact ih h
    | queued cause => exact ih h
    | labeled now directly => exact ih h.2

theorem IsSpaced.exists_cause {t₁ t₂ : ℤ} {d₁ d₂ : Bool}
    (h : IsSpaced interval (later ++ labeled t₂ d₂ :: (between ++ labeled t₁ d₁ :: earlier)))
    (hb : ∀ e ∈ between, e.labeledAt? = none) (ht : t₂ < t₁ + interval) :
    d₂ = true ∨ ∃ cause, queued cause ∈ between := by
  have hlast : lastLabeled? (between ++ labeled t₁ d₁ :: earlier) = some t₁ := by
    rw [lastLabeled?_append hb]
    rfl
  have hspaced := h.of_append.1 t₁ hlast ht
  rwa [IsCaused, sinceLabeled_append hb rfl] at hspaced

end Event

open Event

/-- What holds of the throttle of a line with the given history at any time; `waits` says whether
the line waits for a frame. -/
structure IsPaced (interval : ℕ) (clock : ℤ) (waits : Prop) (t : Throttle)
    (history : List Event) : Prop where
  lastRun : t.lastRun = lastLabeled? history
  le_clock : ∀ last, t.lastRun = some last → last ≤ clock
  due : ∀ due, t.deferredUntil = some due → ∃ last, t.lastRun = some last ∧ due = last + interval
  caused : waits → ∀ last, t.lastRun = some last → last + interval ≤ clock ∨ IsCaused history
  asked : IsAsked history → waits ∨ t.isDeferred = true
  spaced : IsSpaced interval history

namespace IsPaced

variable {interval : ℕ} {clock now : ℤ} {waits waits' : Prop} {t : Throttle}
variable {history : List Event}

theorem new (interval : ℕ) (clock : ℤ) (waits : Prop) : IsPaced interval clock waits {} [] where
  lastRun := rfl
  le_clock last hl := by cases hl
  due due hd := by cases hd
  caused _ last hl := by cases hl
  asked ha := by
    obtain ⟨now, hn⟩ := ha
    cases hn
  spaced := trivial

theorem mono (h : IsPaced interval clock waits t history) (hc : clock ≤ now)
    (hw : waits ↔ waits') : IsPaced interval now waits' t history where
  lastRun := h.lastRun
  le_clock last hl := (h.le_clock last hl).trans hc
  due := h.due
  caused hw' last hl := (h.caused (hw.2 hw') last hl).imp_left (·.trans hc)
  asked ha := (h.asked ha).imp_left hw.1
  spaced := h.spaced

theorem noteQueued (h : IsPaced interval clock waits t history) {pending before : Bool}
    (cause : Cause) (hw : waits → waits')
    (hw' : waits' → pending = true ∧ before = false ∨ waits) :
    IsPaced interval clock waits' t
      (if pending && !before then .queued cause :: history else history) := by
  split
  · refine ⟨h.lastRun, h.le_clock, h.due, ?_, ?_, h.spaced⟩
    · intro _ _ _
      exact .inr ⟨cause, List.mem_cons_self⟩
    · intro ha
      obtain ⟨now, hn⟩ := ha
      have ha : IsAsked history := ⟨now, by simpa [sinceLabeled, labeledAt?] using hn⟩
      exact (h.asked ha).imp_left hw
  · next hp =>
    refine h.mono le_rfl ⟨hw, fun hw₁ ↦ (hw' hw₁).resolve_left ?_⟩
    rintro ⟨rfl, rfl⟩
    exact hp rfl

/-- Whether a request lets the line run, which only one that is not too soon does, or is put off to
the end of the interval. -/
theorem request (h : IsPaced interval clock waits t history) (hc : clock ≤ now) :
    IsPaced interval now (waits ∨ (t.request now interval false).1 = .run)
      (t.request now interval false).2 (.requested now :: history) := by
  have hle : ∀ last, t.lastRun = some last → last ≤ now := by
    intro last hl
    exact (h.le_clock last hl).trans hc
  have hcaused : waits → ∀ last, t.lastRun = some last →
      last + interval ≤ now ∨ IsCaused (.requested now :: history) := by
    intro hw last hl
    rcases h.caused hw last hl with hlong | hcause
    · exact .inl (hlong.trans hc)
    · obtain ⟨cause, hmem⟩ := hcause
      exact .inr ⟨cause, List.mem_cons_of_mem _ hmem⟩
  cases hlast : t.lastRun with
  | none =>
    have hrun : t.request now interval false = (.run, t) := by rw [Throttle.request, hlast]
    rw [hrun]
    exact ⟨h.lastRun, hle, h.due, by simp [hlast], fun _ ↦ .inl (.inr rfl), h.spaced⟩
  | some last =>
    have hnow := hle last hlast
    simp only [Throttle.request, hlast, Bool.false_or, decide_eq_true_eq]
    split
    · next hlong =>
      refine ⟨h.lastRun, hle, h.due, fun _ l hl ↦ .inl ?_, fun _ ↦ .inl (.inr rfl), h.spaced⟩
      obtain rfl : last = l := Option.some.inj (hlast.symm.trans hl)
      omega
    · split
      · next hd =>
        refine ⟨h.lastRun, hle, h.due, ?_, fun _ ↦ .inr hd, h.spaced⟩
        intro hw
        exact hcaused (hw.resolve_right (by simp))
      · -- the last run stays as it is, which the interval counts from
        rw [← hlast]
        refine ⟨h.lastRun, hle, ?_, ?_, fun _ ↦ .inr rfl, h.spaced⟩
        · rintro due ⟨⟩
          exact ⟨last, hlast, rfl⟩
        · intro hw
          exact hcaused (hw.resolve_right (by simp))

theorem promote (h : IsPaced interval clock waits t history) (hc : clock ≤ now) :
    IsPaced interval now (waits ∨ t.isDue now = true) (t.takeDue now).2 history := by
  have hle : ∀ last, t.lastRun = some last → last ≤ now := by
    intro last hl
    exact (h.le_clock last hl).trans hc
  rw [Throttle.takeDue]
  split
  · next hd =>
    refine ⟨h.lastRun, hle, by simp, fun _ l hl ↦ .inl ?_, fun _ ↦ .inl (.inr hd), h.spaced⟩
    -- what is due was put off until the end of the interval
    cases hdue : t.deferredUntil with
    | none =>
      rw [Throttle.isDue, hdue] at hd
      cases hd
    | some due =>
      rw [Throttle.isDue, hdue] at hd
      obtain ⟨last, hlast, rfl⟩ := h.due due hdue
      obtain rfl : last = l := Option.some.inj (hlast.symm.trans hl)
      exact of_decide_eq_true hd
  · next hd => exact h.mono hc (by simp [hd])

theorem label (h : IsPaced interval clock waits t history) (hc : clock ≤ now) {directly : Bool}
    (hd : directly = true ∨ waits) :
    IsPaced interval now False { lastRun := some now } (.labeled now directly :: history) where
  lastRun := rfl
  le_clock last hl := by
    cases hl
    exact le_rfl
  due due hd := by cases hd
  caused hw := hw.elim
  asked ha := by
    obtain ⟨now, hn⟩ := ha
    cases hn
  spaced := by
    refine ⟨fun last hl hlt ↦ ?_, h.spaced⟩
    rw [← h.lastRun] at hl
    rcases hd with hd | hw
    · exact .inl hd
    · refine .inr ((h.caused hw last hl).resolve_left fun hle ↦ ?_)
      omega

/-- A line that was asked for is labeled or waits, once no refresh that was put off is due. -/
theorem answered {newer older : List Event} {asked last : ℤ}
    (h : IsPaced interval clock waits t (newer ++ .requested asked :: older))
    (hd : t.isDue now = false) (hlast : lastLabeled? older = some last)
    (hn : max asked (last + interval) ≤ now) : (∃ e ∈ newer, e.labeledAt?.isSome) ∨ waits := by
  by_contra hnot
  simp only [not_or, not_exists, not_and, Option.not_isSome_iff_eq_none] at hnot
  obtain ⟨hnewer, hwaits⟩ := hnot
  have hasked : IsAsked (newer ++ .requested asked :: older) := by
    refine ⟨asked, ?_⟩
    rw [sinceLabeled, List.takeWhile_append_of_pos (fun e he ↦ by simp [hnewer e he])]
    simp [labeledAt?]
  have hdeferred := (h.asked hasked).resolve_left hwaits
  obtain ⟨due, hdue⟩ := Option.isSome_iff_exists.1 hdeferred
  obtain ⟨run, hrun, rfl⟩ := h.due due hdue
  have hsame : lastLabeled? (newer ++ .requested asked :: older) = some last := by
    rw [lastLabeled?_append hnewer]
    exact hlast
  obtain rfl : run = last := by
    rw [← h.lastRun, hrun] at hsame
    exact Option.some.inj hsame
  rw [Throttle.isDue, hdue] at hd
  exact of_decide_eq_false hd ((le_max_right _ _).trans hn)

end IsPaced

/-! ### All lines of a document -/

/-- When a step is done, if that matters. -/
def Document.Step.time? : Document.Step → Option ℤ
  | setScheme _ => none
  | apply _ now => some now
  | request _ now _ => some now
  | refreshAll => none
  | refreshNow _ now _ => some now
  | frame now _ => some now
  | runUntilIdle now _ => some now

/-- Whether no step is done before the one that comes before it. -/
def Document.IsTimed (steps : List Document.Step) : Prop :=
  (steps.filterMap Document.Step.time?).Pairwise (· ≤ ·)

namespace Chronicle

variable {c : Chronicle} {d' : Document} {clock now : ℤ} {waits waits' : ℕ → Prop}

/-- Whether each line is paced, where the given ones wait for a frame. -/
structure Paced (clock : ℤ) (waits : ℕ → Prop) (c : Chronicle) : Prop where
  queues : c.document.QueuesLines
  length : c.histories.length = c.document.lineCount
  line : ∀ k r history, c.document.record? k = some r → c.histories[k]? = some history →
    IsPaced c.document.settings.minRefreshInterval clock (waits k) r.throttle history

theorem getElem?_noteQueued (c : Chronicle) (cause : Cause) (before : RefreshQueue) (k : ℕ) :
    (c.noteQueued cause before).histories[k]? = c.histories[k]?.map fun history ↦
      if c.document.isPending k && !before.contains k then .queued cause :: history
      else history := by
  simp only [noteQueued, List.getElem?_mapIdx]

theorem getElem?_note (c : Chronicle) (line : ℕ) (e : Event) (k : ℕ) :
    (c.note line e).histories[k]? =
      if k = line then c.histories[k]?.map (e :: ·) else c.histories[k]? := by
  rw [note, List.getElem?_modify]
  by_cases hk : k = line
  · simp [hk]
  · rw [if_neg hk]
    simp [Ne.symm hk]

/-- Lines that would be inserted behind the last one are appended. -/
theorem insertLines_min {first count : ℕ} (h : c.histories.length = c.document.lineCount) :
    c.insertLines (min first c.document.lineCount) count = c.insertLines first count := by
  rw [insertLines, insertLines, Document.insertLines_min]
  rcases le_total first c.document.lineCount with hle | hle
  · rw [min_eq_left hle]
  · have hlen : c.histories.length ≤ first := h ▸ hle
    rw [min_eq_right hle, ← h, List.take_length, List.drop_length, List.take_of_length_le hlen,
      List.drop_of_length_le hlen]

theorem awaits_insertLines {d : Document} {first count k : ℕ} (h0 : count ≠ 0)
    (hf : first ≤ d.lineCount) :
    (d.insertLines first count).Awaits [] k ↔
      (first ≤ k ∧ k < first + count) ∨ k < first ∧ d.Awaits [] k ∨
        first + count ≤ k ∧ d.Awaits [] (k - count) := by
  simp only [Document.Awaits, List.not_mem_nil, or_false, Document.isPending_iff,
    Document.insertLines_eq h0 hf, RefreshQueue.mem_pushAll, List.mem_range'_1,
    RefreshQueue.mem_move_inserted]

namespace Paced

theorem of_settings {c' : Chronicle} {d : Document} (hs : c'.document.settings = d.settings)
    (hq : c'.document.QueuesLines) (hl : c'.histories.length = c'.document.lineCount)
    (hline : ∀ k r history, c'.document.record? k = some r → c'.histories[k]? = some history →
      IsPaced d.settings.minRefreshInterval clock (waits k) r.throttle history) :
    c'.Paced clock waits :=
  ⟨hq, hl, hs ▸ hline⟩

theorem unlabeled (scheme : Scheme) (settings : Settings) (lineCount : ℕ) (clock : ℤ)
    (waits : ℕ → Prop) :
    Paced clock waits
      ⟨.unlabeled scheme settings lineCount, List.replicate lineCount []⟩ where
  queues := .unlabeled scheme settings lineCount
  length := List.length_replicate.trans List.length_replicate.symm
  line k r history hr hh := by
    obtain rfl := List.eq_of_mem_replicate (List.mem_of_getElem? hr)
    obtain rfl := List.eq_of_mem_replicate (List.mem_of_getElem? hh)
    exact .new _ clock (waits k)

theorem mono (h : c.Paced clock waits) (hc : clock ≤ now)
    (hw : ∀ k, k < c.document.lineCount → (waits k ↔ waits' k)) : c.Paced now waits' where
  queues := h.queues
  length := h.length
  line k r history hr hh :=
    (h.line k r history hr hh).mono hc (hw k (List.getElem?_eq_some_iff.1 hr).1)

theorem noteQueued (h : c.Paced clock waits) (cause : Cause) {before : RefreshQueue}
    (hw : ∀ k, waits k → waits' k)
    (hw' : ∀ k, waits' k → c.document.isPending k = true ∧ before.contains k = false ∨ waits k) :
    (c.noteQueued cause before).Paced clock waits' where
  queues := h.queues
  length := List.length_mapIdx.trans h.length
  line k r history hr hh := by
    rw [getElem?_noteQueued, Option.map_eq_some_iff] at hh
    obtain ⟨history, hh, rfl⟩ := hh
    exact (h.line k r history hr hh).noteQueued cause (hw k) (hw' k)

/-- Lines get into the queue for a reason. -/
theorem enqueued (h : c.Paced clock (c.document.Awaits [])) (cause : Cause)
    (hq : d'.QueuesLines) (hs : d'.settings = c.document.settings)
    (hr : d'.records = c.document.records)
    (hp : ∀ k, c.document.isPending k = true → d'.isPending k = true) :
    ({ c with document := d' }.noteQueued cause c.document.queue).Paced clock
      (d'.Awaits []) := by
  have h' : Paced clock (c.document.Awaits []) { c with document := d' } := by
    refine .of_settings hs hq (h.length.trans (congrArg List.length hr.symm))
      fun k r history hk hh ↦ ?_
    rw [Document.record?, hr] at hk
    exact h.line k r history hk hh
  refine h'.noteQueued cause (fun k ↦ Or.imp_left (hp k)) fun k hk ↦ ?_
  cases hb : c.document.queue.contains k with
  | true => exact .inr (.inl hb)
  | false => exact .inl ⟨hk.resolve_right List.not_mem_nil, rfl⟩

theorem refreshAll (h : c.Paced clock (c.document.Awaits [])) :
    c.refreshAll.Paced clock (c.refreshAll.document.Awaits []) :=
  h.enqueued .everywhere h.queues.refreshAll rfl rfl c.document.postpones_refreshAll.pending

theorem setScheme (c : Chronicle) (scheme : Scheme) (clock : ℤ) :
    (c.setScheme scheme).Paced clock ((c.setScheme scheme).document.Awaits []) :=
  unlabeled scheme c.document.settings c.document.lineCount clock _

/-! #### Requests and edits -/

theorem request (h : c.Paced clock (c.document.Awaits [])) (hc : clock ≤ now) (line : ℕ)
    (force : Bool) :
    (c.request line now force).Paced now ((c.request line now force).document.Awaits []) := by
  have hp := c.document.postpones_requestRefresh line now force
  have hq := h.queues.requestRefresh line now force
  cases force with
  | true =>
    exact (h.mono hc fun _ _ ↦ Iff.rfl).enqueued .forced hq hp.rules.2
      (c.document.records_requestRefresh_forced line now) hp.pending
  | false =>
    refine .of_settings hp.rules.2 hq
      ((List.length_modify ..).trans (h.length.trans hp.lineCount.symm))
      fun k r history hr hh ↦ ?_
    replace hr : (c.document.requestRefresh line now false).record? k = some r := hr
    replace hh : ({ c with document := c.document.requestRefresh line now false }.note line
      (.requested now)).histories[k]? = some history := hh
    rw [Document.record?_requestRefresh] at hr
    rw [getElem?_note] at hh
    by_cases hk : k = line
    · rw [if_pos hk, Option.map_eq_some_iff] at hr hh
      obtain ⟨r, hr, rfl⟩ := hr
      obtain ⟨history, hh, rfl⟩ := hh
      refine ((h.line k r history hr hh).request hc).mono le_rfl ?_
      simp [Document.Awaits, Document.isPending_requestRefresh, hk, hk ▸ hr]
    · rw [if_neg hk] at hr hh
      refine (h.line k r history hr hh).mono hc ?_
      simp [Document.Awaits, Document.isPending_requestRefresh, hk]

theorem insertLines (h : c.Paced clock (c.document.Awaits [])) (first count : ℕ) :
    (c.insertLines first count).Paced clock ((c.insertLines first count).document.Awaits []) := by
  by_cases h0 : count = 0
  · subst h0
    simpa [Chronicle.insertLines, Document.insertLines] using h
  have hf : min first c.document.lineCount ≤ c.document.lineCount := Nat.min_le_right _ _
  rw [← insertLines_min h.length]
  generalize min first c.document.lineCount = first at hf
  have hf' : first ≤ c.histories.length := h.length ▸ hf
  refine .of_settings (c.document.sameRules_insertLines first count).2
    (h.queues.insertLines first count) ?_ fun k r history hr hh ↦ ?_
  · have hlen := h.length
    rw [Chronicle.insertLines, Document.lineCount_insertLines h0 hf]
    simp only [List.length_append, List.length_take, List.length_drop, List.length_replicate]
    omega
  · replace hr : (c.document.insertLines first count).record? k = some r := hr
    replace hh : (c.histories.take first ++ List.replicate count [] ++
      c.histories.drop first)[k]? = some history := hh
    rw [Document.record?_insertLines h0 hf] at hr
    rw [getElem?_splice hf', List.length_replicate] at hh
    have hw : (c.document.insertLines first count).Awaits [] k ↔ _ :=
      awaits_insertLines h0 hf
    split at hr
    · next hk =>
      rw [if_pos hk] at hh
      refine (h.line k r history hr hh).mono le_rfl (Iff.symm (hw.trans ?_))
      simp [hk, Nat.not_le_of_lt hk, show ¬first + count ≤ k by omega]
    · next hk =>
      rw [if_neg hk] at hh
      split at hr
      · next hk' =>
        rw [if_pos hk'] at hh
        cases hr
        obtain rfl := List.eq_of_mem_replicate (List.mem_of_getElem? hh)
        exact .new _ clock _
      · next hk' =>
        rw [if_neg hk', show k - first - count + first = k - count by omega] at hh
        refine (h.line (k - count) r history hr hh).mono le_rfl (Iff.symm (hw.trans ?_))
        simp [hk, hk', Nat.le_of_not_lt hk']

/-- The lines that are left after a removal, before the one behind the gap is queued. -/
theorem removed (h : c.Paced clock (c.document.Awaits [])) {first count stop : ℕ}
    (hn : ¬(count = 0 ∨ c.document.lineCount ≤ first))
    (hs : stop = min (first + count) c.document.lineCount) :
    Paced clock
      (fun k ↦ (c.document.queue.move (.removed first (stop - first))).contains k = true)
      ⟨c.document.removeLines first count,
        let rest := c.histories.take first ++ c.histories.drop stop
        if rest.isEmpty then [[]] else rest⟩ := by
  have hlen : c.histories.length = c.document.records.length := h.length
  have hf : first ≤ c.document.records.length := Nat.le_of_not_le fun hle ↦ hn (.inr hle)
  have hfs : first ≤ stop := by omega
  have hrecords := Document.records_removeLines hn
  rw [← hs] at hrecords
  have hempty : (c.histories.take first ++ c.histories.drop stop).isEmpty =
      (c.document.records.take first ++ c.document.records.drop stop).isEmpty := by
    rw [Bool.eq_iff_iff, List.isEmpty_iff_length_eq_zero, List.isEmpty_iff_length_eq_zero]
    simp only [List.length_append, List.length_take, List.length_drop, hlen]
  refine .of_settings (c.document.sameRules_removeLines first count).2
    (h.queues.removeLines first count) ?_ fun k r history hr hh ↦ ?_
  · rw [Document.lineCount, hrecords]
    dsimp only
    rw [hempty]
    split
    · rfl
    · simp only [List.length_append, List.length_take, List.length_drop, hlen]
  · dsimp only at hr hh hrecords ⊢
    rw [Document.record?, hrecords] at hr
    rw [hempty] at hh
    split at hr
    · next he =>
      rw [if_pos he] at hh
      obtain rfl := List.mem_singleton.1 (List.mem_of_getElem? hr)
      obtain rfl := List.mem_singleton.1 (List.mem_of_getElem? hh)
      exact .new _ clock _
    · next he =>
      rw [if_neg he, ← List.append_nil (c.histories.take first), getElem?_splice (hlen ▸ hf)] at hh
      rw [← List.append_nil (c.document.records.take first), getElem?_splice hf] at hr
      have hw : (c.document.queue.move (.removed first (stop - first))).contains k = true ↔
          c.document.Awaits [] (if k < first then k else k + (stop - first)) := by
        simp only [RefreshQueue.contains_iff_mem, RefreshQueue.mem_move_removed, Document.Awaits,
          List.not_mem_nil, or_false, Document.isPending_iff]
      split at hr
      · next hk =>
        rw [if_pos hk] at hh hw
        exact (h.line k r history hr hh).mono le_rfl hw.symm
      · next hk =>
        rw [if_neg hk, List.length_nil, if_neg (by omega)] at hh
        rw [List.length_nil, if_neg (by omega)] at hr
        rw [if_neg hk, show k + (stop - first) = k - first - 0 + stop by omega] at hw
        exact (h.line _ r history hr hh).mono le_rfl hw.symm

theorem removeLines (h : c.Paced clock (c.document.Awaits [])) (first count : ℕ) :
    (c.removeLines first count).Paced clock ((c.removeLines first count).document.Awaits []) := by
  rw [Chronicle.removeLines]
  split
  · exact h
  · next hn =>
    refine (h.removed hn rfl).noteQueued .uncovered (fun k hk ↦ .inl ?_) fun k hk ↦ ?_
    · exact (Document.isPending_removeLines_iff hn).2 (.inr (RefreshQueue.contains_iff_mem.1 hk))
    · rw [← Bool.not_eq_true]
      exact (em _).symm.imp_left (⟨hk.resolve_right List.not_mem_nil, ·⟩)

theorem applyEdits (h : c.Paced clock (c.document.Awaits [])) (hc : clock ≤ now)
    (edits : List Edit) :
    (edits.foldl (applyEdit now) c).Paced now
      ((edits.foldl (applyEdit now) c).document.Awaits []) := by
  replace h := h.mono hc fun _ _ ↦ Iff.rfl
  induction edits generalizing c with
  | nil => exact h
  | cons e edits ih =>
    refine ih (c := applyEdit now c e) ?_
    cases e with
    | changed line => exact h.request le_rfl line false
    | inserted first count => exact h.insertLines first count
    | removed first count => exact h.removeLines first count

/-! #### Frames -/

theorem drawn (h : c.Paced clock (c.document.Awaits [])) (hc : clock ≤ now) :
    Paced now ((c.document.drawn now).Awaits (c.document.batch now))
      { c with document := c.document.drawn now } := by
  refine ⟨h.queues.drawn now, h.length.trans (c.document.lineCount_drawn now).symm,
    fun k r history hr hh ↦ ?_⟩
  replace hr : (c.document.promote now).record? k = some r := hr
  rw [Document.record?_promote, Option.map_eq_some_iff] at hr
  obtain ⟨r, hr, rfl⟩ := hr
  have hk : k < c.document.lineCount := (List.getElem?_eq_some_iff.1 hr).1
  refine ((h.line k r history hr hh).promote hc).mono le_rfl ?_
  have hw : (c.document.drawn now).Awaits (c.document.batch now) k ↔
      (c.document.promote now).isPending k = true := by
    rw [Document.Awaits, Document.isPending_iff, Document.isPending_iff, or_comm,
      ← List.mem_append, h.queues.batch_append]
  rw [hw, Document.isPending_promote h.queues, Document.isDue, Document.getD_records hr]
  simp [Document.Awaits, hk]

theorem relabel {batch : List ℕ} (h : c.Paced clock (c.document.Awaits batch)) (hc : clock ≤ now)
    (hb : batch.Nodup) {line : ℕ} (hl : line < c.document.lineCount) {directly : Bool}
    (hd : directly = true ∨ line ∈ batch) (source : List Text) :
    (Chronicle.relabel source now directly c line).Paced now
      ((Chronicle.relabel source now directly c line).document.Awaits (batch.erase line)) := by
  have hlabeled : Paced now (fun k ↦ k ≠ line ∧ c.document.Awaits batch k)
      ({ c with document := c.document.relabel source now line }.note line
        (.labeled now directly)) := by
    refine .of_settings (c.document.sameRules_relabel source now line).2
      (h.queues.relabel source now line) ((List.length_modify ..).trans
      (h.length.trans (c.document.lineCount_relabel source now line).symm))
      fun k r history hr hh ↦ ?_
    replace hr : (Document.relabel source now c.document line).record? k = some r := hr
    rw [Document.record?_relabel source now hl] at hr
    rw [getElem?_note] at hh
    by_cases hk : k = line
    · subst hk
      rw [if_pos rfl] at hr hh
      cases hr
      rw [Option.map_eq_some_iff] at hh
      obtain ⟨history, hh, rfl⟩ := hh
      have hline := h.line k _ history (List.getElem?_eq_getElem hl) hh
      exact (hline.label hc (hd.imp_right .inr)).mono le_rfl (by simp)
    · rw [if_neg hk] at hr hh
      have hw : c.document.Awaits batch k ↔ k ≠ line ∧ c.document.Awaits batch k := by simp [hk]
      split at hr
      · rw [Option.map_eq_some_iff] at hr
        obtain ⟨r, hr, rfl⟩ := hr
        exact (h.line k r history hr hh).mono hc hw
      · exact (h.line k r history hr hh).mono hc hw
  refine hlabeled.noteQueued .handed ?_ fun k hw ↦ ?_
  · rintro k ⟨hk, hp | hm⟩
    · exact .inl (Document.isPending_relabel_of_ne source now hk hp)
    · exact .inr ((List.mem_erase_of_ne hk).2 hm)
  · rcases hw with hp | hm
    · rcases (Document.isPending_relabel source now).1 hp with hq | ⟨rfl, -⟩
      · rw [RefreshQueue.toList_remove, h.queues.tidy.nodup.mem_erase_iff] at hq
        exact .inr ⟨hq.1, .inl (Document.isPending_iff.2 hq.2)⟩
      · cases hb : c.document.queue.contains (line + 1) with
        | true => exact .inr ⟨Nat.succ_ne_self line, .inl hb⟩
        | false => exact .inl ⟨hp, rfl⟩
    · rw [hb.mem_erase_iff] at hm
      exact .inr ⟨hm.1, .inr hm.2⟩

theorem foldl_relabel {batch : List ℕ} (h : c.Paced now (c.document.Awaits batch))
    (hb : batch.Nodup) (hl : ∀ line ∈ batch, line < c.document.lineCount)
    (source : List Text) :
    (batch.foldl (Chronicle.relabel source now false) c).Paced now
      ((batch.foldl (Chronicle.relabel source now false) c).document.Awaits []) := by
  induction batch generalizing c with
  | nil => exact h
  | cons line batch ih =>
    have hlt := hl line List.mem_cons_self
    have hstep : (Chronicle.relabel source now false c line).Paced now _ :=
      h.relabel le_rfl hb hlt (.inr List.mem_cons_self) source
    rw [List.erase_cons_head] at hstep
    refine ih hstep hb.of_cons fun k hk ↦ ?_
    have hcount := c.document.lineCount_relabel source now line
    exact (hl k (List.mem_cons_of_mem _ hk)).trans_eq hcount.symm

theorem frame (h : c.Paced clock (c.document.Awaits [])) (hc : clock ≤ now)
    (source : List Text) :
    (c.frame now source).Paced now ((c.frame now source).document.Awaits []) := by
  refine (h.drawn hc).foldl_relabel ?_ (fun line hl ↦ ?_) source
  · rw [h.queues.batch_eq]
    exact (h.queues.promote now).tidy.nodup.sublist (List.take_sublist _ _)
  · exact (Document.lt_of_mem_batch hl).trans_eq (c.document.lineCount_drawn now).symm

theorem frames (h : c.Paced clock (c.document.Awaits [])) (hc : clock ≤ now)
    (source : List Text) (fuel : ℕ) :
    (frames now source fuel c).Paced now ((frames now source fuel c).document.Awaits []) := by
  induction fuel generalizing c clock with
  | zero => exact h.mono hc fun _ _ ↦ Iff.rfl
  | succ fuel ih =>
    rw [Chronicle.frames]
    split
    · exact h.frame hc source
    · exact ih (h.frame hc source) le_rfl

theorem refreshNow (h : c.Paced clock (c.document.Awaits [])) (hc : clock ≤ now) (line : ℕ)
    (source : List Text) :
    (c.refreshNow line now source).Paced now
      ((c.refreshNow line now source).document.Awaits []) := by
  rw [Chronicle.refreshNow]
  split
  · next hl => exact h.relabel hc .nil hl (.inl rfl) source
  · exact h.mono hc fun _ _ ↦ Iff.rfl

/-! #### Runs -/

theorem perform (h : c.Paced clock (c.document.Awaits [])) (a : Document.Step)
    (hc : ∀ now, a.time? = some now → clock ≤ now) :
    (c.perform a).Paced (a.time?.getD clock) ((c.perform a).document.Awaits []) := by
  cases a with
  | setScheme scheme => exact .setScheme c scheme clock
  | apply edits now => exact h.applyEdits (hc now rfl) edits
  | request line now force => exact h.request (hc now rfl) line force
  | refreshAll => exact h.refreshAll
  | refreshNow line now source => exact h.refreshNow (hc now rfl) line source
  | frame now source => exact h.frame (hc now rfl) source
  | runUntilIdle now source => exact h.frames (hc now rfl) source _

theorem after (h : c.Paced clock (c.document.Awaits [])) {steps : List Document.Step}
    (ht : Document.IsTimed steps)
    (hc : ∀ now ∈ steps.filterMap Document.Step.time?, clock ≤ now) :
    ∃ clock, (c.after steps).Paced clock ((c.after steps).document.Awaits []) := by
  induction steps generalizing c clock with
  | nil => exact ⟨clock, h⟩
  | cons a steps ih =>
    rw [Document.IsTimed] at ht ih
    have hstep := h.perform a fun now hnow ↦
      hc now (List.mem_filterMap.2 ⟨a, List.mem_cons_self, hnow⟩)
    cases hnow : a.time? with
    | none =>
      rw [hnow] at hstep
      rw [List.filterMap_cons_none hnow] at ht hc
      exact ih hstep ht hc
    | some now =>
      rw [hnow] at hstep
      rw [List.filterMap_cons_some hnow, List.pairwise_cons] at ht
      exact ih hstep ht.2 ht.1

/-- There is no time before the first step that would matter. -/
theorem after_new (scheme : Scheme) (settings : Settings) (lineCount : ℕ)
    {steps : List Document.Step} (ht : Document.IsTimed steps) :
    let c := (Chronicle.new scheme settings lineCount).after steps
    ∃ clock, c.Paced clock (c.document.Awaits []) := by
  have hnew (clock : ℤ) : (Chronicle.new scheme settings lineCount).Paced clock
      ((Chronicle.new scheme settings lineCount).document.Awaits []) :=
    unlabeled scheme settings (max lineCount 1) clock _
  cases htimes : steps.filterMap Document.Step.time? with
  | nil => exact (hnew 0).after ht (by simp [htimes])
  | cons first times =>
    refine (hnew first).after ht ?_
    rw [Document.IsTimed, htimes, List.pairwise_cons] at ht
    rw [htimes]
    exact List.forall_mem_cons.2 ⟨le_rfl, ht.1⟩

end Paced

end Chronicle

namespace Document

theorem settings_perform (d : Document) (a : Step) : (d.perform a).settings = d.settings := by
  cases a with
  | setScheme scheme => rfl
  | apply edits now => exact (d.sameRules_applyEdits edits now).2
  | request line now force => exact (d.postpones_requestRefresh line now force).rules.2
  | refreshAll => rfl
  | refreshNow line now source => exact (d.sameRules_refreshNow line now source).2
  | frame now source => exact (d.sameRules_frame now source).2
  | runUntilIdle now source => exact (d.sameRules_runUntilIdle now source).2

theorem settings_after (d : Document) (steps : List Step) :
    (d.after steps).settings = d.settings := by
  induction steps generalizing d with
  | nil => rfl
  | cons a steps ih => exact (ih (d.perform a)).trans (d.settings_perform a)

theorem noneDue_after {steps : List Step} {now : ℤ} {source : List Text} (d : Document)
    (h : steps.getLast? = some (.frame now source) ∨
      steps.getLast? = some (.runUntilIdle now source)) : (d.after steps).NoneDue now := by
  rcases h with h | h <;> obtain ⟨steps, rfl⟩ := List.getLast?_eq_some_iff.1 h
  · rw [after, List.foldl_concat]
    exact noneDue_frame _ now source
  · rw [after, List.foldl_concat]
    exact noneDue_frames _ now source _

/-- The pace of the lines of a document, whatever is done with it while time does not go back.
Each line keeps its history while others come and go, and starts a new one with a new scheme.
A line that a frame labels within the interval after it was labeled got into the queue in between,
for another reason than a request. A line for which a refresh was requested is labeled after that
or waits, after each frame that comes when the interval is over. -/
theorem labeled_at_pace (scheme : Scheme) (settings : Settings) (lineCount : ℕ)
    {steps : List Step} (ht : IsTimed steps) :
    let d := (Document.new scheme settings lineCount).after steps
    let c := (Chronicle.new scheme settings lineCount).after steps
    c.document = d ∧ c.histories.length = d.lineCount ∧
      (∀ line history, c.histories[line]? = some history →
        ∃ r, d.record? line = some r ∧ r.throttle.lastRun = lastLabeled? history) ∧
      (∀ history ∈ c.histories, ∀ later between earlier (t₁ t₂ : ℤ) d₁ d₂,
        history = later ++ .labeled t₂ d₂ :: (between ++ .labeled t₁ d₁ :: earlier) →
        (∀ e ∈ between, e.labeledAt? = none) → t₂ < t₁ + settings.minRefreshInterval →
        d₂ = true ∨ ∃ cause, .queued cause ∈ between) ∧
      ∀ now source, steps.getLast? = some (.frame now source) ∨
          steps.getLast? = some (.runUntilIdle now source) →
        ∀ line history, c.histories[line]? = some history →
          ∀ newer older (asked last : ℤ), history = newer ++ .requested asked :: older →
          lastLabeled? older = some last → max asked (last + settings.minRefreshInterval) ≤ now →
          (∃ e ∈ newer, e.labeledAt?.isSome) ∨ d.isPending line = true := by
  intro d c
  obtain ⟨clock, hpaced⟩ := Chronicle.Paced.after_new scheme settings lineCount ht
  have hdocument : c.document = d := Chronicle.document_after _ steps
  have hlength : c.histories.length = d.lineCount := by rw [← hdocument, ← hpaced.length]
  have hsettings : d.settings = settings := settings_after _ steps
  have hline (line : ℕ) (history : List Event) (hh : c.histories[line]? = some history) :
      ∃ r, d.record? line = some r ∧ IsPaced settings.minRefreshInterval clock
        (d.Awaits [] line) r.throttle history := by
    have hlt : line < d.lineCount := hlength ▸ (List.getElem?_eq_some_iff.1 hh).1
    obtain ⟨r, hr⟩ := d.exists_record hlt
    have hp := hpaced.line line r history (hdocument ▸ hr) hh
    rw [hdocument, hsettings] at hp
    exact ⟨r, hr, hp⟩
  refine ⟨hdocument, hlength, ?_, ?_, ?_⟩
  · intro line history hh
    obtain ⟨r, hr, hp⟩ := hline line history hh
    exact ⟨r, hr, hp.lastRun⟩
  · intro history hmem later between earlier t₁ t₂ d₁ d₂ he hb hlt
    obtain ⟨line, hh⟩ := List.mem_iff_getElem?.1 hmem
    obtain ⟨r, -, hp⟩ := hline line history hh
    exact (he ▸ hp.spaced).exists_cause hb hlt
  · intro now source hstep line history hh newer older asked last he hlast hn
    obtain ⟨r, hr, hp⟩ := hline line history hh
    have hd := noneDue_after (Document.new scheme settings lineCount) hstep r
      (List.mem_of_getElem? hr)
    exact ((he ▸ hp).answered hd hlast hn).imp_right (Or.resolve_right · List.not_mem_nil)

/-- Two refreshes are put off. Before the first of them is due its line is labeled, since the line
above it has changed. -/
def pacedSteps (source changed : List Text) : List Step :=
  [.runUntilIdle 0 source, .request 1 100 false, .refreshNow 0 200 changed, .frame 300 changed,
    .request 0 400 false, .frame 700 changed]

theorem labeled_at_pace_remark :
    let changed := ["ab".toList, "c".toList]
    let steps := pacedSteps ["a<b".toList, "c".toList] changed
    let c := (Chronicle.new Session.remarks {} 2).after steps
    IsTimed steps ∧
      c.histories =
        [[.labeled 700 false, .requested 400, .labeled 200 true, .labeled 0 false],
          [.labeled 300 false, .queued .handed, .requested 100, .labeled 0 false,
            .queued .handed]] ∧
      (∃ cause, .queued cause ∈ [.queued .handed, Event.requested 100]) ∧
      ((∃ e ∈ [Event.labeled 700 false], e.labeledAt?.isSome) ∨
        ((Document.new Session.remarks {} 2).after steps).isPending 0 = true) := by
  intro changed steps c
  have ht : IsTimed steps := by
    unfold IsTimed
    decide +kernel
  have hh : c.histories =
      [[.labeled 700 false, .requested 400, .labeled 200 true, .labeled 0 false],
        [.labeled 300 false, .queued .handed, .requested 100, .labeled 0 false,
          .queued .handed]] := by
    decide +kernel
  obtain ⟨-, -, -, hspaced, hanswered⟩ := labeled_at_pace Session.remarks {} 2 ht
  have hmem : [Event.labeled 300 false, .queued .handed, .requested 100, .labeled 0 false,
      .queued .handed] ∈ c.histories := by simp [hh]
  refine ⟨ht, hh, ?_, ?_⟩
  · have hcause := hspaced _ hmem [] [.queued .handed, .requested 100] [.queued .handed] 0 300
      false false rfl (by simp [labeledAt?]) (by decide)
    exact hcause.resolve_left Bool.false_ne_true
  · exact hanswered 700 changed (.inl rfl) 0 _ (congrArg (·[0]?) hh) [.labeled 700 false]
      [.labeled 200 true, .labeled 0 false] 400 200 rfl rfl (by decide)

end Document

end Highlighter
