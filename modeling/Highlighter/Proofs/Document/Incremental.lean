import Highlighter.Session
import Highlighter.Proofs.Document.Coherence

/-!
Labeling line by line while a text is edited gives what labeling it from top to bottom gives: as
soon as no line waits, whatever was done before and in whatever order, every line has the labels
that it has in the whole text as it stands.
-/

namespace Highlighter

namespace Document

variable {d d' : Document} {batch batch' : List Nat} {known : KnownLines}
variable {source : List Text} {now : Int}

theorem lt_lineCount {line : Nat} {r : LineRecord} (h : d.record? line = some r) :
    line < d.lineCount := (List.getElem?_eq_some_iff.1 h).1

theorem Coherent.mono (hc : d.Coherent batch) (hr : d.SameRules d') (he : d'.records = d.records)
    (hw : ∀ line, line < d.lineCount → d.Awaits batch line → d'.Awaits batch' line) :
    d'.Coherent batch' := by
  have hrec (k : Nat) : d'.record? k = d.record? k := by rw [record?, he]; rfl
  constructor
  case labeled =>
    intro k r hk hn
    rw [hrec] at hk
    rw [hr.1, hr.2]
    exact hc.labeled k r hk (mt (hw k (lt_lineCount hk)) hn)
  case first =>
    intro r hk hn
    rw [hrec] at hk
    exact hc.first r hk (mt (hw 0 (lt_lineCount hk)) hn)
  case handed =>
    intro k r next hk hk' hl hn
    rw [hrec] at hk hk'
    exact hc.handed k r next hk hk' hl (mt (hw (k + 1) (lt_lineCount hk')) hn)

theorem coherent_of_awaits (h : ∀ line, line < d.lineCount → d.Awaits batch line) :
    d.Coherent batch where
  labeled line _ hr hw := absurd (h line (lt_lineCount hr)) hw
  first _ hr hw := absurd (h 0 (lt_lineCount hr)) hw
  handed line _ _ _ hn _ hw := absurd (h (line + 1) (lt_lineCount hn)) hw

theorem Tracks.mono (ht : d.Tracks batch known) (he : d'.records = d.records)
    (hw : ∀ line, line < d.lineCount → d.Awaits batch line → d'.Awaits batch' line) :
    d'.Tracks batch' known := by
  have hrec (k : Nat) : d'.record? k = d.record? k := by rw [record?, he]; rfl
  refine ⟨by rw [ht.length, lineCount, lineCount, he], fun k r t hk hn hd hx ↦ ?_⟩
  rw [hrec] at hk
  exact ht.text k r t hk (mt (hw k (lt_lineCount hk)) hn) hd hx

/-! ### Frames -/

/-- The lines of a batch leave the queue together, and wait until their turn comes. -/
theorem awaits_popMany (d : Document) : ∀ line, line < d.lineCount → d.Awaits [] line →
    Awaits { d with queue := (d.queue.popMany d.settings.frameBudget).2 }
      ((d.queue.popMany d.settings.frameBudget).1.filter
        fun line ↦ decide (line < d.lineCount)) line := by
  rintro line hlt (hp | hp)
  · rw [isPending_iff] at hp
    obtain hb | hq := RefreshQueue.mem_popMany.1 hp
    · exact .inr (List.mem_filter.2 ⟨hb, by simpa using hlt⟩)
    · exact .inl (isPending_iff.2 hq)
  · cases hp

theorem coherent_frame (hc : d.Coherent []) : (d.frame now source).2.Coherent [] := by
  have hc' := hc.of_postpones (d.postpones_promote now)
  simp only [frame]
  generalize d.promote now = p at hc'
  refine foldl_relabel_induction (P := fun lines d ↦ d.Coherent lines)
    (fun hlt h ↦ coherent_relabel h hlt) (fun line hl ↦ ?_)
    (hc'.mono ⟨rfl, rfl⟩ rfl p.awaits_popMany)
  exact of_decide_eq_true (List.mem_filter.1 hl).2

theorem tracks_frame (ht : d.Tracks [] (source.map some)) :
    (d.frame now source).2.Tracks [] (source.map some) := by
  have ht' := ht.of_postpones (d.postpones_promote now)
  simp only [frame]
  generalize d.promote now = p at ht'
  refine foldl_relabel_induction (P := fun lines d ↦ d.Tracks lines (source.map some))
    (fun hlt h ↦ tracks_relabel h hlt) (fun line hl ↦ ?_) (ht'.mono rfl p.awaits_popMany)
  exact of_decide_eq_true (List.mem_filter.1 hl).2

theorem coherent_runUntilIdle (hc : d.Coherent []) :
    (d.runUntilIdle now source).2.Coherent [] :=
  frames_induction (P := fun d ↦ d.Coherent []) coherent_frame _ hc

theorem tracks_runUntilIdle (ht : d.Tracks [] (source.map some)) :
    (d.runUntilIdle now source).2.Tracks [] (source.map some) :=
  frames_induction (P := fun d ↦ d.Tracks [] (source.map some)) tracks_frame _ ht

theorem awaits_singleton (line : Nat) : ∀ k, k < d.lineCount → d.Awaits [] k →
    d.Awaits [line] k :=
  fun _ _ h ↦ h.imp_right fun hk ↦ absurd hk List.not_mem_nil

theorem coherent_refreshNow (line : Nat) (hc : d.Coherent []) :
    (d.refreshNow line now source).Coherent [] := by
  rw [refreshNow]
  split
  · next hl => exact coherent_relabel (hc.mono (.refl d) rfl (awaits_singleton line)) hl
  · exact hc

theorem tracks_refreshNow (line : Nat) (ht : d.Tracks [] (source.map some)) :
    (d.refreshNow line now source).Tracks [] (source.map some) := by
  rw [refreshNow]
  split
  · next hl => exact tracks_relabel (ht.mono rfl (awaits_singleton line)) hl
  · exact ht

/-! ### The rules of a document -/

theorem sameRules_applyEdits (d : Document) (edits : List Edit) (now : Int) :
    d.SameRules (d.applyEdits edits now) := by
  induction edits generalizing d with
  | nil => exact .refl d
  | cons e edits ih =>
    refine SameRules.trans ?_ (ih (applyEdit now d e))
    cases e with
    | changed line => exact (d.postpones_requestRefresh line now false).rules
    | inserted first count => exact d.sameRules_insertLines first count
    | removed first count => exact d.sameRules_removeLines first count

theorem sameRules_foldl_relabel (source : List Text) (now : Int) (d : Document)
    (lines : List Nat) : d.SameRules (lines.foldl (relabel source now) d) := by
  induction lines generalizing d with
  | nil => exact .refl d
  | cons line lines ih => exact (sameRules_relabel source now d line).trans (ih _)

theorem sameRules_frame (d : Document) (now : Int) (source : List Text) :
    d.SameRules (d.frame now source).2 := by
  refine (d.postpones_promote now).rules.trans ?_
  exact sameRules_foldl_relabel source now
    { d.promote now with queue := ((d.promote now).queue.popMany _).2 } _

theorem sameRules_runUntilIdle (d : Document) (now : Int) (source : List Text) :
    d.SameRules (d.runUntilIdle now source).2 :=
  frames_induction (fun {d'} h ↦ h.trans (d'.sameRules_frame now source)) _ (.refl d)

theorem sameRules_refreshNow (d : Document) (line : Nat) (now : Int) (source : List Text) :
    d.SameRules (d.refreshNow line now source) := by
  rw [refreshNow]
  split
  · exact sameRules_relabel source now d line
  · exact .refl d

/-! ### Documents in which no line waits -/

/-- Lines that inherit what the one before offers are labeled as from top to bottom. -/
theorem map_labeled_eq_labelLines {s : Scheme} {maxNesting : Nat} {records : List LineRecord}
    {lines : List Text} {inherited : Continuations} (hl : records.length = lines.length)
    (hlab : ∀ (i : Nat) (r : LineRecord) (t : Text), records[i]? = some r → lines[i]? = some t →
      r.labeled = LabeledLine.ofText s maxNesting r.inherited t)
    (hf : ∀ r, records[0]? = some r → r.inherited = inherited)
    (hh : ∀ (i : Nat) (r next : LineRecord), records[i]? = some r → records[i + 1]? = some next →
      next.inherited = r.offered) :
    records.map LineRecord.labeled = s.labelLines maxNesting inherited lines := by
  induction records generalizing lines inherited with
  | nil =>
    obtain rfl := List.length_eq_zero_iff.1 hl.symm
    rfl
  | cons r records ih =>
    cases lines with
    | nil => cases hl
    | cons t lines =>
      have hr : r.labeled = LabeledLine.ofText s maxNesting inherited t := by
        rw [← hf r rfl]
        exact hlab 0 r t rfl rfl
      rw [List.map_cons, Scheme.labelLines, hr]
      congr 1
      refine ih (Nat.succ.inj hl) (fun i r' t' hr' ht' ↦ hlab (i + 1) r' t' hr' ht')
        (fun next hn ↦ ?_) (fun i r' next hr' hn ↦ hh (i + 1) r' next hr' hn)
      rw [hh 0 r next rfl hn, ← hr]
      rfl

theorem not_awaits_of_isSettled (h : d.isSettled = true) (line : Nat) : ¬d.Awaits [] line := by
  rw [isSettled, Bool.and_eq_true] at h
  rintro (hp | hp)
  · rw [isPending_iff, RefreshQueue.isEmpty_iff.1 h.1] at hp
    cases hp
  · cases hp

theorem isDeferred_of_isSettled (h : d.isSettled = true) {line : Nat} {r : LineRecord}
    (hr : d.record? line = some r) : r.isDeferred = false := by
  rw [isSettled, Bool.and_eq_true, List.all_eq_true] at h
  simpa using h.2 r (List.mem_of_getElem? hr)

theorem text_of_isSettled (h : d.isSettled = true) (hc : d.Coherent [])
    (ht : d.Tracks [] (source.map some)) {line : Nat} {r : LineRecord} {t : Text}
    (hr : d.record? line = some r) (hs : source[line]? = some t) : r.text = some t := by
  have hw := not_awaits_of_isSettled h line
  obtain ⟨t', hx, -⟩ := hc.labeled line r hr hw
  have hk := ht.text line r t' hr hw (isDeferred_of_isSettled h hr) hx
  rw [List.getElem?_map, hs] at hk
  rw [hx, ← Option.some.inj hk]

theorem map_text_of_isSettled (h : d.isSettled = true) (hc : d.Coherent [])
    (ht : d.Tracks [] (source.map some)) :
    d.records.map LineRecord.text = source.map some := by
  have hlen : source.length = d.records.length := by
    have hl := ht.length
    rwa [List.length_map] at hl
  refine List.ext_getElem? fun line ↦ ?_
  rw [List.getElem?_map, List.getElem?_map]
  cases hs : source[line]? with
  | none =>
    rw [List.getElem?_eq_none_iff] at hs
    rw [List.getElem?_eq_none (by omega)]
    rfl
  | some t =>
    obtain ⟨hl, -⟩ := List.getElem?_eq_some_iff.1 hs
    rw [hlen] at hl
    have hr : d.record? line = some d.records[line] := List.getElem?_eq_getElem hl
    rw [List.getElem?_eq_getElem hl]
    exact congrArg some (text_of_isSettled h hc ht hr hs)

end Document

namespace Session

/-- What holds of a session all the time: its document is coherent, and the edits that it was not
told of yet lead from the lines that it has labeled to those of the buffer. -/
structure Sound (s : Session) : Prop where
  coherent : s.document.Coherent []
  tracks : ∃ known last, s.document.Tracks [] known ∧ Edit.Leads s.buffer.pending known last ∧
    s.buffer.Agrees last

variable {s : Session}

theorem Sound.of_lines {b : Buffer} {d : Document} (hp : b.pending = [])
    (h : d.Coherent [] ∧ d.Tracks [] (b.lines.map some)) : Sound ⟨b, d⟩ :=
  ⟨h.1, b.known, b.known, h.2, by rw [hp]; exact .nil _, b.agrees_known⟩

/-- A document that was told of all edits has the texts of the buffer. -/
theorem Sound.tracks_lines (h : s.Sound) (hp : s.buffer.pending = []) :
    s.document.Tracks [] (s.buffer.lines.map some) := by
  obtain ⟨known, last, ht, hl, ha⟩ := h.tracks
  rw [hp] at hl
  cases hl
  refine ⟨?_, fun line r t hr hw hd hx ↦ ?_⟩
  · rw [List.length_map, ← ht.length]
    exact ha.1.symm
  · rw [List.getElem?_map]
    exact congrArg (Option.map some) (ha.2 line t (ht.text line r t hr hw hd hx))

theorem Sound.of_postpones (h : s.Sound) {d : Document} (hd : s.document.Postpones d) :
    Sound { s with document := d } := by
  obtain ⟨known, last, ht, hl, ha⟩ := h.tracks
  exact ⟨h.coherent.of_postpones hd, known, last, ht.of_postpones hd, hl, ha⟩

theorem sound_start (scheme : Scheme) (settings : Settings) (t : Text) :
    (start scheme settings t).Sound := by
  refine .of_lines rfl ?_
  generalize Buffer.ofText t = b
  have hn : (Document.new scheme settings b.lineCount).lineCount = b.lineCount := by
    have hp := b.lineCount_pos
    simp only [Document.new, Document.unlabeled, Document.refreshAll, Document.lineCount,
      List.length_replicate]
    omega
  have hw (line : Nat) (hl : line < (Document.new scheme settings b.lineCount).lineCount) :
      (Document.new scheme settings b.lineCount).Awaits [] line :=
    .inl (Document.isPending_iff.2 (RefreshQueue.mem_pushAll.2 (.inl (List.mem_range.2 hl))))
  refine ⟨Document.coherent_of_awaits hw, ?_, fun line r t hr h _ _ ↦ ?_⟩
  · rw [List.length_map, hn]
    rfl
  · exact absurd (hw line (Document.lt_lineCount hr)) h

theorem sound_perform (h : s.Sound) (a : Step)
    (ho : a.readsLines = true → s.buffer.pending = []) : (s.perform a).2.Sound := by
  obtain ⟨b, d⟩ := s
  cases a with
  | change c =>
    obtain ⟨known, last, ht, hl, ha⟩ := h.tracks
    obtain ⟨edits, hp, hk⟩ := b.recorded_perform c
    obtain ⟨last', hl', ha'⟩ := hk last ha
    refine ⟨h.coherent, known, last', ht, ?_, ha'⟩
    show Edit.Leads (b.perform c).2.pending known last'
    rw [hp]
    exact hl.append hl'
  | apply now =>
    obtain ⟨known, last, ht, hl, ha⟩ := h.tracks
    obtain ⟨hc', ht'⟩ := Document.applyEdits_keeps now hl h.coherent ht
    exact ⟨hc', last, last, ht', .nil last, ha⟩
  | request line now force => exact h.of_postpones (d.postpones_requestRefresh line now force)
  | refreshAll => exact h.of_postpones d.postpones_refreshAll
  | refreshNow line now =>
    have hp := ho rfl
    exact .of_lines hp ⟨Document.coherent_refreshNow line h.coherent,
      Document.tracks_refreshNow line (h.tracks_lines hp)⟩
  | frame now =>
    have hp := ho rfl
    exact .of_lines hp ⟨Document.coherent_frame h.coherent,
      Document.tracks_frame (h.tracks_lines hp)⟩
  | runUntilIdle now =>
    have hp := ho rfl
    exact .of_lines hp ⟨Document.coherent_runUntilIdle h.coherent,
      Document.tracks_runUntilIdle (h.tracks_lines hp)⟩

theorem sound_after (h : s.Sound) {steps : List Step} (ho : s.Orderly steps) :
    (s.after steps).Sound := by
  induction steps generalizing s with
  | nil => exact h
  | cons a steps ih => exact ih (sound_perform h a ho.1) ho.2

theorem sameRules_perform (s : Session) (a : Step) :
    s.document.SameRules (s.perform a).2.document := by
  cases a with
  | change c => exact .refl _
  | apply now => exact s.document.sameRules_applyEdits s.buffer.pending now
  | request line now force => exact (s.document.postpones_requestRefresh line now force).rules
  | refreshAll => exact s.document.postpones_refreshAll.rules
  | refreshNow line now => exact s.document.sameRules_refreshNow line now s.buffer.lines
  | frame now => exact s.document.sameRules_frame now s.buffer.lines
  | runUntilIdle now => exact s.document.sameRules_runUntilIdle now s.buffer.lines

theorem sameRules_after (s : Session) (steps : List Step) :
    s.document.SameRules (s.after steps).document := by
  induction steps generalizing s with
  | nil => exact .refl _
  | cons a steps ih => exact (s.sameRules_perform a).trans (ih _)

/-- Once no line waits, the records are those of the text labeled from top to bottom, and each
line inherits what the one before it offers. -/
theorem labeled_eq_labelLines (scheme : Scheme) (settings : Settings) (t : Text)
    (steps : List Step) (ho : (start scheme settings t).Orderly steps)
    (hp : ((start scheme settings t).after steps).buffer.pending = [])
    (hs : ((start scheme settings t).after steps).document.isSettled = true) :
    let s := (start scheme settings t).after steps
    s.document.lineCount = s.buffer.lineCount ∧
      s.document.records.map LineRecord.text = s.buffer.lines.map some ∧
      s.document.records.map LineRecord.labeled =
        scheme.labelLines settings.maxNesting [] s.buffer.lines ∧
      (∀ r, s.document.record? 0 = some r → r.inherited = []) ∧
      ∀ line r next, s.document.record? line = some r → s.document.record? (line + 1) = some next →
        next.inherited = r.offered := by
  intro s
  have hsound : s.Sound := sound_after (sound_start scheme settings t) ho
  have hc := hsound.coherent
  have ht := hsound.tracks_lines hp
  have hr : (start scheme settings t).document.SameRules s.document := sameRules_after _ steps
  have hw := Document.not_awaits_of_isSettled hs
  have hlen : s.document.lineCount = s.buffer.lineCount := by
    rw [← ht.length, List.length_map]
    rfl
  have hlabeled : ∀ line r, s.document.record? line = some r → r.isLabeled = true := by
    intro line r hl
    obtain ⟨t', hx, -⟩ := hc.labeled line r hl (hw line)
    simp [LineRecord.isLabeled, hx]
  have hhanded : ∀ line r next, s.document.record? line = some r →
      s.document.record? (line + 1) = some next → next.inherited = r.offered :=
    fun line r next hl hn ↦ hc.handed line r next hl hn (hlabeled line r hl) (hw (line + 1))
  have hfirst : ∀ r, s.document.record? 0 = some r → r.inherited = [] :=
    fun r hl ↦ hc.first r hl (hw 0)
  refine ⟨hlen, Document.map_text_of_isSettled hs hc ht, ?_, hfirst, hhanded⟩
  refine Document.map_labeled_eq_labelLines hlen (fun line r t' hl hline ↦ ?_) hfirst hhanded
  obtain ⟨t'', hx, hlab⟩ := hc.labeled line r hl (hw line)
  rw [Document.text_of_isSettled hs hc ht hl hline] at hx
  cases hx
  rw [hlab, hr.1, hr.2]
  rfl

instance decidableOrderly : (s : Session) → (steps : List Step) → Decidable (s.Orderly steps)
  | _, [] => isTrue trivial
  | s, a :: rest =>
    have := decidableOrderly (s.perform a).2 rest
    inferInstanceAs (Decidable (_ ∧ _))

/-- Remarks between angle brackets, which may run over lines. -/
def remarks : Scheme where
  name := "remarks"
  baseColor := .plain
  rules := [{ (Rule.delimited "REMARK" (.rgb 1 2 3) "<".toList).withCloser ">".toList with
    multiLine := true }]
  precedence := [.single "REMARK"]
  subSchemes := []

/-- Lines come and go, a refresh is put off, and the clock goes back. -/
def restlessSteps : List Step :=
  [.runUntilIdle 0, .change (.insertText ⟨1, 1⟩ "<x\ny".toList), .request 0 50 false, .apply 100,
    .frame 90, .change (.removeLine 0), .apply 200, .refreshNow 0 150, .runUntilIdle 700]

theorem labeled_eq_labelLines_remarks :
    let s := start remarks {} "a<b\nc>d\ne".toList
    s.Orderly restlessSteps ∧ (s.after restlessSteps).buffer.pending = [] ∧
      (s.after restlessSteps).document.isSettled = true ∧
      (s.after restlessSteps).document.records.map LineRecord.labeled =
        remarks.labelLines 8 [] ["c<x".toList, "y>d".toList, "e".toList] := by
  have ho : (start remarks {} "a<b\nc>d\ne".toList).Orderly restlessSteps := by decide +kernel
  have hp : ((start remarks {} "a<b\nc>d\ne".toList).after restlessSteps).buffer.pending = [] := by
    decide +kernel
  have hs : ((start remarks {} "a<b\nc>d\ne".toList).after restlessSteps).document.isSettled =
      true := by decide +kernel
  have hl : ((start remarks {} "a<b\nc>d\ne".toList).after restlessSteps).buffer.lines =
      ["c<x".toList, "y>d".toList, "e".toList] := by decide +kernel
  have h := labeled_eq_labelLines remarks {} "a<b\nc>d\ne".toList restlessSteps ho hp hs
  exact ⟨ho, hp, hs, hl ▸ h.2.2.1⟩

end Session

end Highlighter
