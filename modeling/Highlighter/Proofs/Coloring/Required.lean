import Highlighter.Proofs.Coloring.Active
import Highlighter.Proofs.Labels.Handover
import Highlighter.Proofs.Labels.Selection

/-!
Labels that require others. Where one of them counts, a label of the name that it requires counts
too. One that is disabled since there is none makes no difference to a line, unless enabled labels
lie inside of it.
-/

namespace Highlighter

variable {keep : Nat → Bool} {labels placed : List Label} {length : Nat}

/-- In embedded text as anywhere, what colors a character only in others has one of these around
it that may color the character as well. -/
theorem Scheme.covered_by_required (s : Scheme) (line : Text) (inherited : Continuations)
    (maxNesting : Nat) :
    let labels := s.labelLine line inherited maxNesting
    ∀ l ∈ labels, l.id ∈ Label.activeIds labels → ∀ name, l.requires = some name →
      ∃ c ∈ labels, c.id ∈ Label.activeIds labels ∧ c.name = name ∧
        ∀ i, l.covers i line.length = true → c.covers i line.length = true := by
  intro labels l hl hactive name hname
  have hline := s.ofLine_labelLine line inherited maxNesting
  have hn : (labels.map Label.id).Nodup := hline.ids.nodup_iff.2 List.nodup_range
  have hnested := hline.nested
  have hcounts := (hnested.mem_activeIds_iff hn hl).1 hactive
  obtain ⟨c, hc, hmem, hcname⟩ : ∃ c ∈ labels, c.id ∈ l.containers ∧ c.name = name := by
    refine Classical.byContradiction fun hnone ↦ ?_
    have hdisabled := (hnested.disabled l hl).2
      ⟨name, hname, fun c hc hmem he ↦ hnone ⟨c, hc, hmem, he⟩⟩
    rw [hcounts.1] at hdisabled
    cases hdisabled
  have haround : Label.Around labels c l := ⟨hc, hl, hmem⟩
  exact ⟨c, hc, (hnested.mem_activeIds_iff hn hc).2 (hnested.counts_of_around hn hcounts haround),
    hcname, fun _ ↦ hnested.covers_of_around haround⟩

/-- The value of an attribute in its tag. -/
theorem Scheme.covered_by_required_attribute :
    let labels := documents.labelLine "<a href=\"x\">".toList [] 8
    ∃ l ∈ labels, l.id ∈ Label.activeIds labels ∧ l.requires = some "TAG" ∧
      l.covers 9 12 = true ∧ ∃ c ∈ labels, c.id ∈ Label.activeIds labels ∧ c.name = "TAG" ∧
        c.covers 9 12 = true := by
  intro labels
  obtain ⟨l, hl, hactive, hname, hcovers⟩ : ∃ l ∈ labels, l.id ∈ Label.activeIds labels ∧
      l.requires = some "TAG" ∧ l.covers 9 12 = true := by decide +kernel
  obtain ⟨c, hc, hactive', hcname, hcovers'⟩ :=
    documents.covered_by_required "<a href=\"x\">".toList [] 8 l hl hactive "TAG" hname
  exact ⟨l, hl, hactive, hname, hcovers, c, hc, hactive', hcname, hcovers' 9 hcovers⟩

namespace Label

/-! ### Leaving disabled labels out -/

theorem ofLabels_select (hn : (labels.map id).Nodup) (hkeep : IsClosed keep (place labels length))
    (hactive : ∀ k ∈ activeIds (place labels length), keep k = true) (root : Scheme) :
    Run.ofLabels (place (select keep labels) length) length root =
      Run.ofLabels (place labels length) length root := by
  rw [place_select hkeep]
  refine Run.ofLabels_congr (activeIds_select hn hkeep hactive) ?_
  rw [Scheme.counting, select, List.filter_filter]
  refine List.filter_congr fun l _ ↦ ?_
  by_cases hl : l.id ∈ activeIds (place labels length)
  · rw [hactive l.id hl, Bool.and_true]
  · rw [← List.contains_iff_mem, Bool.not_eq_true] at hl
    rw [hl, Bool.false_and]

def disabledIds (placed : List Label) : List Nat := (placed.filter (·.disabled)).map id

/-- The labels without those that are disabled once all of them are placed. -/
def withoutDisabled (labels : List Label) (length : Nat) : List Label :=
  select (fun k ↦ !(disabledIds (place labels length)).contains k) labels

/-- The labels without those that are disabled, and without what lies inside of these. -/
def withoutHidden (labels : List Label) (length : Nat) : List Label :=
  let placed := place labels length
  select (fun k ↦ ((placed.filter fun l ↦ Counts placed l).map id).contains k) labels

/-- Whether no enabled label lies inside a disabled one. -/
def HidesNone (placed : List Label) : Prop :=
  ∀ c ∈ placed, c.disabled = true → ∀ l ∈ placed, c.id ∈ l.containers → l.disabled = true

/-- Whether a line looks the same, and hands on the same, without its disabled labels. -/
def IsInert (root : Scheme) (labels : List Label) (length : Nat) : Prop :=
  let placed := place labels length
  let rest := place (withoutDisabled labels length) length
  Run.ofLabels rest length root = Run.ofLabels placed length root ∧ offered rest = offered placed

instance : DecidablePred HidesNone := fun placed ↦
  inferInstanceAs (Decidable (∀ c ∈ placed, c.disabled = true → ∀ l ∈ placed,
    c.id ∈ l.containers → l.disabled = true))

instance (root : Scheme) (labels : List Label) (length : Nat) :
    Decidable (IsInert root labels length) :=
  inferInstanceAs (Decidable (_ ∧ _))

theorem mem_disabledIds_iff {l : Label} (hn : (placed.map id).Nodup) (hl : l ∈ placed) :
    l.id ∈ disabledIds placed ↔ l.disabled = true := by
  rw [disabledIds, List.mem_map]
  constructor
  · rintro ⟨c, hc, hid⟩
    obtain ⟨hc, hdisabled⟩ := List.mem_filter.1 hc
    rwa [eq_of_id_eq hn hc hl hid] at hdisabled
  · exact fun hdisabled ↦ ⟨l, List.mem_filter.2 ⟨hl, hdisabled⟩, rfl⟩

theorem select_disabledIds (hn : (placed.map id).Nodup) :
    select (fun k ↦ !(disabledIds placed).contains k) placed = placed.filter (!·.disabled) := by
  refine List.filter_congr fun l hl ↦ congrArg (!·) ?_
  rw [Bool.eq_iff_iff, List.contains_iff_mem]
  exact mem_disabledIds_iff hn hl

theorem not_contains_disabledIds_iff {l : Label} (hn : (placed.map id).Nodup) (hl : l ∈ placed) :
    (!(disabledIds placed).contains l.id) = true ↔ l.disabled = false := by
  rw [Bool.not_eq_true', ← Bool.not_eq_true, List.contains_iff_mem, mem_disabledIds_iff hn hl,
    Bool.not_eq_true]

theorem isClosed_disabledIds_iff (h : Nested length placed) (hn : (placed.map id).Nodup) :
    IsClosed (fun k ↦ !(disabledIds placed).contains k) placed ↔ HidesNone placed := by
  constructor
  · intro hclosed c hc hdisabled l hl hmem
    refine Bool.not_eq_false _ ▸ fun henabled ↦ ?_
    have hid := hclosed l hl ((not_contains_disabledIds_iff hn hl).2 henabled) c.id hmem
    rw [(not_contains_disabledIds_iff hn hc).1 hid] at hdisabled
    cases hdisabled
  · intro hhides l hl hid k hk
    obtain ⟨c, hc, rfl⟩ := h.exists_around hl hk
    refine (not_contains_disabledIds_iff hn hc.1).2 (Bool.not_eq_true _ ▸ fun hdisabled ↦ ?_)
    have hdisabled' := hhides c hc.1 hdisabled l hl hk
    rw [(not_contains_disabledIds_iff hn hl).1 hid] at hdisabled'
    cases hdisabled'

/-- If the labels without the disabled ones are placed as among these, then none of them has a
disabled one around it: it would be around a label and not be there. -/
theorem hidesNone_of_place_eq (hn : (labels.map id).Nodup)
    (heq : place (withoutDisabled labels length) length =
      (place labels length).filter (!·.disabled)) : HidesNone (place labels length) := by
  intro c hc hdisabled l hl hmem
  refine Bool.not_eq_false _ ▸ fun henabled ↦ ?_
  have hrest : l ∈ place (withoutDisabled labels length) length := by
    rw [heq]
    exact List.mem_filter.2 ⟨hl, by rw [henabled]; rfl⟩
  obtain ⟨c', haround, hid⟩ := (nested_place (nodup_select hn) length).exists_around hrest hmem
  have hc' : c' ∈ place (withoutDisabled labels length) length := haround.1
  rw [heq] at hc'
  obtain ⟨hc', henabled'⟩ := List.mem_filter.1 hc'
  rw [eq_of_id_eq (nodup_map_id_place_iff.2 hn) hc' hc hid, hdisabled] at henabled'
  cases henabled'

theorem isClosed_counts (h : Nested length placed) (hn : (placed.map id).Nodup) :
    IsClosed (fun k ↦ ((placed.filter fun l ↦ Counts placed l).map id).contains k) placed := by
  intro l hl hid k hk
  dsimp only at hid ⊢
  rw [List.contains_iff_mem, ← h.activeIds_eq hn] at hid ⊢
  obtain ⟨c, hc, rfl⟩ := h.exists_around hl hk
  exact (h.mem_activeIds_iff hn hc.1).2
    (h.counts_of_around hn ((h.mem_activeIds_iff hn hl).1 hid) hc)

/-- Labels are placed without the disabled ones as they are among these, if and only if no enabled
label lies inside a disabled one; the line then looks the same, and hands on the same. It looks the
same in any case without all that lies inside disabled labels. -/
theorem withoutDisabled_inert (labels : List Label) (length : Nat) (hn : (labels.map id).Nodup) :
    let placed := place labels length
    (place (withoutDisabled labels length) length = placed.filter (!·.disabled) ↔
      HidesNone placed) ∧
    (HidesNone placed → ∀ root, IsInert root labels length) ∧
    ∀ root, Run.ofLabels (place (withoutHidden labels length) length) length root =
      Run.ofLabels placed length root := by
  intro placed
  have h : Nested length placed := nested_place hn length
  have hids : (placed.map id).Nodup := nodup_map_id_place_iff.2 hn
  have hclosed := isClosed_disabledIds_iff h hids
  have hactive : ∀ k ∈ activeIds placed, (!(disabledIds placed).contains k) = true := by
    intro k hk
    rw [h.activeIds_eq hids] at hk
    obtain ⟨l, hl, rfl⟩ := List.mem_map.1 hk
    obtain ⟨hl, hcounts⟩ := List.mem_filter.1 hl
    exact (not_contains_disabledIds_iff hids hl).2 (of_decide_eq_true hcounts).1
  refine ⟨⟨hidesNone_of_place_eq hn, fun hhides ↦ ?_⟩, fun hhides root ↦ ⟨?_, ?_⟩, fun root ↦ ?_⟩
  · rw [← select_disabledIds hids]
    exact place_select (hclosed.2 hhides)
  · exact ofLabels_select hn (hclosed.2 hhides) hactive root
  · show offered (place (select _ labels) length) = _
    rw [place_select (hclosed.2 hhides)]
    refine offered_select (hclosed.2 hhides) fun l hl hoffered ↦ ?_
    refine (not_contains_disabledIds_iff hids hl).2 ?_
    simp only [isOfferedBy, Bool.and_eq_true, Bool.not_eq_true'] at hoffered
    exact hoffered.1.2
  · refine ofLabels_select hn (isClosed_counts h hids) (fun k hk ↦ ?_) root
    rwa [List.contains_iff_mem, ← h.activeIds_eq hids]

/-- The labels of a line as they are found in it. -/
def fresh (s : Scheme) (line : Text) : List Label := number 0 (s.regions 0 .lineEnd line [] 0)

/-- A quotation before a tag. -/
theorem withoutDisabled_inert_quotation :
    let labels := fresh Scheme.documents "\"y\" <b>".toList
    (labels.map id).Nodup ∧ disabledIds (place labels 7) ≠ [] ∧ HidesNone (place labels 7) ∧
      IsInert Scheme.documents labels 7 := by
  intro labels
  obtain ⟨hn, hdisabled, hhides⟩ : (labels.map id).Nodup ∧ disabledIds (place labels 7) ≠ [] ∧
      HidesNone (place labels 7) := by decide +kernel
  exact ⟨hn, hdisabled, hhides, (withoutDisabled_inert labels 7 hn).2.1 hhides _⟩

/-- An apostrophe takes the color of a comment that follows it, and keeps it from going on. -/
theorem not_isInert_apostrophe :
    let labels := fresh Scheme.documents "it's <!-- x".toList
    (labels.map id).Nodup ∧ ¬IsInert Scheme.documents labels 11 ∧
      offered (place (withoutDisabled labels 11) 11) ≠ offered (place labels 11) := by
  decide +kernel

end Label

end Highlighter
