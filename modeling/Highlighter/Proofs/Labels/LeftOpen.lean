import Highlighter.Proofs.Labels.Handover
import Highlighter.Proofs.Labels.Uncut

/-!
Which labels stay open: those that no other label cuts, however many more are found later. A label
that is open once the labels are placed is cut only by text that begins before it.
-/

namespace Highlighter.Label

variable {labels sources placed : List Label} {w l : Label} {length : Nat}

/-! ### Open labels in the order of placing -/

theorem Placed.pairwise_placing (h : Placed length sources placed)
    (hs : sources.Pairwise fun a b ↦ (placing a b).isLE = true) :
    placed.Pairwise fun a b ↦ a.stop = .lineEnd → (placing a b).isLE = true := by
  induction h with
  | nil => exact .nil
  | @snoc sources placed h source ih =>
    obtain ⟨hsources, -, hlast⟩ := List.pairwise_append.1 hs
    refine List.pairwise_append.2 ⟨ih hsources, List.pairwise_singleton _ _, fun c hc l hl ho ↦ ?_⟩
    obtain rfl := List.mem_singleton.1 hl
    obtain ⟨first, hfirst, before, -, rfl⟩ := h.exists_source hc
    have hcut := isCutOf_placeAfter length before first
    have hopen := hcut.stop_eq_lineEnd ho
    rw [placing_congr hcut (ho.trans hopen.symm)]
    exact isLE_placing_of_isCutOf (hlast first hfirst source (List.mem_singleton_self source))
      (isCutOf_placeAfter length placed source)

/-- Whether an open label is among others, with those that start before it open like it, or stopped
where it starts. -/
structure StaysOpen (w : Label) (labels : List Label) : Prop where
  stop_eq : w.stop = .lineEnd
  exists_open : ∃ w' ∈ labels, w'.IsCutOf w ∧ w'.stop = .lineEnd
  others : ∀ l ∈ labels, l.stop = .lineEnd ∨ l.EndsBefore w ∨ (placing w l).isLE = true

theorem staysOpen_iff : StaysOpen w labels ↔ w.stop = .lineEnd ∧ StaysUncut w labels := by
  have hreaches (hw : w.stop = .lineEnd) (l : Label) :
      (w.stop.compare l.stop).isLE = true ↔ l.stop = .lineEnd :=
    ⟨fun h ↦ Stop.eq_lineEnd_of_isLE (hw ▸ h), fun h ↦ by rw [hw, h]; rfl⟩
  constructor
  · rintro ⟨hw, ⟨w', hw', hcut, hopen⟩, hothers⟩
    refine ⟨hw, ⟨w', hw', hcut, hopen.trans hw.symm⟩, fun l hl ↦ ?_⟩
    rw [ReachesOrEnds, hreaches hw, or_assoc]
    exact hothers l hl
  · rintro ⟨hw, ⟨w', hw', hcut, hstop⟩, hothers⟩
    refine ⟨hw, ⟨w', hw', hcut, hstop.trans hw⟩, fun l hl ↦ ?_⟩
    rw [← hreaches hw, ← or_assoc]
    exact hothers l hl

/-! ### Labels of a line that stay open -/

section

variable {line : Text} {inherited : Continuations}

theorem OfLine.pairwise_ids (h : OfLine line inherited labels) :
    labels.Pairwise fun a b ↦ a.id ≠ b.id :=
  List.pairwise_map.1 (h.ids.nodup_iff.2 List.nodup_range)

theorem OfLine.pairwise_placing (h : OfLine line inherited labels) :
    labels.Pairwise fun a b ↦ (a.stop = .lineEnd → (placing a b).isLE = true) ∧
      (a.holds line.length b = true → a.id ∈ b.containers) := by
  obtain ⟨labels', rfl⟩ := h.placed
  obtain ⟨sources, -, hsorted, hplaced⟩ := placed_place labels' line.length
  exact (hplaced.pairwise_placing hsorted).and hplaced.pairwise_containers

/-- An open region is around all that come after it in the order of placing, up to the end of the
line. -/
theorem OfLine.mem_containers (h : OfLine line inherited labels) (hw : w ∈ labels)
    (ho : w.isOpenRegion = true) (hl : l ∈ labels) (hne : w.id ≠ l.id)
    (hp : (placing w l).isLE = true) (hlt : l.start < line.length) : w.id ∈ l.containers := by
  have hstart := start_le_of_placing hp
  have hpair := h.pairwise_placing.and h.nested.ordered
  obtain ⟨⟨-, hholds⟩, -⟩ | ⟨⟨hplacing, -⟩, hprecedes⟩ :=
    Sorting.rel_or_rel_of_mem hpair hw hl fun he ↦ hne (congrArg id he)
  · exact hholds (holds_of_isOpenRegion ho hstart hlt)
  · have hopen := (isOpenRegion_iff.1 ho).2
    obtain hlt' | ⟨-, hle⟩ := hprecedes
    · omega
    · exact absurd (id_eq_of_placing hp (hplacing (Stop.eq_lineEnd_of_isLE (hopen ▸ hle)))) hne

/-- The labels around an open one are open and come before it in the order of placing. -/
theorem OfLine.of_mem_containers (h : OfLine line inherited labels) (hl : l ∈ labels)
    (ho : l.stop = .lineEnd) (hw : w ∈ labels) (hmem : w.id ∈ l.containers) :
    w.stop = .lineEnd ∧ (placing w l).isLE = true ∧ w.id ≠ l.id := by
  have hwo : w.stop = .lineEnd :=
    Stop.eq_lineEnd_of_isLE (ho ▸ (h.nested.inside l hl w hw hmem).2.1)
  obtain ⟨before, after, he⟩ := List.append_of_mem hl
  obtain ⟨w', hw', -, hid⟩ := (h.nested.containers he w.id).1 hmem
  obtain rfl := h.eq_of_id (he ▸ List.mem_append_left _ hw') hw hid
  have hpair := h.pairwise_placing.and h.pairwise_ids
  rw [he] at hpair
  obtain ⟨⟨hplacing, -⟩, hne⟩ :=
    (List.pairwise_append.1 hpair).2.2 w' hw' l List.mem_cons_self
  exact ⟨hwo, hplacing hwo, hne⟩

theorem OfLine.staysOpen (h : OfLine line inherited labels)
    (hkind : ∀ l ∈ labels, l.kind ≠ .closing) (hw : w ∈ labels) (ho : w.stop = .lineEnd)
    (hlt : w.start < line.length) : StaysOpen w labels :=
  staysOpen_iff.2 ⟨ho, h.staysUncut hkind hw hlt⟩

/-- What an active label requires is around it. -/
theorem OfLine.exists_required (h : OfLine line inherited labels) (hl : l ∈ labels)
    (hactive : l.id ∈ activeIds labels) {name : String} (hname : l.requires = some name) :
    ∃ w ∈ labels, w.id ∈ l.containers ∧ w.name = name := by
  obtain ⟨b, hb, hid, henabled⟩ := exists_of_mem_activeIds hactive
  obtain rfl := h.eq_of_id hb hl hid
  refine Classical.byContradiction fun hnot ↦ ?_
  have hdisabled : b.disabled = true := (h.nested.disabled b hb).2
    ⟨name, hname, fun w hw hmem he ↦ hnot ⟨w, hw, hmem, he⟩⟩
  rw [henabled] at hdisabled
  cases hdisabled

end

/-! ### Runs that leave a label open -/

namespace Trace

variable {line : Text} {inherited : Continuations} {level : Nat} {s : Stretch}
variable {t t' : Trace} {es : List (Nat × Stretch)}

/-- The text of a stretch leaves a label alone: it is before the label, or inside of it and on a
lower level. -/
def IsApart (w : Label) (level : Nat) (s : Stretch) : Prop :=
  (∃ n, s.stop = .column n ∧ n ≤ w.start) ∨ w.start ≤ s.start ∧ w.level < level

theorem IsApart.isClear (h : IsApart w level s) : IsClear w s := h.imp_right And.left

theorem Runs.staysOpen (h : Runs line inherited level es t t') (ht : IsProper line inherited t)
    (hw : StaysOpen w t.labels)
    (hes : ∀ e ∈ es, IsApart w (level + 1) e.2 ∧ StartsAt t (some e.1) e.2)
    (hstays : StaysInside t') : StaysOpen w t'.labels := by
  obtain ⟨hopen, huncut⟩ := staysOpen_iff.1 hw
  exact staysOpen_iff.2 ⟨hopen, h.staysUncut ht huncut (fun e he ↦ (hes e he).2)
    (fun e he _ ↦ (hes e he).1.isClear) hstays⟩

end Trace

end Highlighter.Label
