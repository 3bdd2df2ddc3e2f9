import Highlighter.Proofs.Labels.Trace
import Highlighter.Proofs.Labels.Twins

/-!
The labels that the outermost scheme finds in a line. It finds them all at once; what is found in
embedded text after that may cut them, but not where they are open from the start of the line on.
-/

namespace Highlighter

namespace Label

variable {labels sources placed before : List Label} {a b l : Label} {length : Nat}

/-- What is left of a label wherever it is placed: all but its id and the labels around it. Of its
stop it is only left whether it is open from the start of the line on. -/
def outline (l : Label) : Label :=
  { l with
    id := 0
    stop := if l.start = 0 ∧ l.stop = .lineEnd then .lineEnd else .column 0
    containers := []
    depth := 0
    disabled := false }

theorem eq_of_outline_eq {α : Type} (f : Label → α) (h : a.outline = b.outline)
    (hf : ∀ l : Label, f l.outline = f l := by intro; rfl) : f a = f b := by
  rw [← hf a, h, hf b]

theorem stop_outline_eq_lineEnd_iff :
    l.outline.stop = .lineEnd ↔ l.start = 0 ∧ l.stop = .lineEnd := by
  rw [outline]
  split
  · next h => exact iff_of_true rfl h
  · next h => exact iff_of_false Stop.noConfusion h

theorem stop_eq_lineEnd_of_outline_eq (h : a.outline = b.outline) (ha : a.start = 0)
    (hstop : a.stop = .lineEnd) : b.stop = .lineEnd :=
  (stop_outline_eq_lineEnd_iff.1 (h ▸ stop_outline_eq_lineEnd_iff.2 ⟨ha, hstop⟩)).2

theorem map_outline_number (first : Nat) (labels : List Label) :
    (number first labels).map outline = labels.map outline := by
  induction labels generalizing first with
  | nil => rfl
  | cons l labels ih =>
    rw [number, List.map_cons, ih, List.map_cons]
    rfl

theorem filter_map_outline (labels : List Label) (p : Label → Bool)
    (hp : ∀ l : Label, p l.outline = p l := by intro; rfl) :
    (labels.map outline).filter p = (labels.filter p).map outline := by
  rw [List.filter_map]
  exact congrArg (List.map outline) (List.filter_congr fun l _ ↦ hp l)

/-! ### Placing -/

theorem outline_placeAfter (h : l.start = 0 → l.stop = .lineEnd →
    ∀ c ∈ before, c.holds length l = true → c.stop = .lineEnd) :
    (placeAfter length before l).outline = l.outline := by
  have hcut := isCutOf_placeAfter length before l
  have hiff : l.start = 0 ∧ (placeAfter length before l).stop = .lineEnd ↔
      l.start = 0 ∧ l.stop = .lineEnd := by
    refine and_congr_right fun h0 ↦ ⟨hcut.stop_eq_lineEnd, fun hl ↦ ?_⟩
    refine (stop_placeAfter_eq fun c hc hh ↦ ?_).trans hl
    rw [h h0 hl c hc hh, hl]
    rfl
  have hstop : (placeAfter length before l).outline.stop = l.outline.stop := by
    show (if l.start = 0 ∧ (placeAfter length before l).stop = .lineEnd then _ else _) = _
    simp only [hiff]
    rfl
  exact congrArg (fun stop ↦ { l.outline with stop }) hstop

/-- What is open from the start of the line on is only held by what is so too. -/
theorem Placed.map_outline (h : Placed length sources placed)
    (hs : sources.Pairwise fun a b ↦ (placing a b).isLE = true) :
    placed.map outline = sources.map outline := by
  induction h with
  | nil => rfl
  | @snoc sources placed h l ih =>
    obtain ⟨hsorted, -, hlast⟩ := List.pairwise_append.1 hs
    have hplaced := ih hsorted
    have houtline : (placeAfter length placed l).outline = l.outline := by
      refine outline_placeAfter fun h0 hopen c hc _ ↦ ?_
      obtain ⟨c', hc', he⟩ := List.mem_map.1 (hplaced ▸ List.mem_map_of_mem hc)
      have hprecedes := precedes_of_placing (hlast c' hc' l (List.mem_singleton_self l))
      have hle := hprecedes.start_le
      have h0' : c'.start = 0 := by omega
      refine stop_eq_lineEnd_of_outline_eq he h0' ?_
      obtain hlt | ⟨-, hstop⟩ := hprecedes
      · omega
      · exact Stop.eq_lineEnd_of_isLE (hopen ▸ hstop)
    rw [List.map_append, List.map_append, hplaced, List.map_singleton, List.map_singleton,
      houtline]

theorem perm_filter_map_outline_place (labels : List Label) (length : Nat) (p : Label → Bool)
    (hp : ∀ l : Label, p l.outline = p l := by intro; rfl) :
    (((place labels length).filter p).map outline).Perm ((labels.filter p).map outline) := by
  obtain ⟨sources, hperm, hsorted, hplaced⟩ := placed_place labels length
  rw [← filter_map_outline _ p hp, ← filter_map_outline _ p hp, hplaced.map_outline hsorted]
  exact (hperm.map outline).filter p

end Label

namespace Scheme

open Label

variable {s : Scheme} {line : Text} {inherited : Continuations} {maxNesting : Nat} {l : Label}

/-- What holds of the labels of the whole line once they are placed, and is kept on all further
levels, holds of the labels of the line. -/
theorem labelLine_induction {P : List Label → Prop}
    (hfirst : P (place (number 0 (s.regions 0 .lineEnd line inherited 0)) line.length))
    (hstep : ∀ (labels : List Label) (stretch : Stretch) (level : Nat), 0 < level → P labels →
      P (place (labels ++ number labels.length (stretch.scheme.regions
        (min stretch.start line.length) stretch.stop (stretch.textIn line) inherited level))
        line.length)) : P (s.labelLine line inherited maxNesting) := by
  have hlabeled : Stretch.isLabeled ⟨0, .lineEnd, s⟩ line.length = true :=
    Bool.or_eq_true_iff.2 (.inr rfl)
  have htext : Stretch.textIn ⟨0, .lineEnd, s⟩ line = line := List.take_length
  rw [labelLine, addStretch, if_pos hlabeled, htext, Nat.zero_min]
  split
  · next hnone =>
    rw [hnone] at hfirst
    exact hfirst
  · next l rest hfound =>
    rw [hfound] at hfirst
    dsimp only
    split
    · exact hfirst
    · refine List.foldlRecOn _ _ hfirst fun labels h inner _ ↦ ?_
      exact addStretch_induction_within (fun labels stretch level hlow _ ↦
        hstep labels stretch level hlow) (Nat.le_refl 1) (Nat.le_refl _) inner h

theorem level_of_mem_number_regions {offset level first : Nat} {stop : Stop} {t : Text}
    (h : l ∈ number first (s.regions offset stop t inherited level)) : l.level = level := by
  obtain ⟨found, hfound, i, rfl⟩ := exists_of_mem_number h
  exact (isFound_of_mem_regions hfound).level_eq

/-- The labels on the first level are those that the scheme finds in the whole line. -/
theorem perm_map_outline_labelLine (s : Scheme) (line : Text) (inherited : Continuations)
    (maxNesting : Nat) :
    (((s.labelLine line inherited maxNesting).filter (·.level == 0)).map outline).Perm
      ((s.regions 0 .lineEnd line inherited 0).map outline) := by
  refine labelLine_induction (P := fun labels ↦ ((labels.filter (·.level == 0)).map outline).Perm _)
    ?_ fun labels stretch level hlevel h ↦ ?_
  · refine (perm_filter_map_outline_place _ line.length (·.level == 0)).trans ?_
    have hall : (number 0 (s.regions 0 .lineEnd line inherited 0)).filter (·.level == 0) =
        number 0 (s.regions 0 .lineEnd line inherited 0) :=
      List.filter_eq_self.2 fun l hl ↦ beq_iff_eq.2 (level_of_mem_number_regions hl)
    rw [hall, map_outline_number]
  · refine (perm_filter_map_outline_place _ line.length (·.level == 0)).trans ?_
    have hnone : (number labels.length (stretch.scheme.regions (min stretch.start line.length)
        stretch.stop (stretch.textIn line) inherited level)).filter (·.level == 0) = [] := by
      refine List.filter_eq_nil_iff.2 fun l hl ↦ ?_
      rw [level_of_mem_number_regions hl, beq_iff_eq]
      exact Nat.ne_of_gt hlevel
    rwa [List.filter_append, hnone, List.append_nil]

theorem exists_region_of_level_eq_zero (hl : l ∈ s.labelLine line inherited maxNesting)
    (h0 : l.level = 0) :
    ∃ source ∈ s.regions 0 .lineEnd line inherited 0, l.IsCutOf { source with id := l.id } := by
  refine labelLine_induction (P := fun labels ↦ ∀ l ∈ labels, l.level = 0 →
    ∃ source ∈ s.regions 0 .lineEnd line inherited 0, l.IsCutOf { source with id := l.id })
    (fun l hl _ ↦ ?_) (fun labels stretch level hlevel h l hl h0 ↦ ?_) l hl h0
  · obtain ⟨source, hs, hcut⟩ := (rearranges_place _ line.length).cut l hl
    obtain ⟨found, hfound, i, rfl⟩ := exists_of_mem_number hs
    have hid : l.id = i := hcut.apply_eq Label.id
    exact ⟨found, hfound, hid ▸ hcut⟩
  · obtain ⟨source, hs, hcut⟩ := (rearranges_place _ line.length).cut l hl
    have hlevel' : l.level = source.level := hcut.apply_eq Label.level
    obtain hs | hs := List.mem_append.1 hs
    · obtain ⟨found, hfound, hcut'⟩ := h source hs (hlevel' ▸ h0)
      have hid : l.id = source.id := hcut.apply_eq Label.id
      exact ⟨found, hfound, hid ▸ hcut.trans hcut'⟩
    · rw [hlevel', level_of_mem_number_regions hs] at h0
      exact absurd h0 (Nat.ne_of_gt hlevel)

end Scheme

end Highlighter
