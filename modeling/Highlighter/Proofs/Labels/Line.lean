import Highlighter.Labeling
import Highlighter.Proofs.Labels.Pairing
import Highlighter.Proofs.Labels.Placing

/-!
What holds of the labels of a line whatever is embedded in it.
-/

namespace Highlighter

namespace Label

/-- What the steps of the labeling keep on the levels of a stretch, and of the text embedded in it,
holds after all of them. -/
theorem addStretch_induction_within {P : List Label → Prop} {line : Text}
    {inherited : Continuations} {low high : Nat}
    (hstep : ∀ (labels : List Label) (s : Stretch) (level : Nat), low ≤ level → level ≤ high →
      P labels → P (place (labels ++ number labels.length (s.scheme.regions
        (min s.start line.length) s.stop (s.textIn line) inherited level)) line.length))
    {nesting level : Nat} (hlow : low ≤ level) (hhigh : level + nesting ≤ high) (s : Stretch)
    {labels : List Label} (h : P labels) :
    P (addStretch line inherited nesting level s labels) := by
  induction nesting generalizing level s labels with
  | zero =>
    rw [addStretch]
    split
    · split
      · exact h
      · next heq => exact heq ▸ hstep labels s level hlow hhigh h
    · exact h
  | succ n ih =>
    rw [addStretch]
    split
    · split
      · exact h
      · next heq =>
        refine List.foldlRecOn _ _ (heq ▸ hstep labels s level hlow (by omega) h)
          fun labels' h' inner _ ↦ ?_
        exact ih (by omega) (by omega) inner h'
    · exact h

/-- What a step of the labeling keeps holds of all labels of a line. -/
theorem addStretch_induction {P : List Label → Prop} {line : Text} {inherited : Continuations}
    (hstep : ∀ (labels : List Label) (s : Stretch) (level : Nat), P labels →
      P (place (labels ++ number labels.length (s.scheme.regions (min s.start line.length) s.stop
        (s.textIn line) inherited level)) line.length))
    (nesting level : Nat) (s : Stretch) {labels : List Label} (h : P labels) :
    P (addStretch line inherited nesting level s labels) :=
  addStretch_induction_within (fun labels s level _ _ ↦ hstep labels s level) (Nat.zero_le level)
    (Nat.le_refl _) s h

/-- What is known of the labels of a line: how they are numbered and placed, and where their
regions come from. -/
structure OfLine (line : Text) (inherited : Continuations) (labels : List Label) : Prop where
  ids : (labels.map id).Perm (List.range labels.length)
  placed : ∃ sources, labels = place sources line.length
  continued : ∀ l ∈ labels, l.kind = .continued → l.start = 0 ∧ ∃ c ∈ inherited, c.key = l.key
  opening : ∀ l ∈ labels, l.kind = .opening → line ≠ []

theorem map_id_number (first : Nat) (labels : List Label) :
    (number first labels).map id = List.range' first labels.length := by
  induction labels generalizing first with
  | nil => rfl
  | cons l labels ih =>
    rw [number, List.map_cons, ih, List.length_cons, List.range'_succ]

theorem length_number (first : Nat) (labels : List Label) :
    (number first labels).length = labels.length := by
  rw [← List.length_map (f := id), map_id_number, List.length_range']

theorem exists_of_mem_number {first : Nat} {labels : List Label} {l : Label}
    (h : l ∈ number first labels) : ∃ l' ∈ labels, ∃ i, l = { l' with id := i } := by
  induction labels generalizing first with
  | nil => cases h
  | cons m labels ih =>
    obtain rfl | h := List.mem_cons.1 h
    · exact ⟨m, List.mem_cons_self, first, rfl⟩
    · obtain ⟨l', hl, hi⟩ := ih h
      exact ⟨l', List.mem_cons_of_mem _ hl, hi⟩

theorem ofLine_nil (line : Text) (inherited : Continuations) : OfLine line inherited [] :=
  ⟨.nil, ⟨[], rfl⟩, by simp, by simp⟩

theorem ofLine_step {line : Text} {inherited : Continuations} {labels regions : List Label}
    (h : OfLine line inherited labels)
    (hc : ∀ l ∈ regions, l.kind = .continued → l.start = 0 ∧ ∃ c ∈ inherited, c.key = l.key)
    (ho : ∀ l ∈ regions, l.kind = .opening → line ≠ []) :
    OfLine line inherited (place (labels ++ number labels.length regions) line.length) := by
  -- a label is one from before, or a new one with a number
  have hmem {l : Label}
      (hl : l ∈ place (labels ++ number labels.length regions) line.length) :
      ∃ l', (l' ∈ labels ∨ l' ∈ regions) ∧ l.kind = l'.kind ∧ l.start = l'.start ∧
        l.key = l'.key := by
    obtain ⟨source, hs, before, -, rfl⟩ := exists_source_of_mem_place hl
    obtain hs | hs := List.mem_append.1 hs
    · exact ⟨source, .inl hs, rfl, rfl, rfl⟩
    · obtain ⟨l', hl', i, rfl⟩ := exists_of_mem_number hs
      exact ⟨l', .inr hl', rfl, rfl, rfl⟩
  refine ⟨?_, ⟨_, rfl⟩, fun l hl hk ↦ ?_, fun l hl hk ↦ ?_⟩
  · refine (map_place_perm _ fun _ _ ↦ rfl).trans ?_
    rw [List.map_append, map_id_number, length_place, List.length_append, length_number]
    rw [List.range_eq_range', ← List.range'_append_1, Nat.zero_add]
    refine List.Perm.append_right _ ?_
    rw [← List.range_eq_range']
    exact h.ids
  · obtain ⟨l', hl', hkind, hstart, hkey⟩ := hmem hl
    rw [hstart, hkey]
    obtain hl' | hl' := hl'
    · exact h.continued l' hl' (hkind ▸ hk)
    · exact hc l' hl' (hkind ▸ hk)
  · obtain ⟨l', hl', hkind, -, -⟩ := hmem hl
    obtain hl' | hl' := hl'
    · exact h.opening l' hl' (hkind ▸ hk)
    · exact ho l' hl' (hkind ▸ hk)

theorem OfLine.eq_of_id {line : Text} {inherited : Continuations} {labels : List Label}
    {l c : Label} (h : OfLine line inherited labels) (hl : l ∈ labels) (hc : c ∈ labels)
    (he : l.id = c.id) : l = c := by
  have hne : labels.Pairwise fun a b ↦ a.id ≠ b.id := by
    have hn : (labels.map id).Nodup := h.ids.nodup_iff.2 List.nodup_range
    exact List.pairwise_map.1 hn
  exact eq_of_pairwise_ne hne hl hc he

end Label

namespace Scheme

variable {s : Scheme} {offset level : Nat} {stop : Stop} {t : Text} {inherited : Continuations}
variable {entry : Precedence} {l : Label}

theorem kind_of_mem_words {r : Rule} {scheme : String} {order : Nat}
    (h : l ∈ r.words scheme order offset t) : l.kind = .single := by
  rw [Rule.words] at h
  split at h
  · obtain ⟨w, -, rfl⟩ := List.mem_map.1 h
    rfl
  · cases h

theorem kind_of_mem_entryWords (h : l ∈ s.entryWords offset t entry) : l.kind = .single := by
  obtain ⟨name, -, h⟩ := List.mem_flatMap.1 h
  split at h
  · split at h
    · cases h
    · exact kind_of_mem_words h
  · cases h

theorem of_resumed? {rules : List (Nat × Rule)} {order : Nat} {r : Rule}
    (h : s.resumed? rules inherited = some (order, r, l)) :
    (order, r) ∈ rules ∧ l ∈ inherited ∧ l.key = ⟨s.name, r.name⟩ := by
  obtain ⟨⟨order', r'⟩, hr, h⟩ := List.exists_of_findSome?_eq_some h
  obtain ⟨l', hl', h⟩ := Option.map_eq_some_iff.1 h
  cases h
  exact ⟨hr, List.mem_of_find?_eq_some hl', by simpa using List.find?_some hl'⟩

theorem openings_nil (r : Rule) (scheme : String) (order offset : Nat) :
    r.openings scheme order offset [] = [] := by
  rw [Rule.openings, Rule.delimitersOf_nil]
  split
  · rfl
  · rfl

theorem kinds_of_mem_pairedRegions (h : l ∈ s.pairedRegions offset t inherited entry) :
    (l.kind = .continued → l.start = 0 ∧ ∃ c ∈ inherited, c.key = l.key) ∧
      (l.kind = .opening → t ≠ []) := by
  have hscan := s.leftmostScan_pairedRegions offset t inherited entry
  refine ⟨fun hk ↦ ?_, fun hk ↦ ?_⟩
  · obtain ⟨-, order, r, c, hc, hl⟩ := hscan.resumed l h hk
    obtain ⟨_, _, rfl⟩ := hl.exists_eq
    exact ⟨rfl, c, (of_resumed? hc).2.1, rfl⟩
  · obtain ⟨order, r, -, start, hstart, -, -⟩ :=
      hscan.opened l h fun hc ↦ by rw [hk] at hc; cases hc
    rintro rfl
    rw [openings_nil] at hstart
    cases hstart

/-- An inherited region starts with its line, and openings are found in text only. -/
theorem kinds_of_mem_regions (h : l ∈ s.regions offset stop t inherited level) :
    (l.kind = .continued → l.start = 0 ∧ ∃ c ∈ inherited, c.key = l.key) ∧
      (l.kind = .opening → t ≠ []) := by
  obtain ⟨l, hl, rfl⟩ := List.mem_map.1 h
  have hclamp : (({ l with level } : Label).clampTo stop).kind = l.kind ∧
      (({ l with level } : Label).clampTo stop).key = l.key ∧
      (({ l with level } : Label).clampTo stop).start ≤ l.start := by
    cases stop with
    | column limit => exact ⟨rfl, rfl, Nat.min_le_left l.start limit⟩
    | lineEnd => exact ⟨rfl, rfl, Nat.le_refl l.start⟩
  obtain ⟨hkind, hkey, hstart⟩ := hclamp
  rw [hkind, hkey]
  obtain ⟨entry, -, hl⟩ := List.mem_flatMap.1 hl
  obtain hl | hl := List.mem_append.1 hl
  · rw [kind_of_mem_entryWords hl]
    exact ⟨nofun, nofun⟩
  · obtain ⟨hc, ho⟩ := kinds_of_mem_pairedRegions hl
    refine ⟨fun hk ↦ ?_, ho⟩
    obtain ⟨hzero, hinherited⟩ := hc hk
    exact ⟨by omega, hinherited⟩

theorem ofLine_labelLine (s : Scheme) (line : Text) (inherited : Continuations)
    (maxNesting : Nat) : Label.OfLine line inherited (s.labelLine line inherited maxNesting) := by
  refine Label.addStretch_induction (fun labels stretch level h ↦ ?_) maxNesting 0 _
    (Label.ofLine_nil line inherited)
  refine Label.ofLine_step h (fun l hl ↦ (kinds_of_mem_regions hl).1) fun l hl hk ↦ ?_
  rintro rfl
  exact (kinds_of_mem_regions hl).2 hk (by simp [Stretch.textIn])

end Scheme

end Highlighter
