import Highlighter.Proofs.Labels.Line

/-!
The labels of a line once they are placed: in which order they are, which of them hold which, and
that a label is never longer than those that hold it.
-/

namespace Highlighter

namespace Stop

variable {s t u : Stop}

theorem isLE_compare_refl (s : Stop) : (s.compare s).isLE = true := by
  cases s with
  | column n => exact Nat.isLE_compare.2 (Nat.le_refl n)
  | lineEnd => rfl

theorem isLE_compare_min : (u.compare (s.min t)).isLE = true ↔
    (u.compare s).isLE = true ∧ (u.compare t).isLE = true := by
  cases s with
  | lineEnd => cases u <;> cases t <;> simp [min, compare]
  | column m =>
    cases t with
    | lineEnd => cases u <;> simp [min, compare]
    | column n =>
      cases u with
      | lineEnd => simp [min, compare]
      | column k =>
        simp only [min, compare, Nat.isLE_compare]
        exact Nat.le_min

theorem resolve_le_resolve (h : (s.compare t).isLE = true) (length : Nat) :
    s.resolve length ≤ t.resolve length := by
  cases t with
  | lineEnd => cases s <;> simp only [resolve] <;> omega
  | column n =>
    cases s with
    | lineEnd => cases h
    | column m =>
      have hmn : m ≤ n := Nat.isLE_compare.1 h
      simp only [resolve]
      omega

end Stop

namespace Label

variable {labels sources placed before after found : List Label} {l c : Label} {length k : Nat}

theorem isLE_compare_foldl_min {s u : Stop} {around : List Label} :
    (u.compare (around.foldl (fun s c ↦ s.min c.stop) s)).isLE = true ↔
      (u.compare s).isLE = true ∧ ∀ c ∈ around, (u.compare c.stop).isLE = true := by
  induction around generalizing s with
  | nil => simp
  | cons c around ih =>
    rw [List.foldl_cons, ih, Stop.isLE_compare_min, List.forall_mem_cons, and_assoc]

/-- Whether a label stands before another one: it starts before it, or there and is not shorter. -/
def Precedes (a b : Label) : Prop :=
  a.start < b.start ∨ a.start = b.start ∧ (b.stop.compare a.stop).isLE = true

theorem Precedes.start_le {a b : Label} (h : a.Precedes b) : a.start ≤ b.start := by
  obtain hlt | ⟨heq, -⟩ := h
  · exact Nat.le_of_lt hlt
  · exact Nat.le_of_eq heq

/-- Whether a label can hold others in a line of the given length, and the start of the other one
is in it. -/
structure Contains (length : Nat) (c l : Label) : Prop where
  kind_ne : c.kind ≠ .closing
  long : c.stop = .lineEnd ∨ 1 < c.lengthIn length
  start_le : c.start ≤ l.start
  lt_stopIn : l.start < c.stopIn length

/-- Whether a label is another one, with new containers and not reaching further. -/
def IsCutOf (l source : Label) : Prop :=
  l = { source with
    stop := l.stop, containers := l.containers, depth := l.depth, disabled := l.disabled } ∧
  (l.stop.compare source.stop).isLE = true

/-- Whether labels are the given ones in some order, each of them cut at most. -/
structure Rearranges (labels placed : List Label) : Prop where
  ids : (placed.map id).Perm (labels.map id)
  cut : ∀ l ∈ placed, ∃ source ∈ labels, l.IsCutOf source

/-- Whether labels are in order, and each of them lies inside those before it that contain it and
names exactly these. -/
structure Nested (length : Nat) (placed : List Label) : Prop where
  ordered : placed.Pairwise Precedes
  ascending : ∀ l ∈ placed, l.containers.Pairwise (· < ·)
  containers : ∀ {before l after}, placed = before ++ l :: after →
    ∀ k, k ∈ l.containers ↔ ∃ c ∈ before, Contains length c l ∧ c.id = k
  inside : ∀ l ∈ placed, ∀ c ∈ placed, c.id ∈ l.containers →
    c.start ≤ l.start ∧ (l.stop.compare c.stop).isLE = true ∧ l.stopIn length ≤ c.stopIn length
  depth : ∀ l ∈ placed, l.depth = l.containers.length
  disabled : ∀ l ∈ placed, l.disabled = true ↔
    ∃ name, l.requires = some name ∧ ∀ c ∈ placed, c.id ∈ l.containers → c.name ≠ name

theorem holds_iff : c.holds length l = true ↔ Contains length c l := by
  simp only [holds, isContainer, covers, Bool.and_eq_true, Bool.or_eq_true, bne_iff_ne,
    decide_eq_true_eq]
  have hopen : c.stop.isOpen = true ↔ c.stop = .lineEnd := by cases c.stop <;> simp [Stop.isOpen]
  rw [hopen]
  constructor
  · rintro ⟨⟨hk, hl⟩, hs, ht⟩
    exact ⟨hk, hl, hs, ht⟩
  · rintro ⟨hk, hl, hs, ht⟩
    exact ⟨⟨hk, hl⟩, hs, ht⟩

theorem holds_congr {l' : Label} (h : l.start = l'.start) (c : Label) (length : Nat) :
    c.holds length l = c.holds length l' := by
  rw [holds, holds, h]

theorem precedes_of_placing (h : (placing l c).isLE = true) : l.Precedes c := by
  obtain ⟨hstart, hrest⟩ := Ordering.isLE_then_iff_and.1 h
  obtain hlt | hrest := hrest
  · exact .inl (Nat.compare_eq_lt.1 hlt)
  · obtain hlt | heq := Nat.lt_or_eq_of_le (Nat.isLE_compare.1 hstart)
    · exact .inl hlt
    · exact .inr ⟨heq, (Ordering.isLE_then_iff_and.1 hrest).1⟩

/-! ### One label after those before it -/

theorem length_ofList {ids : List Nat} (h : ids.Nodup) :
    (Ascending.ofList ids).length = ids.length := by
  have hn : (Ascending.ofList ids).Nodup := (Ascending.pairwise_ofList ids).imp Nat.ne_of_lt
  exact ((List.perm_ext_iff_of_nodup hn h).2 fun _ ↦ Ascending.mem_ofList).length_eq

theorem isCutOf_placeAfter (length : Nat) (before : List Label) (l : Label) :
    (placeAfter length before l).IsCutOf l :=
  ⟨rfl, (isLE_compare_foldl_min.1 (Stop.isLE_compare_refl _)).1⟩

theorem stop_placeAfter_le (hc : c ∈ before) (hh : c.holds length l = true) :
    ((placeAfter length before l).stop.compare c.stop).isLE = true :=
  (isLE_compare_foldl_min.1 (Stop.isLE_compare_refl _)).2 c (List.mem_filter.2 ⟨hc, hh⟩)

theorem disabled_placeAfter : (placeAfter length before l).disabled = true ↔
    ∃ name, l.requires = some name ∧ ∀ c ∈ before.filter (·.holds length l), c.name ≠ name := by
  simp only [placeAfter, Option.any_eq_true, Bool.not_eq_true', List.any_eq_false, beq_iff_eq]

/-- Cutting keeps the order: of two labels that start together the second one is cut by all that
cut the first one. -/
theorem stop_placeAfter_le_of_precedes (hs : c.start = l.start)
    (hstop : (l.stop.compare c.stop).isLE = true) (hsub : ∀ d ∈ before, d ∈ placed) :
    ((placeAfter length placed l).stop.compare (placeAfter length before c).stop).isLE = true := by
  refine isLE_compare_foldl_min.2 ⟨?_, fun d hd ↦ ?_⟩
  · exact Std.TransCmp.isLE_trans (isCutOf_placeAfter length placed l).2 hstop
  · obtain ⟨hd, hh⟩ := List.mem_filter.1 hd
    exact stop_placeAfter_le (hsub d hd) (holds_congr hs d length ▸ hh)

theorem stopIn_le_of_contains (h : Contains length c l)
    (hstop : (l.stop.compare c.stop).isLE = true) : l.stopIn length ≤ c.stopIn length := by
  have hr := Stop.resolve_le_resolve hstop length
  have hlt := h.lt_stopIn
  rw [stopIn] at hlt ⊢
  rw [stopIn]
  omega

namespace Placed

theorem ordered (h : Placed length sources placed)
    (hs : sources.Pairwise fun a b ↦ (placing a b).isLE = true) : placed.Pairwise Precedes := by
  induction h with
  | nil => exact .nil
  | @snoc sources placed h source ih =>
    obtain ⟨hsources, -, hlast⟩ := List.pairwise_append.1 hs
    refine List.pairwise_append.2 ⟨ih hsources, List.pairwise_singleton _ _, fun c hc l hl ↦ ?_⟩
    obtain rfl := List.mem_singleton.1 hl
    obtain ⟨first, hfirst, before, hsub, rfl⟩ := h.exists_source hc
    obtain hlt | ⟨heq, hstop⟩ :=
      precedes_of_placing (hlast first hfirst source (List.mem_singleton_self source))
    · exact .inl hlt
    · exact .inr ⟨heq, stop_placeAfter_le_of_precedes heq hstop hsub⟩

/-- A label was placed after those that stand before it. -/
theorem exists_source_of_append (h : Placed length sources placed)
    (he : placed = before ++ l :: after) :
    ∃ source ∈ sources, l = placeAfter length before source := by
  induction h generalizing after with
  | nil => simp at he
  | @snoc sources placed h source ih =>
    obtain rfl | ⟨after, last, rfl⟩ := List.eq_nil_or_concat after
    · obtain ⟨rfl, hl⟩ := List.append_inj' he rfl
      exact ⟨source, by simp, (List.cons.inj hl).1.symm⟩
    · rw [List.concat_eq_append, ← List.cons_append, ← List.append_assoc] at he
      obtain ⟨he, -⟩ := List.append_inj' he rfl
      obtain ⟨s, hs, hl⟩ := ih he
      exact ⟨s, List.mem_append_left _ hs, hl⟩

/-- The containers of a label, found in the whole line by their ids. -/
theorem mem_filter_holds_iff (he : placed = before ++ l :: after) (hids : (placed.map id).Nodup)
    (hl : ∀ k, k ∈ l.containers ↔ ∃ c ∈ before, c.holds length l = true ∧ c.id = k) :
    c ∈ before.filter (·.holds length l) ↔ c ∈ placed ∧ c.id ∈ l.containers := by
  have hsub : ∀ c ∈ before, c ∈ placed := fun c hc ↦ he ▸ List.mem_append_left _ hc
  rw [List.mem_filter, hl]
  constructor
  · rintro ⟨hc, hh⟩
    exact ⟨hsub c hc, c, hc, hh, rfl⟩
  · rintro ⟨hc, c', hc', hh, hid⟩
    obtain rfl : c' = c := eq_of_pairwise_ne (List.pairwise_map.1 hids) (hsub c' hc') hc hid
    exact ⟨hc', hh⟩

theorem nested (h : Placed length sources placed)
    (hs : sources.Pairwise fun a b ↦ (placing a b).isLE = true) (hids : (placed.map id).Nodup) :
    Nested length placed := by
  -- each label with those before it, and what it was
  have hsplit (l : Label) (hl : l ∈ placed) : ∃ before after source,
      placed = before ++ l :: after ∧ l = placeAfter length before source ∧
      ∀ c, c ∈ before.filter (·.holds length source) ↔ c ∈ placed ∧ c.id ∈ l.containers := by
    obtain ⟨before, after, he⟩ := List.append_of_mem hl
    obtain ⟨source, -, rfl⟩ := h.exists_source_of_append he
    exact ⟨before, after, source, he, rfl, fun c ↦ mem_filter_holds_iff he hids
      fun k ↦ mem_containers_placeAfter⟩
  refine ⟨h.ordered hs, fun l hl ↦ ?_, fun {before _ _} he k ↦ ?_, fun l hl c hc hk ↦ ?_,
    fun l hl ↦ ?_, fun l hl ↦ ?_⟩
  · obtain ⟨before, after, source, -, rfl, -⟩ := hsplit l hl
    exact Ascending.pairwise_ofList _
  · obtain ⟨source, -, rfl⟩ := h.exists_source_of_append he
    rw [mem_containers_placeAfter]
    exact exists_congr fun c ↦ and_congr_right fun _ ↦ and_congr_left fun _ ↦
      holds_iff (l := placeAfter length before source)
  · obtain ⟨before, after, source, -, rfl, haround⟩ := hsplit l hl
    obtain ⟨hc, hh⟩ := List.mem_filter.1 ((haround c).2 ⟨hc, hk⟩)
    have hcontains : Contains length c (placeAfter length before source) := holds_iff.1 hh
    have hstop := stop_placeAfter_le hc hh
    exact ⟨hcontains.start_le, hstop, stopIn_le_of_contains hcontains hstop⟩
  · obtain ⟨before, after, source, he, rfl, -⟩ := hsplit l hl
    have hsub : ((before.filter (·.holds length source)).map id).Sublist (placed.map id) :=
      (List.filter_sublist.trans (he ▸ List.sublist_append_left before _)).map id
    exact ((length_ofList (hids.sublist hsub)).trans (List.length_map id)).symm
  · obtain ⟨before, after, source, -, rfl, haround⟩ := hsplit l hl
    rw [disabled_placeAfter]
    refine exists_congr fun name ↦ and_congr_right fun _ ↦ ?_
    simp only [haround, and_imp]

end Placed

theorem nested_place {labels : List Label} (hn : (labels.map id).Nodup) (length : Nat) :
    Nested length (place labels length) := by
  obtain ⟨sources, -, hsorted, hplaced⟩ := placed_place labels length
  exact hplaced.nested hsorted (nodup_map_id_place_iff.2 hn)

theorem OfLine.nested {line : Text} {inherited : Continuations}
    (h : OfLine line inherited labels) : Nested line.length labels := by
  obtain ⟨sources, rfl⟩ := h.placed
  exact nested_place (nodup_map_id_place_iff.1 (h.ids.nodup_iff.2 List.nodup_range)) line.length

theorem exists_perm_precedes (labels : List Label) (length : Nat) :
    ∃ sources : List Label, sources.Perm labels ∧ sources.Pairwise Precedes ∧
      (place labels length).map id = sources.map id := by
  obtain ⟨sources, hperm, hsorted, hplaced⟩ := placed_place labels length
  exact ⟨sources, hperm, hsorted.imp precedes_of_placing, hplaced.map_eq fun _ _ ↦ rfl⟩

/-! ### The labels of a whole line -/

theorem IsCutOf.trans {l' l'' : Label} (h : l.IsCutOf l') (h' : l'.IsCutOf l'') :
    l.IsCutOf l'' := by
  refine ⟨?_, Std.TransCmp.isLE_trans h.2 h'.2⟩
  rw [h.1, h'.1]

theorem rearranges_place (labels : List Label) (length : Nat) :
    Rearranges labels (place labels length) := by
  refine ⟨map_place_perm labels fun _ _ ↦ rfl, fun l hl ↦ ?_⟩
  obtain ⟨source, hs, before, -, rfl⟩ := exists_source_of_mem_place hl
  exact ⟨source, hs, isCutOf_placeAfter length before source⟩

/-- Labels that are placed again together with new ones. -/
theorem Rearranges.place_append (h : Rearranges found labels) (new : List Label) (length : Nat) :
    Rearranges (found ++ new) (place (labels ++ new) length) := by
  have hp := rearranges_place (labels ++ new) length
  refine ⟨hp.ids.trans ?_, fun l hl ↦ ?_⟩
  · rw [List.map_append, List.map_append]
    exact h.ids.append_right _
  · obtain ⟨source, hs, hcut⟩ := hp.cut l hl
    obtain hs | hs := List.mem_append.1 hs
    · obtain ⟨first, hf, hfirst⟩ := h.cut source hs
      exact ⟨first, List.mem_append_left _ hf, hcut.trans hfirst⟩
    · exact ⟨source, List.mem_append_right _ hs, hcut⟩

/-- Whether a label is, but for its id, one that some scheme finds in a stretch of a line. -/
def IsFoundIn (line : Text) (inherited : Continuations) (l : Label) : Prop :=
  ∃ (s : Stretch) (level : Nat), ∃ source ∈ s.scheme.regions (min s.start line.length) s.stop
    (s.textIn line) inherited level, l = { source with id := l.id }

/-- Whether labels are those that were found in a line, numbered in the order in which they were
found, and placed. -/
def ArePlacedIn (line : Text) (inherited : Continuations) (labels : List Label) : Prop :=
  ∃ found, found.map id = List.range found.length ∧ (∀ l ∈ found, l.IsFoundIn line inherited) ∧
    Rearranges found labels

theorem ArePlacedIn.step {line : Text} {inherited : Continuations} (s : Stretch) (level : Nat)
    (h : ArePlacedIn line inherited labels) : ArePlacedIn line inherited
      (place (labels ++ number labels.length (s.scheme.regions (min s.start line.length) s.stop
        (s.textIn line) inherited level)) line.length) := by
  obtain ⟨found, hids, hfound, hr⟩ := h
  generalize hregions : s.scheme.regions (min s.start line.length) s.stop (s.textIn line) inherited
    level = regions
  have hlength : labels.length = found.length := by
    simpa only [List.length_map] using hr.ids.length_eq
  refine ⟨found ++ number labels.length regions, ?_, fun l hl ↦ ?_, hr.place_append _ _⟩
  · rw [List.map_append, hids, map_id_number, List.length_append, length_number, hlength,
      List.range_eq_range', List.range_eq_range', ← List.range'_append_1, Nat.zero_add]
  · obtain hl | hl := List.mem_append.1 hl
    · exact hfound l hl
    · obtain ⟨source, hs, i, rfl⟩ := exists_of_mem_number hl
      exact ⟨s, level, source, hregions ▸ hs, rfl⟩

theorem arePlacedIn_labelLine (s : Scheme) (line : Text) (inherited : Continuations)
    (maxNesting : Nat) : ArePlacedIn line inherited (s.labelLine line inherited maxNesting) :=
  addStretch_induction (fun _ stretch level h ↦ h.step stretch level) maxNesting 0 _
    ⟨[], rfl, by simp, .nil, by simp⟩

theorem nested_labelLine (s : Scheme) (line : Text) (inherited : Continuations)
    (maxNesting : Nat) : Nested line.length (s.labelLine line inherited maxNesting) :=
  (s.ofLine_labelLine line inherited maxNesting).nested

/-- Labels with ids of their own are put in order, and each is cut to those that contain it. So are
the labels of a line. -/
theorem nested_place_and_labelLine (labels : List Label) (length : Nat)
    (hn : (labels.map id).Nodup) :
    (Rearranges labels (place labels length) ∧ Nested length (place labels length) ∧
      ∃ sources : List Label, sources.Perm labels ∧ sources.Pairwise Precedes ∧
        (place labels length).map id = sources.map id) ∧
    ∀ (s : Scheme) (line : Text) (inherited : Continuations) (maxNesting : Nat),
      ArePlacedIn line inherited (s.labelLine line inherited maxNesting) ∧
        Nested line.length (s.labelLine line inherited maxNesting) :=
  ⟨⟨rearranges_place labels length, nested_place hn length, exists_perm_precedes labels length⟩,
    fun s line inherited maxNesting ↦ ⟨arePlacedIn_labelLine s line inherited maxNesting,
      nested_labelLine s line inherited maxNesting⟩⟩

/-- A string that runs out of the script in which it begins, and a word for comments in it. -/
def overlapping : List Label :=
  [{ plain "STRING" "page" 12 .lineEnd .opening with id := 1 },
    { plain "TODO" "page" 13 (.column 20) .single with id := 2, requires := some "COMMENT" },
    { plain "SCRIPT" "page" 8 (.column 16) .opening with id := 0 }]

theorem nested_place_overlapping :
    (overlapping.map id).Nodup ∧ Nested 25 (place overlapping 25) ∧
      (place overlapping 25).map (fun l ↦ (l.id, l.stop, l.containers, l.depth, l.disabled)) =
        [(0, .column 16, [], 0, false), (1, .column 16, [0], 1, false),
          (2, .column 16, [0, 1], 2, true)] := by
  have hn : (overlapping.map id).Nodup := by decide
  exact ⟨hn, (nested_place_and_labelLine overlapping 25 hn).1.2.1, by decide⟩

end Label

end Highlighter
