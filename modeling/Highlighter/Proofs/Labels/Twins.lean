import Highlighter.Proofs.Labels.Containers

/-!
Labels that are placed once more. They keep their places in the line, but labels that start and end
together may change their order then, since they were put in order before they were cut to the same
end. What is placed twice stays as it is.
-/

namespace Highlighter

theorem Stop.eq_of_isLE_of_isLE {s t : Stop} (h : (s.compare t).isLE = true)
    (h' : (t.compare s).isLE = true) : s = t := by
  cases s with
  | lineEnd =>
    cases t with
    | lineEnd => rfl
    | column n => cases h
  | column m =>
    cases t with
    | lineEnd => cases h'
    | column n =>
      exact congrArg column (Nat.le_antisymm (Nat.isLE_compare.1 h) (Nat.isLE_compare.1 h'))

namespace Label

variable {labels sources placed before after : List Label} {a b c l : Label} {length : Nat}

/-- Whether two labels start and end together. -/
def Twins (a b : Label) : Prop := a.start = b.start ∧ a.stop = b.stop

instance : DecidableRel Twins := fun a b ↦
  inferInstanceAs (Decidable (a.start = b.start ∧ a.stop = b.stop))

/-- The order of labels that start and end together. -/
def ranking (a b : Label) : Ordering :=
  (compare a.level b.level).then <| (compare a.order b.order).then (compare a.id b.id)

/-- Whether labels that start and end together stand in their order. -/
def AreRanked (placed : List Label) : Prop :=
  placed.Pairwise fun a b ↦ a.Twins b → (ranking a b).isLE = true

instance : DecidablePred AreRanked := fun placed ↦
  inferInstanceAs (Decidable (placed.Pairwise fun a b ↦ a.Twins b → (ranking a b).isLE = true))

/-- A label without what is known of those around it. -/
def core (l : Label) : Label := { l with containers := [], depth := 0, disabled := false }

theorem eq_of_core_eq {α : Type} (f : Label → α) (h : a.core = b.core)
    (hf : ∀ l : Label, f l.core = f l := by intro; rfl) : f a = f b := by
  rw [← hf a, h, hf b]

/-! ### The order of placing -/

theorem twins_of_precedes (hab : a.Precedes b) (hba : b.Precedes a) : a.Twins b := by
  obtain hlt | ⟨hs, hstop⟩ := hab
  · obtain hlt' | ⟨hs', -⟩ := hba <;> omega
  · obtain hlt' | ⟨-, hstop'⟩ := hba
    · omega
    · exact ⟨hs, Stop.eq_of_isLE_of_isLE hstop' hstop⟩

theorem isLE_placing_iff (h : a.Precedes b) :
    (placing a b).isLE = true ↔ (a.Twins b → (ranking a b).isLE = true) := by
  have heq : placing a b =
      (compare a.start b.start).then ((Stop.compare b.stop a.stop).then (ranking a b)) := rfl
  rw [heq]
  obtain hlt | ⟨hs, hstop⟩ := h
  · rw [Nat.compare_eq_lt.2 hlt]
    exact iff_of_true rfl fun ht ↦ absurd ht.1 (Nat.ne_of_lt hlt)
  · rw [Nat.compare_eq_eq.2 hs]
    by_cases ht : a.stop = b.stop
    · have heq : Stop.compare b.stop a.stop = .eq := by
        rw [ht]
        exact Std.ReflCmp.compare_self
      rw [heq]
      exact ⟨fun hr _ ↦ hr, fun hr ↦ hr ⟨hs, ht⟩⟩
    · have hlt : Stop.compare b.stop a.stop = .lt := by
        refine Std.OrientedCmp.lt_of_not_isLE fun hle ↦ ht ?_
        exact Stop.eq_of_isLE_of_isLE hle hstop
      rw [hlt]
      exact iff_of_true rfl fun htwins ↦ absurd htwins.2 ht

theorem pairwise_placing_iff (h : placed.Pairwise Precedes) :
    (placed.Pairwise fun a b ↦ (placing a b).isLE = true) ↔ AreRanked placed := by
  constructor
  · exact fun hp ↦ (h.and hp).imp fun hab ↦ (isLE_placing_iff hab.1).1 hab.2
  · exact fun hr ↦ (h.and hr).imp fun hab ↦ (isLE_placing_iff hab.1).2 hab.2

/-! ### Placing what is placed -/

theorem stop_placeAfter_eq
    (h : ∀ c ∈ before, c.holds length l = true → (l.stop.compare c.stop).isLE = true) :
    (placeAfter length before l).stop = l.stop := by
  refine Stop.eq_of_isLE_of_isLE (isCutOf_placeAfter length before l).2 ?_
  refine isLE_compare_foldl_min.2 ⟨Stop.isLE_compare_refl _, fun c hc ↦ ?_⟩
  obtain ⟨hc, hh⟩ := List.mem_filter.1 hc
  exact h c hc hh

theorem placeAfter_placeAfter (length : Nat) (before : List Label) (l : Label) :
    placeAfter length before (placeAfter length before l) = placeAfter length before l := by
  have hstop : (placeAfter length before (placeAfter length before l)).stop =
      (placeAfter length before l).stop :=
    stop_placeAfter_eq fun c hc hh ↦ stop_placeAfter_le hc hh
  exact congrArg (fun s ↦ { placeAfter length before l with stop := s }) hstop

theorem core_placeAfter (h : (placeAfter length before l).stop = l.stop) :
    (placeAfter length before l).core = l.core :=
  congrArg (fun s ↦ { l.core with stop := s }) h

namespace Placed

/-- Labels stay as they are when they are placed again in the order that they have. -/
theorem again (h : Placed length sources placed) : Placed length placed placed := by
  induction h with
  | nil => exact .nil
  | @snoc sources placed h l ih =>
    have hsnoc := ih.snoc (placeAfter length placed l)
    rwa [placeAfter_placeAfter] at hsnoc

theorem foldl_eq (h : Placed length sources placed) :
    sources.foldl (fun placed l ↦ placed ++ [placeAfter length placed l]) [] = placed := by
  induction h with
  | nil => rfl
  | snoc h l ih => rw [List.foldl_append, ih]; rfl

/-- Labels that are cut by none of those before them lose nothing. -/
theorem map_core (h : Placed length sources placed)
    (hs : sources.Pairwise fun c l ↦
      c.holds length l = true → (l.stop.compare c.stop).isLE = true) :
    placed.map core = sources.map core := by
  induction h with
  | nil => rfl
  | @snoc sources placed h l ih =>
    obtain ⟨hs, -, hlast⟩ := List.pairwise_append.1 hs
    have hcore := ih hs
    have hstop : (placeAfter length placed l).stop = l.stop := by
      refine stop_placeAfter_eq fun c hc hh ↦ ?_
      obtain ⟨c', hc', he⟩ := List.mem_map.1 (hcore ▸ List.mem_map_of_mem hc)
      have hle := hlast c' hc' l (List.mem_singleton_self l)
      rw [eq_of_core_eq (·.holds length l) he, eq_of_core_eq Label.stop he] at hle
      exact hle hh
    rw [List.map_append, List.map_append, hcore, List.map_singleton, List.map_singleton,
      core_placeAfter hstop]

theorem place_eq_self (h : Placed length sources placed)
    (hs : placed.Pairwise fun a b ↦ (placing a b).isLE = true) : place placed length = placed := by
  rw [place, Sorting.sort_of_pairwise hs]
  exact h.again.foldl_eq

end Placed

section Again

variable (hn : (labels.map id).Nodup)

include hn in
/-- A label that comes before another one in the order of placing, and holds it, reaches as far. -/
theorem stop_le_of_holds (hc : c ∈ place labels length) (hl : l ∈ place labels length)
    (hp : (placing c l).isLE = true) (hh : c.holds length l = true) :
    (l.stop.compare c.stop).isLE = true := by
  obtain hlt | ⟨-, hstop⟩ := precedes_of_placing hp
  · have hne : c ≠ l := fun he ↦ Nat.ne_of_lt hlt (congrArg start he)
    obtain ⟨-, hid⟩ | ⟨hle, -⟩ := Sorting.rel_or_rel_of_mem (pairwise_place labels length) hc hl hne
    · exact ((nested_place hn length).inside l hl c hc (hid hh)).2.1
    · omega
  · exact hstop

include hn in
/-- Labels that are placed once more are put in order, and not cut any more. -/
theorem exists_sources_again (length : Nat) :
    ∃ sources, sources.Perm (place labels length) ∧
    sources.Pairwise (fun a b ↦ (placing a b).isLE = true) ∧
    Placed length sources (place (place labels length) length) ∧
    (place (place labels length) length).map core = sources.map core := by
  obtain ⟨sources, hperm, hsorted, hplaced⟩ := placed_place (place labels length) length
  refine ⟨sources, hperm, hsorted, hplaced, hplaced.map_core ?_⟩
  refine hsorted.imp_of_mem fun {c l} hc hl hp hh ↦ ?_
  exact stop_le_of_holds hn (hperm.mem_iff.1 hc) (hperm.mem_iff.1 hl) hp hh

include hn in
theorem map_core_again :
    ((place (place labels length) length).map core).Perm ((place labels length).map core) := by
  obtain ⟨sources, hperm, -, -, hcore⟩ := exists_sources_again hn length
  rw [hcore]
  exact hperm.map core

include hn in
theorem pairwise_placing_again :
    (place (place labels length) length).Pairwise fun a b ↦ (placing a b).isLE = true := by
  obtain ⟨sources, -, hsorted, -, hcore⟩ := exists_sources_again hn length
  have hmap : (sources.map core).Pairwise fun a b ↦ (placing a b).isLE = true :=
    List.pairwise_map.2 hsorted
  rw [← hcore] at hmap
  exact List.pairwise_map.1 hmap

include hn in
/-- Of labels that do not start and end together, a later one is in each one before that contains
it. -/
theorem around_iff_of_not_twins (hc : c ∈ place labels length) (hl : l ∈ place labels length)
    (ht : ¬c.Twins l) :
    Around (place labels length) c l ↔ Contains length c l ∧ c.Precedes l := by
  have h : Nested length (place labels length) := nested_place hn length
  have hids : ((place labels length).map id).Nodup := nodup_map_id_place_iff.2 hn
  constructor
  · intro haround
    obtain ⟨before, after, he⟩ := List.append_of_mem hl
    refine ⟨((h.around_iff hids he).1 haround).2, ?_⟩
    obtain ⟨hstart, hstop, -⟩ := h.inside l hl c hc haround.2.2
    exact (Nat.lt_or_eq_of_le hstart).imp_right fun heq ↦ ⟨heq, hstop⟩
  · rintro ⟨hcontains, hprecedes⟩
    have hpair := (pairwise_place labels length).and h.ordered
    have hne : c ≠ l := fun he ↦ ht (he ▸ ⟨rfl, rfl⟩)
    obtain ⟨⟨-, hid⟩, -⟩ | ⟨-, hprecedes'⟩ := Sorting.rel_or_rel_of_mem hpair hc hl hne
    · exact ⟨hc, hl, hid (holds_iff.2 hcontains)⟩
    · exact absurd (twins_of_precedes hprecedes hprecedes') ht

end Again

/-! ### What is around a label once more -/

/-- Whether labels that are placed once more differ from those before in what is around them
only. -/
structure Repeats (length : Nat) (placed again : List Label) : Prop where
  nested : Nested length placed
  nested_again : Nested length again
  ids : (placed.map id).Nodup
  ids_again : (again.map id).Nodup
  cores : (again.map core).Perm (placed.map core)
  around : ∀ c ∈ placed, ∀ l ∈ placed, ¬c.Twins l → ∀ c' ∈ again, ∀ l' ∈ again,
    c'.core = c.core → l'.core = l.core → (Around again c' l' ↔ Around placed c l)

theorem repeats_place (hn : (labels.map id).Nodup) (length : Nat) :
    Repeats length (place labels length) (place (place labels length) length) := by
  have hids : ((place labels length).map id).Nodup := nodup_map_id_place_iff.2 hn
  refine ⟨nested_place hn length, nested_place hids length, hids, nodup_map_id_place_iff.2 hids,
    map_core_again hn, ?_⟩
  intro c hc l hl ht c' hc' l' hl' hcc hll
  have ht' : ¬c'.Twins l' := by
    rwa [eq_of_core_eq (Twins · l') hcc, eq_of_core_eq (Twins c) hll]
  rw [around_iff_of_not_twins hids hc' hl' ht', around_iff_of_not_twins hn hc hl ht, ← holds_iff,
    ← holds_iff, eq_of_core_eq (·.holds length l') hcc, eq_of_core_eq (c.holds length) hll,
    eq_of_core_eq (Precedes · l') hcc, eq_of_core_eq (Precedes c) hll]

namespace Repeats

variable {again : List Label} {l' : Label}

theorem exists_core (h : Repeats length placed again) (hl : l ∈ again) :
    ∃ source ∈ placed, l.core = source.core := by
  obtain ⟨source, hs, he⟩ := List.mem_map.1 (h.cores.mem_iff.1 (List.mem_map_of_mem hl))
  exact ⟨source, hs, he.symm⟩

theorem exists_again (h : Repeats length placed again) (hl : l ∈ placed) :
    ∃ l' ∈ again, l'.core = l.core :=
  List.mem_map.1 (h.cores.mem_iff.2 (List.mem_map_of_mem hl))

/-- From left to right the labels start and end where they did. -/
theorem places_eq (h : Repeats length placed again) :
    again.map (fun l ↦ (l.start, l.stop)) = placed.map fun l ↦ (l.start, l.stop) := by
  have hperm := h.cores.map fun l ↦ (l.start, l.stop)
  rw [List.map_map, List.map_map] at hperm
  have hordered {l : List Label} (hl : l.Pairwise Precedes) :
      (l.map fun l ↦ (l.start, l.stop)).Pairwise fun p q ↦
        p.1 < q.1 ∨ p.1 = q.1 ∧ (q.2.compare p.2).isLE = true := List.pairwise_map.2 hl
  refine hperm.eq_of_pairwise ?_ (hordered h.nested_again.ordered) (hordered h.nested.ordered)
  intro p q hp hq hpq hqp
  obtain ⟨a, -, rfl⟩ := List.mem_map.1 hp
  obtain ⟨b, -, rfl⟩ := List.mem_map.1 hq
  obtain ⟨hstart, hstop⟩ := twins_of_precedes (a := a) (b := b) hpq hqp
  exact Prod.ext hstart hstop

section Single

variable (h : Repeats length placed again) (hl : l ∈ placed) (hl' : l' ∈ again)
variable (hll : l'.core = l.core) (hsingle : ∀ c ∈ placed, c.Twins l → c = l)

include h hl hl' hll hsingle

/-- Each other label is around a label without twins both times or neither time. -/
theorem mem_containers_iff {c' : Label} (hc : c ∈ placed) (hc' : c' ∈ again)
    (hcc : c'.core = c.core) : c'.id ∈ l'.containers ↔ c.id ∈ l.containers := by
  have hiff : Around again c' l' ↔ Around placed c l := by
    by_cases ht : c.Twins l
    · obtain rfl := hsingle c hc ht
      obtain rfl := eq_of_id_eq h.ids_again hc' hl' (eq_of_core_eq Label.id (hcc.trans hll.symm))
      exact iff_of_false (h.nested_again.not_around_self h.ids_again)
        (h.nested.not_around_self h.ids)
    · exact h.around c hc l hl ht c' hc' l' hl' hcc hll
  exact ⟨fun hid ↦ (hiff.1 ⟨hc', hl', hid⟩).2.2, fun hid ↦ (hiff.2 ⟨hc, hl, hid⟩).2.2⟩

theorem containers_eq : l'.containers = l.containers := by
  have hmem (k : Nat) : k ∈ l'.containers ↔ k ∈ l.containers := by
    constructor
    · intro hk
      obtain ⟨c', haround, rfl⟩ := h.nested_again.exists_around hl' hk
      obtain ⟨c, hc, hcc⟩ := h.exists_core haround.1
      rw [eq_of_core_eq Label.id hcc]
      exact (h.mem_containers_iff hl hl' hll hsingle hc haround.1 hcc).1 hk
    · intro hk
      obtain ⟨c, haround, rfl⟩ := h.nested.exists_around hl hk
      obtain ⟨c', hc', hcc⟩ := h.exists_again haround.1
      rw [← eq_of_core_eq Label.id hcc]
      exact (h.mem_containers_iff hl hl' hll hsingle haround.1 hc' hcc).2 hk
  have ha' := h.nested_again.ascending l' hl'
  have ha := h.nested.ascending l hl
  have hperm := (List.perm_ext_iff_of_nodup (ha'.imp Nat.ne_of_lt) (ha.imp Nat.ne_of_lt)).2 hmem
  exact hperm.eq_of_pairwise (fun _ _ _ _ hlt hlt' ↦ absurd hlt (Nat.lt_asymm hlt')) ha' ha

theorem disabled_eq : l'.disabled = l.disabled := by
  have hnames (name : String) : (∀ c' ∈ again, c'.id ∈ l'.containers → c'.name ≠ name) ↔
      ∀ c ∈ placed, c.id ∈ l.containers → c.name ≠ name := by
    constructor
    · intro hall c hc hid
      obtain ⟨c', hc', hcc⟩ := h.exists_again hc
      rw [← eq_of_core_eq Label.name hcc]
      exact hall c' hc' ((h.mem_containers_iff hl hl' hll hsingle hc hc' hcc).2 hid)
    · intro hall c' hc' hid
      obtain ⟨c, hc, hcc⟩ := h.exists_core hc'
      rw [eq_of_core_eq Label.name hcc]
      exact hall c hc ((h.mem_containers_iff hl hl' hll hsingle hc hc' hcc).1 hid)
  rw [Bool.eq_iff_iff, h.nested_again.disabled l' hl', h.nested.disabled l hl,
    eq_of_core_eq Label.requires hll]
  exact exists_congr fun name ↦ and_congr_right fun _ ↦ hnames name

/-- A label that is the only one with its start and end is not changed at all. -/
theorem eq_of_forall_twins : l' = l := by
  have hcontainers := h.containers_eq hl hl' hll hsingle
  have hdepth : l'.depth = l.depth := by
    rw [h.nested_again.depth l' hl', h.nested.depth l hl, hcontainers]
  calc l' = { l'.core with
        containers := l'.containers, depth := l'.depth, disabled := l'.disabled } := rfl
    _ = { l.core with containers := l.containers, depth := l.depth, disabled := l.disabled } := by
      rw [hll, hcontainers, hdepth, h.disabled_eq hl hl' hll hsingle]
    _ = l := rfl

end Single

end Repeats

/-- Labels that are placed once more stay as they are if those that start and end together stand in
their order, and only then. In any case all keep their places, and whether a label is around another
one that does not start and end with it. Placing them for a third time changes nothing. -/
theorem place_again (labels : List Label) (length : Nat) (hn : (labels.map id).Nodup) :
    let placed := place labels length
    let again := place placed length
    (again = placed ↔ AreRanked placed) ∧ Repeats length placed again ∧
      again.map (fun l ↦ (l.start, l.stop)) = placed.map (fun l ↦ (l.start, l.stop)) ∧
      (∀ l ∈ placed, (∀ c ∈ placed, c.Twins l → c = l) → l ∈ again) ∧
      place again length = again := by
  intro placed again
  have hrepeats : Repeats length placed again := repeats_place hn length
  have hsorted : again.Pairwise fun a b ↦ (placing a b).isLE = true := pairwise_placing_again hn
  obtain ⟨sources, -, -, hplaced⟩ := placed_place labels length
  obtain ⟨sources', -, -, hplaced'⟩ := placed_place placed length
  refine ⟨?_, hrepeats, hrepeats.places_eq, fun l hl hsingle ↦ ?_, hplaced'.place_eq_self hsorted⟩
  · rw [← pairwise_placing_iff hrepeats.nested.ordered]
    exact ⟨fun he ↦ he ▸ hsorted, hplaced.place_eq_self⟩
  · obtain ⟨l', hl', hll⟩ := hrepeats.exists_again hl
    rwa [hrepeats.eq_of_forall_twins hl hl' hll hsingle] at hl'

theorem place_again_overlapping :
    (overlapping.map id).Nodup ∧ AreRanked (place overlapping 25) ∧
      place (place overlapping 25) 25 = place overlapping 25 := by
  have hn : (overlapping.map id).Nodup := by decide
  have hranked : AreRanked (place overlapping 25) := by decide
  exact ⟨hn, hranked, (place_again overlapping 25 hn).1.2 hranked⟩

/-- A script ends a tag and the name of the tag at once. The name has the lower rank. -/
def cutTogether : List Label :=
  [{ plain "SCRIPT" "page" 0 (.column 4) .opening with id := 0, order := 0 },
    { plain "TAG" "page" 2 (.column 8) .opening with id := 2, order := 2 },
    { plain "NAME" "page" 2 (.column 6) .single with
      id := 1, order := 1, requires := some "TAG" }]

theorem place_again_ne_cutTogether :
    (cutTogether.map id).Nodup ∧
      (place cutTogether 10).map (fun l ↦ (l.id, l.stop, l.containers, l.depth, l.disabled)) =
        [(0, .column 4, [], 0, false), (2, .column 4, [0], 1, false),
          (1, .column 4, [0, 2], 2, false)] ∧
      (place (place cutTogether 10) 10).map
          (fun l ↦ (l.id, l.stop, l.containers, l.depth, l.disabled)) =
        [(0, .column 4, [], 0, false), (1, .column 4, [0], 1, true),
          (2, .column 4, [0, 1], 2, false)] ∧
      place (place cutTogether 10) 10 ≠ place cutTogether 10 :=
  ⟨by decide, by decide, by decide, by decide⟩

end Label

end Highlighter
