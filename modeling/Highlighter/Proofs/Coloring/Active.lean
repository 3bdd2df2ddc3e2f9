import Highlighter.Proofs.Coloring.Runs
import Highlighter.Proofs.Labels.Placing

/-!
Colors are a matter of the labels that count: what the others are makes no difference to the color
of a character, nor to the runs of a line.
-/

namespace Highlighter

/-! ### Runs of given colors -/

namespace Run

variable {runs runs' rest : List Run} {r : Run} {start stop n : Nat} {color : Nat → Color}

theorem Tiles.of_cons (h : Tiles start stop (r :: rest)) :
    r.start = start ∧ r.start < r.stop ∧ Tiles r.stop stop rest ∧
      ∀ next ∈ rest.head?, r.color ≠ next.color := by
  cases h with
  | cons hr ht hc => exact ⟨rfl, hr, ht, hc⟩

/-- A run reaches up to the next change of color. -/
theorem Tiles.le_stop (h : Tiles start stop (r :: rest)) (hp : Paints color (r :: rest))
    (hn : n ≤ stop) (hc : ∀ i, start ≤ i → i < n → color i = color start) : n ≤ r.stop := by
  obtain ⟨rfl, hr, ht, hne⟩ := h.of_cons
  refine Nat.not_lt.1 fun hlt ↦ ?_
  cases rest with
  | nil =>
    generalize r.stop = s at ht hlt
    cases ht
    omega
  | cons next rest =>
    obtain ⟨hstart, hnext, -⟩ := ht.of_cons
    have hcolor := hp r List.mem_cons_self r.start (Nat.le_refl _) hr
    have hcolor' := hp next (List.mem_cons_of_mem _ List.mem_cons_self) r.stop
      (Nat.le_of_eq hstart) (hstart ▸ hnext)
    exact hne next rfl (by rw [hcolor, hcolor', hc r.stop (Nat.le_of_lt hr) hlt])

/-- There is one way only to cover a line by runs of given colors. -/
theorem Tiles.eq_of_paints (h : Tiles start stop runs) (h' : Tiles start stop runs')
    (hp : Paints color runs) (hp' : Paints color runs') : runs = runs' := by
  induction runs generalizing start runs' with
  | nil =>
    cases h
    cases runs' with
    | nil => rfl
    | cons r' rest' =>
      obtain ⟨rfl, hr, ht, -⟩ := h'.of_cons
      have := ht.le
      omega
  | cons r rest ih =>
    obtain ⟨hstart, hr, ht, -⟩ := h.of_cons
    have hle := ht.le
    cases runs' with
    | nil =>
      cases h'
      omega
    | cons r' rest' =>
      obtain ⟨hstart', hr', ht', -⟩ := h'.of_cons
      have hle' := ht'.le
      have hconst {r : Run} (hr : ∀ i, r.start ≤ i → i < r.stop → r.color = color i)
          (hlt : r.start < r.stop) (hs : r.start = start) (i : Nat) (hi : start ≤ i)
          (hi' : i < r.stop) : color i = color start := by
        rw [← hr i (hs ▸ hi) hi', ← hs, hr r.start (Nat.le_refl _) hlt]
      obtain ⟨hpr, hprest⟩ := List.forall_mem_cons.1 hp
      obtain ⟨hpr', hprest'⟩ := List.forall_mem_cons.1 hp'
      have hstop : r.stop = r'.stop := Nat.le_antisymm
        (h'.le_stop hp' hle (hconst hpr hr hstart)) (h.le_stop hp hle' (hconst hpr' hr' hstart'))
      have hrun : r = r' := by
        have hcolor := hpr r.start (Nat.le_refl _) hr
        have hcolor' := hpr' r'.start (Nat.le_refl _) hr'
        rw [hstart] at hcolor
        rw [hstart'] at hcolor'
        cases r
        cases r'
        simp only [Run.mk.injEq]
        exact ⟨hstart.trans hstart'.symm, hstop, hcolor.trans hcolor'.symm⟩
      rw [hrun, ih (hstop ▸ ht) ht' hprest hprest']

end Run

/-! ### Colors and the labels that count -/

namespace Scheme

/-- From the outside in: by depth, level and start. -/
def nesting (a b : Label) : Ordering :=
  (compare a.depth b.depth).then ((compare a.level b.level).then (compare a.start b.start))

instance : Std.TransCmp nesting :=
  inferInstanceAs (Std.TransCmp (compareLex (compareOn Label.depth)
    (compareLex (compareOn Label.level) (compareOn Label.start))))

theorem nestingLe_trans (a b c : Label) (hab : nestingLe a b = true) (hbc : nestingLe b c = true) :
    nestingLe a c = true := by
  have htrans : (nesting a b).isLE = true → (nesting b c).isLE = true → (nesting a c).isLE = true :=
    Std.TransCmp.isLE_trans
  exact htrans hab hbc

theorem nestingLe_total (a b : Label) : (nestingLe a b || nestingLe b a) = true := by
  rw [Bool.or_eq_true]
  by_cases h : (nesting a b).isLE = true
  · exact .inl h
  · have hlt : nesting b a = .lt := Std.OrientedCmp.lt_of_not_isLE h
    exact .inr (congrArg Ordering.isLE hlt)

variable {root s : Scheme} {covering : List Label} {active : List Nat} {l : Label}

/-- The labels that count. -/
abbrev counting (active : List Nat) (labels : List Label) : List Label :=
  labels.filter fun l ↦ active.contains l.id

theorem counting_filter (p : Label → Bool) (labels : List Label) :
    counting active (labels.filter p) = (counting active labels).filter p := by
  rw [counting, counting, List.filter_filter, List.filter_filter]
  exact List.filter_congr fun l _ ↦ Bool.and_comm _ _

theorem isShadowed_counting (l : Label) (s : Scheme) :
    l.isShadowed (counting active covering) active s = l.isShadowed covering active s := by
  rw [Label.isShadowed, Label.isShadowed, List.any_filter]
  simp only [← Bool.and_assoc, Bool.and_self]

theorem descend_counting :
    descend (counting active covering) active = descend covering active := by
  funext s l
  rw [descend, descend, isShadowed_counting]

theorem descend_of_not_mem (h : active.contains l.id = false) :
    descend covering active s l = s := by
  rw [descend, h, Bool.and_false]
  rfl

theorem schemeUnder_counting :
    root.schemeUnder (counting active covering) active = root.schemeUnder covering active := by
  rw [schemeUnder, schemeUnder, descend_counting, counting,
    ← Sorting.filter_sort nestingLe_trans nestingLe_total, List.foldl_filter]
  congr 1
  funext s l
  split
  · rfl
  · next h => rw [descend_of_not_mem (Bool.not_eq_true _ ▸ h)]

/-- Labels that do not count have no part in the color of a character. -/
theorem colorAt_counting :
    root.colorAt (counting active covering) active = root.colorAt covering active := by
  have hown (s : Scheme) : (counting active covering).filter
      (fun l ↦ l.scheme == s.name && active.contains l.id) =
        covering.filter fun l ↦ l.scheme == s.name && active.contains l.id := by
    rw [List.filter_filter]
    exact List.filter_congr fun l _ ↦ by rw [Bool.and_assoc, Bool.and_self]
  rw [colorAt, colorAt, schemeUnder_counting]
  simp only [hown]

end Scheme

/-- Lines with the same labels that count have the same runs. -/
theorem Run.ofLabels_congr {labels labels' : List Label} {length : Nat} {root : Scheme}
    (hactive : Label.activeIds labels' = Label.activeIds labels)
    (h : Scheme.counting (Label.activeIds labels) labels' =
      Scheme.counting (Label.activeIds labels) labels) :
    ofLabels labels' length root = ofLabels labels length root := by
  obtain ⟨htiles, hpaints⟩ := tiles_and_paints_ofLabels labels length root
  obtain ⟨htiles', hpaints'⟩ := tiles_and_paints_ofLabels labels' length root
  refine htiles'.eq_of_paints htiles hpaints' ?_
  have hcolor (i : Nat) : root.colorAt (labels.filter (·.covers i length))
      (Label.activeIds labels) = root.colorAt (labels'.filter (·.covers i length))
        (Label.activeIds labels') := by
    rw [hactive, ← Scheme.colorAt_counting, Scheme.counting_filter, ← h, ← Scheme.counting_filter,
      Scheme.colorAt_counting]
  simpa only [hcolor] using hpaints

end Highlighter
