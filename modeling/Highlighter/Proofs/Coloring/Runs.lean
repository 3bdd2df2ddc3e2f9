import Highlighter.Coloring

/-!
The runs of a line cover it without gap or overlap, and the color found in them at a column is the
one that the labels covering the column give.
-/

namespace Highlighter

namespace Run

variable {runs rest : List Run} {r : Run} {index start stop : Nat} {c : Color}

/-- Nonempty runs one right after another from `start` to `stop`, neighbors in different
colors. -/
inductive Tiles : Nat → Nat → List Run → Prop
  | nil (n : Nat) : Tiles n n []
  | cons {r : Run} {stop : Nat} {rest : List Run} (hr : r.start < r.stop)
      (ht : Tiles r.stop stop rest) (hc : ∀ next ∈ rest.head?, r.color ≠ next.color) :
      Tiles r.start stop (r :: rest)

/-- Each run has the color of every column in it. -/
def Paints (color : Nat → Color) (runs : List Run) : Prop :=
  ∀ r ∈ runs, ∀ index, r.start ≤ index → index < r.stop → r.color = color index

namespace Tiles

theorem le (h : Tiles start stop runs) : start ≤ stop := by
  induction h with
  | nil n => exact Nat.le_refl n
  | cons hr _ _ ih => omega

theorem lt_of_mem (h : Tiles start stop runs) (hr : r ∈ runs) : r.start < r.stop := by
  induction h with
  | nil n => cases hr
  | cons hs _ _ ih =>
    obtain rfl | hr := List.mem_cons.1 hr
    · exact hs
    · exact ih hr

theorem within (h : Tiles start stop runs) (hr : r ∈ runs) : start ≤ r.start ∧ r.stop ≤ stop := by
  induction h with
  | nil n => cases hr
  | cons hs ht _ ih =>
    obtain rfl | hr := List.mem_cons.1 hr
    · exact ⟨Nat.le_refl _, ht.le⟩
    · obtain ⟨h₁, h₂⟩ := ih hr
      exact ⟨by omega, h₂⟩

theorem pairwise (h : Tiles start stop runs) :
    runs.Pairwise fun a b ↦ a.stop ≤ b.start := by
  induction h with
  | nil n => exact .nil
  | cons _ ht _ ih => exact List.pairwise_cons.2 ⟨fun b hb ↦ (ht.within hb).1, ih⟩

theorem exists_mem (h : Tiles start stop runs) (hs : start ≤ index) (he : index < stop) :
    ∃ r ∈ runs, r.start ≤ index ∧ index < r.stop := by
  induction h with
  | nil n => omega
  | @cons r stop rest _ _ _ ih =>
    by_cases hi : index < r.stop
    · exact ⟨r, List.mem_cons_self, hs, hi⟩
    · obtain ⟨r', hr', hi'⟩ := ih (by omega) he
      exact ⟨r', List.mem_cons_of_mem _ hr', hi'⟩

end Tiles

/-! ### Looking up a color -/

theorem any_stop_iff {i : Nat} :
    (runs[i]?.any fun r ↦ decide (r.stop ≤ index)) = true ↔
      ∃ r, runs[i]? = some r ∧ r.stop ≤ index := by
  rw [Option.any_eq_true]
  simp only [decide_eq_true_eq]

/-- The search splits ordered runs into those that stop before a column and those that do not. -/
theorem search_splits (index : Nat) (hp : runs.Pairwise fun a b ↦ a.stop ≤ b.stop) {low high : Nat}
    (hlow : ∀ i r, i < low → runs[i]? = some r → r.stop ≤ index)
    (hhigh : ∀ i r, high ≤ i → runs[i]? = some r → index < r.stop) (hle : low ≤ high)
    (hlen : high ≤ runs.length) :
    (∀ i r, i < search runs index low high → runs[i]? = some r → r.stop ≤ index) ∧
      ∀ i r, search runs index low high ≤ i → runs[i]? = some r → index < r.stop := by
  induction low, high using search.induct runs index with
  | case1 low high h middle hm ih =>
    obtain ⟨m, hrm, hstop⟩ := any_stop_iff.1 hm
    rw [search, if_pos h, if_pos hm]
    refine ih (fun i r hi hr ↦ ?_) hhigh (by omega) hlen
    obtain rfl | hlt : i = middle ∨ i < middle := by omega
    · rw [hrm] at hr
      cases hr
      exact hstop
    · obtain ⟨hi', rfl⟩ := List.getElem?_eq_some_iff.1 hr
      obtain ⟨hm', rfl⟩ := List.getElem?_eq_some_iff.1 hrm
      exact Nat.le_trans (List.pairwise_iff_getElem.1 hp i middle hi' hm' hlt) hstop
  | case2 low high h middle hm ih =>
    rw [search, if_pos h, if_neg hm]
    refine ih hlow (fun i r hi hr ↦ ?_) (by omega) (by omega)
    have hlt : middle < runs.length := by omega
    have hstop : index < runs[middle].stop := by
      rw [any_stop_iff] at hm
      exact Nat.not_le.1 fun hs ↦ hm ⟨_, List.getElem?_eq_getElem hlt, hs⟩
    obtain ⟨hi', rfl⟩ := List.getElem?_eq_some_iff.1 hr
    obtain rfl | hlt' : i = middle ∨ middle < i := by omega
    · exact hstop
    · exact Nat.lt_of_lt_of_le hstop (List.pairwise_iff_getElem.1 hp middle i hlt hi' hlt')
  | case3 low high h =>
    rw [search, if_neg h]
    obtain rfl : low = high := by omega
    exact ⟨hlow, hhigh⟩

theorem colorAt?_eq_some_iff (h : Tiles start stop runs) :
    colorAt? runs index = some c ↔
      ∃ r ∈ runs, r.start ≤ index ∧ index < r.stop ∧ r.color = c := by
  have hp : runs.Pairwise fun a b ↦ a.stop ≤ b.stop := by
    refine h.pairwise.imp_of_mem fun {a b} _ hb hab ↦ ?_
    have := h.lt_of_mem hb
    omega
  obtain ⟨hbelow, habove⟩ := search_splits index hp
    (fun i r hi _ ↦ absurd hi (Nat.not_lt_zero i))
    (fun i r hi hr ↦ absurd (List.getElem?_eq_some_iff.1 hr).1 (Nat.not_lt.2 hi))
    (Nat.zero_le runs.length) (Nat.le_refl runs.length)
  rw [colorAt?]
  constructor
  · intro hc
    cases hk : runs[search runs index 0 runs.length]? with
    | none => rw [hk] at hc; cases hc
    | some r =>
      simp only [hk] at hc
      split at hc
      · next hs =>
        exact ⟨r, List.mem_of_getElem? hk, hs, habove _ r (Nat.le_refl _) hk, Option.some.inj hc⟩
      · cases hc
  · rintro ⟨r, hr, hs, he, rfl⟩
    obtain ⟨j, hj, rfl⟩ := List.getElem_of_mem hr
    have hkj : search runs index 0 runs.length ≤ j := by
      refine Nat.not_lt.1 fun hlt ↦ ?_
      have := hbelow j _ hlt (List.getElem?_eq_getElem hj)
      omega
    have hk : search runs index 0 runs.length = j := by
      obtain hlt | hk := Nat.lt_or_eq_of_le hkj
      · -- an earlier run that stops after the column would reach into this one
        have hlen := Nat.lt_trans hlt hj
        have h₁ := habove _ _ (Nat.le_refl _) (List.getElem?_eq_getElem hlen)
        have h₂ := List.pairwise_iff_getElem.1 h.pairwise _ j hlen hj hlt
        omega
      · exact hk
    rw [hk, List.getElem?_eq_getElem hj]
    exact if_pos hs

/-! ### Putting runs together -/

theorem tiles_prepend (hr : r.start < r.stop) (h : Tiles r.stop stop rest) :
    Tiles r.start stop (prepend r rest) := by
  cases rest with
  | nil => exact .cons hr h fun next hn ↦ by cases hn
  | cons next rest =>
    rw [prepend]
    split
    · next hc =>
      generalize hs : r.stop = s at h
      cases h with
      | cons hn ht hc' =>
        refine Tiles.cons (r := ⟨r.start, next.stop, r.color⟩) ?_ ht fun next' hn' ↦ ?_
        · show r.start < next.stop
          omega
        · rw [hc]
          exact hc' next' hn'
    · next hc =>
      refine .cons hr h fun next' hn ↦ ?_
      cases hn
      exact hc

theorem paints_prepend {color : Nat → Color} (h : Tiles r.stop stop rest)
    (hr : ∀ index, r.start ≤ index → index < r.stop → r.color = color index)
    (hp : Paints color rest) : Paints color (prepend r rest) := by
  cases rest with
  | nil => exact fun r' hr' ↦ by rw [List.mem_singleton.1 hr']; exact hr
  | cons next rest =>
    obtain ⟨hn, hrest⟩ := List.forall_mem_cons.1 hp
    rw [prepend]
    split
    · next hc =>
      refine List.forall_mem_cons.2 ⟨fun index hs he ↦ ?_, hrest⟩
      by_cases hi : index < r.stop
      · exact hr index hs hi
      · generalize r.stop = s at h hi
        cases h
        exact hc.trans (hn index (Nat.not_lt.1 hi) he)
    · exact List.forall_mem_cons.2 ⟨hr, hp⟩

theorem tiles_between (color : Nat → Color) {bounds : List Nat}
    (hp : (start :: bounds).Pairwise (· < ·)) :
    Tiles start (bounds.getLastD start) (between color (start :: bounds)) := by
  induction bounds generalizing start with
  | nil => exact .nil start
  | cons b bounds ih =>
    obtain ⟨hb, hp'⟩ := List.pairwise_cons.1 hp
    rw [List.getLastD_cons]
    exact tiles_prepend (r := ⟨start, b, color start⟩) (hb b List.mem_cons_self) (ih hp')

/-- A color that changes at bounds only is painted by the runs between them. -/
theorem paints_between {color : Nat → Color} {bounds : List Nat}
    (hp : (start :: bounds).Pairwise (· < ·))
    (hc : ∀ i j, start ≤ i → i ≤ j → (∀ b ∈ start :: bounds, b ≤ i ∨ j < b) → color i = color j) :
    Paints color (between color (start :: bounds)) := by
  induction bounds generalizing start with
  | nil => exact fun r hr ↦ by cases hr
  | cons b bounds ih =>
    obtain ⟨hb, hp'⟩ := List.pairwise_cons.1 hp
    have hlt := hb b List.mem_cons_self
    refine paints_prepend (tiles_between color hp') (fun j hj he ↦ ?_)
      (ih hp' fun i j hi hij h ↦ ?_)
    · refine hc start j (Nat.le_refl _) hj (List.forall_mem_cons.2 ⟨.inl (Nat.le_refl _), ?_⟩)
      refine List.forall_mem_cons.2 ⟨.inr he, fun b' hb' ↦ .inr ?_⟩
      exact Nat.lt_trans he ((List.pairwise_cons.1 hp').1 b' hb')
    · exact hc i j (by omega) hij (List.forall_mem_cons.2 ⟨.inl (by omega), h⟩)

end Run

namespace Label

theorem covers_congr {l : Label} {length i j : Nat} (hij : i ≤ j)
    (hs : min l.start length ≤ i ∨ j < min l.start length)
    (he : l.stopIn length ≤ i ∨ j < l.stopIn length) : l.covers i length = l.covers j length := by
  have := l.stopIn_le length
  rw [Bool.eq_iff_iff]
  simp only [covers, Bool.and_eq_true, decide_eq_true_eq]
  omega

end Label

namespace Run

variable {labels : List Label} {length : Nat}

theorem mem_bounds {b : Nat} : b ∈ bounds labels length ↔
    b = 0 ∨ b = length ∨ ∃ l ∈ labels, b = min l.start length ∨ b = l.stopIn length := by
  rw [bounds, Ascending.mem_ofList, List.mem_cons, List.mem_cons, List.mem_flatMap]
  simp only [List.mem_cons, List.not_mem_nil, or_false]

theorem le_of_mem_bounds {b : Nat} (h : b ∈ bounds labels length) : b ≤ length := by
  obtain rfl | rfl | ⟨l, -, rfl | rfl⟩ := mem_bounds.1 h
  · exact Nat.zero_le length
  · exact Nat.le_refl _
  · exact Nat.min_le_right _ _
  · exact l.stopIn_le length

theorem exists_bounds_eq (labels : List Label) (length : Nat) :
    ∃ rest, bounds labels length = 0 :: rest ∧ (0 :: rest).Pairwise (· < ·) ∧
      rest.getLastD 0 = length := by
  have hp : (bounds labels length).Pairwise (· < ·) := Ascending.pairwise_ofList _
  have hzero : 0 ∈ bounds labels length := mem_bounds.2 (.inl rfl)
  have hlength : length ∈ bounds labels length := mem_bounds.2 (.inr (.inl rfl))
  have hle : ∀ b ∈ bounds labels length, b ≤ length := fun b hb ↦ le_of_mem_bounds hb
  generalize bounds labels length = bs at *
  cases bs with
  | nil => cases hzero
  | cons b rest =>
    obtain rfl : 0 = b := by
      obtain h | h := List.mem_cons.1 hzero
      · exact h
      · exact absurd ((List.pairwise_cons.1 hp).1 0 h) (Nat.not_lt_zero b)
    refine ⟨rest, rfl, hp, Nat.le_antisymm (hle _ List.getLastD_mem_cons) ?_⟩
    exact Ascending.le_getLastD hp hlength

theorem tiles_and_paints_ofLabels (labels : List Label) (length : Nat) (root : Scheme) :
    Tiles 0 length (ofLabels labels length root) ∧
      Paints (fun i ↦ root.colorAt (labels.filter (·.covers i length)) (Label.activeIds labels))
        (ofLabels labels length root) := by
  obtain ⟨rest, hb, hp, hlast⟩ := exists_bounds_eq labels length
  rw [ofLabels]
  split
  · next h => exact ⟨h ▸ .nil 0, fun r hr ↦ by cases hr⟩
  · simp only [hb]
    refine ⟨hlast ▸ tiles_between _ hp, paints_between hp fun i j _ hij hbs ↦ ?_⟩
    -- the same labels cover columns with no bound between them
    rw [← hb] at hbs
    have hcov : labels.filter (·.covers i length) = labels.filter (·.covers j length) := by
      refine List.filter_congr fun l hl ↦ Label.covers_congr hij (hbs _ ?_) (hbs _ ?_)
      · exact mem_bounds.2 (.inr (.inr ⟨l, hl, .inl rfl⟩))
      · exact mem_bounds.2 (.inr (.inr ⟨l, hl, .inr rfl⟩))
    simp only [hcov]

/-- Runs cover a line without gap or overlap, neighbors differ in color, and what is found in
them at a column is the color that the labels covering it give. -/
theorem ofLabels_resolves (labels : List Label) (length : Nat) (root : Scheme) :
    Tiles 0 length (ofLabels labels length root) ∧
      ∀ index, colorAt? (ofLabels labels length root) index =
        if index < length then
          some (root.colorAt (labels.filter (·.covers index length)) (Label.activeIds labels))
        else none := by
  obtain ⟨ht, hp⟩ := tiles_and_paints_ofLabels labels length root
  refine ⟨ht, fun index ↦ ?_⟩
  split
  · next hi =>
    obtain ⟨r, hr, hs, he⟩ := ht.exists_mem (Nat.zero_le index) hi
    exact (colorAt?_eq_some_iff ht).2 ⟨r, hr, hs, he, hp r hr index hs he⟩
  · next hi =>
    refine Option.eq_none_iff_forall_ne_some.2 fun c hc ↦ hi ?_
    obtain ⟨r, hr, -, he, -⟩ := (colorAt?_eq_some_iff ht).1 hc
    exact Nat.lt_of_lt_of_le he (ht.within hr).2

end Run

end Highlighter
