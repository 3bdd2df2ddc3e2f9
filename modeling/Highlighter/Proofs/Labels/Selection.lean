import Highlighter.Label.Continuation
import Highlighter.Proofs.Labels.Containers
import Highlighter.Proofs.Labels.Twins

/-!
Leaving labels out. A selection that has with each label all that are around it is placed by itself
just as it is placed among all labels, and the same labels of it count and are handed on.
-/

namespace Highlighter.Label

variable {keep : Nat → Bool} {labels sources placed before : List Label} {l : Label} {length : Nat}

/-- The labels whose ids are selected. -/
def select (keep : Nat → Bool) (labels : List Label) : List Label :=
  labels.filter fun l ↦ keep l.id

/-- Whether with each label all that are around it are selected. -/
def IsClosed (keep : Nat → Bool) (placed : List Label) : Prop :=
  ∀ l ∈ placed, keep l.id = true → ∀ k ∈ l.containers, keep k = true

theorem mem_select : l ∈ select keep labels ↔ l ∈ labels ∧ keep l.id = true := List.mem_filter

theorem nodup_select (hn : (labels.map id).Nodup) : ((select keep labels).map id).Nodup :=
  hn.sublist (List.filter_sublist.map id)

/-! ### Placing a selection -/

theorem placeAfter_select
    (h : ∀ c ∈ before, c.holds length l = true → keep c.id = true) :
    placeAfter length (select keep before) l = placeAfter length before l := by
  have hfilter : (select keep before).filter (·.holds length l) =
      before.filter (·.holds length l) := by
    rw [select, List.filter_filter]
    refine List.filter_congr fun c hc ↦ ?_
    by_cases hh : c.holds length l = true
    · rw [hh, h c hc hh]
      rfl
    · rw [Bool.not_eq_true] at hh
      rw [hh]
      rfl
  rw [placeAfter, placeAfter, hfilter]

theorem select_snoc (keep : Nat → Bool) (labels : List Label) (l : Label) :
    select keep (labels ++ [l]) =
      if keep l.id then select keep labels ++ [l] else select keep labels := by
  rw [select, List.filter_append, List.filter_cons]
  split
  · rfl
  · exact List.append_nil _

theorem Placed.select (h : Placed length sources placed) (hkeep : IsClosed keep placed) :
    Placed length (select keep sources) (select keep placed) := by
  induction h with
  | nil => exact .nil
  | @snoc sources placed h l ih =>
    have hplaced := ih fun c hc ↦ hkeep c (List.mem_append_left _ hc)
    have hid : (placeAfter length placed l).id = l.id := rfl
    rw [select_snoc, select_snoc, hid]
    split
    · next hl =>
      have hbefore : ∀ c ∈ placed, c.holds length l = true → keep c.id = true := fun c hc hh ↦
        hkeep _ (List.mem_append_right _ (List.mem_singleton_self _)) hl c.id
          (mem_containers_placeAfter.2 ⟨c, hc, hh, rfl⟩)
      rw [← placeAfter_select hbefore]
      exact hplaced.snoc l
    · exact hplaced

/-- A selection is placed by itself as it is placed among all labels. -/
theorem place_select (hkeep : IsClosed keep (place labels length)) :
    place (select keep labels) length = select keep (place labels length) := by
  have hplaced : Placed length (Sorting.sort (fun a b ↦ (placing a b).isLE) labels)
      (place labels length) := Placed.nil.foldl _
  have hsort := Sorting.filter_sort (fun _ _ _ ↦ Std.TransCmp.isLE_trans) placing_total
    (fun l ↦ keep l.id) labels
  have hfold := (hplaced.select hkeep).foldl_eq
  rw [select, hsort] at hfold
  exact hfold

/-! ### What is left of a line -/

theorem counts_select_iff (hkeep : IsClosed keep placed) (hl : l ∈ placed)
    (hid : keep l.id = true) : Counts (select keep placed) l ↔ Counts placed l := by
  refine and_congr_right fun _ ↦ ⟨fun h c hc hmem ↦ ?_, fun h c hc ↦ ?_⟩
  · exact h c (mem_select.2 ⟨hc, hkeep l hl hid c.id hmem⟩) hmem
  · exact h c (mem_select.1 hc).1

/-- If all labels that count are selected, no others count among the selected ones. -/
theorem activeIds_select (hn : (labels.map id).Nodup) (hkeep : IsClosed keep (place labels length))
    (hactive : ∀ k ∈ activeIds (place labels length), keep k = true) :
    activeIds (select keep (place labels length)) = activeIds (place labels length) := by
  have hids : ((place labels length).map id).Nodup := nodup_map_id_place_iff.2 hn
  have hn' : ((select keep labels).map id).Nodup := nodup_select hn
  have hplaced := nested_place hn length
  have hselected := (nested_place hn' length).activeIds_eq (nodup_map_id_place_iff.2 hn')
  rw [place_select hkeep] at hselected
  rw [hselected, hplaced.activeIds_eq hids, select, List.filter_filter]
  refine congrArg (List.map id) (List.filter_congr fun l hl ↦ ?_)
  by_cases hid : keep l.id = true
  · rw [hid, Bool.and_true, decide_eq_decide]
    exact counts_select_iff hkeep hl hid
  · have hcounts : ¬Counts (place labels length) l := fun hcounts ↦
      hid (hactive l.id ((hplaced.mem_activeIds_iff hids hl).2 hcounts))
    rw [Bool.not_eq_true] at hid
    rw [hid, Bool.and_false, decide_eq_false hcounts]

theorem isNestedIn_select (h : ∀ k ∈ l.containers, keep k = true) :
    l.isNestedIn (select keep labels) = l.isNestedIn labels := by
  have hfind (k : Nat) (hk : keep k = true) :
      (select keep labels).reverse.find? (·.id == k) = labels.reverse.find? (·.id == k) := by
    rw [select, ← List.filter_reverse, List.find?_filter]
    congr 1
    funext c
    by_cases hc : c.id = k <;> simp [hc, hk]
  rw [Bool.eq_iff_iff, isNestedIn, isNestedIn, List.any_eq_true, List.any_eq_true]
  exact exists_congr fun k ↦ and_congr_right fun hk ↦ by rw [hfind k (h k hk)]

theorem isOfferedBy_select (h : ∀ k ∈ l.containers, keep k = true) :
    l.isOfferedBy (select keep labels) = l.isOfferedBy labels := by
  rw [isOfferedBy, isOfferedBy, isNestedIn_select h]

/-- If all regions that are handed on are selected, no others are handed on. -/
theorem offered_select (hkeep : IsClosed keep placed)
    (hoffered : ∀ l ∈ placed, l.isOfferedBy placed = true → keep l.id = true) :
    offered (select keep placed) = offered placed := by
  have hfilter : (placed.filter fun l ↦ keep l.id).filter (·.isOfferedBy (select keep placed)) =
      placed.filter (·.isOfferedBy placed) := by
    rw [List.filter_filter]
    refine List.filter_congr fun l hl ↦ ?_
    by_cases hid : keep l.id = true
    · rw [hid, Bool.and_true]
      exact isOfferedBy_select (hkeep l hl hid)
    · have hnot : l.isOfferedBy placed = false :=
        Bool.not_eq_true _ ▸ fun ho ↦ hid (hoffered l hl ho)
      rw [Bool.not_eq_true] at hid
      rw [hnot, hid, Bool.and_false]
  exact congrArg (List.foldl (fun cs l ↦ Continuations.add false l.continuation cs) []) hfilter

end Highlighter.Label
