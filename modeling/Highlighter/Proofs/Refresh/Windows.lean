import Highlighter.Proofs.Refresh.Generations
import Highlighter.Proofs.Refresh.Waiting

/-!
The windows of a refresh queue as generations. Whatever was done to a queue before, it answers what
a set of lines with generations answers.
-/

namespace Highlighter

open GenerationQueue

theorem Ascending.ofList_eq_self {l : List ℕ} (h : l.Pairwise (· < ·)) : ofList l = l := by
  have hperm : (ofList l).Perm l := by
    refine (List.perm_ext_iff_of_nodup ?_ (h.imp Nat.ne_of_lt)).2 fun k ↦ mem_ofList
    exact (pairwise_ofList l).imp Nat.ne_of_lt
  exact hperm.eq_of_pairwise (fun _ _ _ _ hlt hgt ↦ absurd hlt (Nat.lt_asymm hgt))
    (pairwise_ofList l) h

namespace Edit

theorem mapLine_lt_mapLine {e : Edit} {k l m n : ℕ} (hkl : k < l) (hk : e.mapLine k = some m)
    (hl : e.mapLine l = some n) : m < n := by
  cases e with
  | changed line =>
    cases hk
    cases hl
    exact hkl
  | inserted first count => grind [mapLine]
  | removed first count => grind [mapLine]

theorem mapLine_inj {e : Edit} {k l m : ℕ} (hk : e.mapLine k = some m)
    (hl : e.mapLine l = some m) : k = l := by
  obtain h | h | h := Nat.lt_trichotomy k l
  · exact absurd (mapLine_lt_mapLine h hk hl) (Nat.lt_irrefl m)
  · exact h
  · exact absurd (mapLine_lt_mapLine h hl hk) (Nat.lt_irrefl m)

end Edit

namespace RefreshQueue

/-- The entries of windows whose generations count up from the given one. -/
def entriesFrom : ℕ → List (List ℕ) → List Entry
  | _, [] => []
  | g, window :: rest => window.map (Entry.mk g) ++ entriesFrom (g + 1) rest

variable {q : RefreshQueue} {a : GenerationQueue} {windows : List (List ℕ)} {g k : ℕ} {e : Entry}

theorem map_line_entriesFrom (g : ℕ) (windows : List (List ℕ)) :
    (entriesFrom g windows).map Entry.line = windows.flatten := by
  induction windows generalizing g with
  | nil => rfl
  | cons window rest ih =>
    rw [entriesFrom, List.map_append, ih, List.map_map, List.flatten_cons]
    congr 1
    exact List.map_id window

theorem generation_of_mem_entriesFrom (h : e ∈ entriesFrom g windows) :
    g ≤ e.generation ∧ e.generation < g + windows.length := by
  induction windows generalizing g with
  | nil => cases h
  | cons window rest ih =>
    rw [List.length_cons]
    obtain h | h := List.mem_append.1 h
    · obtain ⟨k, -, rfl⟩ := List.mem_map.1 h
      dsimp only
      omega
    · have := ih h
      omega

theorem pairwise_entriesFrom (h : ∀ window ∈ windows, window.Pairwise (· < ·)) (g : ℕ) :
    (entriesFrom g windows).Pairwise (· < ·) := by
  induction windows generalizing g with
  | nil => exact .nil
  | cons window rest ih =>
    obtain ⟨hw, hr⟩ := List.forall_mem_cons.1 h
    refine List.pairwise_append.2 ⟨?_, ih hr (g + 1), fun e he e' he' ↦ ?_⟩
    · refine List.pairwise_map.2 (hw.imp fun {k l} hkl ↦ ?_)
      exact Entry.lt_iff.2 (.inr ⟨rfl, hkl⟩)
    · obtain ⟨k, -, rfl⟩ := List.mem_map.1 he
      exact Entry.lt_iff.2 (.inl (generation_of_mem_entriesFrom he').1)

theorem entriesFrom_append (g : ℕ) (windows : List (List ℕ)) (window : List ℕ) :
    entriesFrom g (windows ++ [window]) =
      entriesFrom g windows ++ window.map (Entry.mk (g + windows.length)) := by
  induction windows generalizing g with
  | nil => simp [entriesFrom]
  | cons w rest ih =>
    rw [List.cons_append, entriesFrom, ih, entriesFrom, List.append_assoc, List.length_cons,
      Nat.add_assoc g 1, Nat.add_comm 1]

theorem mem_entriesFrom_insertLast {n : ℕ} (hn : windows.length = n + 1) :
    e ∈ entriesFrom g (insertLast k windows) ↔ e = ⟨g + n, k⟩ ∨ e ∈ entriesFrom g windows := by
  induction windows using insertLast.induct generalizing g n with
  | case1 => cases hn
  | case2 window =>
    obtain rfl : n = 0 := (Nat.succ.inj hn).symm
    simp [insertLast, entriesFrom, Ascending.mem_insert, eq_comm]
  | case3 window next rest ih =>
    obtain ⟨n, rfl⟩ : ∃ i, n = i + 1 := ⟨rest.length, (Nat.succ.inj hn).symm⟩
    rw [insertLast, entriesFrom, List.mem_append, ih (Nat.succ.inj hn), or_left_comm,
      Nat.add_assoc g 1, Nat.add_comm 1, ← List.mem_append]
    rfl

theorem length_insertLast (k : ℕ) (window : List ℕ) (rest : List (List ℕ)) :
    (insertLast k (window :: rest)).length = rest.length + 1 := by
  induction rest generalizing window with
  | nil => rfl
  | cons next rest ih => rw [insertLast, List.length_cons, ih, List.length_cons]

/-- A line that is queued gets the current generation, also if that has no window yet. -/
theorem exists_entriesFrom_insertLast {first current : ℕ}
    (h : first + windows.length = current + 1) (k : ℕ) :
    ∃ first', first' + (insertLast k windows).length = current + 1 ∧
      ∀ e, e ∈ entriesFrom first' (insertLast k windows) ↔
        e = ⟨current, k⟩ ∨ e ∈ entriesFrom first windows := by
  cases windows with
  | nil => exact ⟨current, rfl, fun e ↦ by simp [insertLast, entriesFrom]⟩
  | cons window rest =>
    rw [List.length_cons] at h
    obtain rfl : first + rest.length = current := by omega
    refine ⟨first, by rw [length_insertLast]; omega, fun e ↦ ?_⟩
    exact mem_entriesFrom_insertLast List.length_cons

theorem length_eraseFirst (k : ℕ) (windows : List (List ℕ)) :
    (eraseFirst k windows).length = windows.length := by
  induction windows with
  | nil => rfl
  | cons window rest ih =>
    rw [eraseFirst]
    split
    · rfl
    · rw [List.length_cons, ih, List.length_cons]

theorem filter_map_entry (g k : ℕ) (window : List ℕ) :
    (window.map (Entry.mk g)).filter (·.line ≠ k) = (window.filter (· != k)).map (Entry.mk g) := by
  rw [List.filter_map]
  congr 1
  exact List.filter_congr fun l _ ↦ Bool.eq_iff_iff.2 (by simp)

theorem entriesFrom_eraseFirst (h : windows.flatten.Nodup) (g k : ℕ) :
    entriesFrom g (eraseFirst k windows) = (entriesFrom g windows).filter (·.line ≠ k) := by
  induction windows generalizing g with
  | nil => rfl
  | cons window rest ih =>
    rw [List.flatten_cons, List.nodup_append] at h
    obtain ⟨hw, hr, hdisjoint⟩ := h
    rw [eraseFirst, entriesFrom, List.filter_append, filter_map_entry]
    split
    · next hk =>
      -- no other window has the line
      have hk : k ∈ window := by simpa using hk
      have hrest : (entriesFrom (g + 1) rest).filter (·.line ≠ k) = entriesFrom (g + 1) rest := by
        refine List.filter_eq_self.2 fun e he ↦ ?_
        have hl : e.line ∈ rest.flatten := by
          rw [← map_line_entriesFrom (g + 1) rest]
          exact List.mem_map_of_mem he
        simpa using (hdisjoint k hk e.line hl).symm
      rw [entriesFrom, hw.erase_eq_filter, hrest]
    · next hk =>
      have hk : k ∉ window := by simpa using hk
      have hwindow : window.filter (· != k) = window := by
        refine List.filter_eq_self.2 fun l hl ↦ ?_
        simpa using ne_of_mem_of_not_mem hl hk
      rw [entriesFrom, ih hr, hwindow]

theorem mem_entriesFrom_filterMap {f : ℕ → Option ℕ} :
    e ∈ entriesFrom g (windows.map (·.filterMap f)) ↔
      ∃ e' ∈ entriesFrom g windows, e'.generation = e.generation ∧ f e'.line = some e.line := by
  induction windows generalizing g with
  | nil => simp [entriesFrom]
  | cons window rest ih =>
    have hwindow : e ∈ (window.filterMap f).map (Entry.mk g) ↔
        ∃ e' ∈ window.map (Entry.mk g), e'.generation = e.generation ∧ f e'.line = some e.line := by
      simp only [List.mem_map, List.mem_filterMap]
      constructor
      · rintro ⟨l, ⟨k, hk, hf⟩, rfl⟩
        exact ⟨⟨g, k⟩, ⟨k, hk, rfl⟩, rfl, hf⟩
      · rintro ⟨_, ⟨k, hk, rfl⟩, rfl, hf⟩
        exact ⟨e.line, ⟨k, hk, hf⟩, rfl⟩
    rw [List.map_cons, entriesFrom, entriesFrom, List.mem_append, ih, hwindow]
    simp only [List.mem_append, or_and_right, exists_or]

/-! ### Queues without repeated lines -/

/-- Whether no line is in a queue twice, and each window is in line order. -/
structure Tidy (q : RefreshQueue) : Prop where
  ascending : ∀ window ∈ q.windows, window.Pairwise (· < ·)
  nodup : q.toList.Nodup

theorem tidy_new : new.Tidy := ⟨nofun, .nil⟩

theorem ascending_insertLast (h : ∀ window ∈ windows, window.Pairwise (· < ·)) :
    ∀ window ∈ insertLast k windows, window.Pairwise (· < ·) := by
  induction windows using insertLast.induct with
  | case1 => simp [insertLast]
  | case2 window => simpa [insertLast] using Ascending.pairwise_insert (h window (by simp))
  | case3 window next rest ih =>
    obtain ⟨hw, hr⟩ := List.forall_mem_cons.1 h
    rw [insertLast]
    exact List.forall_mem_cons.2 ⟨hw, ih hr⟩

theorem nodup_insertLast (ha : ∀ window ∈ windows, window.Pairwise (· < ·))
    (h : windows.flatten.Nodup) (hk : k ∉ windows.flatten) :
    (insertLast k windows).flatten.Nodup := by
  induction windows using insertLast.induct with
  | case1 => simp [insertLast]
  | case2 window =>
    have hi := Ascending.pairwise_insert (n := k) (ha window (by simp))
    rw [insertLast, List.flatten_singleton]
    exact hi.imp Nat.ne_of_lt
  | case3 window next rest ih =>
    rw [List.flatten_cons, List.nodup_append] at h
    obtain ⟨hw, hr, hdisjoint⟩ := h
    rw [List.flatten_cons, List.mem_append, not_or] at hk
    rw [insertLast, List.flatten_cons, List.nodup_append]
    refine ⟨hw, ih (List.forall_mem_cons.1 ha).2 hr hk.2, fun i hi j hj ↦ ?_⟩
    obtain rfl | hj := mem_insertLast.1 hj
    · exact ne_of_mem_of_not_mem hi hk.1
    · exact hdisjoint i hi j hj

theorem Tidy.push (h : q.Tidy) (k : ℕ) : (q.push k).2.Tidy := by
  rw [RefreshQueue.push]
  split
  · exact h
  · next hk =>
    have hk : k ∉ q.toList := mt contains_iff_mem.2 hk
    split
    · exact ⟨ascending_insertLast h.ascending, nodup_insertLast h.ascending h.nodup hk⟩
    · refine ⟨fun window hw ↦ ?_, ?_⟩
      · obtain hw | hw := List.mem_append.1 hw
        · exact h.ascending window hw
        · rw [List.mem_singleton.1 hw]
          exact List.pairwise_singleton _ _
      · have hq : q.windows.flatten.Nodup := h.nodup
        simpa [toList, List.nodup_append, hq] using fun l hl ↦ ne_of_mem_of_not_mem hl hk

theorem Tidy.pop (h : q.Tidy) : q.pop.2.Tidy := by
  refine ⟨?_, toList_pop q ▸ h.nodup.sublist (List.tail_sublist _)⟩
  have ha := h.ascending
  rw [RefreshQueue.pop]
  generalize q.windows = windows at ha ⊢
  induction windows using popFrom.induct with
  | case1 => simp [popFrom]
  | case2 rest ih => exact ih (List.forall_mem_cons.1 ha).2
  | case3 line window rest =>
    obtain ⟨hw, hr⟩ := List.forall_mem_cons.1 ha
    exact List.forall_mem_cons.2 ⟨(List.pairwise_cons.1 hw).2, hr⟩

theorem Tidy.remove (h : q.Tidy) (k : ℕ) : (q.remove k).2.Tidy := by
  refine ⟨?_, toList_remove q k ▸ h.nodup.erase k⟩
  have ha := h.ascending
  rw [RefreshQueue.remove]
  split
  · generalize q.windows = windows at ha ⊢
    induction windows with
    | nil => simp [eraseFirst]
    | cons window rest ih =>
      obtain ⟨hw, hr⟩ := List.forall_mem_cons.1 ha
      rw [eraseFirst]
      split
      · exact List.forall_mem_cons.2 ⟨hw.sublist List.erase_sublist, hr⟩
      · exact List.forall_mem_cons.2 ⟨hw, ih hr⟩
  · exact ha

theorem Tidy.move (h : q.Tidy) (e : Edit) : (q.move e).Tidy := by
  constructor
  · intro window hw
    obtain ⟨before, hb, rfl⟩ := List.mem_map.1 hw
    exact (h.ascending before hb).filterMap e.mapLine fun _ _ hkl _ hk _ hl ↦
      Edit.mapLine_lt_mapLine hkl hk hl
  · rw [toList_move]
    exact h.nodup.filterMap fun _ _ _ hk hl ↦ Edit.mapLine_inj hk hl

theorem Tidy.pushAll (h : q.Tidy) (lines : List ℕ) : (q.pushAll lines).Tidy := by
  induction lines generalizing q with
  | nil => exact h
  | cons k lines ih => exact ih (h.push k)

theorem Tidy.popMany (h : q.Tidy) (n : ℕ) : (RefreshQueue.popMany n q).2.Tidy := by
  induction n generalizing q with
  | zero => exact h
  | succ n ih =>
    have hp := h.pop
    rw [RefreshQueue.popMany]
    split
    · next he => rwa [he] at hp
    · next he =>
      rw [he] at hp
      exact ih hp

/-- Where no sum is out of the machine words, lines move as they do in a document. -/
theorem Tidy.shift_eq (h : q.Tidy) {e : Edit} (he : q.overflows (.move e) = false) :
    q.shift e = q.move e := by
  have hmap : ∀ window ∈ q.windows, ∀ k ∈ window, e.mapWord k = e.mapLine k := by
    intro window hw k hk
    have hany := List.any_eq_false.1 he k (List.mem_flatten_of_mem hw hk)
    exact Edit.mapWord_eq_mapLine (Bool.eq_false_of_not_eq_true hany)
  have hwindows : q.windows.map (fun window ↦ Ascending.ofList (window.filterMap e.mapWord)) =
      q.windows.map (·.filterMap e.mapLine) := by
    refine List.map_congr_left fun window hw ↦ ?_
    rw [List.filterMap_congr (hmap window hw)]
    exact Ascending.ofList_eq_self ((h.move e).ascending _ (List.mem_map_of_mem hw))
  rw [shift, hwindows]
  rfl

/-! ### Windows as generations -/

/-- Whether the windows of a queue are the generations from the given one on. The last window is
the current generation as long as it takes lines, and else the one before that. -/
structure RefinesFrom (first : ℕ) (q : RefreshQueue) (a : GenerationQueue) : Prop where
  tidy : q.Tidy
  entries : ∀ e, e ∈ a.entries ↔ e ∈ entriesFrom first q.windows
  last : first + q.windows.length = a.current + q.collecting.toNat

def Refines (q : RefreshQueue) (a : GenerationQueue) : Prop := ∃ first, RefinesFrom first q a

theorem refines_empty (current : ℕ) : new.Refines ⟨∅, current⟩ :=
  ⟨current, tidy_new, by simp [new, entriesFrom], rfl⟩

namespace RefinesFrom

variable {first : ℕ}

theorem mem_lines (h : RefinesFrom first q a) : k ∈ a.lines ↔ k ∈ q.toList := by
  rw [toList, ← map_line_entriesFrom first, List.mem_map, lines, Finset.mem_image]
  exact exists_congr fun e ↦ and_congr_left fun _ ↦ h.entries e

theorem pairwise (h : RefinesFrom first q a) :
    (entriesFrom first q.windows).Pairwise (· < ·) := pairwise_entriesFrom h.tidy.ascending first

theorem push (h : RefinesFrom first q a) (k : ℕ) :
    (q.push k).1 = (a.push k).1 ∧ Refines (q.push k).2 (a.push k).2 := by
  have htidy := h.tidy.push k
  have hlast := h.last
  rw [RefreshQueue.push] at htidy ⊢
  rw [GenerationQueue.push]
  by_cases hk : k ∈ q.toList
  · rw [if_pos (contains_iff_mem.2 hk), if_pos (h.mem_lines.2 hk)]
    exact ⟨rfl, first, h⟩
  · have hc : ¬q.contains k = true := mt contains_iff_mem.1 hk
    rw [if_neg hc] at htidy ⊢
    rw [if_neg (mt h.mem_lines.1 hk)]
    split at htidy
    · next hcollecting =>
      rw [if_pos hcollecting]
      rw [hcollecting, Bool.toNat_true] at hlast
      obtain ⟨first', hlast', hentries⟩ := exists_entriesFrom_insertLast hlast k
      refine ⟨rfl, first', htidy, fun e ↦ ?_, ?_⟩
      · rw [hentries, Finset.mem_insert, h.entries]
      · rw [hcollecting, Bool.toNat_true]
        exact hlast'
    · next hcollecting =>
      rw [if_neg hcollecting]
      rw [Bool.eq_false_of_not_eq_true hcollecting, Bool.toNat_false, Nat.add_zero] at hlast
      refine ⟨rfl, first, htidy, fun e ↦ ?_, ?_⟩
      · rw [entriesFrom_append, hlast, List.mem_append, Finset.mem_insert, h.entries, or_comm]
        simp
      · rw [List.length_append, List.length_singleton, Bool.toNat_true, ← hlast, Nat.add_assoc]

theorem pop (h : RefinesFrom first q a) : q.pop.1 = a.pop.1 ∧ Refines q.pop.2 a.pop.2 := by
  obtain ⟨windows, collecting⟩ := q
  rw [RefreshQueue.pop]
  induction windows using popFrom.induct generalizing first with
  | case1 =>
    have hnone : a.next? = none := by
      refine dif_neg ?_
      rintro ⟨e, he⟩
      cases (h.entries e).1 he
    rw [GenerationQueue.pop, hnone]
    exact ⟨rfl, first, h⟩
  | case2 rest ih =>
    have htidy : Tidy ⟨rest, collecting⟩ :=
      ⟨(List.forall_mem_cons.1 h.tidy.ascending).2, h.tidy.nodup⟩
    have hlast : first + (rest.length + 1) = a.current + collecting.toNat := h.last
    have hnext : first + 1 + rest.length = a.current + collecting.toNat := by omega
    exact ih ⟨htidy, h.entries, hnext⟩
  | case3 line window rest =>
    have hmem : ⟨first, line⟩ ∈ a.entries := (h.entries _).2 List.mem_cons_self
    obtain ⟨hleast, -⟩ := List.pairwise_cons.1 h.pairwise
    have hnext : a.next? = some ⟨first, line⟩ := by
      refine next?_eq_some hmem fun e he ↦ ?_
      obtain rfl | he := List.mem_cons.1 ((h.entries e).1 he)
      · exact le_rfl
      · exact (hleast e he).le
    rw [GenerationQueue.pop, hnext]
    refine ⟨rfl, first, h.tidy.pop, fun e ↦ ?_, ?_⟩
    · rw [Finset.mem_erase, h.entries]
      constructor
      · rintro ⟨hne, he⟩
        exact (List.mem_cons.1 he).resolve_left hne
      · intro he
        exact ⟨(hleast e he).ne', List.mem_cons_of_mem _ he⟩
    · -- the current generation ends with the first line taken from the last window
      have hlast : first + (rest.length + 1) = a.current + collecting.toNat := h.last
      show first + (rest.length + 1) =
        (if first = a.current then a.current + 1 else a.current) +
          (collecting && !rest.isEmpty).toNat
      have hc := Bool.toNat_le collecting
      cases rest with
      | nil =>
        rw [List.length_nil] at hlast ⊢
        rw [List.isEmpty_nil, Bool.not_true, Bool.and_false, Bool.toNat_false]
        split <;> omega
      | cons next rest =>
        rw [List.length_cons] at hlast ⊢
        rw [List.isEmpty_cons, Bool.not_false, Bool.and_true, if_neg (by omega)]
        exact hlast

theorem remove (h : RefinesFrom first q a) (k : ℕ) :
    (q.remove k).1 = (a.remove k).1 ∧ Refines (q.remove k).2 (a.remove k).2 := by
  have htidy := h.tidy.remove k
  rw [RefreshQueue.remove] at htidy ⊢
  rw [GenerationQueue.remove]
  by_cases hk : k ∈ q.toList
  · have hc : q.contains k = true := contains_iff_mem.2 hk
    rw [if_pos hc] at htidy ⊢
    refine ⟨(decide_eq_true (h.mem_lines.2 hk)).symm, first, htidy, fun e ↦ ?_, ?_⟩
    · rw [Finset.mem_filter, h.entries, entriesFrom_eraseFirst h.tidy.nodup, List.mem_filter,
        decide_eq_true_iff]
    · rw [length_eraseFirst]
      exact h.last
  · rw [if_neg (mt contains_iff_mem.1 hk)]
    refine ⟨(decide_eq_false (mt h.mem_lines.1 hk)).symm, first, h.tidy, fun e ↦ ?_, h.last⟩
    rw [Finset.mem_filter, h.entries, and_iff_left_iff_imp]
    rintro he rfl
    exact hk (h.mem_lines.1 (Finset.mem_image_of_mem Entry.line ((h.entries e).2 he)))

theorem move (h : RefinesFrom first q a) (e : Edit) : Refines (q.move e) (a.move e) := by
  refine ⟨first, h.tidy.move e, fun e' ↦ ?_, ?_⟩
  · rw [mem_move_entries, RefreshQueue.move, mem_entriesFrom_filterMap]
    exact exists_congr fun e'' ↦ and_congr_left fun _ ↦ h.entries e''
  · rw [RefreshQueue.move, List.length_map, current_move]
    exact h.last

end RefinesFrom

theorem Refines.tidy (h : q.Refines a) : q.Tidy := h.elim fun _ h ↦ h.tidy

theorem Refines.mem_lines (h : q.Refines a) : k ∈ a.lines ↔ k ∈ q.toList :=
  h.elim fun _ h ↦ h.mem_lines

theorem Refines.overflows_iff (h : q.Refines a) (s : Step) :
    q.overflows s = true ↔ a.Overflows s := by
  have hany (p : ℕ → Prop) : (∃ k ∈ q.toList, p k) ↔ ∃ e ∈ a.entries, p e.line := by
    simp only [← h.mem_lines, lines, Finset.mem_image, exists_exists_and_eq_and]
  cases s with
  | push | pop | contains | remove | clear => exact iff_of_false nofun id
  | move e =>
    rw [overflows, List.any_eq_true]
    cases e with
    | changed line => exact iff_of_false (by simp [Edit.overflows]) id
    | inserted first count =>
      simp only [Edit.overflows, decide_eq_true_iff]
      exact hany fun k ↦ first ≤ k ∧ wordSize ≤ k + count
    | removed first count =>
      simp only [Edit.overflows, decide_eq_true_iff, Overflows, ← and_assoc, exists_and_right]
      rw [hany, and_comm]

theorem Refines.perform (h : q.Refines a) {s : Step} (hs : ¬a.Overflows s) :
    (q.perform s).1 = (a.perform s).1 ∧ Refines (q.perform s).2 (a.perform s).2 := by
  have hoverflows := mt (h.overflows_iff s).1 hs
  obtain ⟨first, h⟩ := h
  cases s with
  | push k =>
    obtain ⟨hanswer, hr⟩ := h.push k
    exact ⟨congrArg Answer.flag hanswer, hr⟩
  | pop =>
    obtain ⟨hanswer, hr⟩ := h.pop
    exact ⟨congrArg Answer.next hanswer, hr⟩
  | contains k =>
    have hk : q.contains k = decide (k ∈ a.lines) := by
      rw [Bool.eq_iff_iff, decide_eq_true_iff, contains_iff_mem, h.mem_lines]
    exact ⟨congrArg Answer.flag hk, first, h⟩
  | remove k =>
    obtain ⟨hanswer, hr⟩ := h.remove k
    exact ⟨congrArg Answer.flag hanswer, hr⟩
  | move e =>
    have hshift := h.tidy.shift_eq (Bool.eq_false_of_not_eq_true hoverflows)
    exact ⟨rfl, (hshift ▸ h.move e : Refines (q.shift e) (a.move e))⟩
  | clear => exact ⟨rfl, refines_empty a.current⟩

theorem after?_cons (q : RefreshQueue) (s : Step) (steps : List Step) :
    q.after? (s :: steps) = if q.overflows s then none else (q.perform s).2.after? steps := by
  rw [after?, List.foldlM_cons, perform?]
  split <;> rfl

/-- Both end with the same step, or neither does. -/
theorem Refines.after? (h : q.Refines a) (steps : List Step) :
    q.after? steps = none ∧ a.after? steps = none ∨
      ∃ a', a.after? steps = some a' ∧ q.after? steps = some (q.after steps) ∧
        Refines (q.after steps) a' := by
  induction steps generalizing q a with
  | nil => exact .inr ⟨a, rfl, rfl, h⟩
  | cons s steps ih =>
    rw [after?_cons, GenerationQueue.after?_cons]
    by_cases hs : a.Overflows s
    · rw [if_pos hs, if_pos ((h.overflows_iff s).2 hs)]
      exact .inl ⟨rfl, rfl⟩
    · rw [if_neg hs, if_neg (mt (h.overflows_iff s).1 hs)]
      exact ih (h.perform hs).2

theorem Refines.size_eq (h : q.Refines a) : q.size = a.entries.card := by
  obtain ⟨first, h⟩ := h
  have hentries : a.entries = (entriesFrom first q.windows).toFinset := by
    ext e
    rw [h.entries, List.mem_toFinset]
  rw [size, toList, ← map_line_entriesFrom first, List.length_map, hentries,
    List.toFinset_card_of_nodup (h.pairwise.imp ne_of_lt)]

theorem Refines.isEmpty_iff (h : q.Refines a) : q.isEmpty = true ↔ a.entries = ∅ := by
  rw [RefreshQueue.isEmpty_iff, ← Finset.card_eq_zero, ← h.size_eq, size, List.length_eq_zero_iff]

/-- Lines to be removed that reach out of the machine words: unchecked, a line behind them stays. -/
example : new.after? [.push 7, .move (.removed 1 (wordSize - 1))] = none ∧
    (new.after [.push 7, .move (.removed 1 (wordSize - 1))]).toList = [8] := by decide

end RefreshQueue

end Highlighter
