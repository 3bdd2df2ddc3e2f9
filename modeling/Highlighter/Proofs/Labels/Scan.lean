import Highlighter.Regions
import Highlighter.Proofs.Labels.Delimiters

/-!
Delimiters are paired by a scan from left to right: again and again the leftmost opening after the
last region opens the next one, up to the first closing delimiter of its own rule.
-/

namespace Highlighter

namespace Opening

/-- The leftmost of some openings, and of those at one place the first in the order of the
rules. -/
def first? : List Opening → Option Opening
  | [] => none
  | o :: rest =>
    match first? rest with
    | none => some o
    | some p => if o.le p then some o else some p

/-- The leftmost of the openings that each rule has next from a column on. -/
def next? (markers : List (List Opening)) (cursor : Nat) : Option Opening :=
  first? (markers.filterMap fun l ↦ l.find? fun o ↦ decide (cursor ≤ o.label.matched.1))

/-- The scan, step by step, from a column on. -/
inductive Scans (markers : List (List Opening)) : Nat → List Label → Prop
  | done {cursor : Nat} (h : next? markers cursor = none) : Scans markers cursor []
  | closed {cursor next : Nat} {o : Opening} {region : Label} {rest : List Label}
      (ho : next? markers cursor = some o)
      (hc : o.label.close o.label.matched.2 o.closings = (region, some next))
      (hs : Scans markers next rest) : Scans markers cursor (region :: rest)
  | leftOpen {cursor : Nat} {o : Opening} {region : Label} (ho : next? markers cursor = some o)
      (hc : o.label.close o.label.matched.2 o.closings = (region, none)) :
      Scans markers cursor [region]

variable {o p q : Opening} {l l' : List Opening} {markers : List (List Opening)} {cursor : Nat}

theorem le_iff : o.le p = true ↔ o.label.matched.1 < p.label.matched.1 ∨
    o.label.matched.1 = p.label.matched.1 ∧ o.label.order ≤ p.label.order := by
  simp [le]

theorem le_refl (o : Opening) : o.le o = true := le_iff.2 (.inr ⟨rfl, Nat.le_refl _⟩)

theorem le_trans (h : o.le p = true) (h' : p.le q = true) : o.le q = true := by
  rw [le_iff] at *
  omega

theorem le_total (o p : Opening) : (o.le p || p.le o) = true := by
  rw [Bool.or_eq_true, le_iff, le_iff]
  omega

theorem first?_eq_none_iff : first? l = none ↔ l = [] := by
  cases l with
  | nil => simp [first?]
  | cons o l =>
    rw [first?]
    split
    · simp
    · split <;> simp

theorem first?_eq_some (h : first? l = some o) : o ∈ l ∧ ∀ p ∈ l, o.le p = true := by
  induction l generalizing o with
  | nil => cases h
  | cons q l ih =>
    rw [first?] at h
    split at h
    · next hn =>
      cases h
      rw [first?_eq_none_iff.1 hn]
      exact ⟨List.mem_cons_self, fun p hp ↦ List.mem_singleton.1 hp ▸ le_refl _⟩
    · next p hp =>
      obtain ⟨hm, hle⟩ := ih hp
      split at h
      · next hq =>
        cases h
        refine ⟨List.mem_cons_self, List.forall_mem_cons.2 ⟨le_refl _, fun p' hp' ↦ ?_⟩⟩
        exact le_trans hq (hle p' hp')
      · next hq =>
        cases h
        refine ⟨List.mem_cons_of_mem _ hm, List.forall_mem_cons.2 ⟨?_, hle⟩⟩
        have := le_total q o
        rw [Bool.or_eq_true] at this
        exact this.resolve_left hq

theorem next?_eq_none_iff :
    next? markers cursor = none ↔ ∀ o ∈ markers.flatten, o.label.matched.1 < cursor := by
  rw [next?, first?_eq_none_iff, List.filterMap_eq_nil_iff]
  simp only [List.find?_eq_none, List.mem_flatten, decide_eq_true_eq, Nat.not_le]
  constructor
  · rintro h o ⟨l, hl, ho⟩
    exact h l hl o ho
  · exact fun h l hl o ho ↦ h o ⟨l, hl, ho⟩

/-- The openings of several rules, as they lie in a text. -/
structure Found (offset : Nat) (markers : List (List Opening)) : Prop where
  openings : ∀ l ∈ markers, Label.InOrder offset (l.map label)
  closings : ∀ l ∈ markers, ∀ o ∈ l, Label.InOrder offset o.closings
  sameClosings : ∀ l ∈ markers, ∀ o ∈ l, ∀ p ∈ l, o.closings = p.closings
  sameOrder : ∀ l ∈ markers, ∀ o ∈ l, ∀ p ∈ l, o.label.order = p.label.order
  sameRule : ∀ l ∈ markers, ∀ l' ∈ markers, ∀ o ∈ l, ∀ p ∈ l',
    o.label.order = p.label.order → l = l'
  opening : ∀ l ∈ markers, ∀ o ∈ l, o.label.kind = .opening

namespace Found

variable {offset : Nat}

theorem from_le (h : Found offset markers) (ho : o ∈ markers.flatten) :
    offset ≤ o.label.matched.1 := by
  obtain ⟨l, hl, ho⟩ := List.mem_flatten.1 ho
  exact (h.openings l hl).from_le _ (List.mem_map_of_mem ho)

theorem nonempty (h : Found offset markers) (ho : o ∈ markers.flatten) :
    o.label.matched.1 < o.label.matched.2 := by
  obtain ⟨l, hl, ho⟩ := List.mem_flatten.1 ho
  exact (h.openings l hl).nonempty _ (List.mem_map_of_mem ho)

theorem inOrder_closings (h : Found offset markers) (ho : o ∈ markers.flatten) :
    Label.InOrder offset o.closings := by
  obtain ⟨l, hl, ho⟩ := List.mem_flatten.1 ho
  exact h.closings l hl o ho

theorem eq_of_le (h : Found offset markers) (ho : o ∈ markers.flatten) (hp : p ∈ markers.flatten)
    (hop : o.le p = true) (hpo : p.le o = true) : o = p := by
  have hm : o.label.matched.1 = p.label.matched.1 ∧ o.label.order = p.label.order := by
    rw [le_iff] at hop hpo
    omega
  obtain ⟨l, hl, ho⟩ := List.mem_flatten.1 ho
  obtain ⟨l', hl', hp⟩ := List.mem_flatten.1 hp
  obtain rfl := h.sameRule l hl l' hl' o ho p hp hm.2
  have hlabel : o.label = p.label :=
    (h.openings l hl).eq_of_matched (List.mem_map_of_mem ho) (List.mem_map_of_mem hp) hm.1
  cases o
  cases p
  cases hlabel
  cases h.sameClosings l hl _ ho _ hp
  rfl

theorem le_of_find? (h : Found offset markers) (hl : l ∈ markers)
    (ho : l.find? (fun o ↦ decide (cursor ≤ o.label.matched.1)) = some o) (hp : p ∈ l)
    (hc : cursor ≤ p.label.matched.1) : o.le p = true := by
  have hf : (l.map label).find? (fun l ↦ decide (cursor ≤ l.matched.1)) = some o.label := by
    rw [List.find?_map]
    exact congrArg (Option.map label) ho
  have hle := (h.openings l hl).le_of_find? hf (List.mem_map_of_mem hp) hc
  have hs := h.sameOrder l hl o (List.mem_of_find?_eq_some ho) p hp
  rw [le_iff]
  omega

theorem of_next?_eq_some (h : Found offset markers) (ho : next? markers cursor = some o) :
    o ∈ markers.flatten ∧ cursor ≤ o.label.matched.1 ∧
      ∀ p ∈ markers.flatten, cursor ≤ p.label.matched.1 → o.le p = true := by
  obtain ⟨hm, hle⟩ := first?_eq_some ho
  obtain ⟨l, hl, hf⟩ := List.mem_filterMap.1 hm
  refine ⟨List.mem_flatten.2 ⟨l, hl, List.mem_of_find?_eq_some hf⟩, ?_, fun p hp hc ↦ ?_⟩
  · simpa using List.find?_some hf
  · obtain ⟨l', hl', hp⟩ := List.mem_flatten.1 hp
    obtain ⟨q, hq⟩ : ∃ q, l'.find? (fun o ↦ decide (cursor ≤ o.label.matched.1)) = some q := by
      rw [← Option.isSome_iff_exists, List.find?_isSome]
      exact ⟨p, hp, decide_eq_true hc⟩
    exact le_trans (hle q (List.mem_filterMap.2 ⟨l', hl', hq⟩)) (h.le_of_find? hl' hq hp hc)

theorem next?_eq_some_iff (h : Found offset markers) : next? markers cursor = some o ↔
    o ∈ markers.flatten ∧ cursor ≤ o.label.matched.1 ∧
      ∀ p ∈ markers.flatten, cursor ≤ p.label.matched.1 → o.le p = true := by
  refine ⟨h.of_next?_eq_some, fun ⟨ho, hc, hle⟩ ↦ ?_⟩
  cases hn : next? markers cursor with
  | none =>
    have := next?_eq_none_iff.1 hn o ho
    omega
  | some p =>
    obtain ⟨hp, hc', hle'⟩ := h.of_next?_eq_some hn
    rw [h.eq_of_le ho hp (hle p hp hc') (hle' o ho hc)]

end Found

end Opening

namespace Label

/-- How far a region reaches that starts with a label: up to the leftmost closing delimiter at or
after a column, and up to the end of the line if there is none. -/
inductive ClosedFrom (l : Label) (from_ : Nat) (closings : List Label) : Label → Prop
  | column {c : Label} (hc : c ∈ closings) (hf : from_ ≤ c.matched.1)
      (hleast : ∀ c' ∈ closings, from_ ≤ c'.matched.1 → c.matched.1 ≤ c'.matched.1) :
      ClosedFrom l from_ closings
        { l with stop := .column (max (c.stop.resolve maxOffset) l.start)
                 matched := (l.matched.1, c.matched.2) }
  | lineEnd (h : ∀ c ∈ closings, c.matched.1 < from_) :
      ClosedFrom l from_ closings { l with stop := .lineEnd }

/-- Whether an opening delimiter lies inside a region that was there before it: one further to the
left, or at the same place an inherited one or one of an earlier rule. -/
def Claims (region start : Label) : Prop :=
  (region.matched.1 < start.matched.1 ∨ region.matched.1 = start.matched.1 ∧
    (region.kind = .continued ∨ region.order < start.order)) ∧
  (region.stop = .lineEnd ∨ start.matched.1 < region.matched.2)

variable {l region : Label} {from_ offset next : Nat} {closings : List Label} {result : Option Nat}

theorem ClosedFrom.exists_eq (h : l.ClosedFrom from_ closings region) :
    ∃ stop matchedEnd, region = { l with stop, matched := (l.matched.1, matchedEnd) } := by
  cases h with
  | column => exact ⟨_, _, rfl⟩
  | lineEnd => exact ⟨_, l.matched.2, rfl⟩

theorem ClosedFrom.kind (h : l.ClosedFrom from_ closings region) : region.kind = l.kind := by
  obtain ⟨_, _, rfl⟩ := h.exists_eq
  rfl

theorem ClosedFrom.key (h : l.ClosedFrom from_ closings region) : region.key = l.key := by
  obtain ⟨_, _, rfl⟩ := h.exists_eq
  rfl

theorem ClosedFrom.order (h : l.ClosedFrom from_ closings region) : region.order = l.order := by
  obtain ⟨_, _, rfl⟩ := h.exists_eq
  rfl

theorem ClosedFrom.matched (h : l.ClosedFrom from_ closings region) :
    region.matched.1 = l.matched.1 := by
  obtain ⟨_, _, rfl⟩ := h.exists_eq
  rfl

theorem closedFrom_close (h : InOrder offset closings)
    (hc : l.close from_ closings = (region, result)) : l.ClosedFrom from_ closings region := by
  rw [close] at hc
  split at hc
  · next c hf =>
    cases hc
    exact .column (List.mem_of_find?_eq_some hf) (by simpa using List.find?_some hf)
      fun c' hc' hle ↦ h.le_of_find? hf hc' hle
  · next hf =>
    cases hc
    exact .lineEnd fun c hc ↦ by simpa using List.find?_eq_none.1 hf c hc

theorem close_eq_some (h : InOrder offset closings)
    (hc : l.close from_ closings = (region, some next)) :
    region.matched.2 = next ∧ region.stop ≠ .lineEnd ∧ from_ < next := by
  rw [close] at hc
  split at hc
  · next c hf =>
    cases hc
    have hle : from_ ≤ c.matched.1 := by simpa using List.find?_some hf
    have := h.nonempty c (List.mem_of_find?_eq_some hf)
    exact ⟨rfl, by simp, by omega⟩
  · cases hc

theorem close_eq_none (hc : l.close from_ closings = (region, none)) : region.stop = .lineEnd := by
  rw [close] at hc
  split at hc
  · cases hc
  · cases hc
    rfl

end Label

namespace Opening

variable {offset cursor : Nat} {markers : List (List Opening)} {regions : List Label}

/-- The walk through the sorted openings is the scan. -/
theorem Found.scans_pairFrom (h : Found offset markers) {rest : List Opening}
    (hm : ∀ o ∈ rest, o ∈ markers.flatten)
    (hr : ∀ o ∈ markers.flatten, cursor ≤ o.label.matched.1 → o ∈ rest)
    (hp : rest.Pairwise fun o p ↦ o.le p = true) :
    Scans markers cursor (Label.pairFrom cursor rest) := by
  induction rest generalizing cursor with
  | nil =>
    refine .done (next?_eq_none_iff.2 fun o ho ↦ Nat.not_le.1 fun hc ↦ ?_)
    cases hr o ho hc
  | cons o rest ih =>
    obtain ⟨ho, hm'⟩ := List.forall_mem_cons.1 hm
    obtain ⟨hle, hp'⟩ := List.pairwise_cons.1 hp
    -- what lies after this opening is in the rest
    have hr' {next : Nat} (hn : o.label.matched.1 < next) (hc : cursor ≤ next) :
        ∀ p ∈ markers.flatten, next ≤ p.label.matched.1 → p ∈ rest := by
      intro p hp hnp
      obtain rfl | hp' := List.mem_cons.1 (hr p hp (Nat.le_trans hc hnp))
      · omega
      · exact hp'
    rw [Label.pairFrom]
    split
    · next hc => exact ih hm' (hr' hc (Nat.le_refl _)) hp'
    · next hc =>
      have hnext : next? markers cursor = some o := by
        refine h.next?_eq_some_iff.2 ⟨ho, Nat.not_lt.1 hc, fun p hp hcp ↦ ?_⟩
        obtain rfl | hp := List.mem_cons.1 (hr p hp hcp)
        · exact le_refl _
        · exact hle p hp
      split
      · next region next hclose =>
        have hgt := (Label.close_eq_some (h.inOrder_closings ho) hclose).2.2
        have hne := h.nonempty ho
        exact .closed hnext hclose (ih hm' (hr' (by omega) (by omega)) hp')
      · next region hclose => exact .leftOpen hnext hclose

theorem Scans.eq {regions' : List Label} (h : Scans markers cursor regions)
    (h' : Scans markers cursor regions') : regions = regions' := by
  induction h generalizing regions' with
  | done hn =>
    cases h' with
    | done => rfl
    | closed ho => rw [hn] at ho; cases ho
    | leftOpen ho => rw [hn] at ho; cases ho
  | closed ho hc _ ih =>
    cases h' with
    | done hn => rw [ho] at hn; cases hn
    | closed ho' hc' hs' =>
      cases ho.symm.trans ho'
      cases hc.symm.trans hc'
      rw [ih hs']
    | leftOpen ho' hc' =>
      cases ho.symm.trans ho'
      cases hc.symm.trans hc'
  | leftOpen ho hc =>
    cases h' with
    | done hn => rw [ho] at hn; cases hn
    | closed ho' hc' =>
      cases ho.symm.trans ho'
      cases hc.symm.trans hc'
    | leftOpen ho' hc' =>
      cases ho.symm.trans ho'
      cases hc.symm.trans hc'
      rfl

/-! ### What a scan yields -/

theorem Scans.from_le (h : Found offset markers) (hs : Scans markers cursor regions) :
    ∀ region ∈ regions, cursor ≤ region.matched.1 := by
  induction hs with
  | done => exact fun _ hr ↦ by cases hr
  | closed ho hc hs ih =>
    obtain ⟨hm, hle, -⟩ := h.of_next?_eq_some ho
    have hclosed := Label.closedFrom_close (h.inOrder_closings hm) hc
    have hgt := (Label.close_eq_some (h.inOrder_closings hm) hc).2.2
    have hne := h.nonempty hm
    refine List.forall_mem_cons.2 ⟨hclosed.matched ▸ hle, fun region hr ↦ ?_⟩
    have := ih region hr
    omega
  | leftOpen ho hc =>
    obtain ⟨hm, hle, -⟩ := h.of_next?_eq_some ho
    have hclosed := Label.closedFrom_close (h.inOrder_closings hm) hc
    intro region hr
    rw [List.mem_singleton.1 hr, hclosed.matched]
    exact hle

theorem Scans.pairwise (h : Found offset markers) (hs : Scans markers cursor regions) :
    regions.Pairwise fun a b ↦ a.matched.2 ≤ b.matched.1 := by
  induction hs with
  | done => exact .nil
  | closed ho hc hs ih =>
    have hm := (h.of_next?_eq_some ho).1
    have hnext := (Label.close_eq_some (h.inOrder_closings hm) hc).1
    refine List.pairwise_cons.2 ⟨fun b hb ↦ ?_, ih⟩
    rw [hnext]
    exact hs.from_le h b hb
  | leftOpen => exact List.pairwise_singleton _ _

theorem Scans.eq_last (h : Found offset markers) (hs : Scans markers cursor regions) :
    ∀ i region, regions[i]? = some region → region.stop = .lineEnd → i + 1 = regions.length := by
  induction hs with
  | done => exact fun _ _ hr ↦ by cases hr
  | closed ho hc hs ih =>
    have hm := (h.of_next?_eq_some ho).1
    intro i region hr hstop
    cases i with
    | zero =>
      cases hr
      exact absurd hstop (Label.close_eq_some (h.inOrder_closings hm) hc).2.1
    | succ i => exact congrArg (· + 1) (ih i region hr hstop)
  | leftOpen =>
    intro i region hr _
    cases i with
    | zero => rfl
    | succ i => cases hr

/-- Each region starts with an opening of which none at its place has precedence. -/
theorem Scans.exists_opening (h : Found offset markers) (hs : Scans markers cursor regions) :
    ∀ region ∈ regions, ∃ o ∈ markers.flatten,
      o.label.ClosedFrom o.label.matched.2 o.closings region ∧
        ∀ p ∈ markers.flatten, p.label.matched.1 = o.label.matched.1 →
          o.label.order ≤ p.label.order := by
  have hfirst {cursor : Nat} {o : Opening} {region : Label} {result : Option Nat}
      (ho : next? markers cursor = some o)
      (hc : o.label.close o.label.matched.2 o.closings = (region, result)) :
      ∃ o ∈ markers.flatten, o.label.ClosedFrom o.label.matched.2 o.closings region ∧
        ∀ p ∈ markers.flatten, p.label.matched.1 = o.label.matched.1 →
          o.label.order ≤ p.label.order := by
    obtain ⟨hm, hle, hleast⟩ := h.of_next?_eq_some ho
    refine ⟨o, hm, Label.closedFrom_close (h.inOrder_closings hm) hc, fun p hp he ↦ ?_⟩
    have := le_iff.1 (hleast p hp (he ▸ hle))
    omega
  induction hs with
  | done => exact fun _ hr ↦ by cases hr
  | closed ho hc hs ih => exact List.forall_mem_cons.2 ⟨hfirst ho hc, ih⟩
  | leftOpen ho hc =>
    intro region hr
    rw [List.mem_singleton.1 hr]
    exact hfirst ho hc

theorem Scans.covered (h : Found offset markers) (hs : Scans markers cursor regions) :
    ∀ o ∈ markers.flatten, cursor ≤ o.label.matched.1 →
      (∃ region ∈ regions, o.label.ClosedFrom o.label.matched.2 o.closings region) ∨
        ∃ region ∈ regions, region.Claims o.label := by
  -- the opening taken at a step, or one inside the region that it opens
  have hfirst {cursor : Nat} {o q : Opening} {region : Label} {result : Option Nat}
      (hq : next? markers cursor = some q)
      (hc : q.label.close q.label.matched.2 q.closings = (region, result))
      (ho : o ∈ markers.flatten) (hle : cursor ≤ o.label.matched.1)
      (hin : region.stop = .lineEnd ∨ o.label.matched.1 < region.matched.2) :
      o.label.ClosedFrom o.label.matched.2 o.closings region ∨ region.Claims o.label := by
    obtain ⟨hm, -, hleast⟩ := h.of_next?_eq_some hq
    have hclosed := Label.closedFrom_close (h.inOrder_closings hm) hc
    have hqo := hleast o ho hle
    by_cases hoq : o.le q = true
    · rw [h.eq_of_le ho hm hoq hqo]
      exact .inl hclosed
    · refine .inr ⟨?_, hin⟩
      rw [hclosed.matched, hclosed.order]
      rw [le_iff] at hqo hoq
      omega
  induction hs with
  | done hn =>
    intro o ho hle
    have := next?_eq_none_iff.1 hn o ho
    omega
  | @closed cursor next q region rest hq hc hs ih =>
    intro o ho hle
    have hm := (h.of_next?_eq_some hq).1
    have hnext := (Label.close_eq_some (h.inOrder_closings hm) hc).1
    by_cases hlt : o.label.matched.1 < next
    · obtain hr | hr := hfirst hq hc ho hle (.inr (hnext ▸ hlt))
      · exact .inl ⟨region, List.mem_cons_self, hr⟩
      · exact .inr ⟨region, List.mem_cons_self, hr⟩
    · obtain ⟨r, hr, h'⟩ | ⟨r, hr, h'⟩ := ih o ho (Nat.not_lt.1 hlt)
      · exact .inl ⟨r, List.mem_cons_of_mem _ hr, h'⟩
      · exact .inr ⟨r, List.mem_cons_of_mem _ hr, h'⟩
  | @leftOpen cursor q region hq hc =>
    intro o ho hle
    obtain hr | hr := hfirst hq hc ho hle (.inl (Label.close_eq_none hc))
    · exact .inl ⟨region, List.mem_singleton_self region, hr⟩
    · exact .inr ⟨region, List.mem_singleton_self region, hr⟩

theorem Scans.kind_ne (h : Found offset markers) (hs : Scans markers cursor regions) :
    ∀ region ∈ regions, region.kind ≠ .continued := by
  intro region hr hk
  obtain ⟨o, ho, hc, -⟩ := hs.exists_opening h region hr
  obtain ⟨l, hl, ho⟩ := List.mem_flatten.1 ho
  rw [hc.kind, h.opening l hl o ho] at hk
  cases hk

end Opening

end Highlighter
