import Highlighter.Proofs.Labels.Scan

/-!
The regions of a precedence entry are paired as a scan from left to right pairs them, after the one
that the line before left open.
-/

namespace Highlighter.Scheme

open Opening

variable {s : Scheme} {offset : Nat} {t : Text} {inherited : Continuations} {entry : Precedence}
variable {order : Nat} {r : Rule}

theorem getElem?_of_mem_delimitedRules (h : (order, r) ∈ s.delimitedRules entry) :
    s.rules[order]? = some r := by
  rw [delimitedRules, Sorting.mem_sort] at h
  obtain ⟨name, -, hn⟩ := List.mem_filterMap.1 h
  simp only [Option.bind_eq_bind, Option.bind_eq_some_iff] at hn
  obtain ⟨order', -, r', hr, hn⟩ := hn
  split at hn
  · cases hn
    exact hr
  · cases hn

theorem mem_flatten_openings {o : Opening} : o ∈ (s.openings offset t entry).flatten ↔
    ∃ order r, (order, r) ∈ s.delimitedRules entry ∧
      o.label ∈ r.openings s.name order offset t ∧
      o.closings = r.closings s.name order offset t := by
  rw [openings, ← List.flatMap_def, List.mem_flatMap]
  constructor
  · rintro ⟨⟨order, r⟩, hr, ho⟩
    obtain ⟨start, hs, rfl⟩ := List.mem_map.1 ho
    exact ⟨order, r, hr, hs, rfl⟩
  · rintro ⟨order, r, hr, ho, hc⟩
    exact ⟨(order, r), hr, List.mem_map.2 ⟨o.label, ho, by rw [← hc]⟩⟩

theorem found_openings (s : Scheme) (offset : Nat) (t : Text) (entry : Precedence) :
    Found offset (s.openings offset t entry) := by
  have hmem {l : List Opening} (hl : l ∈ s.openings offset t entry) :
      ∃ order, ∃ r : Rule, s.rules[order]? = some r ∧ l = (r.openings s.name order offset t).map
        (⟨·, r.closings s.name order offset t⟩) := by
    obtain ⟨⟨order, r⟩, hr, rfl⟩ := List.mem_map.1 hl
    exact ⟨order, r, getElem?_of_mem_delimitedRules hr, rfl⟩
  have hlabel {order : Nat} {r : Rule} {o : Opening}
      (ho : o ∈ (r.openings s.name order offset t).map
        (⟨·, r.closings s.name order offset t⟩)) :
      o.closings = r.closings s.name order offset t ∧ o.label.order = order ∧
        o.label.kind = .opening := by
    obtain ⟨start, hs, rfl⟩ := List.mem_map.1 ho
    obtain ⟨m, -, rfl⟩ := Rule.eq_labelAt_of_mem_openings hs
    exact ⟨rfl, rfl, rfl⟩
  constructor
  case openings =>
    intro l hl
    obtain ⟨order, r, -, rfl⟩ := hmem hl
    rw [List.map_map]
    exact (List.map_id _).symm ▸ r.inOrder_openings s.name order offset t
  case closings =>
    intro l hl o ho
    obtain ⟨order, r, -, rfl⟩ := hmem hl
    rw [(hlabel ho).1]
    exact r.inOrder_closings s.name order offset t
  case sameClosings =>
    intro l hl o ho p hp
    obtain ⟨order, r, -, rfl⟩ := hmem hl
    rw [(hlabel ho).1, (hlabel hp).1]
  case sameOrder =>
    intro l hl o ho p hp
    obtain ⟨order, r, -, rfl⟩ := hmem hl
    rw [(hlabel ho).2.1, (hlabel hp).2.1]
  case sameRule =>
    intro l hl l' hl' o ho p hp he
    obtain ⟨order, r, hr, rfl⟩ := hmem hl
    obtain ⟨order', r', hr', rfl⟩ := hmem hl'
    obtain rfl : order = order' := by rw [← (hlabel ho).2.1, ← (hlabel hp).2.1, he]
    rw [hr] at hr'
    cases hr'
    rfl
  case opening =>
    intro l hl o ho
    obtain ⟨order, r, -, rfl⟩ := hmem hl
    exact (hlabel ho).2.2

theorem scans_sortedOpenings (s : Scheme) (offset : Nat) (t : Text) (entry : Precedence)
    (cursor : Nat) : Scans (s.openings offset t entry) cursor
      (Label.pairFrom cursor (s.sortedOpenings offset t entry)) :=
  (s.found_openings offset t entry).scans_pairFrom
    (fun _ ho ↦ Sorting.mem_sort.1 ho) (fun _ ho _ ↦ Sorting.mem_sort.2 ho)
    (Sorting.pairwise_sort Opening.le (fun _ _ _ ↦ Opening.le_trans) Opening.le_total _)

/-- The regions of a precedence entry, as a scan from the left has them. -/
structure LeftmostScan (s : Scheme) (offset : Nat) (t : Text) (inherited : Continuations)
    (entry : Precedence) (regions : List Label) : Prop where
  continued : ∀ i region, regions[i]? = some region → region.kind = .continued → i = 0
  apart : regions.Pairwise fun a b ↦ a.matched.2 ≤ b.matched.1
  leftOpen : ∀ i region, regions[i]? = some region → region.stop = .lineEnd →
    i + 1 = regions.length
  goesOn : offset = 0 → s.resumed? (s.delimitedRules entry) inherited ≠ none →
    ∃ region ∈ regions, region.kind = .continued
  /-- An inherited region reaches up to the first closing delimiter of its rule. -/
  resumed : ∀ region ∈ regions, region.kind = .continued → offset = 0 ∧
    ∃ order r l, s.resumed? (s.delimitedRules entry) inherited = some (order, r, l) ∧
      (l.resume 0 r.color order).ClosedFrom 0 (r.closings s.name order 0 t) region
  /-- Of several opening delimiters at one place that of the first rule opens a region. -/
  opened : ∀ region ∈ regions, region.kind ≠ .continued →
    ∃ order r, (order, r) ∈ s.delimitedRules entry ∧
      ∃ start ∈ r.openings s.name order offset t,
        start.ClosedFrom start.matched.2 (r.closings s.name order offset t) region ∧
        ∀ order' r', (order', r') ∈ s.delimitedRules entry →
          ∀ start' ∈ r'.openings s.name order' offset t,
            start'.matched.1 = start.matched.1 → order ≤ order'
  covered : ∀ order r, (order, r) ∈ s.delimitedRules entry →
    ∀ start ∈ r.openings s.name order offset t,
      (∃ region ∈ regions,
        start.ClosedFrom start.matched.2 (r.closings s.name order offset t) region) ∨
        ∃ region ∈ regions, region.Claims start

variable {cursor : Nat} {regions : List Label}

theorem exists_opened (hs : Scans (s.openings offset t entry) cursor regions) :
    ∀ region ∈ regions, ∃ order r, (order, r) ∈ s.delimitedRules entry ∧
      ∃ start ∈ r.openings s.name order offset t,
        start.ClosedFrom start.matched.2 (r.closings s.name order offset t) region ∧
        ∀ order' r', (order', r') ∈ s.delimitedRules entry →
          ∀ start' ∈ r'.openings s.name order' offset t,
            start'.matched.1 = start.matched.1 → order ≤ order' := by
  intro region hregion
  have hf := s.found_openings offset t entry
  obtain ⟨o, ho, hclosed, hleast⟩ := hs.exists_opening hf region hregion
  obtain ⟨order, r, hr, hstart, hclosings⟩ := mem_flatten_openings.1 ho
  refine ⟨order, r, hr, o.label, hstart, hclosings ▸ hclosed, ?_⟩
  intro order' r' hr' start' hstart' he
  have := hleast ⟨start', _⟩ (mem_flatten_openings.2 ⟨order', r', hr', hstart', rfl⟩) he
  obtain ⟨m, -, hm⟩ := Rule.eq_labelAt_of_mem_openings hstart
  obtain ⟨m', -, hm'⟩ := Rule.eq_labelAt_of_mem_openings hstart'
  rw [hm, hm'] at this
  exact this

theorem covered_of_scans (hs : Scans (s.openings offset t entry) cursor regions)
    (hr : (order, r) ∈ s.delimitedRules entry) {start : Label}
    (hstart : start ∈ r.openings s.name order offset t) (hc : cursor ≤ start.matched.1) :
    (∃ region ∈ regions,
      start.ClosedFrom start.matched.2 (r.closings s.name order offset t) region) ∨
      ∃ region ∈ regions, region.Claims start :=
  hs.covered (s.found_openings offset t entry) ⟨start, _⟩
    (mem_flatten_openings.2 ⟨order, r, hr, hstart, rfl⟩) hc

theorem LeftmostScan.of_scans (hs : Scans (s.openings offset t entry) offset regions)
    (hn : offset = 0 → s.resumed? (s.delimitedRules entry) inherited = none) :
    s.LeftmostScan offset t inherited entry regions := by
  have hf := s.found_openings offset t entry
  have hkind := hs.kind_ne hf
  constructor
  case continued =>
    intro i region hr hk
    exact absurd hk (hkind region (List.mem_of_getElem? hr))
  case apart => exact hs.pairwise hf
  case leftOpen => exact hs.eq_last hf
  case goesOn =>
    intro ho hne
    exact absurd (hn ho) hne
  case resumed =>
    intro region hr hk
    exact absurd hk (hkind region hr)
  case opened => exact fun region hr _ ↦ exists_opened hs region hr
  case covered =>
    intro order r hr start hstart
    exact covered_of_scans hs hr hstart ((r.inOrder_openings _ _ _ _).from_le start hstart)

theorem claims_of_resumed {l region start : Label} {color : Color} {closings : List Label}
    (hc : (l.resume 0 color order).ClosedFrom 0 closings region)
    (h : region.stop = .lineEnd ∨ start.matched.1 < region.matched.2) : region.Claims start := by
  refine ⟨?_, h⟩
  rw [hc.matched]
  obtain hs | hs := Nat.eq_zero_or_pos start.matched.1
  · exact .inr ⟨hs.symm, .inl hc.kind⟩
  · exact .inl hs

theorem LeftmostScan.of_resumed {l region : Label} {next : Nat}
    (hl : s.resumed? (s.delimitedRules entry) inherited = some (order, r, l))
    (hc : (l.resume 0 r.color order).close 0 (r.closings s.name order 0 t) = (region, some next))
    (hs : Scans (s.openings 0 t entry) next regions) :
    s.LeftmostScan 0 t inherited entry (region :: regions) := by
  have hf := s.found_openings 0 t entry
  have hclosed := Label.closedFrom_close (r.inOrder_closings s.name order 0 t) hc
  obtain ⟨hnext, hstop, -⟩ := Label.close_eq_some (r.inOrder_closings s.name order 0 t) hc
  have hkind := hs.kind_ne hf
  constructor
  case continued =>
    intro i region' hr hk
    cases i with
    | zero => rfl
    | succ i => exact absurd hk (hkind region' (List.mem_of_getElem? hr))
  case apart =>
    refine List.pairwise_cons.2 ⟨fun b hb ↦ ?_, hs.pairwise hf⟩
    rw [hnext]
    exact hs.from_le hf b hb
  case leftOpen =>
    intro i region' hr hk
    cases i with
    | zero =>
      cases hr
      exact absurd hk hstop
    | succ i => exact congrArg (· + 1) (hs.eq_last hf i region' hr hk)
  case goesOn => exact fun _ _ ↦ ⟨region, List.mem_cons_self, hclosed.kind⟩
  case resumed =>
    intro region' hr hk
    obtain rfl | hr := List.mem_cons.1 hr
    · exact ⟨rfl, order, r, l, hl, hclosed⟩
    · exact absurd hk (hkind region' hr)
  case opened =>
    intro region' hr hk
    obtain rfl | hr := List.mem_cons.1 hr
    · exact absurd hclosed.kind hk
    · exact exists_opened hs region' hr
  case covered =>
    intro order' r' hr start hstart
    by_cases hlt : start.matched.1 < next
    · have hclaims : region.Claims start := claims_of_resumed hclosed (.inr (hnext ▸ hlt))
      exact .inr ⟨region, List.mem_cons_self, hclaims⟩
    · obtain ⟨r', hr', h⟩ | ⟨r', hr', h⟩ := covered_of_scans hs hr hstart (Nat.not_lt.1 hlt)
      · exact .inl ⟨r', List.mem_cons_of_mem _ hr', h⟩
      · exact .inr ⟨r', List.mem_cons_of_mem _ hr', h⟩

theorem LeftmostScan.of_open {l region : Label}
    (hl : s.resumed? (s.delimitedRules entry) inherited = some (order, r, l))
    (hc : (l.resume 0 r.color order).close 0 (r.closings s.name order 0 t) = (region, none)) :
    s.LeftmostScan 0 t inherited entry [region] := by
  have hclosed := Label.closedFrom_close (r.inOrder_closings s.name order 0 t) hc
  have hzero {i : Nat} {region' : Label} (hr : [region][i]? = some region') : i = 0 := by
    cases i with
    | zero => rfl
    | succ i => cases hr
  constructor
  case continued => exact fun i region' hr _ ↦ hzero hr
  case apart => exact List.pairwise_singleton _ _
  case leftOpen => exact fun i region' hr _ ↦ congrArg (· + 1) (hzero hr)
  case goesOn => exact fun _ _ ↦ ⟨region, List.mem_singleton_self region, hclosed.kind⟩
  case resumed =>
    intro region' hr _
    rw [List.mem_singleton.1 hr]
    exact ⟨rfl, order, r, l, hl, hclosed⟩
  case opened =>
    intro region' hr hk
    rw [List.mem_singleton.1 hr] at hk
    exact absurd hclosed.kind hk
  case covered =>
    intro order' r' hr start hstart
    have hclaims : region.Claims start :=
      claims_of_resumed hclosed (.inl (Label.close_eq_none hc))
    exact .inr ⟨region, List.mem_singleton_self region, hclaims⟩

theorem leftmostScan_pairedRegions (s : Scheme) (offset : Nat) (t : Text)
    (inherited : Continuations) (entry : Precedence) :
    s.LeftmostScan offset t inherited entry (s.pairedRegions offset t inherited entry) := by
  have hscan := s.scans_sortedOpenings offset t entry
  rw [pairedRegions]
  split
  · next hn => exact .of_scans (hscan offset) fun ho ↦ by rwa [if_pos ho] at hn
  · next order r l hl =>
    split at hl
    · next hoffset =>
      subst hoffset
      split
      · next region next hc => exact .of_resumed hl hc (hscan next)
      · next region hc => exact .of_open hl hc
    · cases hl

/-- The scan comes to an end from every column, and the regions of an entry are paired as it goes
from left to right. -/
theorem pairedRegions_scan (s : Scheme) (offset : Nat) (t : Text) (inherited : Continuations)
    (entry : Precedence) :
    (∀ cursor regions, Scans (s.openings offset t entry) cursor regions ↔
      regions = Label.pairFrom cursor (s.sortedOpenings offset t entry)) ∧
      s.LeftmostScan offset t inherited entry (s.pairedRegions offset t inherited entry) := by
  refine ⟨fun cursor regions ↦ ?_, s.leftmostScan_pairedRegions offset t inherited entry⟩
  have hscan := s.scans_sortedOpenings offset t entry cursor
  exact ⟨fun h ↦ h.eq hscan, fun h ↦ h ▸ hscan⟩

end Highlighter.Scheme
