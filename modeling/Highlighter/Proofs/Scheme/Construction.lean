import Mathlib.Data.List.Nodup
import Highlighter.Scheme.Draft

/-!
Which drafts become schemes: those whose names fit together. Every label of such a scheme has one
place among its rules and one among its ranks.
-/

namespace Highlighter.Scheme

/-- The names of the rules, in their order. -/
def labelNames (s : Scheme) : List String := s.rules.map LabelRule.name

def rankedNames (s : Scheme) : List String := s.precedence.flatMap Precedence.names

/-- Whether the names in a scheme fit together: a rule has a name of its own, the ranks are those of
the rules, each of them once, and only labels have other schemes embedded in them. -/
structure WellNamed (s : Scheme) : Prop where
  nodup_labels : s.labelNames.Nodup
  perm_ranked : s.rankedNames.Perm s.labelNames
  embedded : ∀ name, (s.subScheme? name).isSome = true → name ∈ s.labelNames

namespace WellNamed

variable {s : Scheme} (h : s.WellNamed)

include h in
theorem orderOf?_eq_some_iff {name : String} {i : ℕ} :
    s.orderOf? name = some i ↔ ∃ r, s.rules[i]? = some r ∧ r.name = name := by
  have hinj {i j : ℕ} (hi : i < s.rules.length) (hj : j < s.rules.length)
      (he : s.rules[i].name = s.rules[j].name) : i = j := by
    have hi' : i < s.labelNames.length := by rwa [labelNames, List.length_map]
    have hj' : j < s.labelNames.length := by rwa [labelNames, List.length_map]
    have he' : s.labelNames[i] = s.labelNames[j] := by
      simpa only [labelNames, List.getElem_map] using he
    exact h.nodup_labels.getElem_inj_iff.1 he'
  rw [orderOf?, List.findIdx?_eq_some_iff_getElem]
  constructor
  · rintro ⟨hi, hname, -⟩
    exact ⟨s.rules[i], List.getElem?_eq_getElem hi, by simpa using hname⟩
  · rintro ⟨r, hr, rfl⟩
    obtain ⟨hi, rfl⟩ := List.getElem?_eq_some_iff.1 hr
    refine ⟨hi, beq_self_eq_true _, fun j hji hj ↦ ?_⟩
    have := hinj (Nat.lt_trans hji hi) hi (by simpa using hj)
    omega

include h in
theorem isSome_rankOf?_iff {name : String} :
    (s.rankOf? name).isSome = true ↔ name ∈ s.labelNames := by
  rw [rankOf?, List.findIdx?_isSome, List.any_eq_true, ← h.perm_ranked.mem_iff, rankedNames,
    List.mem_flatMap]
  simp only [Precedence.contains, List.contains_iff_mem]

end WellNamed

namespace Draft

variable {d : Draft} {s : Scheme}

def labelNames (d : Draft) : List String := d.rules.map LabelRule.name

theorem defines_iff {name : String} : d.defines name = true ↔ name ∈ d.labelNames := by
  simp [defines, labelNames]

/-- Whether the names in a draft fit together. -/
structure IsConsistent (d : Draft) : Prop where
  nodup_labels : d.labelNames.Nodup
  ranked : ∀ name ∈ d.rankedNames, name ∈ d.labelNames
  nodup_ranked : d.rankedNames.Nodup
  embedded : ∀ e ∈ d.subSchemes, e.1 ∈ d.labelNames

/-- The scheme that a draft becomes. -/
def complete (d : Draft) : Scheme where
  name := d.name
  baseColor := d.baseColor
  rules := d.rules
  precedence := d.completePrecedence
  subSchemes := (Table.ofList d.subSchemes).entries

/-! ### Which drafts are built -/

theorem firstRepeated_eq_none_iff {seen names : List String} :
    firstRepeated seen names = none ↔ names.Nodup ∧ ∀ name ∈ names, name ∉ seen := by
  induction names generalizing seen with
  | nil => simp [firstRepeated]
  | cons name names ih =>
    rw [firstRepeated]
    split
    · next hseen => simp [hseen]
    · next hseen =>
      rw [ih, List.nodup_cons, List.forall_mem_cons]
      constructor
      · rintro ⟨hnodup, hnot⟩
        refine ⟨⟨fun hm ↦ hnot name hm List.mem_cons_self, hnodup⟩, hseen, fun n hn hs ↦ ?_⟩
        exact hnot n hn (List.mem_cons_of_mem _ hs)
      · rintro ⟨⟨hname, hnodup⟩, -, hnot⟩
        refine ⟨hnodup, fun n hn hs ↦ ?_⟩
        obtain rfl | hs := List.mem_cons.1 hs
        · exact hname hn
        · exact hnot n hn hs

theorem checkRanks_eq_ok_iff {listed names : List String} :
    d.checkRanks listed names = .ok () ↔
      (∀ name ∈ names, name ∈ d.labelNames) ∧ names.Nodup ∧ ∀ name ∈ names, name ∉ listed := by
  induction names generalizing listed with
  | nil => simp [checkRanks]
  | cons name names ih =>
    rw [checkRanks]
    split
    · next hundefined =>
      rw [Bool.not_eq_true', ← Bool.not_eq_true, defines_iff] at hundefined
      simp [hundefined]
    · next hdefined =>
      rw [Bool.not_eq_true', Bool.not_eq_false, defines_iff] at hdefined
      split
      · next hlisted => simp [hlisted]
      · next hlisted =>
        rw [ih, List.forall_mem_cons, List.nodup_cons, List.forall_mem_cons]
        constructor
        · rintro ⟨hnames, hnodup, hnot⟩
          refine ⟨⟨hdefined, hnames⟩, ⟨fun hm ↦ hnot name hm List.mem_cons_self, hnodup⟩, hlisted,
            fun n hn hs ↦ hnot n hn (List.mem_cons_of_mem _ hs)⟩
        · rintro ⟨⟨-, hnames⟩, ⟨hname, hnodup⟩, -, hnot⟩
          refine ⟨hnames, hnodup, fun n hn hs ↦ ?_⟩
          obtain rfl | hs := List.mem_cons.1 hs
          · exact hname hn
          · exact hnot n hn hs

theorem find?_eq_none_iff_embedded :
    d.subSchemes.find? (fun e ↦ !d.defines e.1) = none ↔
      ∀ e ∈ d.subSchemes, e.1 ∈ d.labelNames := by
  simp only [List.find?_eq_none, Bool.not_eq_true', Bool.not_eq_false, defines_iff]

/-- The three checks accept exactly the drafts whose names fit together. -/
theorem build_eq_ok_iff : d.build = .ok s ↔ d.IsConsistent ∧ s = d.complete := by
  rw [build]
  cases hlabels : firstRepeated [] (d.rules.map LabelRule.name) with
  | some label =>
    refine ⟨nofun, fun ⟨h, _⟩ ↦ ?_⟩
    have hnone : firstRepeated [] (d.rules.map LabelRule.name) = none :=
      firstRepeated_eq_none_iff.2 ⟨h.nodup_labels, fun _ _ ↦ List.not_mem_nil⟩
    cases hlabels.symm.trans hnone
  | none =>
    cases hranks : d.checkRanks [] d.rankedNames with
    | error e =>
      refine ⟨nofun, fun ⟨h, _⟩ ↦ ?_⟩
      have hok : d.checkRanks [] d.rankedNames = .ok () :=
        checkRanks_eq_ok_iff.2 ⟨h.ranked, h.nodup_ranked, fun _ _ ↦ List.not_mem_nil⟩
      cases hranks.symm.trans hok
    | ok u =>
      cases hembedded : d.subSchemes.find? (fun e ↦ !d.defines e.1) with
      | some e =>
        refine ⟨nofun, fun ⟨h, _⟩ ↦ ?_⟩
        cases hembedded.symm.trans (find?_eq_none_iff_embedded.2 h.embedded)
      | none =>
        obtain ⟨hranked, hnodup, -⟩ := checkRanks_eq_ok_iff.1 hranks
        have hconsistent : d.IsConsistent := ⟨(firstRepeated_eq_none_iff.1 hlabels).1, hranked,
          hnodup, find?_eq_none_iff_embedded.1 hembedded⟩
        exact ⟨fun h ↦ by cases h; exact ⟨hconsistent, rfl⟩, fun ⟨_, hs⟩ ↦ by rw [hs]; rfl⟩

/-! ### What is built -/

theorem flatMap_names_map_single (rules : List Rule) :
    (rules.map fun r ↦ Precedence.single r.name).flatMap Precedence.names =
      rules.map LabelRule.name := by
  rw [List.flatMap_map]
  exact List.map_eq_flatMap.symm

theorem rankedNames_complete : d.complete.rankedNames = d.rankedNames ++
    (d.rules.filter fun r ↦ !d.rankedNames.contains r.name).map LabelRule.name := by
  show d.completePrecedence.flatMap Precedence.names = _
  rw [completePrecedence, List.flatMap_append, flatMap_names_map_single]
  rfl

theorem IsConsistent.perm_ranked (h : d.IsConsistent) :
    d.complete.rankedNames.Perm d.labelNames := by
  have hmem (name : String) : name ∈ d.complete.rankedNames ↔ name ∈ d.labelNames := by
    rw [rankedNames_complete, List.mem_append]
    constructor
    · rintro (hname | hname)
      · exact h.ranked name hname
      · exact (List.filter_sublist.map LabelRule.name).subset hname
    · intro hname
      by_cases hranked : name ∈ d.rankedNames
      · exact .inl hranked
      · obtain ⟨r, hr, rfl⟩ := List.mem_map.1 hname
        exact .inr (List.mem_map_of_mem (List.mem_filter.2 ⟨hr, by simpa using hranked⟩))
  have hnodup : d.complete.rankedNames.Nodup := by
    rw [rankedNames_complete]
    refine List.nodup_append.2 ⟨h.nodup_ranked,
      h.nodup_labels.sublist (List.filter_sublist.map LabelRule.name), fun n hn m hm ↦ ?_⟩
    obtain ⟨r, hr, rfl⟩ := List.mem_map.1 hm
    have hnot := (List.mem_filter.1 hr).2
    rintro rfl
    simp [hn] at hnot
  exact (List.perm_ext_iff_of_nodup hnodup h.nodup_labels).2 hmem

theorem subScheme?_complete (name : String) :
    d.complete.subScheme? name = d.subSchemes.reverse.lookup name := Table.get?_ofList _ name

theorem IsConsistent.wellNamed (h : d.IsConsistent) : d.complete.WellNamed where
  nodup_labels := h.nodup_labels
  perm_ranked := h.perm_ranked
  embedded name hname := by
    rw [subScheme?_complete, Option.isSome_iff_exists] at hname
    obtain ⟨sub, hsub⟩ := hname
    obtain ⟨l₁, l₂, he, -⟩ := List.lookup_eq_some_iff.1 hsub
    have hmem : (name, sub) ∈ d.subSchemes.reverse :=
      he ▸ List.mem_append_right _ List.mem_cons_self
    exact h.embedded (name, sub) (List.mem_reverse.1 hmem)

theorem wellNamed_of_build (h : d.build = .ok s) : s.WellNamed := by
  obtain ⟨hconsistent, rfl⟩ := build_eq_ok_iff.1 h
  exact hconsistent.wellNamed

theorem nodup_labelNames_extend {base : Scheme} (hd : d.labelNames.Nodup)
    (hb : base.labelNames.Nodup) : (d.extend base).labelNames.Nodup := by
  show ((d.rules ++ base.rules.filter fun r ↦ !d.defines r.name).map LabelRule.name).Nodup
  rw [List.map_append]
  refine List.nodup_append.2 ⟨hd, hb.sublist (List.filter_sublist.map LabelRule.name),
    fun n hn m hm ↦ ?_⟩
  obtain ⟨r, hr, rfl⟩ := List.mem_map.1 hm
  have hnot := (List.mem_filter.1 hr).2
  rintro rfl
  rw [defines_iff.2 hn] at hnot
  cases hnot

/-- A draft becomes a scheme exactly if its names fit together. Its labels then have one place among
the rules and one rank each; those that were not ranked come last, in the order of the rules. Rules
that are taken over from another scheme keep names apart. -/
theorem build_iff_isConsistent (d : Draft) :
    ((∃ s, d.build = .ok s) ↔ d.IsConsistent) ∧
    (∀ s, d.build = .ok s →
      s.rules = d.rules ∧
      (∀ name i, s.orderOf? name = some i ↔ ∃ r, s.rules[i]? = some r ∧ r.name = name) ∧
      s.labelNames.Nodup ∧ s.rankedNames.Perm s.labelNames ∧
      s.precedence = d.precedence ++
        (d.rules.filter fun r ↦ r.name ∉ d.rankedNames).map (fun r ↦ .single r.name) ∧
      (∀ name, (s.rankOf? name).isSome = true ↔ name ∈ s.labelNames) ∧
      (∀ name, s.subScheme? name = d.subSchemes.reverse.lookup name) ∧
      ∀ name, (s.subScheme? name).isSome = true → name ∈ s.labelNames) ∧
    ∀ base : Scheme, (∃ d' : Draft, d'.build = .ok base) → d.labelNames.Nodup →
      (d.extend base).labelNames.Nodup := by
  refine ⟨⟨fun ⟨s, hs⟩ ↦ (build_eq_ok_iff.1 hs).1, fun h ↦ ⟨_, build_eq_ok_iff.2 ⟨h, rfl⟩⟩⟩,
    fun s hs ↦ ?_, fun base ⟨d', hd'⟩ hd ↦ ?_⟩
  · have h := wellNamed_of_build hs
    obtain ⟨-, rfl⟩ := build_eq_ok_iff.1 hs
    refine ⟨rfl, fun name i ↦ h.orderOf?_eq_some_iff, h.nodup_labels, h.perm_ranked, ?_,
      fun name ↦ h.isSome_rankOf?_iff, subScheme?_complete, h.embedded⟩
    show d.completePrecedence = _
    rw [completePrecedence]
    congr 2
    exact List.filter_congr fun r _ ↦ by simp
  · exact nodup_labelNames_extend hd (wellNamed_of_build hd').nodup_labels

/-- A page with scripts in it, and two of its four labels ranked. -/
def page : Draft :=
  (((new "page").labels [.delimited "REMARK" .plain "<!--".toList, .token "WORD" .plain,
    .delimited "SCRIPT" .plain "<script>".toList, .delimited "TAG" .plain "<".toList]).rankGroup
    ["TAG", "WORD"]).embed "SCRIPT" default

theorem build_iff_isConsistent_page :
    page.IsConsistent ∧ ∃ s, page.build = .ok s ∧
      s.precedence = [.group ["TAG", "WORD"], .single "REMARK", .single "SCRIPT"] := by
  obtain ⟨hiff, hbuilt, -⟩ := build_iff_isConsistent page
  have h : page.IsConsistent := ⟨by decide +kernel, by decide +kernel, by decide +kernel,
    by decide +kernel⟩
  obtain ⟨s, hs⟩ := hiff.2 h
  obtain ⟨-, -, -, -, hprecedence, -⟩ := hbuilt s hs
  exact ⟨h, s, hs, hprecedence.trans (by decide +kernel)⟩

end Draft

end Highlighter.Scheme
