import Mathlib.Data.Int.Notation
import Mathlib.Data.List.Basic
import Highlighter.Text.Lower

/-!
Lower-casing twice is lower-casing once, and whether a text begins or ends with blanks is not
changed by it.
-/

namespace Highlighter.Text

/-! ### The table of cases -/

namespace CaseRange

variable {r q : CaseRange} {n m : ℕ}

/-- The first of the code points that a range is mapped to. -/
def lowFirst (r : CaseRange) : ℕ := (r.first + r.shift).toNat

def lowLast (r : CaseRange) : ℕ := (r.last + r.shift).toNat

/-- Whether no letter of a range is mapped into another range: that lies elsewhere, or holds every
second code point only, and not those that are hit. -/
def misses (r q : CaseRange) : Bool :=
  Nat.blt r.lowLast q.first || Nat.blt q.last r.lowFirst ||
    (Nat.beq q.step 2 && (Nat.beq r.step 2 || Nat.beq r.first r.last) &&
      !Nat.beq (r.lowFirst % 2) (q.first % 2))

theorem lower?_eq_some_iff : r.lower? n = some m ↔
    (r.first ≤ n ∧ n ≤ r.last ∧ (n - r.first) % r.step = 0) ∧ ((n : ℤ) + r.shift).toNat = m := by
  rw [lower?]
  split
  · next h => simp [h]
  · next h => simp [h]

theorem lower?_bounds (h : r.lower? n = some m) : r.lowFirst ≤ m ∧ m ≤ r.lowLast := by
  obtain ⟨⟨hf, hl, -⟩, rfl⟩ := lower?_eq_some_iff.1 h
  rw [lowFirst, lowLast]
  omega

theorem lower?_eq_none_of_misses (hr : 0 ≤ (r.first : ℤ) + r.shift) (hmiss : r.misses q = true)
    (h : r.lower? n = some m) : q.lower? m = none := by
  rw [Option.eq_none_iff_forall_ne_some]
  intro k hk
  have hbounds := lower?_bounds h
  obtain ⟨⟨hf, hl, hstep⟩, hm⟩ := lower?_eq_some_iff.1 h
  obtain ⟨⟨hqf, hql, hqstep⟩, -⟩ := lower?_eq_some_iff.1 hk
  simp only [misses, Bool.or_eq_true, Bool.and_eq_true, Nat.blt_eq, Nat.beq_eq,
    Bool.not_eq_true', ← Bool.not_eq_true] at hmiss
  obtain (hlow | hhigh) | ⟨⟨hq2, hr2⟩, hparity⟩ := hmiss
  · omega
  · omega
  · rw [hq2] at hqstep
    rw [lowFirst] at hparity
    obtain hr2 | hsingle := hr2
    · rw [hr2] at hstep
      omega
    · omega

end CaseRange

/-- Code points that lower-casing must not hit: what it would map itself, and blanks. -/
def obstacles : List CaseRange :=
  caseRanges ++ ((0x130, 0x130) :: blankRanges).map fun (first, last) ↦ ⟨first, last, 1, 0⟩

theorem misses_obstacles :
    (caseRanges.all fun r ↦ obstacles.all fun q ↦ r.misses q) = true := by decide +kernel

/-- The letters of a range and what they are mapped to are characters. -/
theorem caseRanges_valid : ∀ r ∈ caseRanges, 0 ≤ (r.first : ℤ) + r.shift ∧
    (r.lowLast < 0xd800 ∨ 0xdfff < r.lowFirst ∧ r.lowLast < 0x110000) := by decide +kernel

theorem caseRanges_not_blank : ∀ r ∈ caseRanges, ∀ b ∈ blankRanges,
    r.last < b.1 ∨ b.2 < r.first := by decide +kernel

theorem lower?_eq_none_of_obstacle {r q : CaseRange} {n m : ℕ} (hr : r ∈ caseRanges)
    (h : r.lower? n = some m) (hq : q ∈ obstacles) : q.lower? m = none :=
  CaseRange.lower?_eq_none_of_misses (caseRanges_valid r hr).1
    (List.all_eq_true.1 (List.all_eq_true.1 misses_obstacles r hr) q hq) h

/-! ### Characters -/

/-- Whether lower-casing leaves a character. -/
def IsLower (c : Char) : Prop := lowerChar c = [c] ∧ c ≠ 'Σ'

theorem exists_of_inRanges {ranges : List (ℕ × ℕ)} {n : ℕ} (h : inRanges ranges n = true) :
    ∃ b ∈ ranges, b.1 ≤ n ∧ n ≤ b.2 := by
  induction ranges with
  | nil => cases h
  | cons b ranges ih =>
    obtain ⟨first, last⟩ := b
    simp only [inRanges, Bool.and_eq_true, Bool.or_eq_true, decide_eq_true_eq] at h
    obtain ⟨hf, hl | hrest⟩ := h
    · exact ⟨(first, last), List.mem_cons_self, hf, hl⟩
    · obtain ⟨b, hb, hn⟩ := ih hrest
      exact ⟨b, List.mem_cons_of_mem _ hb, hn⟩

theorem isBlank_eq_false_of_lower? {r : CaseRange} {c : Char} {n : ℕ} (hr : r ∈ caseRanges)
    (h : r.lower? c.toNat = some n) : isBlank c = false := by
  rw [← Bool.not_eq_true]
  intro hblank
  obtain ⟨b, hb, hf, hl⟩ := exists_of_inRanges hblank
  obtain ⟨⟨hrf, hrl, -⟩, -⟩ := CaseRange.lower?_eq_some_iff.1 h
  have := caseRanges_not_blank r hr b hb
  omega

theorem toNat_ofNat_of_lower? {r : CaseRange} {n m : ℕ} (hr : r ∈ caseRanges)
    (h : r.lower? n = some m) : (Char.ofNat m).toNat = m := by
  have hbounds := CaseRange.lower?_bounds h
  have hchar := (caseRanges_valid r hr).2
  have hvalid : m < 0xd800 ∨ 0xdfff < m ∧ m < 0x110000 := by omega
  rw [Char.ofNat, dif_pos hvalid]
  rfl

/-- What a letter is mapped to is a character that lower-casing leaves, and no blank. -/
theorem isLower_of_lower? {r : CaseRange} {n m : ℕ} (hr : r ∈ caseRanges)
    (h : r.lower? n = some m) : IsLower (Char.ofNat m) ∧ isBlank (Char.ofNat m) = false := by
  have hnat := toNat_ofNat_of_lower? hr h
  have hnone : caseRanges.findSome? (·.lower? m) = none := List.findSome?_eq_none_iff.2
    fun q hq ↦ lower?_eq_none_of_obstacle hr h (List.mem_append_left _ hq)
  have hout : ∀ b ∈ (0x130, 0x130) :: blankRanges, ¬(b.1 ≤ m ∧ m ≤ b.2) := fun b hb hm ↦ by
    have hb' := List.mem_map_of_mem (f := fun b : ℕ × ℕ ↦ CaseRange.mk b.1 b.2 1 0) hb
    have hq := lower?_eq_none_of_obstacle hr h (List.mem_append_right _ hb')
    rw [CaseRange.lower?, if_pos ⟨hm.1, hm.2, Nat.mod_one _⟩] at hq
    cases hq
  refine ⟨⟨?_, fun hsigma ↦ ?_⟩, ?_⟩
  · rw [lowerChar, if_neg, hnat, hnone]
    intro hdotted
    rw [hdotted] at hnat
    exact hout _ List.mem_cons_self ⟨Nat.le_of_eq hnat, Nat.le_of_eq hnat.symm⟩
  · have hsome : (caseRanges.findSome? (·.lower? 'Σ'.toNat)).isSome = true := by decide +kernel
    rw [← hsigma, hnat, hnone] at hsome
    cases hsome
  · rw [← Bool.not_eq_true]
    intro hblank
    obtain ⟨b, hb, hm⟩ := exists_of_inRanges hblank
    rw [hnat] at hm
    exact hout b (List.mem_cons_of_mem _ hb) hm

/-- What a character is mapped to is left by lower-casing, and is blank only if that is. -/
theorem isLower_of_mem_lowerChar {c d : Char} (hc : c ≠ 'Σ') (hd : d ∈ lowerChar c) :
    IsLower d ∧ isBlank d = isBlank c := by
  rw [lowerChar] at hd
  split at hd
  · next hi =>
    subst hi
    obtain rfl | hd := List.mem_cons.1 hd
    · exact ⟨⟨by decide +kernel, by decide⟩, by decide⟩
    · rw [List.mem_singleton.1 hd]
      exact ⟨⟨by decide +kernel, by decide⟩, by decide⟩
  · next hi =>
    split at hd
    · next n hn =>
      rw [List.mem_singleton.1 hd]
      obtain ⟨r, hr, hrn⟩ := List.exists_of_findSome?_eq_some hn
      obtain ⟨hlower, hblank⟩ := isLower_of_lower? hr hrn
      exact ⟨hlower, hblank.trans (isBlank_eq_false_of_lower? hr hrn).symm⟩
    · next hn =>
      rw [List.mem_singleton.1 hd]
      refine ⟨⟨?_, hc⟩, rfl⟩
      rw [lowerChar, if_neg hi]
      simp only [hn]

theorem lowerChar_ne_nil (c : Char) : lowerChar c ≠ [] := by
  rw [lowerChar]
  split
  · exact List.cons_ne_nil _ _
  · split <;> exact List.cons_ne_nil _ _

theorem isLower_lowerSigma (before after : Text) :
    IsLower (lowerSigma before after) ∧ isBlank (lowerSigma before after) = isBlank 'Σ' := by
  rw [lowerSigma]
  split <;> exact ⟨⟨by decide +kernel, by decide⟩, by decide⟩

/-! ### Texts -/

/-- The lower case of a character before a text, after the text read so far. -/
def lowerAt (before : Text) (c : Char) (t : Text) : Text :=
  if c = 'Σ' then [lowerSigma before t] else lowerChar c

theorem lowerAfter_cons (before : Text) (c : Char) (t : Text) :
    lowerAfter before (c :: t) = lowerAt before c t ++ lowerAfter (c :: before) t := rfl

theorem lowerAt_ne_nil (before : Text) (c : Char) (t : Text) : lowerAt before c t ≠ [] := by
  rw [lowerAt]
  split
  · exact List.cons_ne_nil _ _
  · exact lowerChar_ne_nil c

theorem isLower_of_mem_lowerAt {before t : Text} {c d : Char} (hd : d ∈ lowerAt before c t) :
    IsLower d ∧ isBlank d = isBlank c := by
  rw [lowerAt] at hd
  split at hd
  · next hc =>
    rw [List.mem_singleton.1 hd, hc]
    exact isLower_lowerSigma before t
  · next hc => exact isLower_of_mem_lowerChar hc hd

theorem isLower_of_mem_lowerAfter {before t : Text} {d : Char} (hd : d ∈ lowerAfter before t) :
    IsLower d := by
  induction t generalizing before with
  | nil => cases hd
  | cons c t ih =>
    obtain hd | hd := List.mem_append.1 (lowerAfter_cons before c t ▸ hd)
    · exact (isLower_of_mem_lowerAt hd).1
    · exact ih hd

theorem lowerAfter_of_isLower {before t : Text} (h : ∀ c ∈ t, IsLower c) :
    lowerAfter before t = t := by
  induction t generalizing before with
  | nil => rfl
  | cons c t ih =>
    obtain ⟨⟨hc, hsigma⟩, ht⟩ := List.forall_mem_cons.1 h
    rw [lowerAfter_cons, lowerAt, if_neg hsigma, hc, ih ht]
    rfl

theorem lower_lower (t : Text) : lower (lower t) = lower t :=
  lowerAfter_of_isLower fun _ hc ↦ isLower_of_mem_lowerAfter hc

/-! ### Blanks at the ends -/

theorem map_isBlank_head?_lowerAfter (before t : Text) :
    (lowerAfter before t).head?.map isBlank = t.head?.map isBlank := by
  cases t with
  | nil => rfl
  | cons c t =>
    obtain ⟨d, rest, hd⟩ := List.exists_cons_of_ne_nil (lowerAt_ne_nil before c t)
    have hmem : d ∈ lowerAt before c t := hd ▸ List.mem_cons_self
    rw [lowerAfter_cons, hd]
    exact congrArg some (isLower_of_mem_lowerAt hmem).2

theorem map_isBlank_getLast?_lowerAfter (before t : Text) :
    (lowerAfter before t).getLast?.map isBlank = t.getLast?.map isBlank := by
  induction t generalizing before with
  | nil => rfl
  | cons c t ih =>
    have hrest := ih (c :: before)
    rw [lowerAfter_cons, List.getLast?_append, List.getLast?_cons]
    cases ht : t.getLast? with
    | none =>
      obtain rfl := List.getLast?_eq_none_iff.1 ht
      have hne := lowerAt_ne_nil before c []
      have hlast := isLower_of_mem_lowerAt (List.getLast_mem hne)
      rw [List.getLast?_eq_some_getLast hne]
      exact congrArg some hlast.2
    | some e =>
      rw [ht] at hrest
      cases hl : (lowerAfter (c :: before) t).getLast? with
      | none => rw [hl] at hrest; cases hrest
      | some d => rw [hl] at hrest; exact hrest

theorem trimLeft_eq_self_iff {t : Text} : trimLeft t = t ↔ t.head?.map isBlank ≠ some true := by
  cases t with
  | nil => simp [trimLeft]
  | cons c t =>
    rw [trimLeft, List.dropWhile_cons]
    split
    · next hc =>
      have hshort := (List.dropWhile_sublist isBlank (l := t)).length_le
      refine ⟨fun h ↦ ?_, fun h ↦ absurd (congrArg some hc) h⟩
      have hlen := congrArg List.length h
      rw [List.length_cons] at hlen
      omega
    · next hc => simpa using hc

theorem trimRight_eq_self_iff {t : Text} :
    trimRight t = t ↔ t.getLast?.map isBlank ≠ some true := by
  rw [trimRight, List.reverse_eq_iff, trimLeft_eq_self_iff, List.head?_reverse]

/-- A text that trimming leaves neither begins nor ends with a blank. -/
theorem trim_eq_self_iff {t : Text} :
    trim t = t ↔ t.head?.map isBlank ≠ some true ∧ t.getLast?.map isBlank ≠ some true := by
  rw [← trimLeft_eq_self_iff, ← trimRight_eq_self_iff]
  constructor
  · intro h
    have hleft : trimLeft t = t := by
      refine (List.dropWhile_sublist isBlank).eq_of_length_le ?_
      have hlen := congrArg List.length h
      have hshort := (List.dropWhile_sublist isBlank (l := (trimLeft t).reverse)).length_le
      rw [trim, trimRight, List.length_reverse] at hlen
      rw [List.length_reverse] at hshort
      exact hlen ▸ hshort
    exact ⟨hleft, by rwa [trim, hleft] at h⟩
  · rintro ⟨hleft, hright⟩
    rw [trim, hleft, hright]

theorem head?_trimLeft (t : Text) : (trimLeft t).head?.map isBlank ≠ some true := by
  have hhead := List.head?_dropWhile_not isBlank t
  rw [trimLeft]
  cases h : (t.dropWhile isBlank).head? with
  | none => nofun
  | some c =>
    rw [h] at hhead
    simpa using hhead

theorem trim_trim (t : Text) : trim (trim t) = trim t := by
  rw [trim_eq_self_iff]
  have hright : (trim t).getLast?.map isBlank ≠ some true := by
    rw [trim, trimRight, List.getLast?_reverse]
    exact head?_trimLeft _
  refine ⟨?_, hright⟩
  -- what is cut off at the end leaves the first character, if it leaves any
  obtain ⟨cut, hcut⟩ : trim t <+: trimLeft t := by
    rw [trim, trimRight, ← List.reverse_suffix, List.reverse_reverse]
    exact List.dropWhile_suffix isBlank
  have hhead := head?_trimLeft t
  rw [← hcut, List.head?_append] at hhead
  cases h : (trim t).head? with
  | none => nofun
  | some c => rwa [h] at hhead

/-- Lower-casing changes nothing about the blanks around a text. -/
theorem trim_lower_iff {t : Text} : trim (lower t) = lower t ↔ trim t = t := by
  rw [trim_eq_self_iff, trim_eq_self_iff, lower, map_isBlank_head?_lowerAfter,
    map_isBlank_getLast?_lowerAfter]

end Highlighter.Text
