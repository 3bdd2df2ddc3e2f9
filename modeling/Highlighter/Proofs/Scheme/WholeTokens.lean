import Highlighter.Proofs.Regex.Rows

/-!
Patterns for whole words, with any library of patterns. The pattern is put into a group between the
two ends of the text, and the result is compiled as one pattern; a closing parenthesis in the
pattern can close that group before its end.
-/

namespace Highlighter

open PatternLibrary Pattern

namespace PatternLibrary

variable {P : Type} [PatternLibrary P] {Spans : P → Text → ℕ → ℕ → Prop} {Fits : Text → Prop}
  {p : Text} {e : P}

variable (P) in
/-- Whether a pattern closes a group that it did not open, and opens one afterwards that it does not
close. What follows the parenthesis stands behind a group. -/
def ClosesGroup (p : Text) : Prop :=
  ∃ u v, p = u ++ ')' :: v ∧ IsPattern P u ∧
    IsPattern P (rowText [.start, .group []] ++ (v ++ ")$".toList))

/-- The group is closed by the parenthesis that is meant to do so, or by one of the pattern. -/
theorem append_close_iff {u v : Text} : p ++ ")$".toList = u ++ ')' :: v ↔
    u = p ∧ v = "$".toList ∨ ∃ v', p = u ++ ')' :: v' ∧ v = v' ++ ")$".toList := by
  constructor
  · intro h
    obtain ⟨m, rfl, hm⟩ | ⟨m, rfl, hm⟩ := List.append_eq_append_iff.1 h
    · match m, hm with
      | [], hm => exact .inl ⟨List.append_nil p, (List.cons.inj hm).2.symm⟩
      | [_], hm => simp at hm
      | _ :: _ :: _, hm => simp at hm
    · cases m with
      | nil => exact .inl ⟨(List.append_nil u).symm, (List.cons.inj hm).2⟩
      | cons c v' =>
        obtain ⟨rfl, rfl⟩ := List.cons.inj hm
        exact .inr ⟨v', rfl, rfl⟩
  · rintro (⟨rfl, rfl⟩ | ⟨v', rfl, rfl⟩)
    · rfl
    · rw [List.append_assoc, List.cons_append]

theorem rowText_whole (p : Text) : rowText [.start, .group p, .stop] = wholeSource p := by
  simp [rowText, Item.text, wholeSource]

theorem rowText_append_open (p : Text) :
    rowText [.start] ++ "(?:".toList ++ (p ++ ")$".toList) = wholeSource p := by
  simp [rowText, Item.text, wholeSource]

namespace Laws

variable (h : Laws P Spans Fits)

include h

/-- Between the ends of the text a pattern matches whole texts only. -/
theorem compile?_wholeSource (he : compile? p = some e) (hf : Fits (wholeSource p)) :
    ∃ w : P, compile? (wholeSource p) = some w ∧
      ∀ t i j, Spans w t i j ↔ i = 0 ∧ j = t.length ∧ Spans e t 0 t.length := by
  have hp : IsPattern P p := Option.isSome_iff_exists.2 ⟨e, he⟩
  have hrow : IsRow P [.start, .group p, .stop] := by simpa [IsRow] using hp
  rw [← rowText_whole] at hf ⊢
  obtain ⟨w, hw, hspans⟩ := h.compile?_row hrow hf
  refine ⟨w, hw, fun t i j ↦ ?_⟩
  rw [hspans]
  constructor
  · rintro ⟨_, ⟨rfl, rfl⟩, _, ⟨e', he', hm⟩, _, ⟨rfl, rfl⟩, -, rfl⟩
    obtain rfl := Option.some.inj (he.symm.trans he')
    exact ⟨rfl, rfl, hm⟩
  · rintro ⟨rfl, rfl, hm⟩
    exact ⟨0, ⟨rfl, rfl⟩, _, ⟨e, he, hm⟩, _, ⟨rfl, rfl⟩, Nat.le_refl _, rfl⟩

theorem isPattern_wholeSource_iff (hf : Fits (wholeSource p)) :
    IsPattern P (wholeSource p) ↔ IsPattern P p ∨ ClosesGroup P p := by
  have hrow : IsRow P [.start] := by simp [IsRow]
  have hgroup := h.isPattern_group_iff hrow (s := p ++ ")$".toList)
  rw [rowText_append_open] at hgroup
  constructor
  · intro hwhole
    obtain ⟨u, v, hs, hu, hv⟩ := (hgroup hf).1 hwhole
    obtain ⟨rfl, -⟩ | ⟨v', rfl, rfl⟩ := append_close_iff.1 hs
    · exact .inl hu
    · exact .inr ⟨u, v', rfl, hu, hv⟩
  · rintro (hp | ⟨u, v, hs, hu, hv⟩)
    · obtain ⟨e, he⟩ := Option.isSome_iff_exists.1 hp
      obtain ⟨w, hw, -⟩ := h.compile?_wholeSource he hf
      exact Option.isSome_iff_exists.2 ⟨w, hw⟩
    · exact (hgroup hf).2 ⟨u, _, append_close_iff.2 (.inr ⟨v, hs, rfl⟩), hu, hv⟩

/-- Whatever else a library has in its patterns, some text closes the group and opens one again. -/
theorem closesGroup_reopening (h₀ : Fits []) (h₁ : Fits "^(?:)(?:)$".toList) :
    ClosesGroup P ")(?:".toList := by
  have hnil : IsRow P [] := nofun
  obtain ⟨e, he, -⟩ := h.compile?_row hnil h₀
  have hempty : IsPattern P [] := Option.isSome_iff_exists.2 ⟨e, he⟩
  have hrow : IsRow P [.start, .group [], .group [], .stop] := by simpa [IsRow] using hempty
  obtain ⟨e', he', -⟩ := h.compile?_row hrow h₁
  exact ⟨[], "(?:".toList, rfl, hempty, Option.isSome_iff_exists.2 ⟨e', he'⟩⟩

theorem not_closesGroup (hp : IsPattern P p) (hf : Fits p) : ¬ClosesGroup P p := by
  rintro ⟨u, v, rfl, hu, -⟩
  exact h.not_isPattern_close hu hf hp

end Laws

end PatternLibrary

namespace LabelRule

variable {P : Type} [PatternLibrary P] {Spans : P → Text → ℕ → ℕ → Prop} {Fits : Text → Prop}
  {r : LabelRule P} {p : Text} {e : P}

/-- Whether a pattern given to a rule stands for the words that it matches as a whole: it is taken
if it is a pattern, and the rule matches its name and those words. -/
structure TakesWhole (Spans : P → Text → ℕ → ℕ → Prop) (r : LabelRule P) (p : Text) : Prop where
  valid_iff : (r.withPattern p).valid = true ↔ IsPattern P p
  matchesToken_iff : ∀ e : P, compile? p = some e → ∀ t,
    (r.withPattern p).matchesToken t = true ↔ t = r.name.toList ∨ Spans e t 0 t.length

theorem valid_withPattern_iff :
    (r.withPattern p).valid = true ↔ r.valid = true ∧ IsPattern P (wholeSource p) := by
  rw [withPattern, Bool.and_eq_true, IsPattern]

theorem matchesToken_withPattern_iff (h : Laws P Spans Fits) (hf : Fits (wholeSource p))
    (he : compile? p = some e) (t : Text) :
    (r.withPattern p).matchesToken t = true ↔ t = r.name.toList ∨ Spans e t 0 t.length := by
  obtain ⟨w, hw, hspans⟩ := h.compile?_wholeSource he hf
  have hmatch : isMatch w t = true ↔ Spans e t 0 t.length := by
    rw [h.isMatch_iff hw]
    simp only [hspans]
    exact ⟨fun ⟨_, _, _, _, hm⟩ ↦ hm, fun hm ↦ ⟨0, _, rfl, rfl, hm⟩⟩
  rw [matchesToken, withPattern, hw, Option.any_some, Bool.or_eq_true, beq_iff_eq, hmatch]

/-- A rule takes a pattern for whole words as it should unless the pattern closes a group that it
did not open. -/
theorem takesWhole_iff (h : Laws P Spans Fits) (hv : r.valid = true) (hp : Fits p)
    (hw : Fits (wholeSource p)) :
    (r.TakesWhole Spans p ↔ ¬ClosesGroup P p) ∧
    ((r.withPattern p).valid = true ↔ IsPattern P p ∨ ClosesGroup P p) ∧
    ∀ e : P, compile? p = some e → ∀ t,
      (r.withPattern p).matchesToken t = true ↔ t = r.name.toList ∨ Spans e t 0 t.length := by
  have hvalid : (r.withPattern p).valid = true ↔ IsPattern P p ∨ ClosesGroup P p := by
    rw [valid_withPattern_iff, and_iff_right hv, h.isPattern_wholeSource_iff hw]
  have hmatch : ∀ e : P, compile? p = some e → ∀ t,
      (r.withPattern p).matchesToken t = true ↔ t = r.name.toList ∨ Spans e t 0 t.length :=
    fun e he t ↦ matchesToken_withPattern_iff h hw he t
  refine ⟨⟨fun htakes hc ↦ ?_, fun hc ↦ ⟨?_, hmatch⟩⟩, hvalid, hmatch⟩
  · exact h.not_closesGroup (htakes.valid_iff.1 (hvalid.2 (.inr hc))) hp hc
  · rw [hvalid, or_iff_left hc]

theorem takesWhole_alternatives : Laws Pattern Pattern.Spans (fun _ ↦ True) ∧
    (token "BIT" .plain : Rule).valid = true ∧
    (token "BIT" .plain).TakesWhole Pattern.Spans "0|1".toList ∧
    ((token "BIT" .plain : Rule).withPattern "0|1".toList).matchesToken "1".toList = true ∧
    ((token "BIT" .plain : Rule).withPattern "0|1".toList).matchesToken "10".toList = false := by
  have hp : IsPattern Pattern "0|1".toList := by decide
  have hiff := takesWhole_iff (r := token "BIT" .plain) (p := "0|1".toList) laws rfl trivial trivial
  exact ⟨laws, rfl, hiff.1.2 (laws.not_closesGroup hp trivial), by decide, by decide⟩

/-- A text that is no pattern is taken, and a word is found of which it matches a part. -/
theorem not_takesWhole_closing : ¬IsPattern Pattern "a)|(?:b".toList ∧
    ((token "T" .plain : Rule).withPattern "a)|(?:b".toList).valid = true ∧
    ((token "T" .plain : Rule).withPattern "a)|(?:b".toList).matchesToken "ax".toList = true ∧
    ¬(token "T" .plain).TakesWhole Pattern.Spans "a)|(?:b".toList := by
  have hp : ¬IsPattern Pattern "a)|(?:b".toList := by decide
  have hvalid : ((token "T" .plain : Rule).withPattern "a)|(?:b".toList).valid = true := by decide
  exact ⟨hp, hvalid, by decide, fun h ↦ hp (h.valid_iff.1 hvalid)⟩

end LabelRule

end Highlighter
