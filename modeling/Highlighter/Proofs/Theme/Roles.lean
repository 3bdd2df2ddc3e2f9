import Highlighter.Theme
import Mathlib.Data.List.Basic

/-!
The color of a role is that of the longest role with a color which it refines.
-/

namespace Highlighter.Theme

/-- Whether a role is the given one, or goes on after it with a dot. -/
def Refines (role p : Text) : Prop := role = p ∨ ∃ rest, role = p ++ '.' :: rest

structure IsLongest (roles : Table Color) (role p : Text) (c : Color) : Prop where
  color : roles.get? (String.ofList p) = some c
  refines : Refines role p
  longest : ∀ q, Refines role q → roles.has (String.ofList q) = true → q.length ≤ p.length

/-- The search for a color, role after role: one without a color is cut at its last dot. -/
inductive Finds (roles : Table Color) : Text → Option Color → Prop
  | color {role : Text} {c : Color} (hc : roles.get? (String.ofList role) = some c) :
      Finds roles role (some c)
  | cut {p rest : Text} {a : Option Color}
      (hc : roles.get? (String.ofList (p ++ '.' :: rest)) = none) (hd : '.' ∉ rest)
      (h : Finds roles p a) : Finds roles (p ++ '.' :: rest) a
  | nothing {role : Text} (hc : roles.get? (String.ofList role) = none) (hd : '.' ∉ role) :
      Finds roles role none

variable {roles : Table Color} {role p q rest : Text} {c : Color} {a : Option Color}

/-! ### Roles that a role refines -/

theorem Refines.isPrefix (h : Refines role p) : p <+: role := by
  obtain rfl | ⟨rest, rfl⟩ := h
  · exact List.prefix_refl role
  · exact List.prefix_append p _

theorem refines_iff_of_not_mem (hd : '.' ∉ role) : Refines role p ↔ role = p := by
  refine or_iff_left ?_
  rintro ⟨rest, rfl⟩
  exact hd (List.mem_append_right p List.mem_cons_self)

/-- Every role that another one refines, other than itself, ends at its last dot or before that. -/
theorem refines_append_iff (hd : '.' ∉ rest) :
    Refines (p ++ '.' :: rest) q ↔ p ++ '.' :: rest = q ∨ Refines p q := by
  refine or_congr_right ⟨?_, ?_⟩
  · rintro ⟨rest', h⟩
    obtain ⟨m, rfl, hm⟩ | ⟨m, rfl, hm⟩ := List.append_eq_append_iff.1 h
    · -- the role reaches behind the last dot
      cases m with
      | nil => exact .inl (List.append_nil p).symm
      | cons x m =>
        obtain ⟨-, rfl⟩ := List.cons.inj hm
        exact absurd (List.mem_append_right m List.mem_cons_self) hd
    · cases m with
      | nil => exact .inl (List.append_nil q)
      | cons x m =>
        obtain ⟨rfl, -⟩ := List.cons.inj hm
        exact .inr ⟨m, rfl⟩
  · rintro (rfl | ⟨rest', rfl⟩)
    · exact ⟨rest, rfl⟩
    · exact ⟨rest' ++ '.' :: rest, List.append_assoc ..⟩

/-! ### The search -/

theorem refinedColor?_append (hd : '.' ∉ p) :
    refinedColor? roles (p ++ q) = refinedColor? roles q := by
  induction p with
  | nil => rfl
  | cons x p ih =>
    rw [List.mem_cons, not_or] at hd
    rw [List.cons_append, refinedColor?, if_neg (Ne.symm hd.1), ih hd.2]

theorem exists_last_dot (h : '.' ∈ role) : ∃ p rest, role = p ++ '.' :: rest ∧ '.' ∉ rest := by
  obtain ⟨l, r, hlr, hl⟩ := List.eq_append_cons_of_mem (List.mem_reverse.2 h)
  refine ⟨r.reverse, l.reverse, ?_, fun hm ↦ hl (List.mem_reverse.1 hm)⟩
  rw [← List.reverse_reverse role, hlr]
  simp

/-- The search comes to an end, since a cut role is shorter. -/
theorem exists_finds (roles : Table Color) (role : Text) : ∃ a, Finds roles role a := by
  induction hn : role.length using Nat.strongRecOn generalizing role with
  | ind n ih =>
    cases hc : roles.get? (String.ofList role) with
    | some c => exact ⟨some c, .color hc⟩
    | none =>
      by_cases hd : '.' ∈ role
      · obtain ⟨p, rest, rfl, hrest⟩ := exists_last_dot hd
        obtain ⟨a, ha⟩ := ih p.length (by simp [← hn]) p rfl
        exact ⟨a, .cut hc hrest ha⟩
      · exact ⟨none, .nothing hc hd⟩

theorem Finds.eq (t : Theme) (h : Finds t.roles role a) :
    t.colorForRole? (String.ofList role) = a := by
  induction h with
  | color hc => rw [colorForRole?, hc, Option.some_or]
  | @cut p rest a hc hd _ ih =>
    rw [colorForRole?, String.toList_ofList] at ih ⊢
    rw [hc, Option.none_or, List.reverse_append, List.reverse_cons, List.append_assoc,
      refinedColor?_append (mt List.mem_reverse.1 hd), List.singleton_append, refinedColor?,
      if_pos rfl, List.reverse_reverse, ih]
  | @nothing role hc hd =>
    rw [colorForRole?, String.toList_ofList, hc, Option.none_or, ← List.append_nil role.reverse,
      refinedColor?_append (mt List.mem_reverse.1 hd), refinedColor?]

theorem finds_iff (t : Theme) :
    Finds t.roles role a ↔ t.colorForRole? (String.ofList role) = a := by
  refine ⟨Finds.eq t, fun h ↦ ?_⟩
  obtain ⟨a', ha'⟩ := exists_finds t.roles role
  rwa [← h, ha'.eq t]

theorem Finds.isLongest (h : Finds roles role a) (ha : a = some c) :
    ∃ p, IsLongest roles role p c := by
  induction h with
  | @color role c' hc =>
    obtain rfl := Option.some.inj ha
    exact ⟨role, hc, .inl rfl, fun q hq _ ↦ hq.isPrefix.length_le⟩
  | @cut p rest a hc hd _ ih =>
    obtain ⟨q, hq⟩ := ih ha
    refine ⟨q, hq.color, (refines_append_iff hd).2 (.inr hq.refines), fun q' hq' hhas ↦ ?_⟩
    obtain rfl | hq' := (refines_append_iff hd).1 hq'
    · rw [Table.has, hc] at hhas
      cases hhas
    · exact hq.longest q' hq' hhas
  | nothing => cases ha

theorem Finds.no_color (h : Finds roles role a) (ha : a = none) (hp : Refines role p) :
    roles.get? (String.ofList p) = none := by
  induction h with
  | color => cases ha
  | cut hc hd _ ih =>
    obtain rfl | hp := (refines_append_iff hd).1 hp
    · exact hc
    · exact ih ha hp
  | nothing hc hd => rwa [← (refines_iff_of_not_mem hd).1 hp]

theorem IsLongest.unique {c' : Color} (h : IsLongest roles role p c)
    (h' : IsLongest roles role q c') : c = c' := by
  have hp : roles.has (String.ofList p) = true := Option.isSome_iff_exists.2 ⟨c, h.color⟩
  have hq : roles.has (String.ofList q) = true := Option.isSome_iff_exists.2 ⟨c', h'.color⟩
  have hlength : p.length = q.length :=
    Nat.le_antisymm (h'.longest p h.refines hp) (h.longest q h'.refines hq)
  obtain rfl : p = q := by
    rw [List.prefix_iff_eq_take.1 h.refines.isPrefix, hlength,
      ← List.prefix_iff_eq_take.1 h'.refines.isPrefix]
  exact Option.some.inj (h.color.symm.trans h'.color)

/-- The search for the color of a role comes to an end, whatever the dots in the role. It finds the
color of the longest role with a color that is the given one or ends before a dot of it, and none
exactly if there is no such role. -/
theorem colorForRole?_longest (t : Theme) (role : String) :
    (∃ a, Finds t.roles role.toList a) ∧
      (∀ a, Finds t.roles role.toList a ↔ t.colorForRole? role = a) ∧
      (∀ c, t.colorForRole? role = some c ↔ ∃ p, IsLongest t.roles role.toList p c) ∧
      (t.colorForRole? role = none ↔
        ∀ p, Refines role.toList p → t.roles.get? (String.ofList p) = none) := by
  have hfinds : ∀ a, Finds t.roles role.toList a ↔ t.colorForRole? role = a := fun a ↦ by
    rw [finds_iff, String.ofList_toList]
  have hfound : Finds t.roles role.toList (t.colorForRole? role) := (hfinds _).2 rfl
  refine ⟨⟨_, hfound⟩, hfinds, fun c ↦ ⟨hfound.isLongest, ?_⟩, fun hnone _ ↦ hfound.no_color hnone,
    ?_⟩
  · rintro ⟨p, hp⟩
    cases hc : t.colorForRole? role with
    | none =>
      have hnone := hfound.no_color hc hp.refines
      rw [hp.color] at hnone
      cases hnone
    | some c' =>
      obtain ⟨q, hq⟩ := hfound.isLongest hc
      rw [hq.unique hp]
  · intro hnone
    cases hc : t.colorForRole? role with
    | none => rfl
    | some c =>
      obtain ⟨q, hq⟩ := hfound.isLongest hc
      exact absurd (hq.color.symm.trans (hnone q hq.refines)) (Option.some_ne_none c)

example : mocha.colorForRole? "keyword..flow." = some (.ofNat 0xcba6f7) := by decide +kernel

end Highlighter.Theme
