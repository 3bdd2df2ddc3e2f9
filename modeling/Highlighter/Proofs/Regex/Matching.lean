import Highlighter.Regex.Matches
import Mathlib.Data.Nat.Notation

/-!
The search for a match finds one wherever there is one: whatever it prefers, it tries every way in
which a regular expression matches.
-/

namespace Highlighter.Regex

/-- Whether no repetition asks for more than it allows. -/
def HasBounds : Regex → Prop
  | .seq r s => r.HasBounds ∧ s.HasBounds
  | .alt r s => r.HasBounds ∧ s.HasBounds
  | .repeated r least most _ => (∀ n ∈ most, least ≤ n) ∧ r.HasBounds
  | _ => True

/-- So many steps of a relation. -/
inductive Steps (S : Place → Place → Prop) : ℕ → Place → Place → Prop
  | zero (p : Place) : Steps S 0 p p
  | succ {n : ℕ} {p q o : Place} (h : S p q) (hs : Steps S n q o) : Steps S (n + 1) p o

variable {α : Type} {r s : Regex} {p q o : Place} {next : Next α} {n least : ℕ} {most : Option ℕ}
  {lazy : Bool} {S : Place → Place → Prop} {step : Place → Next α → Option α}

/-! ### Matches by their parts -/

theorem matches_empty_iff : Matches .empty p q ↔ q = p := by
  constructor
  · rintro ⟨⟩
    rfl
  · rintro rfl
    exact .empty q

theorem matches_set_iff {s : CharSet} {before : Option Char} {c : Char} {rest : Text} :
    Matches (.set s) ⟨before, c :: rest⟩ q ↔ s.contains c = true ∧ q = ⟨some c, rest⟩ := by
  constructor
  · rintro ⟨⟩
    exact ⟨‹_›, rfl⟩
  · rintro ⟨h, rfl⟩
    exact .set h

theorem not_matches_set_nil {s : CharSet} {before : Option Char} :
    ¬ Matches (.set s) ⟨before, []⟩ q := nofun

theorem matches_boundary_iff {b : Boundary} :
    Matches (.boundary b) p q ↔ p.isAt b = true ∧ q = p := by
  constructor
  · rintro ⟨⟩
    exact ⟨‹_›, rfl⟩
  · rintro ⟨h, rfl⟩
    exact .boundary h

theorem matches_seq_iff : Matches (.seq r s) p o ↔ ∃ q, Matches r p q ∧ Matches s q o := by
  constructor
  · rintro ⟨⟩
    exact ⟨_, ‹_›, ‹_›⟩
  · rintro ⟨q, hr, hs⟩
    exact .seq hr hs

theorem matches_alt_iff : Matches (.alt r s) p q ↔ Matches r p q ∨ Matches s p q := by
  constructor
  · intro h
    cases h with
    | left h => exact .inl h
    | right h => exact .inr h
  · rintro (h | h)
    · exact .left h
    · exact .right h

/-! ### Matches as steps -/

namespace Steps

theorem trans {m : ℕ} (h : Steps S n p q) (h' : Steps S m q o) : Steps S (n + m) p o := by
  induction h with
  | zero => rwa [Nat.zero_add]
  | succ h _ ih =>
    rw [Nat.succ_add]
    exact .succ h (ih h')

theorem split {m : ℕ} (h : Steps S n p o) (hm : m ≤ n) :
    ∃ q, Steps S m p q ∧ Steps S (n - m) q o := by
  induction m generalizing n p with
  | zero => exact ⟨p, .zero p, h⟩
  | succ m ih =>
    cases h with
    | zero => cases hm
    | succ h hs =>
      obtain ⟨q, hq, ho⟩ := ih hs (Nat.le_of_succ_le_succ hm)
      rw [Nat.add_sub_add_right]
      exact ⟨q, .succ h hq, ho⟩

end Steps

/-- A match that takes no character stays where it is. -/
theorem Matches.eq_or_lt (h : Matches r p q) : q = p ∨ q.rest.length < p.rest.length := by
  induction h with
  | empty p => exact .inl rfl
  | set h => exact .inr (Nat.lt_succ_self _)
  | boundary h => exact .inl rfl
  | seq _ _ ihr ihs | step _ _ _ ihr ihs =>
    obtain rfl | hr := ihr
    · exact ihs
    · obtain rfl | hs := ihs
      · exact .inr hr
      · exact .inr (Nat.lt_trans hs hr)
  | left _ ih | right _ ih => exact ih
  | stop => exact .inl rfl

theorem matches_repeated_iff : Matches (.repeated r least most lazy) p o ↔
    ∃ n, least ≤ n ∧ (∀ m ∈ most, n ≤ m) ∧ Steps r.Matches n p o := by
  constructor
  · intro h
    generalize hr : Regex.repeated r least most lazy = r' at h
    induction h generalizing least most with
    | empty | set | boundary | seq | left | right => cases hr
    | stop =>
      cases hr
      exact ⟨0, Nat.le_refl 0, fun m _ ↦ Nat.zero_le m, .zero _⟩
    | step hm hr₁ hs _ ih =>
      cases hr
      obtain ⟨n, hleast, hmost, hsteps⟩ := ih rfl
      refine ⟨n + 1, by omega, fun m hm' ↦ ?_, .succ hr₁ hsteps⟩
      have hle := hmost (m - 1) (Option.mem_map_of_mem _ hm')
      have h0 : m ≠ 0 := fun h0 ↦ hm (h0 ▸ hm')
      omega
  · rintro ⟨n, hleast, hmost, hsteps⟩
    induction hsteps generalizing least most with
    | zero p =>
      obtain rfl := Nat.le_zero.1 hleast
      exact .stop
    | succ h _ ih =>
      refine .step ?_ h (ih (by omega) fun m hm ↦ ?_)
      · rintro rfl
        exact absurd (hmost 0 rfl) (Nat.not_succ_le_zero _)
      · obtain ⟨m', hm', rfl⟩ := Option.map_eq_some_iff.1 hm
        have hle := hmost m' hm'
        omega

/-! ### What the search tries -/

/-- Whether a step of the search goes on wherever a relation leads, and nowhere else. -/
def Explores (step : Place → Next α → Option α) (S : Place → Place → Prop) : Prop :=
  ∀ p next, (step p next).isSome = true ↔ ∃ q, S p q ∧ (next q).isSome = true

theorem isSome_prefer {more less : Unit → Option α} : (prefer lazy more less).isSome = true ↔
    (more ()).isSome = true ∨ (less ()).isSome = true := by
  rw [prefer]
  cases lazy <;> cases more () <;> cases less () <;> simp

theorem exactly_isSome_iff (h : Explores step S) :
    (exactly step n p next).isSome = true ↔ ∃ q, Steps S n p q ∧ (next q).isSome = true := by
  induction n generalizing p with
  | zero =>
    constructor
    · exact fun hn ↦ ⟨p, .zero p, hn⟩
    · rintro ⟨q, ⟨⟩, hn⟩
      exact hn
  | succ n ih =>
    rw [exactly, h]
    constructor
    · rintro ⟨q, hq, hrest⟩
      obtain ⟨o, ho, hn⟩ := ih.1 hrest
      exact ⟨o, .succ hq ho, hn⟩
    · rintro ⟨o, ⟨⟩ | ⟨hq, ho⟩, hn⟩
      exact ⟨_, hq, ih.2 ⟨o, ho, hn⟩⟩

theorem atMost_isSome_iff (h : Explores step S) : (atMost step lazy n p next).isSome = true ↔
    ∃ m ≤ n, ∃ q, Steps S m p q ∧ (next q).isSome = true := by
  induction n generalizing p with
  | zero =>
    constructor
    · exact fun hn ↦ ⟨0, Nat.le_refl 0, p, .zero p, hn⟩
    · rintro ⟨m, hm, q, hq, hn⟩
      obtain rfl := Nat.le_zero.1 hm
      cases hq
      exact hn
  | succ n ih =>
    rw [atMost, isSome_prefer, h]
    constructor
    · rintro (⟨q, hq, hrest⟩ | hn)
      · obtain ⟨m, hm, o, ho, hn⟩ := ih.1 hrest
        exact ⟨m + 1, Nat.succ_le_succ hm, o, .succ hq ho, hn⟩
      · exact ⟨0, Nat.zero_le _, p, .zero p, hn⟩
    · rintro ⟨m, hm, o, ⟨⟩ | ⟨hq, ho⟩, hn⟩
      · exact .inr hn
      · exact .inl ⟨_, hq, ih.2 ⟨_, Nat.le_of_succ_le_succ hm, o, ho, hn⟩⟩

/-- Steps that take no character can be left out, which is why the search may end with one. -/
theorem manyTimes_isSome_iff (h : Explores step S)
    (hS : ∀ p q, S p q → q = p ∨ q.rest.length < p.rest.length) {fuel : ℕ}
    (hf : p.rest.length < fuel) : (manyTimes step lazy fuel p next).isSome = true ↔
      ∃ n q, Steps S n p q ∧ (next q).isSome = true := by
  constructor
  · intro hsome
    clear hf
    induction fuel generalizing p with
    | zero => exact ⟨0, p, .zero p, hsome⟩
    | succ fuel ih =>
      rw [manyTimes, isSome_prefer, h] at hsome
      obtain ⟨q, hq, hrest⟩ | hn := hsome
      · split at hrest
        · obtain ⟨n, o, ho, hn⟩ := ih hrest
          exact ⟨n + 1, o, .succ hq ho, hn⟩
        · exact ⟨1, q, .succ hq (.zero q), hrest⟩
      · exact ⟨0, p, .zero p, hn⟩
  · rintro ⟨n, o, hsteps, hn⟩
    induction hsteps generalizing fuel with
    | zero p =>
      obtain ⟨fuel, rfl⟩ := Nat.exists_eq_succ_of_ne_zero (Nat.ne_zero_of_lt hf)
      rw [manyTimes, isSome_prefer]
      exact .inr hn
    | @succ n p q o hq _ ih =>
      obtain rfl | hlt := hS p q hq
      · exact ih hf hn
      · obtain ⟨fuel, rfl⟩ := Nat.exists_eq_succ_of_ne_zero (Nat.ne_zero_of_lt hf)
        rw [manyTimes, isSome_prefer, h]
        refine .inl ⟨q, hq, ?_⟩
        rw [if_pos hlt]
        exact ih (by omega) hn

theorem explores_repeated (h : Explores (α := α) r.run r.Matches) (hb : ∀ m ∈ most, least ≤ m) :
    Explores (α := α) (Regex.repeated r least most lazy).run
      (Regex.repeated r least most lazy).Matches := by
  intro p next
  rw [run, exactly_isSome_iff h]
  simp only [matches_repeated_iff]
  cases most with
  | none =>
    have hmany (q : Place) : (manyTimes r.run lazy (q.rest.length + 1) q next).isSome = true ↔
        ∃ n o, Steps r.Matches n q o ∧ (next o).isSome = true :=
      manyTimes_isSome_iff h (fun _ _ ↦ Matches.eq_or_lt) (Nat.lt_succ_self _)
    simp only [hmany]
    constructor
    · rintro ⟨q, hq, n, o, ho, hn⟩
      exact ⟨o, ⟨least + n, Nat.le_add_right .., nofun, hq.trans ho⟩, hn⟩
    · rintro ⟨o, ⟨n, hle, -, hsteps⟩, hn⟩
      obtain ⟨q, hq, ho⟩ := hsteps.split hle
      exact ⟨q, hq, _, o, ho, hn⟩
  | some m =>
    simp only [atMost_isSome_iff h]
    constructor
    · rintro ⟨q, hq, n, hle, o, ho, hn⟩
      refine ⟨o, ⟨least + n, Nat.le_add_right .., ?_, hq.trans ho⟩, hn⟩
      rintro _ ⟨⟩
      have hleast := hb m rfl
      omega
    · rintro ⟨o, ⟨n, hle, hmost, hsteps⟩, hn⟩
      obtain ⟨q, hq, ho⟩ := hsteps.split hle
      have hm := hmost m rfl
      exact ⟨q, hq, _, by omega, o, ho, hn⟩

theorem explores_run (h : r.HasBounds) : Explores (α := α) r.run r.Matches := by
  induction r with
  | empty => simp [Explores, run, matches_empty_iff]
  | set s =>
    rintro ⟨before, rest⟩ next
    cases rest with
    | nil => simp [run, not_matches_set_nil]
    | cons c rest => by_cases hc : s.contains c = true <;> simp [run, matches_set_iff, hc]
  | boundary b =>
    intro p next
    by_cases hb : p.isAt b = true <;> simp [run, matches_boundary_iff, hb]
  | seq r s ihr ihs =>
    intro p next
    rw [run, ihr h.1]
    simp only [ihs h.2 _ next, matches_seq_iff]
    constructor
    · rintro ⟨q, hr, o, hs, hn⟩
      exact ⟨o, ⟨q, hr, hs⟩, hn⟩
    · rintro ⟨o, ⟨q, hr, hs⟩, hn⟩
      exact ⟨q, hr, o, hs, hn⟩
  | alt r s ihr ihs =>
    intro p next
    have hor : ((Regex.alt r s).run p next).isSome = true ↔
        (r.run p next).isSome = true ∨ (s.run p next).isSome = true := by
      rw [run]
      cases r.run p next <;> simp
    rw [hor, ihr h.1, ihs h.2]
    simp only [matches_alt_iff, or_and_right, exists_or]
  | repeated r least most lazy ih => exact explores_repeated (ih h.2) h.1

theorem matchLength?_isSome_iff (h : r.HasBounds) :
    (r.matchLength? p).isSome = true ↔ ∃ q, r.Matches p q := by
  rw [matchLength?, explores_run h]
  simp

end Highlighter.Regex
