import Mathlib.Data.List.TakeWhile
import Highlighter.Occurrences
import Highlighter.Proofs.Scheme.Construction

/-!
The words that a rule finds in a text are the longest runs of characters that are no separators and
that the rule matches, one after the other, whatever the other rules of the scheme look for.
-/

namespace Highlighter

/-! ### The longest runs of a text -/

/-- Whether a part of a text, with what is before and after it, is a longest run of characters that
are no separators. -/
structure IsLongestRun (isSeparator : Char → Bool) (before run after : Text) : Prop where
  nonempty : run ≠ []
  inside : ∀ c ∈ run, isSeparator c = false
  before : ∀ c ∈ before.getLast?, isSeparator c = true
  after : ∀ c ∈ after.head?, isSeparator c = true

/-- Whether a text has such a run at an index. -/
def HasRunAt (isSeparator : Char → Bool) (t : Text) (i : ℕ) (run : Text) : Prop :=
  ∃ before after, t = before ++ run ++ after ∧ i = before.length ∧
    IsLongestRun isSeparator before run after

section Runs

variable {sep : Char → Bool} {i : ℕ} {c : Char} {t run word rest before after : Text}

theorem IsLongestRun.takeWhile_append (h : IsLongestRun sep before run after) :
    (run ++ after).takeWhile (!sep ·) = run := by
  rw [List.takeWhile_append_of_pos fun c hc ↦ by rw [h.inside c hc]; rfl]
  cases after with
  | nil => exact List.append_nil run
  | cons c after => simp [h.after c rfl]

/-- A text that begins with a character that is no separator begins with a longest run. -/
theorem isLongestRun_takeWhile (hc : sep c = false) :
    IsLongestRun sep [] (c :: t.takeWhile (!sep ·)) (t.dropWhile (!sep ·)) where
  nonempty := List.cons_ne_nil _ _
  inside := List.forall_mem_cons.2 ⟨hc, fun d hd ↦ by simpa using List.mem_takeWhile_imp hd⟩
  before := nofun
  after d hd := by
    have hhead := List.head?_dropWhile_not (!sep ·) t
    rw [Option.mem_def.1 hd] at hhead
    simpa using hhead

/-- A text is cut into separators and longest runs. -/
theorem runs_induction (sep : Char → Bool) {P : Text → Prop} (nil : P [])
    (separator : ∀ c t, sep c = true → P t → P (c :: t))
    (run : ∀ word rest, IsLongestRun sep [] word rest → P rest → P (word ++ rest)) (t : Text) :
    P t := by
  induction hlen : t.length using Nat.strongRecOn generalizing t with
  | ind len ih =>
    cases t with
    | nil => exact nil
    | cons c t =>
      rw [List.length_cons] at hlen
      cases hc : sep c with
      | true => exact separator c t hc (ih t.length (by omega) t rfl)
      | false =>
        have hshort := (List.dropWhile_sublist (!sep ·) (l := t)).length_le
        have hrest := ih _ (by omega) (t.dropWhile (!sep ·)) rfl
        have hcut := run _ _ (isLongestRun_takeWhile hc) hrest
        rwa [List.cons_append, List.takeWhile_append_dropWhile] at hcut

theorem hasRunAt_cons_of_separator (hc : sep c = true) :
    HasRunAt sep (c :: t) i run ↔ ∃ j, i = j + 1 ∧ HasRunAt sep t j run := by
  constructor
  · rintro ⟨before, after, ht, rfl, hr⟩
    cases before with
    | nil =>
      obtain ⟨d, run, rfl⟩ := List.exists_cons_of_ne_nil hr.nonempty
      cases ht
      rw [hr.inside c List.mem_cons_self] at hc
      cases hc
    | cons d before =>
      cases ht
      refine ⟨before.length, rfl, before, after, rfl, rfl, hr.nonempty, hr.inside, ?_, hr.after⟩
      intro e he
      exact hr.before e (by rw [List.getLast?_cons, Option.mem_def.1 he]; rfl)
  · rintro ⟨j, rfl, before, after, rfl, rfl, hr⟩
    refine ⟨c :: before, after, rfl, rfl, hr.nonempty, hr.inside, fun d hd ↦ ?_, hr.after⟩
    rw [List.getLast?_cons] at hd
    cases hlast : before.getLast? with
    | none => rw [hlast] at hd; cases hd; exact hc
    | some e => rw [hlast] at hd; cases hd; exact hr.before e hlast

/-- The longest runs of a text that begins with one are that one and those of the rest. -/
theorem hasRunAt_append (hw : IsLongestRun sep [] word rest) :
    HasRunAt sep (word ++ rest) i run ↔
      i = 0 ∧ run = word ∨ ∃ j, i = word.length + j ∧ HasRunAt sep rest j run := by
  constructor
  · rintro ⟨before, after, ht, rfl, hr⟩
    rw [List.append_assoc, List.append_eq_append_iff] at ht
    obtain ⟨more, rfl, rfl⟩ | ⟨more, rfl, ht⟩ := ht
    · refine .inr ⟨more.length, List.length_append, more, after, (List.append_assoc ..).symm, rfl,
        hr.nonempty, hr.inside, fun c hc ↦ hr.before c ?_, hr.after⟩
      rw [List.getLast?_append, Option.mem_def.1 hc]
      rfl
    · have hnil : before = [] := by
        by_contra hne
        have hsep := hr.before _ (List.getLast?_eq_some_getLast hne)
        rw [hw.inside _ (List.mem_append_left _ (List.getLast_mem hne))] at hsep
        cases hsep
      subst hnil
      refine .inl ⟨rfl, ?_⟩
      rw [← hr.takeWhile_append, ht]
      exact hw.takeWhile_append
  · rintro (⟨rfl, rfl⟩ | ⟨j, rfl, before, after, rfl, rfl, hr⟩)
    · exact ⟨[], rest, rfl, rfl, hw⟩
    · refine ⟨word ++ before, after, by simp only [List.append_assoc], List.length_append.symm,
        hr.nonempty, hr.inside, fun c hc ↦ ?_, hr.after⟩
      rw [List.getLast?_append] at hc
      cases hlast : before.getLast? with
      | none =>
        -- the rest begins with a separator, and so not with this run
        obtain rfl := List.getLast?_eq_none_iff.1 hlast
        obtain ⟨d, run, rfl⟩ := List.exists_cons_of_ne_nil hr.nonempty
        have hsep := hw.after d rfl
        rw [hr.inside d List.mem_cons_self] at hsep
        cases hsep
      | some e =>
        rw [hlast] at hc
        cases hc
        exact hr.before c hlast

end Runs

/-! ### Words -/

namespace Word

variable {sep : Char → Bool} {n : ℕ} {c : Char} {t word rest : Text} {w : Word}

theorem allFrom_cons_of_separator (hc : sep c = true) :
    allFrom sep n (c :: t) = allFrom sep (n + 1) t := by
  rw [allFrom, if_pos hc]

theorem le_start_of_mem_allFrom (h : w ∈ allFrom sep n t) : n ≤ w.start := by
  induction t generalizing n w with
  | nil => cases h
  | cons c t ih =>
    have hlater : ∀ v ∈ allFrom sep (n + 1) t, n ≤ v.start := fun v hv ↦ Nat.le_of_succ_le (ih hv)
    rw [allFrom] at h
    split at h
    · exact hlater w h
    · split at h
      · cases List.mem_singleton.1 h
        exact Nat.le_refl n
      · next v later hrest =>
        split at h
        · obtain rfl | h := List.mem_cons.1 h
          · exact Nat.le_refl n
          · exact hlater w (hrest ▸ List.mem_cons_of_mem v h)
        · obtain rfl | h := List.mem_cons.1 h
          · exact Nat.le_refl n
          · exact hlater w h

/-- A longest run at the beginning is the first word. -/
theorem allFrom_append (h : IsLongestRun sep [] word rest) :
    allFrom sep n (word ++ rest) = ⟨n, word⟩ :: allFrom sep (n + word.length) rest := by
  obtain ⟨hne, hin, -, hrest⟩ := h
  induction word generalizing n with
  | nil => exact absurd rfl hne
  | cons c word ih =>
    obtain ⟨hc, hin⟩ := List.forall_mem_cons.1 hin
    rw [List.cons_append, allFrom, if_neg (by simp [hc])]
    cases word with
    | nil =>
      have hlater : ∀ v ∈ allFrom sep (n + 1) rest, v.start ≠ n + 1 := fun v hv ↦ by
        cases rest with
        | nil => cases hv
        | cons d rest =>
          rw [allFrom_cons_of_separator (hrest d rfl)] at hv
          have := le_start_of_mem_allFrom hv
          omega
      rw [List.nil_append]
      split
      · next hnil => exact congrArg _ hnil.symm
      · next v later hwords =>
        rw [if_neg (hlater v (hwords ▸ List.mem_cons_self))]
        rfl
    | cons d word =>
      simp only [ih (List.cons_ne_nil d word) hin, if_true, List.length_cons]
      congr 2
      omega

/-- The words are the longest runs of characters that are no separators. -/
theorem mem_allFrom_iff :
    w ∈ allFrom sep n t ↔ ∃ i, w.start = n + i ∧ HasRunAt sep t i w.text := by
  induction t using runs_induction sep generalizing n with
  | nil =>
    refine ⟨nofun, ?_⟩
    rintro ⟨i, -, before, after, ht, -, hr⟩
    simp [hr.nonempty] at ht
  | separator c t hc ih =>
    rw [allFrom_cons_of_separator hc, ih]
    simp only [hasRunAt_cons_of_separator hc]
    constructor
    · rintro ⟨i, hs, hr⟩
      exact ⟨i + 1, by omega, i, rfl, hr⟩
    · rintro ⟨_, hs, i, rfl, hr⟩
      exact ⟨i, by omega, hr⟩
  | run word rest hrun ih =>
    rw [allFrom_append hrun, List.mem_cons, ih]
    simp only [hasRunAt_append hrun]
    constructor
    · rintro (rfl | ⟨i, hs, hr⟩)
      · exact ⟨0, rfl, .inl ⟨rfl, rfl⟩⟩
      · exact ⟨word.length + i, by omega, .inr ⟨i, rfl, hr⟩⟩
    · rintro ⟨_, hs, ⟨rfl, ht⟩ | ⟨i, rfl, hr⟩⟩
      · exact .inl (congrArg₂ Word.mk hs ht)
      · exact .inr ⟨i, by omega, hr⟩

theorem pairwise_allFrom (sep : Char → Bool) (n : ℕ) (t : Text) :
    (allFrom sep n t).Pairwise fun a b ↦ a.stop ≤ b.start := by
  induction t using runs_induction sep generalizing n with
  | nil => exact .nil
  | separator c t hc ih => exact allFrom_cons_of_separator hc ▸ ih (n + 1)
  | run word rest hrun ih =>
    rw [allFrom_append hrun]
    exact List.pairwise_cons.2 ⟨fun w hw ↦ le_start_of_mem_allFrom hw, ih _⟩

theorem mem_singles_iff : w ∈ singles n t ↔ ∃ before after, t = before ++ w.text ++ after ∧
    w.start = n + before.length ∧ w.text.length = 1 := by
  induction t generalizing n with
  | nil =>
    refine ⟨nofun, ?_⟩
    rintro ⟨before, after, ht, -, hlen⟩
    simp [List.ne_nil_of_length_pos (Nat.lt_of_lt_of_eq Nat.one_pos hlen.symm)] at ht
  | cons c t ih =>
    rw [singles, List.mem_cons, ih]
    constructor
    · rintro (rfl | ⟨before, after, rfl, hs, hlen⟩)
      · exact ⟨[], t, rfl, rfl, rfl⟩
      · exact ⟨c :: before, after, rfl, by rw [hs, List.length_cons]; omega, hlen⟩
    · rintro ⟨before, after, ht, hs, hlen⟩
      cases before with
      | nil =>
        obtain ⟨d, hd⟩ := List.length_eq_one_iff.1 hlen
        rw [hd] at ht
        cases ht
        exact .inl (congrArg₂ Word.mk hs hd)
      | cons d before =>
        cases ht
        exact .inr ⟨before, after, rfl, by rw [hs, List.length_cons]; omega, hlen⟩

theorem le_start_of_mem_singles (h : w ∈ singles n t) : n ≤ w.start := by
  obtain ⟨before, -, -, hs, -⟩ := mem_singles_iff.1 h
  omega

theorem pairwise_singles (n : ℕ) (t : Text) :
    (singles n t).Pairwise fun a b ↦ a.stop ≤ b.start := by
  induction t generalizing n with
  | nil => exact .nil
  | cons c t ih => exact List.pairwise_cons.2 ⟨fun w hw ↦ le_start_of_mem_singles hw, ih (n + 1)⟩

/-- The words of a text, in one pass that carries the word it is in. -/
def scanFrom (sep : Char → Bool) (n : ℕ) (current : Option Word) : Text → List Word
  | [] => current.toList
  | c :: t =>
    if sep c then current.toList ++ scanFrom sep (n + 1) none t
    else match current with
      | none => scanFrom sep (n + 1) (some ⟨n, [c]⟩) t
      | some w => scanFrom sep (n + 1) (some ⟨w.start, w.text ++ [c]⟩) t

/-- The word that is carried ends where the pass is, and stands before what is still to be read. -/
theorem scanFrom_eq_allFrom (sep : Char → Bool) (t : Text) :
    (∀ n, scanFrom sep n none t = allFrom sep n t) ∧
      ∀ w : Word, w.text ≠ [] → (∀ c ∈ w.text, sep c = false) →
        scanFrom sep w.stop (some w) t = allFrom sep w.start (w.text ++ t) := by
  induction t with
  | nil =>
    refine ⟨fun n ↦ rfl, fun w hne hin ↦ ?_⟩
    have hrun : IsLongestRun sep [] w.text [] := ⟨hne, hin, nofun, nofun⟩
    rw [allFrom_append hrun]
    rfl
  | cons c t ih =>
    obtain ⟨hnone, hsome⟩ := ih
    cases hc : sep c with
    | true =>
      refine ⟨fun n ↦ ?_, fun w hne hin ↦ ?_⟩
      · rw [scanFrom, if_pos hc, hnone, allFrom_cons_of_separator hc]
        rfl
      · have hrun : IsLongestRun sep [] w.text (c :: t) :=
          ⟨hne, hin, nofun, fun d hd ↦ by cases hd; exact hc⟩
        rw [scanFrom, if_pos hc, hnone, allFrom_append hrun, allFrom_cons_of_separator hc]
        rfl
    | false =>
      have hin' : ∀ d ∈ [c], sep d = false := List.forall_mem_singleton.2 hc
      refine ⟨fun n ↦ ?_, fun w hne hin ↦ ?_⟩
      · rw [scanFrom, if_neg (by simp [hc])]
        exact hsome ⟨n, [c]⟩ (List.cons_ne_nil c []) hin'
      · have hstop : w.stop + 1 = Word.stop ⟨w.start, w.text ++ [c]⟩ := by
          rw [stop, stop, List.length_append, Nat.add_assoc]
          rfl
        have hlonger := hsome ⟨w.start, w.text ++ [c]⟩ (List.append_ne_nil_of_left_ne_nil hne [c])
          (List.forall_mem_append.2 ⟨hin, hin'⟩)
        rw [scanFrom, if_neg (by simp [hc]), hstop, hlonger, List.append_cons w.text c t]

end Word

namespace SearchStrategy

variable {s : SearchStrategy} {offset : ℕ} {t : Text} {w : Word}

/-- What a strategy looks at in a text: the longest runs between separators, of which blanks are
some, or every character. -/
def IsToken (s : SearchStrategy) (before word after : Text) : Prop :=
  match s with
  | .allText => False
  | .separators chars =>
    IsLongestRun (fun c ↦ Text.isBlank c || chars.contains c) before word after
  | .singleChar => word.length = 1

theorem mem_words_iff (hs : s ≠ .allText) : w ∈ s.words offset t ↔ ∃ before after,
    t = before ++ w.text ++ after ∧ w.start = offset + before.length ∧
      s.IsToken before w.text after := by
  cases s with
  | allText => exact absurd rfl hs
  | separators chars =>
    refine Word.mem_allFrom_iff.trans ⟨?_, ?_⟩
    · rintro ⟨_, hs, before, after, ht, rfl, hr⟩
      exact ⟨before, after, ht, hs, hr⟩
    · rintro ⟨before, after, ht, hs, hr⟩
      exact ⟨_, hs, before, after, ht, rfl, hr⟩
  | singleChar => exact Word.mem_singles_iff

theorem le_start_of_mem_words (h : w ∈ s.words offset t) : offset ≤ w.start := by
  cases s with
  | singleChar => exact Word.le_start_of_mem_singles h
  | allText => exact Word.le_start_of_mem_allFrom h
  | separators chars => exact Word.le_start_of_mem_allFrom h

theorem pairwise_words (s : SearchStrategy) (offset : ℕ) (t : Text) :
    (s.words offset t).Pairwise fun a b ↦ a.stop ≤ b.start := by
  cases s with
  | allText => exact Word.pairwise_allFrom _ offset t
  | separators chars => exact Word.pairwise_allFrom _ offset t
  | singleChar => exact Word.pairwise_singles offset t

/-- The words for a strategy, in one pass over the text. -/
def scan (s : SearchStrategy) (offset : ℕ) (t : Text) : List Word :=
  match s with
  | .singleChar => Word.singles offset t
  | _ => Word.scanFrom s.isSeparator offset none t

theorem scan_eq_words (s : SearchStrategy) (offset : ℕ) (t : Text) :
    s.scan offset t = s.words offset t := by
  cases s with
  | allText => exact (Word.scanFrom_eq_allFrom _ t).1 offset
  | separators chars => exact (Word.scanFrom_eq_allFrom _ t).1 offset
  | singleChar => rfl

theorem IsToken.ne_nil {before word after : Text} (h : s.IsToken before word after) :
    word ≠ [] := by
  cases s with
  | allText => exact h.elim
  | separators chars => exact h.nonempty
  | singleChar => exact List.ne_nil_of_length_pos (Nat.lt_of_lt_of_eq Nat.one_pos (Eq.symm h))

end SearchStrategy

end Highlighter
