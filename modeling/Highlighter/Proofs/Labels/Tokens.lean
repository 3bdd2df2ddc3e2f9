import Highlighter.Proofs.Labels.Words
import Highlighter.Proofs.Scheme.Construction

/-!
What a scheme reports of a rule for words: the labels of the words that the rule matches, in their
order. Rules that cut a text in the same way can share its words; what is reported stays the same.
-/

namespace Highlighter

/-! ### The labels of one rule -/

namespace Rule

variable {r : Rule} {scheme : String} {order offset : ℕ} {t : Text} {l : Label}

/-- The label of a word of a rule. -/
def wordLabel (r : Rule) (scheme : String) (order start stop : ℕ) : Label where
  name := r.name
  scheme := scheme
  start := start
  stop := .column stop
  kind := .single
  matched := (start, stop)
  color := r.color
  order := order
  multiLine := r.multiLine
  requires := r.requires

theorem labelAt_word (r : Rule) (scheme : String) (order : ℕ) (w : Word) :
    r.labelAt scheme order .single w.start w.stop (w.start, w.stop) =
      r.wordLabel scheme order w.start w.stop := by
  have hle : w.start ≤ w.stop := Nat.le_add_right _ _
  rw [labelAt, Nat.max_eq_left hle]
  rfl

theorem mem_words_iff (hv : r.valid = true) (hs : r.strategy ≠ .allText) :
    l ∈ r.words scheme order offset t ↔ ∃ before word after, t = before ++ word ++ after ∧
      r.strategy.IsToken before word after ∧ r.matchesToken word = true ∧
      l = r.wordLabel scheme order (offset + before.length)
        (offset + before.length + word.length) := by
  rw [words, if_pos hv, List.mem_map]
  simp only [labelAt_word, List.mem_filter, SearchStrategy.mem_words_iff hs]
  constructor
  · rintro ⟨w, ⟨⟨before, after, ht, hstart, hw⟩, hm⟩, rfl⟩
    exact ⟨before, w.text, after, ht, hw, hm, by rw [Word.stop, hstart]⟩
  · rintro ⟨before, word, after, ht, hw, hm, rfl⟩
    exact ⟨⟨offset + before.length, word⟩, ⟨⟨before, after, ht, rfl, hw⟩, hm⟩, rfl⟩

theorem pairwise_words (r : Rule) (scheme : String) (order offset : ℕ) (t : Text) :
    (r.words scheme order offset t).Pairwise fun a b ↦ a.matched.2 ≤ b.matched.1 := by
  rw [words]
  split
  · exact List.pairwise_map.2 ((r.strategy.pairwise_words offset t).filter _)
  · exact .nil

theorem pairwise_start_words (hv : r.valid = true) (hs : r.strategy ≠ .allText) :
    (r.words scheme order offset t).Pairwise fun a b ↦ a.start < b.start := by
  refine (r.pairwise_words scheme order offset t).imp_of_mem fun {a b} ha hb hab ↦ ?_
  obtain ⟨before, word, after, -, hw, -, rfl⟩ := (mem_words_iff hv hs).1 ha
  obtain ⟨before', word', after', -, -, -, rfl⟩ := (mem_words_iff hv hs).1 hb
  have hpos := List.length_pos_iff.2 hw.ne_nil
  have hgap : offset + before.length + word.length ≤ offset + before'.length := hab
  show offset + before.length < offset + before'.length
  omega

theorem occurrences_of_words (hs : r.strategy ≠ .allText) :
    r.occurrences scheme order offset t = r.words scheme order offset t := by
  rw [occurrences]
  split
  · next he => exact absurd he hs
  · rfl

end Rule

/-! ### What a scheme reports -/

namespace Scheme

variable {s : Scheme} {r : Rule} {order offset : ℕ} {t : Text}

/-- Of lists under the names of rules that have names of their own, the one of a rule is found. -/
theorem lookup_filterMap_zipIdx {f : Rule × ℕ → List Label} {rules : List Rule} {n i : ℕ}
    (h : (rules.map LabelRule.name).Nodup) (hr : rules[i]? = some r) :
    (((rules.zipIdx n).filterMap fun e ↦
      match f e with
      | [] => none
      | found => some (e.1.name, found)).lookup r.name).getD [] = f (r, n + i) := by
  induction rules generalizing n i with
  | nil => cases hr
  | cons r₀ rules ih =>
    obtain ⟨hfresh, hrules⟩ := List.nodup_cons.1 h
    rw [List.zipIdx_cons, List.filterMap_cons]
    cases i with
    | zero =>
      cases hr
      cases f (r, n) with
      | nil =>
        dsimp only
        rw [List.lookup_eq_none_iff.2 fun e he ↦ ?_]
        · rfl
        · obtain ⟨⟨r', k⟩, hmem, hsome⟩ := List.mem_filterMap.1 he
          have hr' : r' ∈ rules := List.fst_mem_of_mem_zipIdx hmem
          have hname : r.name ≠ r'.name := fun hname ↦
            hfresh (hname ▸ List.mem_map_of_mem hr')
          split at hsome
          · cases hsome
          · cases hsome
            simpa using hname
      | cons l found =>
        dsimp only
        rw [List.lookup_cons_self]
        rfl
    | succ i =>
      have hname : r.name ≠ r₀.name := fun hname ↦
        hfresh (hname ▸ List.mem_map_of_mem (List.mem_of_getElem? hr))
      have hrest := ih (n := n + 1) hrules hr
      rw [Nat.add_assoc, Nat.add_comm 1 i] at hrest
      cases f (r₀, n) with
      | nil => exact hrest
      | cons l found =>
        dsimp only
        rw [List.lookup_cons, beq_false_of_ne hname]
        exact hrest

theorem lookup_occurrences (h : s.labelNames.Nodup) (hr : s.rules[order]? = some r) :
    ((s.occurrences offset t).lookup r.name).getD [] = r.occurrences s.name order offset t := by
  have hfound := lookup_filterMap_zipIdx
    (f := fun e ↦ e.1.occurrences s.name e.2 offset t) (n := 0) h hr
  rw [Nat.zero_add] at hfound
  exact hfound

end Scheme

/-! ### Sharing words -/

/-- The words of a text that were cut so far, each list with the strategy it was cut by. -/
abbrev SharedWords := List (SearchStrategy × List Word)

/-- The words for a strategy, cut anew only if they were not before. -/
def SearchStrategy.sharedWords (s : SearchStrategy) (offset : ℕ) (t : Text)
    (shared : SharedWords) : List Word × SharedWords :=
  match shared.lookup s with
  | some words => (words, shared)
  | none => (s.scan offset t, shared ++ [(s, s.scan offset t)])

/-- The occurrences of a rule by place, its words from those that are shared. -/
def Rule.sharedOccurrences (r : Rule) (scheme : String) (order offset : ℕ) (t : Text)
    (shared : SharedWords) : List Label × SharedWords :=
  if r.valid then
    match r.strategy with
    | .allText =>
      (Sorting.sort delimiterLe
        (r.openings scheme order offset t ++ r.closings scheme order offset t), shared)
    | strategy =>
      let (words, shared) := strategy.sharedWords offset t shared
      (Sorting.sort delimiterLe ((words.filter fun w ↦ r.matchesToken w.text).map fun w ↦
        r.labelAt scheme order .single w.start w.stop (w.start, w.stop)), shared)
  else ([], shared)

def Scheme.sharedOccurrencesFrom (scheme : String) (offset : ℕ) (t : Text) (shared : SharedWords) :
    List (Rule × ℕ) → List (String × List Label)
  | [] => []
  | (r, order) :: rest =>
    match r.sharedOccurrences scheme order offset t shared with
    | ([], shared) => sharedOccurrencesFrom scheme offset t shared rest
    | (found, shared) => (r.name, found) :: sharedOccurrencesFrom scheme offset t shared rest

/-- The occurrences of all rules, which go through the text one after the other. -/
def Scheme.sharedOccurrences (s : Scheme) (offset : ℕ) (t : Text) : List (String × List Label) :=
  sharedOccurrencesFrom s.name offset t [] s.rules.zipIdx

/-- Whether the words that are shared are those that a strategy would find anew. -/
def AreWords (offset : ℕ) (t : Text) (shared : SharedWords) : Prop :=
  ∀ e ∈ shared, e.2 = e.1.words offset t

section Sharing

variable {offset order : ℕ} {t : Text} {shared : SharedWords} {scheme : String}

theorem SearchStrategy.sharedWords_eq (s : SearchStrategy) (h : AreWords offset t shared) :
    (s.sharedWords offset t shared).1 = s.words offset t ∧
      AreWords offset t (s.sharedWords offset t shared).2 := by
  rw [sharedWords]
  split
  · next words hwords =>
    obtain ⟨l₁, l₂, he, -⟩ := List.lookup_eq_some_iff.1 hwords
    exact ⟨h (s, words) (he ▸ List.mem_append_right _ List.mem_cons_self), h⟩
  · refine ⟨s.scan_eq_words offset t, fun e he ↦ ?_⟩
    obtain he | he := List.mem_append.1 he
    · exact h e he
    · rw [List.mem_singleton.1 he]
      exact s.scan_eq_words offset t

/-- Words come by place, so putting them in that order leaves them as they are. -/
theorem Rule.sort_words (r : Rule) (scheme : String) (order offset : ℕ) (t : Text) :
    Sorting.sort delimiterLe (r.words scheme order offset t) = r.words scheme order offset t := by
  have hplaces : (r.words scheme order offset t).Pairwise fun a b ↦
      a.matched.1 ≤ b.matched.1 ∧ a.kind ≠ .closing := by
    rw [words]
    split
    · refine List.pairwise_map.2 (((r.strategy.pairwise_words offset t).filter _).imp ?_)
      intro a b hab
      have hle : a.start ≤ a.stop := Nat.le_add_right _ _
      exact ⟨Nat.le_trans hle hab, nofun⟩
    · exact .nil
  refine Sorting.sort_of_pairwise (hplaces.imp fun {a b} h ↦ ?_)
  obtain ⟨hle, hkind⟩ := h
  simp only [delimiterLe, Bool.or_eq_true, Bool.and_eq_true, decide_eq_true_eq, beq_iff_eq,
    bne_iff_ne]
  obtain hlt | heq := Nat.lt_or_eq_of_le hle
  · exact .inl hlt
  · exact .inr ⟨heq, .inl hkind⟩

theorem Rule.sharedOccurrences_eq (r : Rule) (scheme : String) (order : ℕ)
    (h : AreWords offset t shared) :
    (r.sharedOccurrences scheme order offset t shared).1 = r.occurrences scheme order offset t ∧
      AreWords offset t (r.sharedOccurrences scheme order offset t shared).2 := by
  rw [sharedOccurrences]
  split
  · next hv =>
    split
    · next hs => exact ⟨by rw [occurrences, hs], h⟩
    · next hs =>
      obtain ⟨hwords, hshared⟩ := r.strategy.sharedWords_eq h
      refine ⟨?_, hshared⟩
      rw [occurrences_of_words hs, ← sort_words, words, if_pos hv, ← hwords]
  · next hv =>
    refine ⟨?_, h⟩
    by_cases hs : r.strategy = .allText
    · rw [occurrences, hs, openings, closings, if_neg hv, if_neg hv]
      rfl
    · rw [occurrences_of_words hs, words, if_neg hv]

theorem Scheme.sharedOccurrencesFrom_eq (h : AreWords offset t shared) (rules : List (Rule × ℕ)) :
    sharedOccurrencesFrom scheme offset t shared rules = rules.filterMap fun (r, order) ↦
      match r.occurrences scheme order offset t with
      | [] => none
      | found => some (r.name, found) := by
  induction rules generalizing shared with
  | nil => rfl
  | cons e rules ih =>
    obtain ⟨r, order⟩ := e
    obtain ⟨hfound, hshared⟩ := r.sharedOccurrences_eq scheme order h
    rw [sharedOccurrencesFrom, List.filterMap_cons]
    split
    · next later hr =>
      rw [hr] at hfound hshared
      simp only [← hfound]
      exact ih hshared
    · next found later hne hr =>
      rw [hr] at hfound hshared
      simp only [← hfound]
      rw [ih hshared]

theorem Scheme.sharedOccurrences_eq (s : Scheme) (offset : ℕ) (t : Text) :
    s.sharedOccurrences offset t = s.occurrences offset t :=
  sharedOccurrencesFrom_eq (fun _ he ↦ absurd he List.not_mem_nil) s.rules.zipIdx

end Sharing

namespace Scheme

variable {s : Scheme} {r : Rule}

/-- Under the name of a rule for words a scheme reports just the words of the text that the rule
matches: of the longest runs between its own separators, or of the single characters, in the order
of their places. No rule finds anything else since its words are shared with others. -/
theorem occurrences_words (hs : ∃ d : Draft, d.build = .ok s) (hr : r ∈ s.rules)
    (hv : r.valid = true) (hw : r.strategy ≠ .allText) (offset : ℕ) (t : Text) :
    ∃ order found, s.orderOf? r.name = some order ∧
      ((s.occurrences offset t).lookup r.name).getD [] = found ∧
      found.Pairwise (fun a b ↦ a.start < b.start) ∧
      (∀ l, l ∈ found ↔ ∃ before word after, t = before ++ word ++ after ∧
        r.strategy.IsToken before word after ∧ r.matchesToken word = true ∧
        l = r.wordLabel s.name order (offset + before.length)
          (offset + before.length + word.length)) ∧
      s.sharedOccurrences offset t = s.occurrences offset t := by
  obtain ⟨d, hd⟩ := hs
  have hnamed := Draft.wellNamed_of_build hd
  obtain ⟨order, horder⟩ := List.getElem?_of_mem hr
  refine ⟨order, r.words s.name order offset t, hnamed.orderOf?_eq_some_iff.2 ⟨r, horder, rfl⟩, ?_,
    Rule.pairwise_start_words hv hw, fun l ↦ Rule.mem_words_iff hv hw,
    s.sharedOccurrences_eq offset t⟩
  rw [lookup_occurrences hnamed.nodup_labels horder, Rule.occurrences_of_words hw]

/-- Numbers between blanks and semicolons. -/
def number : Rule :=
  ((Rule.token "NUMBER" .plain).withSeparators ";".toList).withPattern "-?\\d+".toList

/-- Numbers beside a unit, which more characters separate, and signs. -/
def sizes : Draft :=
  (Draft.new "sizes").labels [.token "px" .plain, number,
    (Rule.singleChar "SIGN" .plain).withPattern "[-;]".toList]

theorem occurrences_words_sizes :
    ∃ s, sizes.build = .ok s ∧ number ∈ s.rules ∧ number.valid = true ∧
      number.strategy ≠ .allText ∧
      number.wordLabel "sizes" 1 7 9 ∈
        ((s.occurrences 5 "é -1;px".toList).lookup number.name).getD [] := by
  have hd : sizes.build = .ok sizes.complete := Draft.build_eq_ok_iff.2
    ⟨⟨by decide +kernel, by decide +kernel, by decide +kernel, by decide +kernel⟩, rfl⟩
  have hr : number ∈ sizes.complete.rules := List.mem_cons_of_mem _ List.mem_cons_self
  have hv : number.valid = true := by decide +kernel
  have hw : number.strategy ≠ .allText := by decide +kernel
  obtain ⟨order, found, horder, hfound, -, hmem, -⟩ :=
    occurrences_words ⟨sizes, hd⟩ hr hv hw 5 "é -1;px".toList
  refine ⟨sizes.complete, hd, hr, hv, hw, ?_⟩
  have h1 : sizes.complete.orderOf? number.name = some 1 := by decide +kernel
  cases h1.symm.trans horder
  rw [hfound, hmem]
  have hrun : IsLongestRun (fun c ↦ Text.isBlank c || [';'].contains c) ['é', ' '] ['-', '1']
      [';', 'p', 'x'] := by
    refine ⟨List.cons_ne_nil _ _, List.forall_mem_cons.2 ⟨by decide +kernel, ?_⟩, ?_, ?_⟩
    · exact List.forall_mem_singleton.2 (by decide +kernel)
    · rintro c ⟨⟩
      decide +kernel
    · rintro c ⟨⟩
      decide +kernel
  exact ⟨['é', ' '], ['-', '1'], [';', 'p', 'x'], by decide, hrun, by decide +kernel, rfl⟩

end Scheme

end Highlighter
