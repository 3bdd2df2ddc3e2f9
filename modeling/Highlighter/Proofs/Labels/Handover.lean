import Highlighter.Registry
import Highlighter.Proofs.Labels.Line

/-!
What a line hands to the next one. Of the regions of one scheme that a line leaves open only the
outermost goes on, unless another one starts past the last character of the line.
-/

namespace Highlighter

namespace Continuations

variable {cs : Continuations} {l : Label} {replace : Bool}

/-- At most one region of each scheme. -/
def OnePerScheme (cs : Continuations) : Prop :=
  ∀ c ∈ cs, ∀ c' ∈ cs, c.scheme = c'.scheme → c.key = c'.key

instance : DecidablePred OnePerScheme := fun cs ↦
  inferInstanceAs (Decidable (∀ c ∈ cs, ∀ c' ∈ cs, c.scheme = c'.scheme → c.key = c'.key))

theorem exists_key_add (k : Label.Key) :
    (∃ c ∈ add replace l cs, c.key = k) ↔ l.key = k ∨ ∃ c ∈ cs, c.key = k := by
  induction cs with
  | nil => simp [add]
  | cons m cs ih =>
    rw [add]
    split
    · simp
    · split
      · next hk =>
        have hm : (if replace then l else m).key = m.key := by
          split
          · exact hk
          · rfl
        simp only [List.mem_cons, or_and_right, exists_or, exists_eq_left, hm, hk]
        rw [← or_assoc, or_self]
      · simp only [List.mem_cons, or_and_right, exists_or, exists_eq_left, ih]
        rw [or_left_comm]

theorem exists_key_foldl_add (labels : List Label) (k : Label.Key) :
    (∃ c ∈ labels.foldl (fun cs l ↦ add false l.continuation cs) cs, c.key = k) ↔
      (∃ l ∈ labels, l.key = k) ∨ ∃ c ∈ cs, c.key = k := by
  induction labels generalizing cs with
  | nil => simp
  | cons l labels ih =>
    have hk : l.continuation.key = l.key := rfl
    rw [List.foldl_cons, ih, exists_key_add, hk]
    simp only [List.mem_cons, or_and_right, exists_or, exists_eq_left]
    rw [or_left_comm, or_assoc]

end Continuations

namespace Label

theorem scheme_eq_of_key {a b : Label} (h : a.key = b.key) : a.scheme = b.scheme :=
  congrArg Key.scheme h

theorem exists_key_offered (labels : List Label) (k : Key) :
    (∃ c ∈ offered labels, c.key = k) ↔ ∃ l ∈ labels, l.isOfferedBy labels = true ∧ l.key = k := by
  rw [offered, Continuations.exists_key_foldl_add]
  simp only [List.mem_filter, List.not_mem_nil, false_and, exists_false, or_false, and_assoc]

theorem onePerScheme_offered (labels : List Label) :
    (offered labels).OnePerScheme ↔ ∀ a ∈ labels, ∀ b ∈ labels, a.isOfferedBy labels = true →
      b.isOfferedBy labels = true → a.scheme = b.scheme → a.key = b.key := by
  constructor
  · intro h a ha b hb hao hbo hs
    obtain ⟨c, hc, hk⟩ := (exists_key_offered labels a.key).2 ⟨a, ha, hao, rfl⟩
    obtain ⟨c', hc', hk'⟩ := (exists_key_offered labels b.key).2 ⟨b, hb, hbo, rfl⟩
    have hs' : c.scheme = c'.scheme := by rw [scheme_eq_of_key hk, scheme_eq_of_key hk', hs]
    rw [← hk, ← hk', h c hc c' hc' hs']
  · intro h c hc c' hc' hs
    obtain ⟨a, ha, hao, hk⟩ := (exists_key_offered labels c.key).1 ⟨c, hc, rfl⟩
    obtain ⟨b, hb, hbo, hk'⟩ := (exists_key_offered labels c'.key).1 ⟨c', hc', rfl⟩
    have hs' : a.scheme = b.scheme := by rw [scheme_eq_of_key hk, scheme_eq_of_key hk', hs]
    rw [← hk, ← hk', h a ha b hb hao hbo hs']

theorem isOpenRegion_iff {l : Label} : l.isOpenRegion = true ↔
    (l.kind = .opening ∨ l.kind = .continued) ∧ l.stop = .lineEnd := by
  rw [isOpenRegion, Bool.and_eq_true]
  have hregion : l.isRegion = true ↔ l.kind = .opening ∨ l.kind = .continued := by
    cases hk : l.kind <;> simp [isRegion, hk]
  have hopen : l.stop.isOpen = true ↔ l.stop = .lineEnd := by
    cases hs : l.stop <;> simp [Stop.isOpen]
  rw [hregion, hopen]

theorem isOpenRegion_of_isOfferedBy {l : Label} {labels : List Label}
    (h : l.isOfferedBy labels = true) : l.isOpenRegion = true := by
  simp only [isOfferedBy, Bool.and_eq_true] at h
  exact h.1.1.1

namespace OfLine

variable {line : Text} {inherited : Continuations} {labels : List Label} {l c : Label}

theorem isNestedIn_of_mem (h : OfLine line inherited labels) (hc : c ∈ labels)
    (hr : c.isRegion = true) (hs : c.scheme = l.scheme) (hid : c.id ∈ l.containers) :
    l.isNestedIn labels = true := by
  refine List.any_eq_true.2 ⟨c.id, hid, ?_⟩
  obtain ⟨c', hf⟩ : ∃ c', labels.reverse.find? (·.id == c.id) = some c' := by
    rw [← Option.isSome_iff_exists, List.find?_isSome]
    exact ⟨c, List.mem_reverse.2 hc, beq_self_eq_true c.id⟩
  have hid' : c'.id = c.id := by simpa using List.find?_some hf
  obtain rfl := h.eq_of_id (List.mem_reverse.1 (List.mem_of_find?_eq_some hf)) hc hid'
  simp [hf, hr, hs]

/-- Of two regions of one scheme that are left open, the second is nested in the first if it starts
in the line. -/
theorem pairwise_nested (h : OfLine line inherited labels) :
    labels.Pairwise fun a b ↦ a.isOpenRegion = true → a.scheme = b.scheme →
      b.start < line.length → a.id ∈ b.containers ∧ b.isOfferedBy labels = false := by
  obtain ⟨sources, hp⟩ := h.placed
  have hplace := pairwise_place sources line.length
  rw [← hp] at hplace
  refine hplace.imp_of_mem fun {a b} ha hb ⟨hstart, hhold⟩ ho hs hlt ↦ ?_
  have hid := hhold (holds_of_isOpenRegion ho hstart hlt)
  have hregion : a.isRegion = true := (Bool.and_eq_true_iff.1 ho).1
  refine ⟨hid, ?_⟩
  rw [isOfferedBy, h.isNestedIn_of_mem ha hregion hs hid]
  simp

theorem isOfferedBy_iff (h : OfLine line inherited labels) (hl : l ∈ labels)
    (hle : line.length ≤ l.start) : l.isOfferedBy labels = true ↔
      l.isOpenRegion = true ∧ l.multiLine = true ∧ l.requires = none := by
  obtain ⟨sources, hp⟩ := h.placed
  obtain ⟨source, -, before, -, he⟩ := exists_source_of_mem_place (hp ▸ hl)
  have hstart : source.start = l.start := by rw [he]; rfl
  rw [placeAfter_of_le (hstart ▸ hle)] at he
  have hnested : l.isNestedIn labels = false := by rw [he]; rfl
  have hdisabled : l.disabled = l.requires.isSome := by rw [he]
  simp [isOfferedBy, hnested, hdisabled, and_assoc]

/-- Of two regions of one scheme that are handed on, the second starts past the last character,
unless they are inherited. -/
theorem key_eq_of_isOfferedBy (h : OfLine line inherited labels) (hi : inherited.OnePerScheme)
    (hpast : ∀ a ∈ labels, a.isOfferedBy labels = true → ∀ b ∈ labels, b.kind = .opening →
      b.stop = .lineEnd → b.multiLine = true → b.requires = none → line.length ≤ b.start →
      a.scheme = b.scheme → a.key = b.key) :
    ∀ a ∈ labels, ∀ b ∈ labels, a.isOfferedBy labels = true → b.isOfferedBy labels = true →
      a.scheme = b.scheme → a.key = b.key := by
  have hpair : labels.Pairwise fun a b ↦ a.isOfferedBy labels = true →
      b.isOfferedBy labels = true → a.scheme = b.scheme → a.key = b.key := by
    refine h.pairwise_nested.imp_of_mem fun {a b} ha hb hnested hao hbo hs ↦ ?_
    have hopen := isOpenRegion_of_isOfferedBy hao
    have hle : line.length ≤ b.start := by
      refine Nat.not_lt.1 fun hlt ↦ ?_
      rw [(hnested hopen hs hlt).2] at hbo
      cases hbo
    obtain ⟨hbopen, hmulti, hrequires⟩ := (h.isOfferedBy_iff hb hle).1 hbo
    obtain ⟨hkind | hkind, hstop⟩ := isOpenRegion_iff.1 hbopen
    · exact hpast a ha hao b hb hkind hstop hmulti hrequires hle hs
    · -- an inherited region starts past the last character of an empty line only
      obtain ⟨hzero, c, hc, hck⟩ := h.continued b hb hkind
      have hline : line = [] := List.length_eq_zero_iff.1 (by omega)
      obtain ⟨hkind' | hkind', -⟩ := isOpenRegion_iff.1 hopen
      · exact absurd hline (h.opening a ha hkind')
      · obtain ⟨-, c', hc', hck'⟩ := h.continued a ha hkind'
        have hs' : c'.scheme = c.scheme := by
          rw [scheme_eq_of_key hck, scheme_eq_of_key hck', hs]
        rw [← hck, ← hck', hi c' hc' c hc hs']
  intro a ha b hb
  have hflip : labels.Pairwise fun a b ↦ b.isOfferedBy labels = true →
      a.isOfferedBy labels = true → b.scheme = a.scheme → b.key = a.key :=
    hpair.imp fun hab hb ha hs ↦ (hab ha hb hs.symm).symm
  exact hpair.forall_of_forall_of_flip (fun _ _ _ _ _ ↦ rfl) hflip ha hb

end OfLine

end Label

namespace Scheme

open Label

/-- A region that starts inside another one of its scheme is nested there and not handed on. So one
region of a scheme is, unless another one is opened past the last character of the line. -/
theorem onePerScheme_offered_iff (s : Scheme) (line : Text) (inherited : Continuations)
    (maxNesting : Nat) (hi : inherited.OnePerScheme) :
    let labels := s.labelLine line inherited maxNesting
    (labels.Pairwise fun a b ↦ a.isOpenRegion = true → a.scheme = b.scheme →
      b.start < line.length → a.id ∈ b.containers ∧ b.isOfferedBy labels = false) ∧
    ((offered labels).OnePerScheme ↔
      ∀ a ∈ labels, a.isOfferedBy labels = true → ∀ b ∈ labels, b.kind = .opening →
        b.stop = .lineEnd → b.multiLine = true → b.requires = none → line.length ≤ b.start →
        a.scheme = b.scheme → a.key = b.key) := by
  intro labels
  have h : OfLine line inherited labels := s.ofLine_labelLine line inherited maxNesting
  refine ⟨h.pairwise_nested, ?_⟩
  rw [Label.onePerScheme_offered]
  constructor
  · intro hone a ha hao b hb hkind hstop hmulti hrequires hle
    refine hone a ha b hb hao ((h.isOfferedBy_iff hb hle).2 ⟨?_, hmulti, hrequires⟩)
    exact isOpenRegion_iff.2 ⟨.inl hkind, hstop⟩
  · exact h.key_eq_of_isOfferedBy hi

/-- The scheme for documents that comes with the library. -/
def documents : Scheme := (Registry.builtIn.forName? "html").getD default

theorem onePerScheme_offered_documents :
    Continuations.OnePerScheme [] ∧
      (offered (documents.labelLine "<!-- <script> a".toList [] 8)).OnePerScheme := by
  have hi : Continuations.OnePerScheme [] := by decide
  refine ⟨hi, (onePerScheme_offered_iff documents "<!-- <script> a".toList [] 8 hi).2.2 ?_⟩
  decide +kernel

/-- A script that is opened by the last characters of a line counts as outside of the comment
around them. -/
theorem not_onePerScheme_documents :
    Continuations.OnePerScheme [] ∧
      ¬(offered (documents.labelLine "<!-- <script>".toList [] 8)).OnePerScheme := by
  decide +kernel

end Scheme

end Highlighter
