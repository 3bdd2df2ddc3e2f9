import Highlighter.Proofs.Labels.Nesting

/-!
Labels inside labels: containment is a strict order, so that one look at each label, in the order in
which they are placed, finds all that count.
-/

namespace Highlighter.Label

variable {labels placed before after : List Label} {a b c l : Label} {length : Nat}

/-- Whether one label of a line is around another one. -/
def Around (placed : List Label) (c l : Label) : Prop :=
  c ∈ placed ∧ l ∈ placed ∧ c.id ∈ l.containers

/-- Whether a label and all that are around it are enabled. -/
def Counts (placed : List Label) (l : Label) : Prop :=
  l.disabled = false ∧ ∀ c ∈ placed, c.id ∈ l.containers → c.disabled = false

instance (placed : List Label) : DecidablePred (Counts placed) := fun _ ↦
  inferInstanceAs (Decidable (_ ∧ _))

/-! ### Containment as an order -/

section Order

variable (h : Nested length placed) (hn : (placed.map id).Nodup)

include hn in
theorem eq_of_id_eq (ha : a ∈ placed) (hb : b ∈ placed) (hid : a.id = b.id) : a = b :=
  eq_of_pairwise_ne (List.pairwise_map.1 hn) ha hb hid

include hn in
/-- A label stands at one place only. -/
theorem not_mem_before (he : placed = before ++ l :: after) : l ∉ before := by
  intro hl
  have hids : (before.map id ++ l.id :: after.map id).Nodup := by
    simpa only [he, List.map_append, List.map_cons] using hn
  exact (List.nodup_append.1 hids).2.2 _ (List.mem_map_of_mem hl) _ List.mem_cons_self rfl

include h hn in
/-- A label is around those after it that it contains. -/
theorem Nested.around_iff (he : placed = before ++ l :: after) :
    Around placed c l ↔ c ∈ before ∧ Contains length c l := by
  have hbefore : ∀ c ∈ before, c ∈ placed := fun c hc ↦ he ▸ List.mem_append_left _ hc
  have hl : l ∈ placed := he ▸ List.mem_append_right _ List.mem_cons_self
  constructor
  · rintro ⟨hc, -, hid⟩
    obtain ⟨c', hc', hcontains, hid'⟩ := (h.containers he c.id).1 hid
    obtain rfl := eq_of_id_eq hn (hbefore c' hc') hc hid'
    exact ⟨hc', hcontains⟩
  · rintro ⟨hc, hcontains⟩
    exact ⟨hbefore c hc, hl, (h.containers he c.id).2 ⟨c, hc, hcontains, rfl⟩⟩

include h in
theorem Nested.exists_around {k : Nat} (hl : l ∈ placed) (hk : k ∈ l.containers) :
    ∃ c, Around placed c l ∧ c.id = k := by
  obtain ⟨before, after, he⟩ := List.append_of_mem hl
  obtain ⟨c, hc, -, rfl⟩ := (h.containers he k).1 hk
  exact ⟨c, ⟨he ▸ List.mem_append_left _ hc, hl, hk⟩, rfl⟩

include h hn in
theorem Nested.not_around_self : ¬Around placed l l := by
  intro hl
  obtain ⟨before, after, he⟩ := List.append_of_mem hl.1
  exact not_mem_before hn he ((h.around_iff hn he).1 hl).1

include h hn in
/-- What is around a container of a label ends no earlier than the container, so the label starts
in it too. -/
theorem Nested.around_trans (hab : Around placed a b) (hbc : Around placed b c) :
    Around placed a c := by
  obtain ⟨before, after, he⟩ := List.append_of_mem hbc.2.1
  obtain ⟨hb, hcontains⟩ := (h.around_iff hn he).1 hbc
  obtain ⟨first, middle, hbefore⟩ := List.append_of_mem hb
  have he' : placed = first ++ b :: (middle ++ c :: after) := by
    rw [he, hbefore, List.append_assoc, List.cons_append]
  obtain ⟨ha, houter⟩ := (h.around_iff hn he').1 hab
  obtain ⟨-, -, hstop⟩ := h.inside b hab.2.1 a hab.1 hab.2.2
  refine (h.around_iff hn he).2 ⟨hbefore ▸ List.mem_append_left _ ha, houter.kind_ne, houter.long,
    Nat.le_trans houter.start_le hcontains.start_le, Nat.lt_of_lt_of_le hcontains.lt_stopIn hstop⟩

include h hn in
theorem Nested.not_transGen_self : ¬Relation.TransGen (Around placed) l l := by
  have hchain {a b : Label} (hab : Relation.TransGen (Around placed) a b) : Around placed a b := by
    induction hab with
    | single hab => exact hab
    | tail _ hbc ih => exact h.around_trans hn ih hbc
  exact fun hl ↦ h.not_around_self hn (hchain hl)

/-! ### The labels that count -/

include h hn in
/-- The containers of a label count if it counts, since what is around these is around it. -/
theorem Nested.counts_iff (he : placed = before ++ l :: after) :
    Counts placed l ↔ l.disabled = false ∧
      ∀ k ∈ l.containers, ∃ c ∈ before, Counts placed c ∧ c.id = k := by
  have hl : l ∈ placed := he ▸ List.mem_append_right _ List.mem_cons_self
  refine and_congr_right fun _ ↦ ?_
  constructor
  · intro henabled k hk
    obtain ⟨c, haround, rfl⟩ := h.exists_around hl hk
    have hbefore : c ∈ before := ((h.around_iff hn he).1 haround).1
    refine ⟨c, hbefore, ⟨henabled c haround.1 hk, fun d hd hid ↦ ?_⟩, rfl⟩
    exact henabled d hd (h.around_trans hn ⟨hd, haround.1, hid⟩ haround).2.2
  · intro hcounts c hc hid
    obtain ⟨c', hc', ⟨henabled, -⟩, hid'⟩ := hcounts c.id hid
    obtain rfl := eq_of_id_eq hn (he ▸ List.mem_append_left _ hc') hc hid'
    exact henabled

include h hn in
/-- After some of the labels exactly those of them that count were found. -/
theorem Nested.foldl_activeIds (he : placed = before ++ after) :
    after.foldl (fun active l ↦
        if !l.disabled && l.containers.all active.contains then active ++ [l.id] else active)
      ((before.filter fun l ↦ Counts placed l).map id) =
      (placed.filter fun l ↦ Counts placed l).map id := by
  induction after generalizing before with
  | nil => rw [he, List.append_nil]; rfl
  | cons l after ih =>
    have hstep : (!l.disabled && l.containers.all
        ((before.filter fun l ↦ Counts placed l).map id).contains) =
        decide (Counts placed l) := by
      rw [Bool.eq_iff_iff, decide_eq_true_iff, h.counts_iff hn he]
      simp [and_assoc]
    have he' : placed = (before ++ [l]) ++ after := by rw [he, List.append_assoc]; rfl
    rw [List.foldl_cons, hstep, ← ih he', List.filter_append]
    by_cases hl : Counts placed l <;> simp [hl]

include h hn in
theorem Nested.activeIds_eq :
    activeIds placed = (placed.filter fun l ↦ Counts placed l).map id :=
  h.foldl_activeIds hn (List.nil_append placed).symm

include h hn in
theorem Nested.counts_of_around (hl : Counts placed l) (hc : Around placed c l) :
    Counts placed c :=
  ⟨hl.2 c hc.1 hc.2.2, fun d hd hid ↦
    hl.2 d hd (h.around_trans hn ⟨hd, hc.1, hid⟩ hc).2.2⟩

include h hn in
theorem Nested.mem_activeIds_iff (hl : l ∈ placed) :
    l.id ∈ activeIds placed ↔ Counts placed l := by
  rw [h.activeIds_eq hn, List.mem_map]
  constructor
  · rintro ⟨c, hc, hid⟩
    obtain ⟨hc, hcounts⟩ := List.mem_filter.1 hc
    obtain rfl := eq_of_id_eq hn hc hl hid
    exact of_decide_eq_true hcounts
  · exact fun hcounts ↦ ⟨l, List.mem_filter.2 ⟨hl, decide_eq_true hcounts⟩, rfl⟩

include h in
/-- A label covers what the labels inside it cover. -/
theorem Nested.covers_of_around (hc : Around placed c l) {i : Nat}
    (hi : l.covers i length = true) : c.covers i length = true := by
  obtain ⟨hstart, -, hstop⟩ := h.inside l hc.2.1 c hc.1 hc.2.2
  simp only [covers, Bool.and_eq_true, decide_eq_true_eq] at hi ⊢
  omega

theorem pairwise_of_append {R : Label → Label → Prop}
    (h : ∀ before b after, placed = before ++ b :: after → ∀ a ∈ before, R a b) :
    placed.Pairwise R := by
  refine List.pairwise_iff_getElem.2 fun i j hi hj hij ↦ ?_
  refine h (placed.take j) placed[j] (placed.drop (j + 1)) ?_ placed[i] ?_
  · rw [List.getElem_cons_drop, List.take_append_drop]
  · exact List.mem_take_iff_getElem.2 ⟨i, Nat.lt_min.2 ⟨hij, hi⟩, rfl⟩

include h in
/-- What is around a label is around those that start in it later. -/
theorem Nested.pairwise_containers :
    placed.Pairwise fun a b ↦ b.start < a.stopIn length → a.containers ⊆ b.containers := by
  refine pairwise_of_append fun before b after he a ha hlt k hk ↦ ?_
  obtain ⟨first, middle, rfl⟩ := List.append_of_mem ha
  have he' : placed = first ++ a :: (middle ++ b :: after) := by
    rw [he, List.append_assoc, List.cons_append]
  obtain ⟨c, hc, hcontains, rfl⟩ := (h.containers he' k).1 hk
  have hca : c ∈ placed := he' ▸ List.mem_append_left _ hc
  have haa : a ∈ placed := he' ▸ List.mem_append_right _ List.mem_cons_self
  obtain ⟨-, -, hstop⟩ := h.inside a haa c hca hk
  have hordered := h.ordered
  rw [he] at hordered
  have hstart := ((List.pairwise_append.1 hordered).2.2 a ha b List.mem_cons_self).start_le
  exact (h.containers he c.id).2 ⟨c, List.mem_append_left _ hc, ⟨hcontains.kind_ne,
    hcontains.long, Nat.le_trans hcontains.start_le hstart, Nat.lt_of_lt_of_le hlt hstop⟩, rfl⟩

include h in
theorem Nested.depth_le (ha : a ∈ placed) (hb : b ∈ placed)
    (hsub : a.containers ⊆ b.containers) : a.depth ≤ b.depth := by
  have hnodup {l : Label} (hl : l ∈ placed) : l.containers.Nodup :=
    (h.ascending l hl).imp Nat.ne_of_lt
  have hperm : a.containers.Perm (b.containers.filter (a.containers.contains ·)) := by
    refine (List.perm_ext_iff_of_nodup (hnodup ha) ((hnodup hb).filter _)).2 fun k ↦ ?_
    rw [List.mem_filter, List.contains_iff_mem]
    exact ⟨fun hk ↦ ⟨hsub hk, hk⟩, fun hk ↦ hk.2⟩
  rw [h.depth a ha, h.depth b hb, hperm.length_eq]
  exact List.length_filter_le _ _

end Order

/-- Among labels that are placed, being around another one is a strict order without cycles. Those
that count are the enabled ones with no disabled one around them. -/
theorem around_place_and_activeIds (labels : List Label) (length : Nat)
    (hn : (labels.map id).Nodup) :
    let placed := place labels length
    (∀ l ∈ placed, ∀ k ∈ l.containers, ∃ c, Around placed c l ∧ c.id = k) ∧
      (∀ l, ¬Around placed l l) ∧
      (∀ a b c, Around placed a b → Around placed b c → Around placed a c) ∧
      (∀ l, ¬Relation.TransGen (Around placed) l l) ∧
      activeIds placed = (placed.filter fun l ↦ Counts placed l).map id := by
  intro placed
  have h : Nested length placed := nested_place hn length
  have hids : (placed.map id).Nodup := nodup_map_id_place_iff.2 hn
  exact ⟨fun l hl k ↦ h.exists_around hl, fun l ↦ h.not_around_self hids,
    fun a b c ↦ h.around_trans hids, fun l ↦ h.not_transGen_self hids, h.activeIds_eq hids⟩

/-- A script in a remark that is not allowed where it is, with a string and a number in it. -/
def misplaced : List Label :=
  [{ plain "NUMBER" "page" 9 (.column 11) .single with id := 3 },
    { plain "REMARK" "page" 0 .lineEnd .opening with id := 0 },
    { plain "STRING" "page" 8 (.column 12) .opening with id := 2 },
    { plain "SCRIPT" "page" 4 (.column 16) .opening with id := 1, requires := some "TAG" },
    { plain "WORD" "page" 18 (.column 22) .single with id := 4 }]

theorem around_place_and_activeIds_misplaced :
    (misplaced.map id).Nodup ∧
      (place misplaced 24).map (fun l ↦ (l.id, l.containers, l.disabled)) =
        [(0, [], false), (1, [0], true), (2, [0, 1], false), (3, [0, 1, 2], false),
          (4, [0], false)] ∧
      activeIds (place misplaced 24) = [0, 4] := by
  have hn : (misplaced.map id).Nodup := by decide
  obtain ⟨-, -, -, -, hactive⟩ := around_place_and_activeIds misplaced 24 hn
  exact ⟨hn, by decide, hactive.trans (by decide)⟩

end Highlighter.Label
