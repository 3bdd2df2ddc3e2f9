import Highlighter.Proofs.Labels.Trace

/-!
Where the labels of a line come from. Only the labels that are there already are cut by later ones,
nothing else of them changes.
-/

namespace Highlighter

namespace Label

namespace Trace

variable {line : Text} {inherited : Continuations} {level : Nat} {origin : Option Nat}
variable {s : Stretch} {t t' t'' u v : Trace} {c l p : Label}

/-! ### A run through the stretches of a line -/

/-- Steps that are taken one after the other. -/
inductive Chain (step : Nat × Stretch → Trace → Trace → Prop) :
    List (Nat × Stretch) → Trace → Trace → Prop
  | nil (t : Trace) : Chain step [] t t
  | cons {e : Nat × Stretch} {rest : List (Nat × Stretch)} {t t' t'' : Trace} (h : step e t t')
      (hrest : Chain step rest t' t'') : Chain step (e :: rest) t t''

variable {step : Nat × Stretch → Trace → Trace → Prop} {es : List (Nat × Stretch)}

theorem chain_foldl {f : Trace → Nat × Stretch → Trace} (hf : ∀ t e, step e t (f t e))
    (es : List (Nat × Stretch)) (t : Trace) : Chain step es t (es.foldl f t) := by
  induction es generalizing t with
  | nil => exact .nil t
  | cons e es ih => exact .cons (hf t e) (ih (f t e))

/-- Whether the labels of a stretch, and of the text embedded in it to some depth, are added to
those of one trace in another one. -/
def IsRun (line : Text) (inherited : Continuations) (level : Nat) (origin : Option Nat)
    (s : Stretch) (t t' : Trace) : Prop :=
  ∃ nesting, t' = t.addStretch line inherited nesting level origin s

theorem IsRun.induct {motive : Nat → Option Nat → Stretch → Trace → Trace → Prop}
    (idle : ∀ level origin s t, motive level origin s t t)
    (found : ∀ level origin s t inner t', foundIn line inherited level s ≠ [] →
      inner.Sublist (embeddedFrom
        (t.add origin (foundIn line inherited level s) line.length).labels t.labels.length
        s.scheme) →
      Chain (fun e u v ↦ IsRun line inherited (level + 1) (some e.1) e.2 u v ∧
        motive (level + 1) (some e.1) e.2 u v) inner
        (t.add origin (foundIn line inherited level s) line.length) t' →
      motive level origin s t t')
    (h : IsRun line inherited level origin s t t') : motive level origin s t t' := by
  obtain ⟨nesting, rfl⟩ := h
  induction nesting generalizing level origin s t with
  | zero =>
    rw [addStretch]
    split
    · exact idle level origin s t
    · next hne => exact found level origin s t [] _ hne (List.nil_sublist _) (.nil _)
  | succ n ih =>
    rw [addStretch]
    split
    · exact idle level origin s t
    · next hne =>
      refine found level origin s t _ _ hne (List.Sublist.refl _) (chain_foldl (fun u e ↦ ?_) _ _)
      exact ⟨⟨n, rfl⟩, ih⟩

/-! ### What is known of the labels so far -/

/-- What is known of the labels of a line at any time. -/
structure IsProper (line : Text) (inherited : Continuations) (t : Trace) : Prop where
  ofLine : OfLine line inherited t.labels
  kind_ne : ∀ l ∈ t.labels, l.kind ≠ .closing
  isRegion : ∀ l ∈ t.labels, l.stop = .lineEnd → l.isRegion = true

/-- Whether a trace goes on from another one: the labels are cut at most, those past the end of the
line not even that, and keep their origins. -/
structure Extends (line : Text) (t t' : Trace) : Prop where
  cut : ∀ l ∈ t.labels, ∃ l' ∈ t'.labels, l'.IsCutOf l
  past : ∀ l ∈ t.labels, line.length ≤ l.start →
    ∃ l' ∈ t'.labels, l'.IsCutOf l ∧ l'.stop = l.stop
  length_le : t.labels.length ≤ t'.labels.length
  origin : ∀ i < t.labels.length, t'.origin i = t.origin i

theorem Extends.refl (line : Text) (t : Trace) : Extends line t t where
  cut l hl := ⟨l, hl, rfl, Stop.isLE_compare_refl _⟩
  past l hl _ := ⟨l, hl, ⟨rfl, Stop.isLE_compare_refl _⟩, rfl⟩
  length_le := Nat.le_refl _
  origin _ _ := rfl

theorem Extends.trans (h : Extends line t t') (h' : Extends line t' t'') :
    Extends line t t'' := by
  refine ⟨fun l hl ↦ ?_, fun l hl hle ↦ ?_, Nat.le_trans h.length_le h'.length_le, fun i hi ↦ ?_⟩
  · obtain ⟨l', hl', hcut⟩ := h.cut l hl
    obtain ⟨l'', hl'', hcut'⟩ := h'.cut l' hl'
    exact ⟨l'', hl'', hcut'.trans hcut⟩
  · obtain ⟨l', hl', hcut, hstop⟩ := h.past l hl hle
    obtain ⟨l'', hl'', hcut', hstop'⟩ := h'.past l' hl' (hcut.apply_eq Label.start ▸ hle)
    exact ⟨l'', hl'', hcut'.trans hcut, hstop'.trans hstop⟩
  · rw [h'.origin i (Nat.lt_of_lt_of_le hi h.length_le), h.origin i hi]

theorem IsProper.id_lt (h : IsProper line inherited t) (hl : l ∈ t.labels) :
    l.id < t.labels.length :=
  List.mem_range.1 (h.ofLine.ids.mem_iff.1 (List.mem_map_of_mem hl))

theorem IsProper.exists_of_id_lt (h : IsProper line inherited t) {i : Nat}
    (hi : i < t.labels.length) : ∃ l ∈ t.labels, l.id = i :=
  List.mem_map.1 (h.ofLine.ids.mem_iff.2 (List.mem_range.2 hi))

/-- The label that another one was, before more were found. -/
theorem Extends.exists_source (h : Extends line t t') (ht : IsProper line inherited t)
    (ht' : IsProper line inherited t') (hl : l ∈ t'.labels) (hlt : l.id < t.labels.length) :
    ∃ source ∈ t.labels, l.IsCutOf source := by
  obtain ⟨source, hs, hid⟩ := ht.exists_of_id_lt hlt
  obtain ⟨l', hl', hcut⟩ := h.cut source hs
  have heq : l' = l := ht'.ofLine.eq_of_id hl' hl ((hcut.apply_eq id).trans hid)
  exact ⟨source, hs, heq ▸ hcut⟩

theorem extends_add (line : Text) (t : Trace) (origin : Option Nat) (found : List Label) :
    Extends line t (t.add origin found line.length) := by
  have hadd (l : Label) (hl : l ∈ t.labels) :=
    exists_isCutOf_of_mem (List.mem_append_left (number t.labels.length found) hl) line.length
  refine ⟨fun l hl ↦ ?_, fun l hl hle ↦ ?_, ?_, fun i hi ↦ if_pos hi⟩
  · obtain ⟨c, hc, hcut, -⟩ := hadd l hl
    exact ⟨c, hc, hcut⟩
  · obtain ⟨c, hc, hcut, hstop⟩ := hadd l hl
    exact ⟨c, hc, hcut, hstop hle⟩
  · rw [length_add]
    exact Nat.le_add_right _ _

theorem isProper_nil (line : Text) (inherited : Continuations) : IsProper line inherited {} :=
  ⟨ofLine_nil line inherited, fun _ hl ↦ absurd hl List.not_mem_nil,
    fun _ hl ↦ absurd hl List.not_mem_nil⟩

theorem IsProper.add (h : IsProper line inherited t) (origin : Option Nat) (level : Nat)
    (s : Stretch) : IsProper line inherited
      (t.add origin (foundIn line inherited level s) line.length) := by
  have hsource {l : Label}
      (hl : l ∈ (t.add origin (foundIn line inherited level s) line.length).labels) :
      ∃ source : Label, l.IsCutOf source ∧ source.kind ≠ .closing ∧
        (source.stop = .lineEnd → source.isRegion = true) := by
    obtain ⟨source, hs, hcut⟩ | ⟨-, source, hs, hcut⟩ := exists_source_of_mem_add hl
    · exact ⟨source, hcut, h.kind_ne source hs, h.isRegion source hs⟩
    · have hf := isFound_of_mem_foundIn hs
      exact ⟨_, hcut, hf.kind_ne, hf.isRegion⟩
  refine ⟨ofLine_step h.ofLine ?_ ?_, fun l hl ↦ ?_, fun l hl hstop ↦ ?_⟩
  · intro l hl
    rw [foundIn] at hl
    split at hl
    · exact (Scheme.kinds_of_mem_regions hl).1
    · cases hl
  · rintro l hl hk rfl
    rw [foundIn] at hl
    split at hl
    · exact (Scheme.kinds_of_mem_regions hl).2 hk (by simp [Stretch.textIn])
    · cases hl
  · obtain ⟨source, hcut, hkind, -⟩ := hsource hl
    rw [hcut.apply_eq Label.kind]
    exact hkind
  · obtain ⟨source, hcut, -, hregion⟩ := hsource hl
    rw [hcut.apply_eq Label.isRegion]
    exact hregion (hcut.stop_eq_lineEnd hstop)

/-- A label that was found in the text of a new one is none of those found with it: these were found
in the stretch itself, the text of a label that was there before. -/
theorem Extends.length_add_le {found : List Label} {i k : Nat}
    (h : Extends line (t.add origin found line.length) t')
    (horigin : ∀ k, origin = some k → k < t.labels.length) (hi : t.labels.length ≤ i)
    (hk : t.labels.length ≤ k) (ho : t'.origin i = some k) :
    (t.add origin found line.length).labels.length ≤ i := by
  refine Nat.not_lt.1 fun hlt ↦ ?_
  rw [h.origin i hlt] at ho
  exact Nat.not_lt.2 hk (horigin k ((if_neg (Nat.not_lt.2 hi)).symm.trans ho))

/-! ### What a run adds -/

/-- The steps of a run through the stretches that are embedded in labels of one level. -/
abbrev Runs (line : Text) (inherited : Continuations) (level : Nat) :
    List (Nat × Stretch) → Trace → Trace → Prop :=
  Chain fun e t t' ↦ IsRun line inherited (level + 1) (some e.1) e.2 t t'

theorem Chain.imp {step' : Nat × Stretch → Trace → Trace → Prop}
    (himp : ∀ {e t t'}, step e t t' → step' e t t') (h : Chain step es t t') :
    Chain step' es t t' := by
  induction h with
  | nil t => exact .nil t
  | cons h _ ih => exact .cons (himp h) ih

theorem Chain.extends (h : Chain step es t t') (ht : IsProper line inherited t)
    (hstep : ∀ {e u v}, step e u v → IsProper line inherited u →
      IsProper line inherited v ∧ Extends line u v) :
    IsProper line inherited t' ∧ Extends line t t' := by
  induction h with
  | nil t => exact ⟨ht, .refl line t⟩
  | cons h _ ih =>
    obtain ⟨hu, hextends⟩ := hstep h ht
    exact (ih hu).imp_right hextends.trans

theorem IsRun.extends (h : IsRun line inherited level origin s t t')
    (ht : IsProper line inherited t) : IsProper line inherited t' ∧ Extends line t t' := by
  refine IsRun.induct (motive := fun _ _ _ t t' ↦ IsProper line inherited t →
    IsProper line inherited t' ∧ Extends line t t') ?_ ?_ h ht
  · exact fun _ _ _ t ht ↦ ⟨ht, .refl line t⟩
  · intro level origin s t inner t' _ _ hchain ht
    exact (hchain.extends (ht.add origin level s) fun hstep ↦ hstep.2).imp_right
      (extends_add line t origin _).trans

theorem Runs.extends (h : Runs line inherited level es t t') (ht : IsProper line inherited t) :
    IsProper line inherited t' ∧ Extends line t t' :=
  Chain.extends h ht IsRun.extends

theorem mem_labels_add (h : IsProper line inherited t) (origin : Option Nat)
    (hl : l ∈ (t.add origin (foundIn line inherited level s) line.length).labels)
    (hle : t.labels.length ≤ l.id) : s.scheme.IsFound s.stop level l := by
  obtain ⟨source, hs, hcut⟩ | ⟨-, source, hs, hcut⟩ := exists_source_of_mem_add hl
  · have := h.id_lt hs
    rw [hcut.apply_eq id] at hle
    omega
  · exact IsFound.of_isCutOf (isFound_of_mem_foundIn hs) hcut

/-- Whether one of the steps of a chain added a label, as `source`: the one from `u` to `v`, after
those with the texts `es₁`. -/
structure IsAddedAt (line : Text) (inherited : Continuations)
    (step : Nat × Stretch → Trace → Trace → Prop) (es₁ : List (Nat × Stretch)) (e : Nat × Stretch)
    (es₂ : List (Nat × Stretch)) (t u v t' : Trace) (source l : Label) : Prop where
  before : Chain step es₁ t u
  taken : step e u v
  after : Chain step es₂ v t'
  isProper_before : IsProper line inherited u
  isProper_after : IsProper line inherited v
  extends_before : Extends line t u
  extends_after : Extends line v t'
  mem : source ∈ v.labels
  length_le : u.labels.length ≤ source.id
  isCutOf : l.IsCutOf source

theorem Chain.exists_isAddedAt (h : Chain step es t t') (ht : IsProper line inherited t)
    (hstep : ∀ {e u v}, step e u v → IsProper line inherited u →
      IsProper line inherited v ∧ Extends line u v) (hl : l ∈ t'.labels)
    (hle : t.labels.length ≤ l.id) :
    ∃ es₁ e es₂ u v source, es = es₁ ++ e :: es₂ ∧
      IsAddedAt line inherited step es₁ e es₂ t u v t' source l := by
  induction h with
  | nil t =>
    have := ht.id_lt hl
    omega
  | @cons e rest t u t' h hrest ih =>
    obtain ⟨hu, hextends⟩ := hstep h ht
    obtain ⟨ht', hextends'⟩ := hrest.extends hu hstep
    by_cases hlt : l.id < u.labels.length
    · obtain ⟨source, hs, hcut⟩ := hextends'.exists_source hu ht' hl hlt
      rw [hcut.apply_eq id] at hle
      exact ⟨[], e, rest, t, u, source, rfl, .nil t, h, hrest, ht, hu, .refl line t, hextends', hs,
        hle, hcut⟩
    · obtain ⟨es₁, e', es₂, u', v, source, rfl, hadded⟩ := ih hu hl (Nat.not_lt.1 hlt)
      exact ⟨e :: es₁, e', es₂, u', v, source, rfl, { hadded with
        before := .cons h hadded.before
        extends_before := hextends.trans hadded.extends_before }⟩

/-- What holds of the labels that are found in a stretch, and goes over from those in the text
embedded in them, holds of all labels that a run adds. -/
theorem IsRun.forall_added {P : Nat → Option Nat → Stretch → Nat → Trace → Label → Prop}
    (cut : ∀ {level origin s first} {t t' : Trace} {l c : Label}, P level origin s first t l →
      Extends line t t' → l.id < t.labels.length → c.IsCutOf l → P level origin s first t' c)
    (found : ∀ {level origin s} {t : Trace} {l}, IsProper line inherited t →
      foundIn line inherited level s ≠ [] →
      l ∈ (t.add origin (foundIn line inherited level s) line.length).labels →
      t.labels.length ≤ l.id → s.scheme.IsFound s.stop level l → P level origin s t.labels.length
        (t.add origin (foundIn line inherited level s) line.length) l)
    (inner : ∀ {level origin s l} {e : Nat × Stretch} {t : Trace} {first first' p c},
      s.scheme.IsFound s.stop level l → IsTextOf s.scheme l e → p ∈ t.labels → p.IsCutOf l →
      (l.stop = .lineEnd → l.isRegion = true) → first ≤ l.id → first ≤ first' →
      P (level + 1) (some e.1) e.2 first' t c → P level origin s first t c)
    (h : IsRun line inherited level origin s t t') (ht : IsProper line inherited t) :
    ∀ c ∈ t'.labels, t.labels.length ≤ c.id → P level origin s t.labels.length t' c := by
  refine IsRun.induct (motive := fun level origin s t t' ↦ IsProper line inherited t →
    ∀ c ∈ t'.labels, t.labels.length ≤ c.id → P level origin s t.labels.length t' c) ?_ ?_ h ht
  · intro _ _ _ t ht c hc hle
    have := ht.id_lt hc
    omega
  · intro level origin s t es t' hne hinner hchain ht c hc hle
    have hadd := ht.add origin level s
    obtain ⟨ht', hextends⟩ := hchain.extends hadd fun hstep ↦ hstep.1.extends
    by_cases hlt : c.id < (t.add origin (foundIn line inherited level s)
      line.length).labels.length
    · obtain ⟨source, hs, hcut⟩ := hextends.exists_source hadd ht' hc hlt
      rw [hcut.apply_eq id] at hle hlt
      exact cut (found ht hne hs hle (mem_labels_add ht origin hs hle)) hextends hlt hcut
    · obtain ⟨es₁, e, es₂, u, v, source, rfl, hadded⟩ :=
        hchain.exists_isAddedAt hadd (fun hstep ↦ hstep.1.extends) hc (Nat.not_lt.1 hlt)
      have he : e ∈ es₁ ++ e :: es₂ := List.mem_append_right _ List.mem_cons_self
      obtain ⟨l, hl, hfirst, htext, -⟩ := mem_embeddedFrom (hinner.subset he)
      obtain ⟨p, hp, hpl⟩ := hextends.cut l hl
      have hsource := hadded.taken.2 hadded.isProper_before source hadded.mem hadded.length_le
      refine inner (mem_labels_add ht origin hl hfirst) htext hp hpl (hadd.isRegion l hl) hfirst ?_
        (cut hsource hadded.extends_after (hadded.isProper_after.id_lt hadded.mem) hadded.isCutOf)
      exact Nat.le_trans (extends_add line t origin _).length_le hadded.extends_before.length_le

/-- Whether a label is on the level below another one, which is a region if the label is open, and
of the scheme that is embedded in the other one. -/
def IsBelow (c p : Label) : Prop :=
  p.level + 1 = c.level ∧ (c.stop = .lineEnd → p.isRegion = true) ∧
    ∃ outer inner : Scheme, outer.name = p.scheme ∧ outer.subScheme? p.name = some inner ∧
      inner.name = c.scheme

/-- Whether a label that was added has its origin in a run: it was found in the stretch of the run,
and is open only if the stretch is, or in another label that was added. -/
def IsAddedBy (line : Text) (level : Nat) (origin : Option Nat) (s : Stretch) (first : Nat)
    (t : Trace) (c : Label) : Prop :=
  (t.origin c.id = origin ∧ s.isLabeled line.length = true ∧ c.level = level ∧
    c.scheme = s.scheme.name ∧ (c.stop = .lineEnd → s.stop = .lineEnd)) ∨
  ∃ p ∈ t.labels, first ≤ p.id ∧ t.origin c.id = some p.id ∧ IsBelow c p

theorem IsAddedBy.of_extends {first : Nat} (h : IsAddedBy line level origin s first t l)
    (he : Extends line t t') (hid : l.id < t.labels.length) (hcut : c.IsCutOf l) :
    IsAddedBy line level origin s first t' c := by
  have horigin : t'.origin c.id = t.origin l.id := by
    rw [hcut.apply_eq id]
    exact he.origin l.id hid
  obtain ⟨ho, hs, hlevel, hscheme, hopen⟩ | ⟨p, hp, hle, ho, hlevel, hregion, hschemes⟩ := h
  · refine .inl ⟨horigin.trans ho, hs, (hcut.apply_eq Label.level).trans hlevel,
      (hcut.apply_eq Label.scheme).trans hscheme, fun hc ↦ hopen (hcut.stop_eq_lineEnd hc)⟩
  · obtain ⟨p', hp', hcut'⟩ := he.cut p hp
    refine .inr ⟨p', hp', ?_, ?_, ?_, fun hc ↦ ?_, ?_⟩
    · rwa [hcut'.apply_eq id]
    · rw [horigin, ho, hcut'.apply_eq id]
    · rw [hcut.apply_eq Label.level, hcut'.apply_eq Label.level, hlevel]
    · rw [hcut'.apply_eq Label.isRegion]
      exact hregion (hcut.stop_eq_lineEnd hc)
    · rw [hcut.apply_eq Label.scheme, hcut'.apply_eq Label.scheme, hcut'.apply_eq Label.name]
      exact hschemes

theorem IsRun.isAddedBy (h : IsRun line inherited level origin s t t')
    (ht : IsProper line inherited t) : ∀ c ∈ t'.labels, t.labels.length ≤ c.id →
      IsAddedBy line level origin s t.labels.length t' c := by
  refine IsRun.forall_added IsAddedBy.of_extends ?_ ?_ h ht
  · intro level origin s t l _ hne hl hle hfound
    refine .inl ⟨if_neg (Nat.not_lt.2 hle), isLabeled_of_foundIn_ne hne, hfound.level_eq,
      hfound.scheme_eq, fun hopen ↦ ?_⟩
    exact Classical.byContradiction fun hs ↦ hfound.stop_ne_lineEnd hs hopen
  · rintro level origin s l e t first first' p c hfound htext hp hcut hregion hle hle'
      (⟨ho, -, hlevel, hscheme, hopen⟩ | ⟨q, hq, hle'', hq'⟩)
    · refine .inr ⟨p, hp, ?_, ?_, ?_, fun hc ↦ ?_, s.scheme, e.2.scheme, ?_, ?_, hscheme.symm⟩
      · rwa [hcut.apply_eq id]
      · rw [ho, hcut.apply_eq id, htext.id_eq]
      · rw [hcut.apply_eq Label.level, hfound.level_eq, hlevel]
      · rw [hcut.apply_eq Label.isRegion]
        exact hregion (htext.stop_eq ▸ hopen hc)
      · rw [hcut.apply_eq Label.scheme, hfound.scheme_eq]
      · rw [hcut.apply_eq Label.name]
        exact htext.subScheme?_eq
    · exact .inr ⟨q, hq, Nat.le_trans hle' hle'', hq'⟩

theorem IsRun.level_le (h : IsRun line inherited level origin s t t')
    (ht : IsProper line inherited t) : ∀ c ∈ t'.labels, t.labels.length ≤ c.id →
      level ≤ c.level := by
  refine IsRun.forall_added (P := fun level _ _ _ _ c ↦ level ≤ c.level) ?_ ?_ ?_ h ht
  · intro level _ _ _ _ _ l c hle _ _ hcut
    rwa [hcut.apply_eq Label.level]
  · exact fun _ _ _ _ hfound ↦ Nat.le_of_eq hfound.level_eq.symm
  · exact fun _ _ _ _ _ _ _ hle ↦ Nat.le_of_succ_le hle

theorem Runs.level_lt (h : Runs line inherited level es t t') (ht : IsProper line inherited t) :
    ∀ c ∈ t'.labels, t.labels.length ≤ c.id → level < c.level := by
  intro c hc hle
  obtain ⟨es₁, e, es₂, u, v, source, rfl, hadded⟩ := h.exists_isAddedAt ht IsRun.extends hc hle
  rw [hadded.isCutOf.apply_eq Label.level]
  exact hadded.taken.level_le hadded.isProper_before source hadded.mem hadded.length_le

theorem IsRun.eq_of_not_isLabeled (h : IsRun line inherited level origin s t t')
    (hs : ¬s.isLabeled line.length = true) : t' = t := by
  obtain ⟨nesting, rfl⟩ := h
  have hnil : foundIn line inherited level s = [] := if_neg hs
  cases nesting <;> rw [addStretch, if_pos hnil]

/-- What is left open was found in a stretch up to the end of the line. -/
theorem IsRun.of_stop_eq_lineEnd (h : IsRun line inherited level origin s t t')
    (ht : IsProper line inherited t) (hc : c ∈ t'.labels) (hle : t.labels.length ≤ c.id)
    (hopen : c.stop = .lineEnd) : s.isLabeled line.length = true ∧ s.stop = .lineEnd := by
  refine ⟨Classical.byContradiction fun hs ↦ ?_, Classical.byContradiction fun hs ↦ ?_⟩
  · rw [h.eq_of_not_isLabeled hs] at hc
    have := ht.id_lt hc
    omega
  · refine IsRun.forall_added (P := fun _ _ s _ _ c ↦ s.stop ≠ .lineEnd → c.stop ≠ .lineEnd)
      ?_ ?_ ?_ h ht c hc hle hs hopen
    · exact fun hP _ _ hcut hs ↦ hcut.stop_ne_lineEnd (hP hs)
    · exact fun _ _ _ _ hfound hs ↦ hfound.stop_ne_lineEnd hs
    · exact fun hfound htext _ _ _ _ _ hP hs ↦ hP (htext.stop_eq ▸ hfound.stop_ne_lineEnd hs)

theorem Runs.exists_of_stop_eq_lineEnd (h : Runs line inherited level es t t')
    (ht : IsProper line inherited t) (hc : c ∈ t'.labels) (hle : t.labels.length ≤ c.id)
    (hopen : c.stop = .lineEnd) :
    ∃ e ∈ es, e.2.isLabeled line.length = true ∧ e.2.stop = .lineEnd := by
  obtain ⟨es₁, e, es₂, u, v, source, rfl, hadded⟩ := h.exists_isAddedAt ht IsRun.extends hc hle
  exact ⟨e, List.mem_append_right _ List.mem_cons_self,
    hadded.taken.of_stop_eq_lineEnd hadded.isProper_before hadded.mem hadded.length_le
      (hadded.isCutOf.stop_eq_lineEnd hopen)⟩

/-- A run that changes anything adds labels in its own stretch. -/
theorem IsRun.eq_or_exists_origin (h : IsRun line inherited level origin s t t')
    (ht : IsProper line inherited t) :
    t' = t ∨ s.isLabeled line.length = true ∧ ∃ l ∈ t'.labels, t'.origin l.id = origin := by
  refine IsRun.induct (motive := fun _ origin s t t' ↦ IsProper line inherited t →
    t' = t ∨ s.isLabeled line.length = true ∧ ∃ l ∈ t'.labels, t'.origin l.id = origin)
    ?_ ?_ h ht
  · exact fun _ _ _ t _ ↦ .inl rfl
  · intro level origin s t inner t' hne _ hchain ht
    obtain ⟨ht', hextends⟩ := hchain.extends (ht.add origin level s) fun hstep ↦ hstep.1.extends
    have hlt : t.labels.length <
        (t.add origin (foundIn line inherited level s) line.length).labels.length := by
      rw [length_add]
      exact Nat.lt_add_of_pos_right (List.length_pos_iff.2 hne)
    obtain ⟨l, hl, hid⟩ := ht'.exists_of_id_lt (Nat.lt_of_lt_of_le hlt hextends.length_le)
    refine .inr ⟨isLabeled_of_foundIn_ne hne, l, hl, ?_⟩
    rw [hid, hextends.origin _ hlt]
    exact if_neg (Nat.lt_irrefl _)

theorem Runs.eq_or_exists_origin (h : Runs line inherited level es t t')
    (ht : IsProper line inherited t) : t' = t ∨ ∃ e ∈ es, e.2.isLabeled line.length = true ∧
      ∃ l ∈ t'.labels, t'.origin l.id = some e.1 := by
  induction h with
  | nil t => exact .inl rfl
  | @cons e rest t u t' h hrest ih =>
    obtain ⟨hu, -⟩ := h.extends ht
    obtain rfl | ⟨e', he', hl⟩ := ih hu
    · obtain rfl | hl := h.eq_or_exists_origin ht
      · exact .inl rfl
      · exact .inr ⟨e, List.mem_cons_self, hl⟩
    · exact .inr ⟨e', List.mem_cons_of_mem _ he', hl⟩

end Trace

end Label

open Label.Trace

theorem Scheme.isRun_trace (s : Scheme) (line : Text) (inherited : Continuations)
    (maxNesting : Nat) :
    IsRun line inherited 0 none ⟨0, .lineEnd, s⟩ {} (s.trace line inherited maxNesting) :=
  ⟨maxNesting, rfl⟩

theorem Scheme.isProper_trace (s : Scheme) (line : Text) (inherited : Continuations)
    (maxNesting : Nat) : IsProper line inherited (s.trace line inherited maxNesting) :=
  ((s.isRun_trace line inherited maxNesting).extends (isProper_nil line inherited)).1

end Highlighter
