import Highlighter.Proofs.Labels.Origins

/-!
Which labels keep their ends, however many more are found later. Of the labels that come before such
a label each ends no earlier than it does, or before it starts; it is cut only by text that begins
before it and reaches into it.
-/

namespace Highlighter

instance : Std.LawfulEqCmp Stop.compare where
  eq_of_compare {a b} h := by
    cases a <;> cases b <;> simp_all [Stop.compare]

namespace Label

variable {labels sources placed before rest : List Label} {w l c : Label} {length : Nat}

/-! ### The order of placing -/

theorem placing_eq (a b : Label) : placing a b = (compare a.start b.start).then
    ((Stop.compare b.stop a.stop).then ((compare a.level b.level).then
      ((compare a.order b.order).then (compare a.id b.id)))) := rfl

theorem isLE_placing_of_lt (h : w.start < l.start) : (placing w l).isLE = true := by
  rw [placing_eq, Nat.compare_eq_lt.2 h]
  rfl

theorem isLE_placing_of_stop_lt (hs : w.start = l.start) (h : l.stop.compare w.stop = .lt) :
    (placing w l).isLE = true := by
  rw [placing_eq, Nat.compare_eq_eq.2 hs, h]
  rfl

theorem placing_congr {w' : Label} (h : w'.IsCutOf w) (hs : w'.stop = w.stop) (l : Label) :
    placing w' l = placing w l := by
  rw [placing_eq, placing_eq, hs, h.apply_eq start, h.apply_eq level, h.apply_eq order,
    h.apply_eq id]

/-- What comes after a label comes after it when it is cut. -/
theorem isLE_placing_of_isCutOf (h : (placing w l).isLE = true) (hc : c.IsCutOf l) :
    (placing w c).isLE = true := by
  have hstart : c.start = l.start := hc.apply_eq start
  obtain hlt | ⟨heq, hle⟩ := precedes_of_placing h
  · exact isLE_placing_of_lt (hstart ▸ hlt)
  · cases hcut : c.stop.compare l.stop with
    | lt =>
      exact isLE_placing_of_stop_lt (heq.trans hstart.symm)
        (Std.TransCmp.lt_of_lt_of_isLE hcut hle)
    | eq =>
      rw [placing_eq] at h ⊢
      rwa [Std.LawfulEqCmp.eq_of_compare hcut, hstart, hc.apply_eq level, hc.apply_eq order,
        hc.apply_eq id]
    | gt =>
      have hle' := hc.2
      rw [hcut] at hle'
      cases hle'

theorem id_eq_of_placing (h : (placing w l).isLE = true) (h' : (placing l w).isLE = true) :
    w.id = l.id := by
  have heq : placing w l = .eq := Std.OrientedCmp.isLE_antisymm h h'
  rw [placing_eq] at heq
  simp only [Ordering.then_eq_eq, Nat.compare_eq_eq] at heq
  exact heq.2.2.2.2

/-- A label that reaches as far as some stop still does after others, if those around it do. -/
theorem isLE_stop_placeAfter {s : Stop} (hl : (s.compare l.stop).isLE = true)
    (h : ∀ c ∈ before, c.holds length l = true → (s.compare c.stop).isLE = true) :
    (s.compare (placeAfter length before l).stop).isLE = true :=
  isLE_compare_foldl_min.2 ⟨hl, fun c hc ↦ h c (List.mem_filter.1 hc).1 (List.mem_filter.1 hc).2⟩

/-! ### Labels that no other label cuts -/

/-- Whether a label stops before another one starts. -/
def EndsBefore (l w : Label) : Prop := ∃ n, l.stop = .column n ∧ n ≤ w.start

theorem EndsBefore.of_isCutOf (h : l.EndsBefore w) (hc : c.IsCutOf l) : c.EndsBefore w := by
  obtain ⟨n, hn, hle⟩ := h
  obtain ⟨m, hm, hle'⟩ := hc.stop_eq_column hn
  exact ⟨m, hm, Nat.le_trans hle' hle⟩

theorem EndsBefore.of_le (h : l.EndsBefore w) (hle : (c.stop.compare l.stop).isLE = true) :
    c.EndsBefore w := by
  obtain ⟨n, hn, hstart⟩ := h
  rw [hn] at hle
  cases hc : c.stop with
  | lineEnd =>
    rw [hc] at hle
    cases hle
  | column m =>
    rw [hc] at hle
    exact ⟨m, hc, Nat.le_trans (Nat.isLE_compare.1 hle) hstart⟩

theorem EndsBefore.not_holds (h : l.EndsBefore w) : ¬l.holds length w = true := by
  intro hh
  obtain ⟨n, hn, hle⟩ := h
  obtain ⟨-, -, hstart, hlt⟩ := holds_iff.1 hh
  rw [stopIn, hn, Stop.resolve] at hlt
  omega

theorem lt_stopIn_of_not_endsBefore (h : ¬l.EndsBefore w) (hw : w.start < length) :
    w.start < l.stopIn length := by
  have hlt : w.start < l.stop.resolve length := by
    cases hl : l.stop with
    | column n =>
      have hn : w.start < n := Nat.not_le.1 fun hle ↦ h ⟨n, hl, hle⟩
      exact Nat.lt_min.2 ⟨hn, hw⟩
    | lineEnd => exact hw
  exact Nat.lt_of_lt_of_le hlt (Nat.le_max_left _ _)

/-- Whether a label reaches as far as another one, or ends before that starts. -/
def ReachesOrEnds (w l : Label) : Prop :=
  (w.stop.compare l.stop).isLE = true ∨ l.EndsBefore w

/-- Whether a label is among others with the end that it has, and those before it in the order of
placing reach as far or end before it starts. -/
structure StaysUncut (w : Label) (labels : List Label) : Prop where
  exists_uncut : ∃ w' ∈ labels, w'.IsCutOf w ∧ w'.stop = w.stop
  others : ∀ l ∈ labels, w.ReachesOrEnds l ∨ (placing w l).isLE = true

theorem reachesOrEnds_or_of_le (h : w.start ≤ l.start) :
    w.ReachesOrEnds l ∨ (placing w l).isLE = true := by
  obtain hlt | heq := Nat.lt_or_eq_of_le h
  · exact .inr (isLE_placing_of_lt hlt)
  · cases hstop : l.stop.compare w.stop with
    | lt => exact .inr (isLE_placing_of_stop_lt heq hstop)
    | eq => exact .inl (.inl (Std.OrientedCmp.eq_symm hstop ▸ rfl))
    | gt => exact .inl (.inl (Std.OrientedCmp.lt_of_gt hstop ▸ rfl))

/-- Labels that reach far or end early are cut by labels that end early only. -/
theorem Placed.reachesOrEnds (h : Placed length sources placed)
    (hs : ∀ l ∈ sources, w.ReachesOrEnds l) : ∀ c ∈ placed, w.ReachesOrEnds c := by
  induction h with
  | nil => exact fun c hc ↦ absurd hc List.not_mem_nil
  | @snoc sources placed h source ih =>
    have hplaced := ih fun l hl ↦ hs l (List.mem_append_left _ hl)
    intro c hc
    obtain hc | hc := List.mem_append.1 hc
    · exact hplaced c hc
    · obtain rfl := List.mem_singleton.1 hc
      obtain hle | hends := hs source (List.mem_append_right _ (List.mem_singleton_self source))
      · by_cases hcut : ∃ d ∈ placed, d.holds length source = true ∧ d.EndsBefore w
        · obtain ⟨d, hd, hh, hends⟩ := hcut
          exact .inr (hends.of_le (stop_placeAfter_le hd hh))
        · exact .inl (isLE_stop_placeAfter hle fun d hd hh ↦
            (hplaced d hd).resolve_right fun hends ↦ hcut ⟨d, hd, hh, hends⟩)
      · exact .inr (hends.of_isCutOf (isCutOf_placeAfter length placed source))

theorem mem_foldl_placeAfter
    (h : c ∈ rest.foldl (fun placed l ↦ placed ++ [placeAfter length placed l]) placed) :
    c ∈ placed ∨ ∃ l ∈ rest, c.IsCutOf l := by
  induction rest generalizing placed with
  | nil => exact .inl h
  | cons l rest ih =>
    obtain hc | ⟨l', hl', hcut⟩ := ih h
    · refine (List.mem_append.1 hc).imp_right fun hc ↦ ⟨l, List.mem_cons_self, ?_⟩
      rw [List.mem_singleton.1 hc]
      exact isCutOf_placeAfter length placed l
    · exact .inr ⟨l', List.mem_cons_of_mem _ hl', hcut⟩

theorem StaysUncut.place (h : StaysUncut w labels) (length : Nat) :
    StaysUncut w (place labels length) := by
  obtain ⟨w', hw', hcut, hstop⟩ := h.exists_uncut
  have hperm := Sorting.perm_sort (fun a b ↦ (placing a b).isLE) labels
  have hsorted := Sorting.pairwise_sort (fun a b ↦ (placing a b).isLE)
    (fun _ _ _ ↦ Std.TransCmp.isLE_trans) placing_total labels
  have hothers : ∀ l ∈ Sorting.sort (fun a b ↦ (placing a b).isLE) labels,
      w.ReachesOrEnds l ∨ (placing w l).isLE = true :=
    fun l hl ↦ h.others l (hperm.mem_iff.1 hl)
  obtain ⟨before, after, he⟩ := List.append_of_mem (hperm.mem_iff.2 hw')
  rw [Label.place, he, List.foldl_append, List.foldl_cons]
  rw [he] at hsorted hothers
  obtain ⟨-, hafter, hlast⟩ := List.pairwise_append.1 hsorted
  have hstart : w'.start = w.start := hcut.apply_eq start
  have hplacing := placing_congr hcut hstop
  -- what is placed before it reaches far or ends early, since it would be placed after it else
  have hbefore : ∀ l ∈ before, w.ReachesOrEnds l := by
    intro l hl
    have hle := hlast l hl w' List.mem_cons_self
    obtain hl' | hle' := hothers l (List.mem_append_left _ hl)
    · exact hl'
    · obtain hlt | ⟨-, hle⟩ := precedes_of_placing hle
      · have := start_le_of_placing hle'
        omega
      · exact .inl (hstop ▸ hle)
  have hnil : Placed length [] [] := .nil
  have hplaced := (hnil.foldl before).reachesOrEnds hbefore
  generalize before.foldl (fun placed l ↦ placed ++ [placeAfter length placed l]) [] = placed
    at hplaced ⊢
  have hcut' := isCutOf_placeAfter length placed w'
  have huncut : (placeAfter length placed w').stop = w.stop := by
    have hle : (w.stop.compare (placeAfter length placed w').stop).isLE = true :=
      isLE_stop_placeAfter (hstop ▸ Stop.isLE_compare_refl _) fun c hc hh ↦
        (hplaced c hc).resolve_right fun hends ↦
          hends.not_holds (holds_congr hstart c length ▸ hh)
    exact Std.LawfulEqCmp.eq_of_compare (Std.OrientedCmp.isLE_antisymm (hstop ▸ hcut'.2) hle)
  refine ⟨⟨_, subset_foldl_placeAfter length after ?_, hcut'.trans hcut, huncut⟩, fun c hc ↦ ?_⟩
  · exact List.mem_append_right _ (List.mem_singleton_self _)
  · obtain hc | ⟨l, hl, hcl⟩ := mem_foldl_placeAfter hc
    · obtain hc | hc := List.mem_append.1 hc
      · exact .inl (hplaced c hc)
      · rw [List.mem_singleton.1 hc]
        exact .inl (.inl (huncut ▸ Stop.isLE_compare_refl _))
    · have hle := (List.pairwise_cons.1 hafter).1 l hl
      rw [hplacing] at hle
      exact .inr (isLE_placing_of_isCutOf hle hcl)

/-! ### Labels of a line that are not cut -/

section

variable {line : Text} {inherited : Continuations}

theorem OfLine.pairwise_holds (h : OfLine line inherited labels) :
    labels.Pairwise fun a b ↦
      a.Precedes b ∧ (a.holds line.length b = true → a.id ∈ b.containers) := by
  obtain ⟨labels', rfl⟩ := h.placed
  obtain ⟨sources, -, -, hplaced⟩ := placed_place labels' line.length
  exact h.nested.ordered.and hplaced.pairwise_containers

/-- A label that reaches over the start of another one is around it. -/
theorem OfLine.mem_containers_of_lt (h : OfLine line inherited labels) (hl : l ∈ labels)
    (hkind : l.kind ≠ .closing) (hw : w ∈ labels) (hstart : l.start < w.start)
    (hlt : w.start < l.stopIn line.length) : l.id ∈ w.containers := by
  have hne : l ≠ w := fun he ↦ Nat.lt_irrefl _ (he ▸ hstart)
  obtain ⟨-, hholds⟩ | ⟨hprecedes, -⟩ := Sorting.rel_or_rel_of_mem h.pairwise_holds hl hw hne
  · have := l.stopIn_le line.length
    have hlong : 1 < l.lengthIn line.length := by
      rw [lengthIn]
      omega
    exact hholds (holds_iff.2 ⟨hkind, .inr hlong, Nat.le_of_lt hstart, hlt⟩)
  · obtain hlt' | ⟨heq, -⟩ := hprecedes <;> omega

/-- Of two labels that both reach over a column one is around the other. -/
theorem OfLine.mem_containers_or (h : OfLine line inherited labels) (hl : l ∈ labels)
    (hkind : l.kind ≠ .closing) (hw : w ∈ labels) (hkind' : w.kind ≠ .closing) (hne : l ≠ w)
    {i : Nat} (hli : l.start < i) (hlt : i < l.stopIn line.length) (hwi : w.start < i)
    (hlt' : i < w.stopIn line.length) : l.id ∈ w.containers ∨ w.id ∈ l.containers := by
  have hlong {c : Label} (hs : c.start < i) (hi : i < c.stopIn line.length) :
      1 < c.lengthIn line.length := by
    rw [lengthIn]
    omega
  obtain ⟨hprecedes, hholds⟩ | ⟨hprecedes, hholds⟩ :=
    Sorting.rel_or_rel_of_mem h.pairwise_holds hl hw hne
  · exact .inl (hholds (holds_iff.2
      ⟨hkind, .inr (hlong hli hlt), hprecedes.start_le, Nat.lt_trans hwi hlt⟩))
  · exact .inr (hholds (holds_iff.2
      ⟨hkind', .inr (hlong hwi hlt'), hprecedes.start_le, Nat.lt_trans hli hlt'⟩))

theorem OfLine.staysUncut (h : OfLine line inherited labels)
    (hkind : ∀ l ∈ labels, l.kind ≠ .closing) (hw : w ∈ labels) (hlt : w.start < line.length) :
    StaysUncut w labels := by
  refine ⟨⟨w, hw, ⟨rfl, Stop.isLE_compare_refl _⟩, rfl⟩, fun l hl ↦ ?_⟩
  by_cases hne : l = w
  · exact .inl (.inl (hne ▸ Stop.isLE_compare_refl _))
  obtain ⟨hstart | ⟨-, hle⟩, -⟩ | ⟨hprecedes, -⟩ :=
    Sorting.rel_or_rel_of_mem h.pairwise_holds hl hw hne
  · refine .inl (Classical.or_iff_not_imp_right.2 fun hends ↦ ?_)
    have hmem := h.mem_containers_of_lt hl (hkind l hl) hw hstart
      (lt_stopIn_of_not_endsBefore hends hlt)
    exact (h.nested.inside w hw l hl hmem).2.1
  · exact .inl (.inl hle)
  · exact reachesOrEnds_or_of_le hprecedes.start_le

end

/-! ### Runs that leave a label as it is -/

namespace Trace

variable {line : Text} {inherited : Continuations} {level k : Nat} {origin : Option Nat}
variable {s : Stretch} {t t' : Trace} {es : List (Nat × Stretch)}
variable {step : Nat × Stretch → Trace → Trace → Prop}

/-- Whether no label starts before the one in whose embedded text it was found. -/
def StaysInside (t : Trace) : Prop :=
  ∀ c ∈ t.labels, ∀ p ∈ t.labels, t.origin c.id = some p.id → p.start ≤ c.start

theorem StaysInside.of_extends (h : StaysInside t') (he : Extends line t t')
    (ht : IsProper line inherited t) : StaysInside t := by
  intro c hc p hp ho
  obtain ⟨c', hc', hcut⟩ := he.cut c hc
  obtain ⟨p', hp', hcut'⟩ := he.cut p hp
  have hle := h c' hc' p' hp' (by
    rw [hcut.apply_eq id, hcut'.apply_eq id, he.origin _ (ht.id_lt hc), ho])
  rwa [hcut.apply_eq start, hcut'.apply_eq start] at hle

/-- Whether labels were found in the text embedded in the label with an id. -/
def HasInner (t : Trace) (k : Nat) : Prop := ∃ c ∈ t.labels, t.origin c.id = some k

theorem HasInner.of_extends (h : HasInner t k) (he : Extends line t t')
    (ht : IsProper line inherited t) : HasInner t' k := by
  obtain ⟨c, hc, ho⟩ := h
  obtain ⟨c', hc', hcut⟩ := he.cut c hc
  exact ⟨c', hc', by rw [hcut.apply_eq id, he.origin _ (ht.id_lt hc), ho]⟩

/-- Whether a stretch starts where the label does in which it is embedded. -/
def StartsAt (t : Trace) (origin : Option Nat) (s : Stretch) : Prop :=
  s.start = 0 ∨ ∃ p ∈ t.labels, origin = some p.id ∧ s.start = p.start

theorem StartsAt.of_extends (h : StartsAt t origin s) (he : Extends line t t') :
    StartsAt t' origin s := by
  refine h.imp_right fun ⟨p, hp, ho, hs⟩ ↦ ?_
  obtain ⟨p', hp', hcut⟩ := he.cut p hp
  exact ⟨p', hp', by rw [ho, hcut.apply_eq id], by rw [hs, hcut.apply_eq Label.start]⟩

/-- New labels start in the stretch in which they are found. -/
theorem StartsAt.start_le (h : StartsAt t origin s)
    (ht : StaysInside (t.add origin (foundIn line inherited level s) line.length))
    (hl : l ∈ (t.add origin (foundIn line inherited level s) line.length).labels)
    (hle : t.labels.length ≤ l.id) : s.start ≤ l.start := by
  obtain hs | ⟨p, hp, ho, hs⟩ := h
  · omega
  · obtain ⟨p', hp', hcut⟩ := (extends_add line t origin (foundIn line inherited level s)).cut p hp
    have hle' := ht l hl p' hp' (by
      rw [hcut.apply_eq id, ← ho]
      exact if_neg (Nat.not_lt.2 hle))
    rwa [hcut.apply_eq start, ← hs] at hle'

/-- Whether the text of a stretch ends before a label or begins in it, so that it leaves the label
as it is. -/
def IsClear (w : Label) (s : Stretch) : Prop :=
  (∃ n, s.stop = .column n ∧ n ≤ w.start) ∨ w.start ≤ s.start

theorem IsClear.of_isFound {scheme : Scheme} (h : IsClear w s)
    (hl : scheme.IsFound s.stop level l) (hs : s.start ≤ l.start) :
    w.ReachesOrEnds l ∨ (placing w l).isLE = true := by
  obtain ⟨n, hn, hle⟩ | hle := h
  · obtain ⟨-, m, hm, hle'⟩ := hl.inside n hn
    exact .inl (.inr ⟨m, hm, Nat.le_trans hle' hle⟩)
  · exact reachesOrEnds_or_of_le (Nat.le_trans hle hs)

theorem IsClear.inner {scheme : Scheme} {e : Nat × Stretch} (h : IsClear w s)
    (hl : scheme.IsFound s.stop level l) (hs : s.start ≤ l.start) (he : IsTextOf scheme l e) :
    IsClear w e.2 := by
  obtain ⟨n, hn, hle⟩ | hle := h
  · obtain ⟨-, m, hm, hle'⟩ := hl.inside n hn
    exact .inl ⟨m, he.stop_eq.trans hm, Nat.le_trans hle' hle⟩
  · exact .inr (he.start_eq ▸ Nat.le_trans hle hs)

theorem StaysUncut.add (h : StaysUncut w t.labels) (hw : IsClear w s) (hs : StartsAt t origin s)
    (hstays : StaysInside (t.add origin (foundIn line inherited level s) line.length)) :
    StaysUncut w (t.add origin (foundIn line inherited level s) line.length).labels := by
  refine StaysUncut.place ⟨?_, fun l hl ↦ ?_⟩ line.length
  · obtain ⟨w', hw', hcut⟩ := h.exists_uncut
    exact ⟨w', List.mem_append_left _ hw', hcut⟩
  · obtain hl' | hl' := List.mem_append.1 hl
    · exact h.others l hl'
    · obtain ⟨c, hc, hcut, -⟩ := exists_isCutOf_of_mem hl line.length
      have hle := hs.start_le hstays hc (hcut.apply_eq id ▸ id_of_mem_number hl')
      obtain ⟨f, hf, i, rfl⟩ := exists_of_mem_number hl'
      have hfound := IsFound.of_isCutOf (l := { f with id := i }) (isFound_of_mem_foundIn hf)
        ⟨rfl, Stop.isLE_compare_refl _⟩
      rw [hcut.apply_eq start] at hle
      exact hw.of_isFound hfound hle

/-- A label stays as it is if all texts do not touch it in which labels are found. -/
theorem Chain.staysUncut (h : Chain step es t t') (ht : IsProper line inherited t)
    (hw : StaysUncut w t.labels) (hstart : ∀ e ∈ es, StartsAt t (some e.1) e.2)
    (hes : ∀ e ∈ es, HasInner t' e.1 → IsClear w e.2) (hstays : StaysInside t')
    (hstep : ∀ {e u v}, step e u v → IsProper line inherited u →
      (IsProper line inherited v ∧ Extends line u v) ∧ (v = u ∨ HasInner v e.1) ∧
        (StaysUncut w u.labels → StartsAt u (some e.1) e.2 → IsClear w e.2 → StaysInside v →
          StaysUncut w v.labels)) :
    StaysUncut w t'.labels := by
  induction h with
  | nil t => exact hw
  | @cons e rest t u t' h hrest ih =>
    obtain ⟨⟨hu, hextends⟩, hinner, hkeeps⟩ := hstep h ht
    obtain ⟨ht', hextends'⟩ := hrest.extends hu fun h h' ↦ (hstep h h').1
    have hwu : StaysUncut w u.labels := by
      obtain rfl | hinner := hinner
      · exact hw
      · exact hkeeps hw (hstart e List.mem_cons_self)
          (hes e List.mem_cons_self (hinner.of_extends hextends' hu))
          (hstays.of_extends hextends' hu)
    exact ih hu hwu (fun e' he' ↦ (hstart e' (List.mem_cons_of_mem _ he')).of_extends hextends)
      (fun e' he' ↦ hes e' (List.mem_cons_of_mem _ he')) hstays

theorem IsRun.staysUncut (h : IsRun line inherited level origin s t t')
    (ht : IsProper line inherited t) (hw : StaysUncut w t.labels) (hstart : StartsAt t origin s)
    (hs : IsClear w s) (hstays : StaysInside t') : StaysUncut w t'.labels := by
  refine IsRun.induct (motive := fun _ origin s t t' ↦ IsProper line inherited t →
    StaysUncut w t.labels → StartsAt t origin s → IsClear w s → StaysInside t' →
      StaysUncut w t'.labels) ?_ ?_ h ht hw hstart hs hstays
  · exact fun _ _ _ _ _ hw _ _ _ ↦ hw
  · intro level origin s t inner t' hne hinner hchain ht hw hstart hs hstays
    have hadd := ht.add origin level s
    obtain ⟨ht', hextends⟩ := hchain.extends hadd fun hstep ↦ hstep.1.extends
    have hstays' := hstays.of_extends hextends hadd
    refine hchain.staysUncut hadd (StaysUncut.add hw hs hstart hstays') (fun e he ↦ ?_)
      (fun e he _ ↦ ?_) hstays fun h h' ↦
        ⟨h.1.extends h', (h.1.eq_or_exists_origin h').imp_right And.right, h.2 h'⟩
    · obtain ⟨l, hl, -, htext, -⟩ := mem_embeddedFrom (hinner.subset he)
      exact .inr ⟨l, hl, congrArg some htext.id_eq, htext.start_eq⟩
    · obtain ⟨l, hl, hfirst, htext, -⟩ := mem_embeddedFrom (hinner.subset he)
      exact hs.inner (mem_labels_add ht origin hl hfirst) (hstart.start_le hstays' hl hfirst) htext

theorem Runs.staysUncut (h : Runs line inherited level es t t') (ht : IsProper line inherited t)
    (hw : StaysUncut w t.labels) (hstart : ∀ e ∈ es, StartsAt t (some e.1) e.2)
    (hes : ∀ e ∈ es, HasInner t' e.1 → IsClear w e.2) (hstays : StaysInside t') :
    StaysUncut w t'.labels :=
  Chain.staysUncut h ht hw hstart hes hstays fun h h' ↦
    ⟨h.extends h', (h.eq_or_exists_origin h').imp_right And.right, h.staysUncut h'⟩

end Trace

end Label

end Highlighter
