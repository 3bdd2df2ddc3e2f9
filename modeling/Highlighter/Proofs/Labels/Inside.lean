import Highlighter.Proofs.Labels.Embedding
import Highlighter.Proofs.Labels.Starts

/-!
Where the labels of embedded text end: in the region in whose text they were found, unless that
region is cut when they are there already. Only text in a region around it, which was found together
with it, can cut a region, or text in one around a region further up.
-/

namespace Highlighter

namespace Label

/-- Whether a label lies before a column: it starts there, and does not reach further. -/
def EndsBy (c : Label) (limit : Nat) : Prop :=
  c.start ≤ limit ∧ ∃ n, c.stop = .column n ∧ n ≤ limit

theorem EndsBy.of_isCutOf {c l : Label} {limit : Nat} (h : l.EndsBy limit) (hcut : c.IsCutOf l) :
    c.EndsBy limit := by
  obtain ⟨hstart, n, hn, hle⟩ := h
  obtain ⟨m, hm, hle'⟩ := hcut.stop_eq_column hn
  exact ⟨hcut.apply_eq start ▸ hstart, m, hm, Nat.le_trans hle' hle⟩

/-- Whether a label starts before a stretch ends. -/
def StartsBy (w : Label) (s : Stretch) : Prop := ∀ n, s.stop = .column n → w.start < n

theorem StartsBy.of_lt {l w : Label} {s : Stretch} (h : w.StartsBy s) (hlt : l.start < w.start) :
    l.StartsBy s := fun n hn ↦ Nat.lt_trans hlt (h n hn)

theorem IsTextOf.startsBy {scheme outer : Scheme} {level : Nat} {s : Stretch} {l w : Label}
    {e : Nat × Stretch} (h : IsTextOf scheme l e) (hfound : outer.IsFound s.stop level l)
    (hw : w.StartsBy e.2) : w.StartsBy s := by
  intro n hn
  obtain ⟨-, m, hm, hle⟩ := hfound.inside n hn
  exact Nat.lt_of_lt_of_le (hw m (h.stop_eq.trans hm)) hle

theorem IsTextOf.startsBy_self {scheme : Scheme} {line : Text} {l : Label} {e : Nat × Stretch}
    (h : IsTextOf scheme l e) (hlabeled : e.2.isLabeled line.length = true) : l.StartsBy e.2 :=
  fun _ hn ↦ h.start_eq ▸ Stretch.start_lt_of_isLabeled hlabeled hn

namespace Trace

variable {line : Text} {inherited : Continuations} {level first : Nat} {origin : Option Nat}
variable {s : Stretch} {t t' u y T : Trace} {es₁ es₂ inner : List (Nat × Stretch)}
variable {e : Nat × Stretch} {c l p q w : Label}

/-- No label reaches further than the text in which it was found. -/
theorem IsRun.endsBy (h : IsRun line inherited level origin s t t')
    (ht : IsProper line inherited t) : ∀ c ∈ t'.labels, t.labels.length ≤ c.id →
      ∀ limit, s.stop = .column limit → c.EndsBy limit := by
  refine IsRun.forall_added (P := fun _ _ s _ _ c ↦ ∀ limit, s.stop = .column limit →
    c.EndsBy limit) ?_ ?_ ?_ h ht
  · exact fun h _ _ hcut limit hs ↦ (h limit hs).of_isCutOf hcut
  · exact fun _ _ _ _ hfound ↦ hfound.inside
  · intro level origin s l e t first first' p c hfound htext _ _ _ _ _ hc limit hs
    obtain ⟨-, n, hn, hle⟩ := hfound.inside limit hs
    obtain ⟨hstart, m, hm, hle'⟩ := hc n (htext.stop_eq.trans hn)
    exact ⟨Nat.le_trans hstart hle, m, hm, Nat.le_trans hle' hle⟩

/-! ### Regions that are not cut by the text in others -/

/-- Whether a label lies inside another one that was found in the same text and in which labels were
found. -/
def IsInsideOther (t : Trace) (p : Label) : Prop :=
  ∃ q ∈ t.labels, q.id ∈ p.containers ∧ t.origin q.id = t.origin p.id ∧ t.HasInner q.id

/-- Whether a label, or one on a higher level in which labels were found, lies inside another one of
its text. -/
def IsCrossed (t : Trace) (p : Label) : Prop :=
  t.IsInsideOther p ∨
    ∃ a ∈ t.labels, a.level < p.level ∧ t.HasInner a.id ∧ t.IsInsideOther a

/-- Whether a label of a stretch, in which labels were found, reaches over the start of another
one. -/
structure ReachesOver (u T : Trace) (first : Nat) (q w : Label) : Prop where
  mem : q ∈ u.labels
  first_le : first ≤ q.id
  hasInner : T.HasInner q.id
  start_lt : q.start < w.start
  not_endsBefore : ¬q.EndsBefore w

/-- Whether what begins in a stretch, and is not cut so far, is not cut later. -/
def LeavesUncut (line : Text) (s : Stretch) (t' T : Trace) : Prop :=
  ∀ w : Label, w.start < line.length → w.StartsBy s → StaysUncut w t'.labels →
    StaysUncut w T.labels

/-- The run through the texts embedded in the labels of a stretch, from `u` to `t'`, among all
labels `T` of the line, if it leaves nothing to be cut later. -/
structure IsAmong (line : Text) (inherited : Continuations) (level : Nat) (origin : Option Nat)
    (s : Stretch) (first : Nat) (inner : List (Nat × Stretch)) (u t' T : Trace) : Prop where
  isProper : IsProper line inherited u
  isFound : ∀ l ∈ u.labels, first ≤ l.id → s.scheme.IsFound s.stop level l
  origin_eq : ∀ l ∈ u.labels, first ≤ l.id → u.origin l.id = origin
  runs : Runs line inherited level inner u t'
  texts : inner.Sublist (embeddedFrom u.labels first s.scheme)
  isProper_all : IsProper line inherited T
  extends_all : Extends line t' T
  staysInside : T.StaysInside
  later : LeavesUncut line s t' T

namespace IsAmong

theorem extends_before (h : IsAmong line inherited level origin s first inner u t' T) :
    Extends line u T := (h.runs.extends h.isProper).2.trans h.extends_all

theorem origin_eq_all (h : IsAmong line inherited level origin s first inner u t' T)
    (hl : l ∈ u.labels) (hfirst : first ≤ l.id) : T.origin l.id = origin := by
  rw [h.extends_before.origin _ (h.isProper.id_lt hl), h.origin_eq l hl hfirst]

/-- The label that one of the stretch is in the end. -/
theorem isCutOf (h : IsAmong line inherited level origin s first inner u t' T)
    (hl : l ∈ u.labels) (hp : p ∈ T.labels) (hid : p.id = l.id) : p.IsCutOf l := by
  obtain ⟨p', hp', hcut⟩ := h.extends_before.cut l hl
  obtain rfl := h.isProper_all.ofLine.eq_of_id hp' hp ((hcut.apply_eq id).trans hid.symm)
  exact hcut

theorem staysUncut_of_not_reachesOver
    (h : IsAmong line inherited level origin s first inner u t' T) (hw : w ∈ u.labels)
    (hlt : w.start < line.length) (hs : w.StartsBy s) (hnone : ∀ q, ¬ReachesOver u T first q w) :
    StaysUncut w T.labels := by
  obtain ⟨ht', -⟩ := h.runs.extends h.isProper
  refine h.later w hlt hs (h.runs.staysUncut h.isProper
    (h.isProper.ofLine.staysUncut h.isProper.kind_ne hw hlt) (fun e he ↦ ?_) (fun e he hinner ↦ ?_)
    (h.staysInside.of_extends h.extends_all ht'))
  · obtain ⟨q, hq, -, htext, -⟩ := mem_embeddedFrom (h.texts.subset he)
    exact .inr ⟨q, hq, congrArg some htext.id_eq, htext.start_eq⟩
  · obtain ⟨q, hq, hfirst, htext, -⟩ := mem_embeddedFrom (h.texts.subset he)
    have hinner : T.HasInner q.id := htext.id_eq ▸ hinner.of_extends h.extends_all ht'
    rw [IsClear, htext.start_eq, htext.stop_eq]
    exact Classical.or_iff_not_imp_left.2 fun hover ↦ Nat.not_lt.1 fun hstart ↦
      hnone q ⟨hq, hfirst, hinner, hstart, hover⟩

/-- The leftmost one of the labels that reach over the start of another one is not cut. -/
theorem exists_staysUncut (h : IsAmong line inherited level origin s first inner u t' T)
    (hlt : w.start < line.length) (hs : w.StartsBy s) (hq : ReachesOver u T first q w) :
    ∃ q, ReachesOver u T first q w ∧ StaysUncut q T.labels := by
  induction hn : q.start using Nat.strongRecOn generalizing q with
  | ind n ih =>
    have hqlt := Nat.lt_trans hq.start_lt hlt
    by_cases hleft : ∃ q', ReachesOver u T first q' q
    · obtain ⟨q', hq'⟩ := hleft
      -- it is around the other one, and so reaches as far
      have hmem := h.isProper.ofLine.mem_containers_of_lt hq'.mem (h.isProper.kind_ne q' hq'.mem)
        hq.mem hq'.start_lt (lt_stopIn_of_not_endsBefore hq'.not_endsBefore hqlt)
      have hle := (h.isProper.ofLine.nested.inside q hq.mem q' hq'.mem hmem).2.1
      exact ih q'.start (hn ▸ hq'.start_lt) ⟨hq'.mem, hq'.first_le, hq'.hasInner,
        Nat.lt_trans hq'.start_lt hq.start_lt, fun hends ↦ hq.not_endsBefore (hends.of_le hle)⟩ rfl
    · exact ⟨q, hq, h.staysUncut_of_not_reachesOver hq.mem hqlt (hs.of_lt hq.start_lt)
        fun q' hq' ↦ hleft ⟨q', hq'⟩⟩

/-- A label is not cut unless it lies inside another one of its text with labels in it. -/
theorem stop_eq (h : IsAmong line inherited level origin s first inner u t' T)
    (hl : l ∈ u.labels) (hfirst : first ≤ l.id) (hlt : l.start < line.length) (hs : l.StartsBy s)
    (hp : p ∈ T.labels) (hid : p.id = l.id) (hinside : ¬T.IsInsideOther p) :
    p.stop = l.stop := by
  have hstart : p.start = l.start := (h.isCutOf hl hp hid).apply_eq Label.start
  have hstays : StaysUncut l T.labels := by
    refine h.staysUncut_of_not_reachesOver hl hlt hs fun q hq ↦ hinside ?_
    obtain ⟨w, hw, hstays⟩ := h.exists_staysUncut hlt hs hq
    obtain ⟨w', hw', hcut, hstop⟩ := hstays.exists_uncut
    have hwid : w'.id = w.id := hcut.apply_eq id
    refine ⟨w', hw', h.isProper_all.ofLine.mem_containers_of_lt hw'
      (h.isProper_all.kind_ne w' hw') hp ?_ (lt_stopIn_of_not_endsBefore ?_ (hstart ▸ hlt)), ?_,
      hwid ▸ hw.hasInner⟩
    · rw [hstart, hcut.apply_eq Label.start]
      exact hw.start_lt
    · rw [EndsBefore, hstop, hstart]
      exact hw.not_endsBefore
    · rw [hwid, hid, h.origin_eq_all hw.mem hw.first_le, h.origin_eq_all hl hfirst]
  obtain ⟨p', hp', hcut, hstop⟩ := hstays.exists_uncut
  obtain rfl := h.isProper_all.ofLine.eq_of_id hp' hp ((hcut.apply_eq id).trans hid.symm)
  exact hstop

/-- Of two labels that reach over one start, one lies inside the other. -/
theorem exists_isInsideOther (h : IsAmong line inherited level origin s first inner u t' T)
    (hl : ReachesOver u T first l w) (hq : ReachesOver u T first q w) (hne : l.id ≠ q.id)
    (hlt : w.start < line.length) (hs : w.StartsBy s) :
    ∃ p ∈ T.labels, p.level = level ∧ T.HasInner p.id ∧ T.IsInsideOther p := by
  refine Classical.byContradiction fun hnone ↦ ?_
  -- neither of them is cut
  have huncut {a : Label} (ha : ReachesOver u T first a w) : ∃ a' ∈ T.labels, a'.id = a.id ∧
      a'.start < w.start ∧ w.start < a'.stopIn line.length ∧ ¬T.IsInsideOther a' := by
    obtain ⟨a', ha', hcut⟩ := h.extends_before.cut a ha.mem
    have hid : a'.id = a.id := hcut.apply_eq id
    have hinside : ¬T.IsInsideOther a' := fun hinside ↦ hnone ⟨a', ha', by
      rw [hcut.apply_eq Label.level, (h.isFound a ha.mem ha.first_le).level_eq],
      hid ▸ ha.hasInner, hinside⟩
    have hstop := h.stop_eq ha.mem ha.first_le (Nat.lt_trans ha.start_lt hlt)
      (hs.of_lt ha.start_lt) ha' hid hinside
    refine ⟨a', ha', hid, ?_, lt_stopIn_of_not_endsBefore ?_ hlt, hinside⟩
    · rw [hcut.apply_eq Label.start]
      exact ha.start_lt
    · rw [EndsBefore, hstop]
      exact ha.not_endsBefore
  obtain ⟨l', hl', hlid, hlstart, hlstop, hlinside⟩ := huncut hl
  obtain ⟨q', hq', hqid, hqstart, hqstop, hqinside⟩ := huncut hq
  have horigin : T.origin l'.id = T.origin q'.id := by
    rw [hlid, hqid, h.origin_eq_all hl.mem hl.first_le, h.origin_eq_all hq.mem hq.first_le]
  obtain hmem | hmem := h.isProper_all.ofLine.mem_containers_or hl'
    (h.isProper_all.kind_ne l' hl') hq' (h.isProper_all.kind_ne q' hq')
    (fun he ↦ hne (by rw [← hlid, he, hqid])) hlstart hlstop hqstart hqstop
  · exact hqinside ⟨l', hl', hmem, horigin, hlid ▸ hl.hasInner⟩
  · exact hlinside ⟨q', hq', hmem, horigin.symm, hqid ▸ hq.hasInner⟩

/-- The text embedded in a label leaves nothing to be cut later: a label after it, the text of which
reaches over a start in that text, reaches over it together with the label itself. -/
theorem leavesUncut (h : IsAmong line inherited level origin s first (es₁ ++ e :: es₂) u t' T)
    (hafter : Runs line inherited level es₂ y t') (hy : IsProper line inherited y)
    (huy : Extends line u y) (hl : l ∈ u.labels) (hfirst : first ≤ l.id)
    (htext : IsTextOf s.scheme l e) (hinner : T.HasInner l.id)
    (hfree : ∀ a ∈ T.labels, a.level = level → T.HasInner a.id → ¬T.IsInsideOther a) :
    LeavesUncut line e.2 y T := by
  intro w hlt hs hw
  obtain ⟨ht', -⟩ := h.runs.extends h.isProper
  have hs' := htext.startsBy (h.isFound l hl hfirst) hs
  have hover : ¬l.EndsBefore w := fun ⟨n, hn, hle⟩ ↦
    Nat.not_lt.2 hle (hs n (htext.stop_eq.trans hn))
  have hpair := (pairwise_embeddedFrom (h.isProper.ofLine.nested.ordered.and
    h.isProper.ofLine.pairwise_ids) first s.scheme).sublist h.texts
  obtain ⟨-, hlast, -⟩ := List.pairwise_append.1 hpair
  refine h.later w hlt hs' (hafter.staysUncut hy hw (fun e' he' ↦ ?_) (fun e' he' hinner' ↦ ?_)
    (h.staysInside.of_extends h.extends_all ht'))
  · obtain ⟨-, -, q, hq, -, -, -, htext', -⟩ := (List.pairwise_cons.1 hlast).1 e' he'
    have hstart : StartsAt u (some e'.1) e'.2 :=
      .inr ⟨q, hq, congrArg some htext'.id_eq, htext'.start_eq⟩
    exact hstart.of_extends huy
  · obtain ⟨l', hl', q, hq, -, htext₁, hqfirst, htext', hprecedes, hne⟩ :=
      (List.pairwise_cons.1 hlast).1 e' he'
    obtain rfl := h.isProper.eq_of_isTextOf hl' hl htext₁ htext
    have hqinner : T.HasInner q.id := htext'.id_eq ▸ hinner'.of_extends h.extends_all ht'
    rw [IsClear, htext'.start_eq, htext'.stop_eq]
    refine Classical.or_iff_not_imp_left.2 fun hqover ↦ Nat.not_lt.1 fun hqstart ↦ ?_
    obtain ⟨p, hp, hlevel, hpinner, hinside⟩ := h.exists_isInsideOther
      ⟨hl, hfirst, hinner, Nat.lt_of_le_of_lt hprecedes.start_le hqstart, hover⟩
      ⟨hq, hqfirst, hqinner, hqstart, hqover⟩ hne hlt hs'
    exact hfree p hp hlevel hpinner hinside

/-- What ends with the text of a label ends in that label, unless this lies inside another one. -/
theorem stopIn_le (h : IsAmong line inherited level origin s first inner u t' T)
    (hline : line ≠ []) (hl : l ∈ u.labels) (hfirst : first ≤ l.id)
    (htext : IsTextOf s.scheme l e) (hlabeled : e.2.isLabeled line.length = true)
    (hp : p ∈ T.labels) (hid : p.id = l.id) (hinside : ¬T.IsInsideOther p)
    (hc : ∀ limit, e.2.stop = .column limit → c.EndsBy limit) :
    c.stopIn line.length ≤ p.stopIn line.length := by
  have hs := htext.startsBy (h.isFound l hl hfirst) (htext.startsBy_self hlabeled)
  have hstop := h.stop_eq hl hfirst (htext.start_lt hlabeled hline) hs hp hid hinside
  cases hm : l.stop with
  | lineEnd =>
    have hle : line.length ≤ p.stopIn line.length := by
      rw [stopIn, hstop, hm]
      exact Nat.le_max_left _ _
    exact Nat.le_trans (c.stopIn_le line.length) hle
  | column m =>
    obtain ⟨hstart, n, hn, hle⟩ := hc m (htext.stop_eq.trans hm)
    rw [stopIn, stopIn, hstop, hm, hn, Stop.resolve, Stop.resolve]
    omega

end IsAmong

/-- Whether the labels that a run adds end in the regions in whose text they were found, if the run
leaves nothing to be cut later. -/
def KeepsInside (line : Text) (inherited : Continuations) (T : Trace) (origin : Option Nat)
    (s : Stretch) (t t' : Trace) : Prop :=
  IsProper line inherited t → (∀ k, origin = some k → k < t.labels.length) → Extends line t' T →
    LeavesUncut line s t' T → ∀ c ∈ T.labels, ∀ p ∈ T.labels, t.labels.length ≤ c.id →
      c.id < t'.labels.length → t.labels.length ≤ p.id → T.origin c.id = some p.id →
        ¬T.IsCrossed p → c.stopIn line.length ≤ p.stopIn line.length

theorem IsRun.keepsInside (h : IsRun line inherited level origin s t t') (hline : line ≠ [])
    (hT : IsProper line inherited T) (hstays : T.StaysInside) :
    KeepsInside line inherited T origin s t t' := by
  refine IsRun.induct (motive := fun _ ↦ KeepsInside line inherited T) ?_ ?_ h
  · intro _ _ _ t _ _ _ _ c _ _ _ hle hlt
    omega
  · intro level origin s t inner t' _ hinner hchain ht horigin htT hlater c hc p hp hcle hclt hple
      ho hcrossed
    have hadd := ht.add origin level s
    obtain ⟨ht', hextends⟩ := hchain.extends hadd fun hstep ↦ hstep.1.extends
    have hamong : IsAmong line inherited level origin s t.labels.length inner
        (t.add origin (foundIn line inherited level s) line.length) t' T :=
      { isProper := hadd
        isFound := fun l hl ↦ mem_labels_add ht origin hl
        origin_eq := fun l _ hle ↦ if_neg (Nat.not_lt.2 hle)
        runs := hchain.imp fun h ↦ h.1
        texts := hinner
        isProper_all := hT
        extends_all := htT
        staysInside := hstays
        later := hlater }
    obtain ⟨c', hc', hcut⟩ := htT.exists_source ht' hT hc hclt
    have hcid : c.id = c'.id := hcut.apply_eq id
    rw [hcid] at hcle ho
    obtain ⟨es₁, e, es₂, x, y, source, rfl, hadded⟩ :=
      hchain.exists_isAddedAt hadd (fun hstep ↦ hstep.1.extends) hc'
        (hamong.extends_before.length_add_le horigin hcle hple ho)
    obtain ⟨hrun, hkeeps⟩ := hadded.taken
    have hx := hadded.isProper_before
    have hyT := hadded.extends_after.trans htT
    have hsid : c'.id = source.id := hadded.isCutOf.apply_eq id
    rw [hsid, hyT.origin _ (hadded.isProper_after.id_lt hadded.mem)] at ho
    obtain ⟨l, hl, hfirst, htext, -⟩ :=
      mem_embeddedFrom (hinner.subset (List.mem_append_right _ List.mem_cons_self))
    obtain ⟨ho', hlabeled, -⟩ | ⟨q, hq, hxq, ho', -⟩ :=
      hrun.isAddedBy hx source hadded.mem hadded.length_le
    · -- it was found in the text of a label in the stretch
      have hid : p.id = l.id := Option.some.inj (ho.symm.trans (htext.id_eq ▸ ho'))
      exact hamong.stopIn_le hline hl hfirst htext hlabeled hp hid (fun h ↦ hcrossed (.inl h))
        fun limit hlimit ↦ (hrun.endsBy hx source hadded.mem hadded.length_le limit
          hlimit).of_isCutOf (hcut.trans hadded.isCutOf)
    · -- it was found further in
      have hid : p.id = q.id := Option.some.inj (ho.symm.trans ho')
      have hy := hadded.isProper_after
      obtain ⟨p', hp', hpcut⟩ := hyT.cut q hq
      obtain rfl := hT.ofLine.eq_of_id hp' hp ((hpcut.apply_eq id).trans hid.symm)
      have hlevel : level < p'.level :=
        hpcut.apply_eq Label.level ▸ hrun.level_le hx q hq hxq
      have hlinner : T.HasInner l.id := by
        obtain rfl | ⟨-, hlinner⟩ := hrun.eq_or_exists_origin hx
        · exact absurd (hx.id_lt hadded.mem) (Nat.not_lt.2 hadded.length_le)
        · exact htext.id_eq ▸ HasInner.of_extends hlinner hyT hy
      have hleaves : LeavesUncut line e.2 y T :=
        hamong.leavesUncut (hadded.after.imp fun h ↦ h.1) hy
          (hadded.extends_before.trans (hrun.extends hx).2) hl hfirst htext hlinner
          fun a ha ha' hainner hainside ↦
            hcrossed (.inr ⟨a, ha, ha' ▸ hlevel, hainner, hainside⟩)
      refine hkeeps hx ?_ hyT hleaves c hc p' hp ?_ ?_ (hid ▸ hxq) ?_ hcrossed
      · rintro k ⟨⟩
        rw [htext.id_eq]
        exact Nat.lt_of_lt_of_le (hadd.id_lt hl) hadded.extends_before.length_le
      · rw [hcid, hsid]
        exact hadded.length_le
      · rw [hcid, hsid]
        exact hy.id_lt hadded.mem
      · rw [hcid, hsid, hyT.origin _ (hy.id_lt hadded.mem), ho]

instance (t : Trace) (k : Nat) : Decidable (t.HasInner k) :=
  inferInstanceAs (Decidable (∃ c ∈ t.labels, t.origin c.id = some k))

instance (t : Trace) (p : Label) : Decidable (t.IsInsideOther p) :=
  inferInstanceAs (Decidable (∃ q ∈ t.labels, q.id ∈ p.containers ∧
    t.origin q.id = t.origin p.id ∧ t.HasInner q.id))

instance (t : Trace) (p : Label) : Decidable (t.IsCrossed p) :=
  inferInstanceAs (Decidable (t.IsInsideOther p ∨
    ∃ a ∈ t.labels, a.level < p.level ∧ t.HasInner a.id ∧ t.IsInsideOther a))

/-- The conditions under which a label lies inside the one in which it was found, and whether it
starts in it at least. -/
def standing (t : Trace) (c p : Label) : List Bool :=
  [decide t.StaysInside, !decide (t.IsInsideOther p), !decide (t.IsCrossed p),
    decide (p.start ≤ c.start)]

/-- Whether some label does not lie inside the one in which it was found, with the given
conditions. -/
def Spills (t : Trace) (length : Nat) (conditions : List Bool) : Prop :=
  ∃ c ∈ t.labels, ∃ p ∈ t.labels, t.origin c.id = some p.id ∧
    ¬(p.start ≤ c.start ∧ c.stopIn length ≤ p.stopIn length) ∧ t.standing c p = conditions

instance (t : Trace) (length : Nat) (conditions : List Bool) :
    Decidable (t.Spills length conditions) :=
  inferInstanceAs (Decidable (∃ c ∈ t.labels, ∃ p ∈ t.labels, t.origin c.id = some p.id ∧
    ¬(p.start ≤ c.start ∧ c.stopIn length ≤ p.stopIn length) ∧ t.standing c p = conditions))

end Trace

end Label

namespace Scheme

open Label Label.Trace

theorem stopIn_le_of_origin (s : Scheme) {line : Text} {inherited : Continuations}
    {maxNesting : Nat} (hstays : (s.trace line inherited maxNesting).StaysInside) {c p : Label}
    (hc : c ∈ (s.trace line inherited maxNesting).labels)
    (hp : p ∈ (s.trace line inherited maxNesting).labels)
    (ho : (s.trace line inherited maxNesting).origin c.id = some p.id)
    (hcrossed : ¬(s.trace line inherited maxNesting).IsCrossed p) :
    c.stopIn line.length ≤ p.stopIn line.length := by
  have hT := s.isProper_trace line inherited maxNesting
  by_cases hline : line = []
  · have := c.stopIn_le line.length
    simp only [hline, List.length_nil] at this ⊢
    omega
  · exact (s.isRun_trace line inherited maxNesting).keepsInside hline hT hstays
      (isProper_nil line inherited) nofun (.refl line _) (fun _ _ _ hw ↦ hw) c hc p hp
      (Nat.zero_le _) (hT.id_lt hc) (Nat.zero_le _) ho hcrossed

/-- A label in embedded text was found inside another one, in which its scheme is embedded. It
starts before that one only if its rule lets it, and ends with it if it starts further in. If no
label starts before the one in which it was found, and neither that one nor, further up, another one
with labels in it lies inside a label that was found with it and has labels in it, then it lies
inside that one. -/
theorem inside_labelLine (s : Scheme) (line : Text) (inherited : Continuations)
    (maxNesting : Nat) :
    let t := s.trace line inherited maxNesting
    t.labels = s.labelLine line inherited maxNesting ∧
    ∀ c ∈ t.labels, 1 ≤ c.level →
      ∃ p ∈ t.labels, t.origin c.id = some p.id ∧ s.Embeds p c ∧
        (∃ inner ∈ s.onLevel c.level, inner.name = c.scheme ∧
          (c.start < p.start → line.length ≤ maxOffset → inner.MovesLeft c.name)) ∧
        (p.start < c.start → c.start < p.stopIn line.length →
          c.stopIn line.length ≤ p.stopIn line.length) ∧
        (t.StaysInside → ¬t.IsCrossed p →
          p.start ≤ c.start ∧ c.stopIn line.length ≤ p.stopIn line.length) := by
  intro t
  have hT := s.isProper_trace line inherited maxNesting
  refine ⟨s.labels_trace line inherited maxNesting, fun c hc hlevel ↦ ?_⟩
  obtain ⟨-, hzero, -⟩ | ⟨p, hp, -, ho, hembeds, hinner⟩ :=
    s.isFoundBy_trace line inherited maxNesting hc
  · omega
  · refine ⟨p, hp, ho, hembeds, hinner, fun hstart hlt ↦ ?_, fun hstays hcrossed ↦ ?_⟩
    · have hmem := hT.ofLine.mem_containers_of_lt hp (hT.kind_ne p hp) hc hstart hlt
      exact (hT.ofLine.nested.inside c hc p hp hmem).2.2
    · exact ⟨hstays c hc p hp ho, s.stopIn_le_of_origin hstays hc hp ho hcrossed⟩

/-- A rule for regions between two characters. -/
def closed (name : String) (opener closer : Char) : Rule :=
  (Rule.delimited name .plain [opener]).withCloser [closer]

/-- A comment up to the end of a script, in that script. -/
theorem inside_labelLine_scripts :
    let t := scripts.trace "s c".toList [] 8
    t.StaysInside ∧ ∃ c ∈ t.labels, c.key = ⟨"script", "COMMENT"⟩ ∧ 1 ≤ c.level ∧
      ∃ p ∈ t.labels, t.origin c.id = some p.id ∧ ¬t.IsCrossed p ∧ scripts.Embeds p c ∧
        p.start ≤ c.start ∧ c.stopIn 3 ≤ p.stopIn 3 := by
  intro t
  have hstays : t.StaysInside := by decide +kernel
  obtain ⟨c, hc, hkey, hlevel, hfree⟩ : ∃ c ∈ t.labels, c.key = ⟨"script", "COMMENT"⟩ ∧
      1 ≤ c.level ∧ ∀ p ∈ t.labels, ¬t.IsCrossed p := by
    decide +kernel
  obtain ⟨p, hp, ho, hembeds, -, -, hinside⟩ :=
    (scripts.inside_labelLine "s c".toList [] 8).2 c hc hlevel
  exact ⟨hstays, c, hc, hkey, hlevel, p, hp, ho, hfree p hp, hembeds, hinside hstays (hfree p hp)⟩

/-- Whether each label in embedded text lies inside one in which its scheme is embedded. -/
def HoldsEmbedded (s : Scheme) (length : Nat) (labels : List Label) : Prop :=
  ∀ c ∈ labels, 1 ≤ c.level →
    ∃ p ∈ labels, s.Embeds p c ∧ p.start ≤ c.start ∧ c.stopIn length ≤ p.stopIn length

instance (s : Scheme) (length : Nat) (labels : List Label) :
    Decidable (s.HoldsEmbedded length labels) :=
  inferInstanceAs (Decidable (∀ c ∈ labels, 1 ≤ c.level →
    ∃ p ∈ labels, s.Embeds p c ∧ p.start ≤ c.start ∧ c.stopIn length ≤ p.stopIn length))

/-- Two kinds of regions, each with regions of one kind in the text embedded in it. -/
def crossing (innerText outerText : Rule) (part : List (String × Scheme)) : Scheme :=
  sample "page" [closed "INNER" 'i' 'j', closed "OUTER" 'o' 'p']
    [("INNER", sample "inner" [innerText] []), ("OUTER", sample "outer" [outerText] part)]

/-- A word of a rule that lets it start some columns before it. -/
def leftward (columns : Int) : Rule :=
  { closed "WORD" 'w' 'v' with extension := ⟨.shift (-columns), .shift 0⟩ }

def part : Scheme := sample "part" [closed "TEXT" 'x' 'y'] []

/-- A word in a region around another one cuts this one off from the text found in it before. Each
condition is needed: a word may start before its region, or cut another one from there, and a part
of a region may be cut off by a word in another region inside that one. -/
theorem not_holdsEmbedded :
    ¬(crossing (closed "TEXT" 'x' 'y') (closed "WORD" 'w' 'v') []).HoldsEmbedded 8
      ((crossing (closed "TEXT" 'x' 'y') (closed "WORD" 'w' 'v') []).labelLine
        "owivxyjp".toList [] 8) ∧
    ((crossing (closed "TEXT" 'x' 'y') (closed "WORD" 'w' 'v') []).trace
      "owivxyjp".toList [] 8).Spills 8 [true, false, false, true] ∧
    ((crossing (leftward 2) (closed "TEXT" 'x' 'y') []).trace "xiwvj".toList [] 8).Spills 5
      [false, true, true, false] ∧
    ((crossing (leftward 3) (closed "TEXT" 'x' 'y') []).trace "_oiwvxypj".toList [] 8).Spills 9
      [false, true, true, true] ∧
    ((crossing (closed "WORD" 'w' 'v') (closed "PART" 'a' 'b') [("PART", part)]).trace
      "oiwavxybjp".toList [] 8).Spills 10 [true, true, false, true] := by
  decide +kernel

end Scheme

end Highlighter
