import Highlighter.Proofs.Coloring.Active
import Highlighter.Proofs.Labels.Containers
import Highlighter.Proofs.Labels.Inside

/-!
Which scheme colors a character in embedded text. Where the embedded schemes have none in them, it
is that of the outermost region that counts, not that of the innermost one.
-/

namespace Highlighter

namespace Scheme

variable {root s sub : Scheme} {labels covering : List Label} {active : List Nat} {l : Label}

/-- The color of a character among the labels of one scheme. -/
def ownColor (s : Scheme) (covering : List Label) (active : List Nat) : Color :=
  let own := covering.filter fun l ↦ l.scheme == s.name && active.contains l.id
  match s.precedence.findSome? (fun entry ↦ winner? (own.filter (entry.contains ·.name))) with
  | some l => l.color
  | none => s.baseColor

theorem colorAt_eq_ownColor (root : Scheme) (covering : List Label) (active : List Nat) :
    root.colorAt covering active = (root.schemeUnder covering active).ownColor covering active :=
  rfl

/-- Whether the schemes embedded in a scheme have none in them, and other names than it has. -/
structure IsShallow (root : Scheme) : Prop where
  flat : ∀ e ∈ root.subSchemes, e.2.subSchemes = []
  name_ne : ∀ e ∈ root.subSchemes, e.2.name ≠ root.name

/-- The scheme in whose text a label counts, if it is an active one of the outer scheme that embeds
one, and no active label around it outranks it. -/
def live? (root : Scheme) (labels : List Label) (active : List Nat) (l : Label) : Option Scheme :=
  if l.scheme == root.name && active.contains l.id && !l.isShadowed labels active root then
    root.subScheme? l.name
  else none

/-! ### Schemes under a character -/

theorem descend_eq : descend covering active root l = (root.live? covering active l).getD root := by
  rw [descend, live?]
  cases l.scheme == root.name && active.contains l.id with
  | false => rfl
  | true =>
    rw [Bool.true_and, if_pos rfl]
    cases root.subScheme? l.name with
    | none => cases l.isShadowed covering active root <;> rfl
    | some sub => cases l.isShadowed covering active root <;> rfl

theorem descend_of_flat (h : s.subSchemes = []) : descend covering active s l = s := by
  have hnone : s.subScheme? l.name = none := by rw [subScheme?, h]; rfl
  rw [descend, hnone]
  exact ite_self _

theorem live?_eq_some : root.live? labels active l = some sub ↔
    l.scheme = root.name ∧ l.id ∈ active ∧ l.isShadowed labels active root = false ∧
      root.subScheme? l.name = some sub := by
  rw [live?, Option.ite_none_right_eq_some]
  simp only [Bool.and_eq_true, beq_iff_eq, List.contains_iff_mem, Bool.not_eq_true', and_assoc]

theorem foldl_descend_of_flat (h : s.subSchemes = []) (labels : List Label) :
    labels.foldl (descend covering active) s = s := by
  induction labels with
  | nil => rfl
  | cons l labels ih => rw [List.foldl_cons, descend_of_flat h, ih]

/-- The first region that counts leads into its scheme, and nothing leads out of that. -/
theorem IsShallow.foldl_descend (h : root.IsShallow) (labels : List Label) :
    labels.foldl (descend covering active) root =
      (labels.findSome? (root.live? covering active)).getD root := by
  induction labels with
  | nil => rfl
  | cons l labels ih =>
    rw [List.foldl_cons, List.findSome?_cons, descend_eq]
    cases hl : root.live? covering active l with
    | none => exact ih
    | some sub =>
      exact foldl_descend_of_flat (h.flat _ (mem_of_subScheme? (live?_eq_some.1 hl).2.2.2)) labels

theorem findSome?_congr {f g : Label → Option Scheme} (h : ∀ l ∈ labels, f l = g l) :
    labels.findSome? f = labels.findSome? g := by
  induction labels with
  | nil => rfl
  | cons l labels ih =>
    obtain ⟨hl, hlabels⟩ := List.forall_mem_cons.1 h
    rw [List.findSome?_cons, List.findSome?_cons, hl, ih hlabels]

theorem findSome?_sort_eq {f : Label → Option Scheme}
    (h : (covering.filter fun l ↦ (f l).isSome).Pairwise fun a b ↦ nestingLe a b = true) :
    (Sorting.sort nestingLe covering).findSome? f = covering.findSome? f := by
  have hfilter (l : List Label) : l.findSome? f = (l.filter fun l ↦ (f l).isSome).findSome? f := by
    rw [← List.head?_filterMap, ← List.head?_filterMap, List.filterMap_filter]
    refine congrArg (fun g ↦ (l.filterMap g).head?) (funext fun a ↦ ?_)
    cases f a <;> rfl
  rw [hfilter, Sorting.filter_sort nestingLe_trans nestingLe_total, Sorting.sort_of_pairwise h,
    ← hfilter]

theorem IsShallow.subSchemes_of_mem_onLevel (h : root.IsShallow) {k : Nat}
    (hs : s ∈ root.onLevel (k + 1)) : s.subSchemes = [] := by
  induction k generalizing s with
  | zero =>
    obtain ⟨outer, houter, hs⟩ := List.mem_flatMap.1 hs
    obtain ⟨e, he, rfl⟩ := List.mem_map.1 hs
    obtain rfl := List.mem_singleton.1 houter
    exact h.flat e he
  | succ k ih =>
    obtain ⟨outer, houter, hs⟩ := List.mem_flatMap.1 hs
    rw [ih houter] at hs
    cases hs

/-- What is embedded is found in labels of the outer scheme. -/
theorem IsShallow.of_embeds (h : root.IsShallow) {p c : Label} (he : root.Embeds p c) :
    p.scheme = root.name ∧ (root.subScheme? p.name).map Scheme.name = some c.scheme ∧
      c.scheme ≠ root.name := by
  obtain ⟨-, outer, houter, hname, hsub⟩ := he
  have hroot : outer = root := by
    cases hk : p.level with
    | zero =>
      rw [hk] at houter
      exact List.mem_singleton.1 houter
    | succ k =>
      rw [hk] at houter
      rw [subScheme?, h.subSchemes_of_mem_onLevel houter] at hsub
      cases hsub
  subst hroot
  obtain ⟨sub, hsome, hc⟩ := Option.map_eq_some_iff.1 hsub
  exact ⟨hname.symm, hsub, hc ▸ h.name_ne _ (mem_of_subScheme? hsome)⟩

end Scheme

namespace Label

variable {labels : List Label} {l : Label} {length i : Nat}

theorem Nested.isShadowed_covering (h : Nested length labels) (hl : l ∈ labels)
    (hi : l.covers i length = true) (active : List Nat) (s : Scheme) :
    l.isShadowed (labels.filter (·.covers i length)) active s = l.isShadowed labels active s := by
  rw [Bool.eq_iff_iff, isShadowed, isShadowed, List.any_eq_true, List.any_eq_true]
  refine exists_congr fun c ↦ and_congr_left fun hc ↦ ?_
  rw [List.mem_filter]
  refine ⟨And.left, fun hcl ↦ ⟨hcl, ?_⟩⟩
  rw [isOutrankedBy] at hc
  simp only [Bool.and_eq_true, List.contains_iff_mem] at hc
  exact h.covers_of_around ⟨hcl, hl, hc.2.1.2⟩ hi

/-- The labels that were found in the text embedded in one of them. -/
def Trace.labelsWithin (t : Trace) (l : Label) (labels : List Label) : List Label :=
  labels.filter fun c ↦ t.origin c.id == some l.id

end Label

namespace Scheme

open Label Label.Trace

variable {root sub : Scheme} {labels : List Label} {active : List Nat} {length : Nat}

theorem nestingLe_of_le {a b : Label} (hdepth : a.depth ≤ b.depth) (hlevel : a.level = b.level)
    (hstart : a.start ≤ b.start) : nestingLe a b = true := by
  rw [nestingLe, hlevel, Nat.compare_eq_eq.2 rfl]
  obtain hlt | heq := Nat.lt_or_eq_of_le hdepth
  · rw [Nat.compare_eq_lt.2 hlt]
    rfl
  · rw [Nat.compare_eq_eq.2 heq]
    exact Nat.isLE_compare.2 hstart

/-- The labels that cover a character are in order from the outside in. -/
theorem pairwise_covering (h : Nested length labels) (i : Nat) :
    (labels.filter (·.covers i length)).Pairwise fun a b ↦
      a.start ≤ b.start ∧ a.depth ≤ b.depth := by
  have hpair := (h.ordered.and h.pairwise_containers).filter (·.covers i length)
  refine hpair.imp_of_mem fun {a b} ha hb ⟨hprecedes, hsub⟩ ↦ ⟨hprecedes.start_le, ?_⟩
  obtain ⟨ha, hai⟩ := List.mem_filter.1 ha
  obtain ⟨hb, hbi⟩ := List.mem_filter.1 hb
  simp only [covers, Bool.and_eq_true, decide_eq_true_eq] at hai hbi
  exact h.depth_le ha hb (hsub (Nat.lt_of_le_of_lt hbi.1 hai.2))

/-- The scheme of the first region that counts and covers a character is the one under it. -/
theorem IsShallow.schemeUnder_eq (h : root.IsShallow) (hnested : Nested length labels)
    (hlevel : ∀ l ∈ labels, l.scheme = root.name → l.level = 0) (i : Nat) :
    root.schemeUnder (labels.filter (·.covers i length)) active =
      ((labels.filter (·.covers i length)).findSome? (root.live? labels active)).getD root := by
  have hlive : ∀ l ∈ labels.filter (·.covers i length),
      root.live? (labels.filter (·.covers i length)) active l = root.live? labels active l := by
    intro l hl
    obtain ⟨hl, hi⟩ := List.mem_filter.1 hl
    rw [live?, live?, hnested.isShadowed_covering hl hi]
  rw [schemeUnder, h.foldl_descend, findSome?_sort_eq, findSome?_congr hlive]
  refine ((pairwise_covering hnested i).filter _).imp_of_mem fun {a b} ha hb hab ↦ ?_
  have hzero {l : Label} (hl : l ∈ (labels.filter (·.covers i length)).filter fun l ↦
      (root.live? (labels.filter (·.covers i length)) active l).isSome) : l.level = 0 := by
    obtain ⟨hl, hsome⟩ := List.mem_filter.1 hl
    obtain ⟨sub, hsub⟩ := Option.isSome_iff_exists.1 hsome
    exact hlevel l (List.mem_filter.1 hl).1 (live?_eq_some.1 hsub).1
  exact nestingLe_of_le hab.2 ((hzero ha).trans (hzero hb).symm) hab.1

theorem IsShallow.level_eq_zero (h : root.IsShallow) {line : Text} {inherited : Continuations}
    {maxNesting : Nat} {c : Label} (hc : c ∈ (root.trace line inherited maxNesting).labels)
    (hname : c.scheme = root.name) : c.level = 0 := by
  obtain ⟨-, hzero, -⟩ | ⟨p, -, -, -, hembeds, -⟩ :=
    root.isFoundBy_trace line inherited maxNesting hc
  · exact hzero
  · exact absurd hname (h.of_embeds hembeds).2.2

theorem ownColor_filter (s : Scheme) (covering : List Label) (active : List Nat) :
    s.ownColor (covering.filter (·.scheme == s.name)) active = s.ownColor covering active := by
  rw [ownColor, ownColor, List.filter_filter]
  refine congrArg (fun own : List Label ↦ match s.precedence.findSome? (fun entry ↦
    winner? (own.filter (entry.contains ·.name))) with
    | some l => l.color
    | none => s.baseColor) (List.filter_congr fun l _ ↦ ?_)
  cases l.scheme == s.name <;> simp

/-- Whether a label is one of a scheme that has a scheme of some name embedded in it. -/
def EmbedsName (root : Scheme) (p : Label) (name : String) : Prop :=
  p.scheme = root.name ∧ (root.subScheme? p.name).map Scheme.name = some name

/-- The labels of the scheme that one region only embeds, at a character, are those found in the
text of this region. -/
theorem IsShallow.filter_covering_eq (h : root.IsShallow) {line : Text}
    {inherited : Continuations} {maxNesting i : Nat} {l : Label}
    (hstays : (root.trace line inherited maxNesting).StaysInside)
    (hl : l ∈ (root.trace line inherited maxNesting).labels)
    (hembeds : root.EmbedsName l sub.name)
    (hinside : ∀ p ∈ (root.trace line inherited maxNesting).labels,
      root.EmbedsName p sub.name → ¬(root.trace line inherited maxNesting).IsInsideOther p)
    (honly : ∀ p ∈ (root.trace line inherited maxNesting).labels,
      p.covers i line.length = true → root.EmbedsName p sub.name → p = l) :
    ((root.trace line inherited maxNesting).labels.filter (·.covers i line.length)).filter
        (·.scheme == sub.name) =
      labelsWithin (root.trace line inherited maxNesting) l
        ((root.trace line inherited maxNesting).labels.filter (·.covers i line.length)) := by
  have hT := root.isProper_trace line inherited maxNesting
  refine List.filter_congr fun c hc ↦ ?_
  obtain ⟨hc, hi⟩ := List.mem_filter.1 hc
  rw [Bool.eq_iff_iff, beq_iff_eq, beq_iff_eq]
  obtain ⟨ho, -, hname, -⟩ | ⟨p, hp, -, ho, hp', -⟩ :=
    root.isFoundBy_trace line inherited maxNesting hc
  · -- it is no label of an embedded scheme
    obtain ⟨sub', hsub', hname'⟩ := Option.map_eq_some_iff.1 hembeds.2
    rw [hname, ho, ← hname']
    exact ⟨fun he ↦ absurd he.symm (h.name_ne _ (mem_of_subScheme? hsub')), nofun⟩
  · obtain ⟨hpname, hpsub, -⟩ := h.of_embeds hp'
    rw [ho, Option.some_inj]
    constructor
    · intro hcname
      have hpembeds : root.EmbedsName p sub.name := ⟨hpname, hcname ▸ hpsub⟩
      have hcrossed : ¬(root.trace line inherited maxNesting).IsCrossed p := by
        rintro (hin | ⟨a, -, hlt, -⟩)
        · exact hinside p hp hpembeds hin
        · rw [h.level_eq_zero hp hpname] at hlt
          exact Nat.not_lt_zero _ hlt
      have hstart := hstays c hc p hp ho
      have hstop := root.stopIn_le_of_origin hstays hc hp ho hcrossed
      rw [honly p hp ?_ hpembeds]
      simp only [covers, Bool.and_eq_true, decide_eq_true_eq] at hi ⊢
      omega
    · intro hid
      obtain rfl := hT.ofLine.eq_of_id hp hl hid
      exact Option.some.inj (hpsub.symm.trans hembeds.2)

/-- Where no scheme is embedded in those that a scheme embeds, the first region that counts, of
those over a character, decides which scheme colors it, and this is the outermost one. An inner
region has its own scheme color the character just if the outermost one embeds that scheme too. If
no other region over the character embeds it, no label starts before the region in which it was
found, and no region that embeds it lies inside another one with labels in it, then the color is
that of a label found in the text of the region, or the base color of the scheme. -/
theorem IsShallow.colorAt_trace (h : root.IsShallow) (line : Text) (inherited : Continuations)
    (maxNesting i : Nat) :
    let t := root.trace line inherited maxNesting
    let active := activeIds t.labels
    let covering := t.labels.filter (·.covers i line.length)
    let live := root.live? t.labels active
    t.labels = root.labelLine line inherited maxNesting ∧
    covering.Pairwise (fun a b ↦ a.start ≤ b.start ∧ a.depth ≤ b.depth) ∧
    root.colorAt covering active =
      ((covering.findSome? live).getD root).ownColor covering active ∧
    ∀ l ∈ covering, ∀ sub, live l = some sub →
      (root.schemeUnder covering active = sub ↔ covering.findSome? live = some sub) ∧
      (covering.findSome? live = some sub → t.StaysInside →
        (∀ p ∈ t.labels, root.EmbedsName p sub.name → ¬t.IsInsideOther p) →
        (∀ p ∈ t.labels, p.covers i line.length = true → root.EmbedsName p sub.name → p = l) →
          root.colorAt covering active = sub.ownColor (t.labelsWithin l covering) active) := by
  intro t active covering live
  have hT := root.isProper_trace line inherited maxNesting
  have hunder : root.schemeUnder covering active = (covering.findSome? live).getD root :=
    h.schemeUnder_eq hT.ofLine.nested (fun l ↦ h.level_eq_zero) i
  have hcolor : root.colorAt covering active =
      ((covering.findSome? live).getD root).ownColor covering active := by
    rw [colorAt_eq_ownColor, hunder]
  refine ⟨root.labels_trace line inherited maxNesting, pairwise_covering hT.ofLine.nested i, hcolor,
    fun l hl sub hsub ↦ ⟨?_, fun hfirst hstays hinside honly ↦ ?_⟩⟩
  · obtain ⟨first, hfirst⟩ : ∃ first, covering.findSome? live = some first := by
      rw [← Option.isSome_iff_exists, List.findSome?_isSome_iff]
      exact ⟨l, hl, by rw [hsub]; rfl⟩
    rw [hunder, hfirst, Option.some_inj]
    rfl
  · obtain ⟨hname, -, -, hsome⟩ := live?_eq_some.1 hsub
    have hembeds : root.EmbedsName l sub.name := ⟨hname, by rw [hsome]; rfl⟩
    rw [hcolor, hfirst, Option.getD_some, ← ownColor_filter, h.filter_covering_eq hstays
      (List.mem_filter.1 hl).1 hembeds hinside honly]

instance (root : Scheme) (p : Label) (name : String) : Decidable (root.EmbedsName p name) :=
  inferInstanceAs (Decidable (_ ∧ _))

/-- In a script the labels of its text decide. -/
theorem IsShallow.colorAt_trace_scripts :
    scripts.IsShallow ∧
    let t := scripts.trace "s c".toList [] 8
    let active := activeIds t.labels
    let covering := t.labels.filter (·.covers 2 3)
    ∃ l ∈ covering, scripts.live? t.labels active l = some comments ∧ t.StaysInside ∧
      scripts.schemeUnder covering active = comments ∧
      scripts.colorAt covering active = comments.ownColor (t.labelsWithin l covering) active := by
  have hshallow : scripts.IsShallow := ⟨by decide, by decide⟩
  refine ⟨hshallow, ?_⟩
  intro t active covering
  have hstays : t.StaysInside := by decide +kernel
  obtain ⟨l, hl, hname, hlive, honly, hembeds⟩ : ∃ l ∈ covering, l.name = "SCRIPT" ∧
      (scripts.live? t.labels active l).isSome = true ∧
      (∀ l' ∈ covering, (scripts.live? t.labels active l').isSome = true → l' = l) ∧
      ∀ p ∈ t.labels, scripts.EmbedsName p comments.name → p = l ∧ ¬t.IsInsideOther p := by
    decide +kernel
  have hsub : ∀ sub, scripts.live? t.labels active l = some sub → sub = comments := by
    intro sub hsub
    have hsome := (live?_eq_some.1 hsub).2.2.2
    rw [hname] at hsome
    exact (Option.some.inj hsome).symm
  obtain ⟨sub, hsome⟩ := Option.isSome_iff_exists.1 hlive
  obtain rfl := hsub sub hsome
  have hfirst : covering.findSome? (scripts.live? t.labels active) = some comments := by
    obtain ⟨first, hfirst⟩ := Option.isSome_iff_exists.1
      (List.findSome?_isSome_iff.2 ⟨l, hl, hlive⟩)
    obtain ⟨l', hl', hsub'⟩ := List.exists_of_findSome?_eq_some hfirst
    obtain rfl := honly l' hl' (by rw [hsub']; rfl)
    rw [hfirst, hsub first hsub']
  obtain ⟨hunder, hcolor⟩ := (hshallow.colorAt_trace "s c".toList [] 8 2).2.2.2 l hl _ hsome
  exact ⟨l, hl, hsome, hstays, hunder.2 hfirst, hcolor hfirst hstays
    (fun p hp hp' ↦ (hembeds p hp hp').2) fun p hp _ hp' ↦ (hembeds p hp hp').1⟩

/-- Whether each character is colored by the scheme embedded in the innermost one of the regions
over it that count. -/
def ColorsByInnermost (root : Scheme) (line : Text) (inherited : Continuations)
    (maxNesting : Nat) : Prop :=
  let labels := root.labelLine line inherited maxNesting
  let active := activeIds labels
  ∀ i < line.length,
    let covering := labels.filter (·.covers i line.length)
    ∀ l ∈ covering, (∀ l' ∈ covering, (root.live? labels active l').isSome = true → l' ≠ l →
        l'.depth < l.depth) →
      ∀ sub ∈ root.live? labels active l,
        root.colorAt covering active = sub.ownColor covering active

instance (root : Scheme) (line : Text) (inherited : Continuations) (maxNesting : Nat) :
    Decidable (root.ColorsByInnermost line inherited maxNesting) :=
  inferInstanceAs (Decidable (∀ i < line.length, _))

def marked : Scheme :=
  crossing { closed "TEXT" 'x' 'y' with color := .ofNat 1 } (closed "WORD" 'w' 'v') []

/-- The text of an inner region is labeled, but it has the color of the outer one, also where the
inner one comes first in the precedence. -/
theorem not_colorsByInnermost :
    marked.IsShallow ∧ ¬marked.ColorsByInnermost "oixyjp".toList [] 1 := by
  exact ⟨⟨by decide, by decide⟩, by decide +kernel⟩

end Scheme

end Highlighter
