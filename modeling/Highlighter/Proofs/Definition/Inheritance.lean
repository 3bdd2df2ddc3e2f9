import Mathlib.Data.List.Forall2
import Highlighter.Proofs.Registry.Loading
import Highlighter.Proofs.Scheme.Construction

/-!
Definitions that extend a scheme. What they describe has the rules, the ranks, the embedded schemes
and the color of its base, except for what they give themselves.
-/

namespace Highlighter

theorem exists_mapM_eq_ok {ε α β : Type} {f : α → Except ε β} {l : List α}
    (h : ∀ a ∈ l, ∃ b, f a = .ok b) :
    ∃ bs, l.mapM f = .ok bs ∧ List.Forall₂ (fun a b ↦ f a = .ok b) l bs := by
  induction l with
  | nil => exact ⟨[], rfl, .nil⟩
  | cons a l ih =>
    obtain ⟨b, hb⟩ := h a List.mem_cons_self
    obtain ⟨bs, hbs, hall⟩ := ih fun a ha ↦ h a (List.mem_cons_of_mem _ ha)
    refine ⟨b :: bs, ?_, .cons hb hall⟩
    rw [List.mapM_cons, hb, hbs]
    rfl

/-! ### Schemes as they are built -/

/-- Whether an entry is in the form that a draft gives it: a group has two names at least. -/
def Precedence.IsCanonical (e : Precedence) : Prop := ofNames? e.names = some e

theorem Precedence.isCanonical_of_ofNames? {names : List String} {e : Precedence}
    (h : ofNames? names = some e) : e.IsCanonical := by
  match names, h with
  | [_], h =>
    cases h
    rfl
  | _ :: _ :: _, h =>
    cases h
    rfl

namespace Scheme

namespace Draft

/-- The drafts that come of a new one by adding to it. -/
inductive IsAssembled : Draft → Prop
  | new (name : String) : IsAssembled (new name)
  | withBaseColor {d : Draft} (h : IsAssembled d) (c : Color) : IsAssembled (d.withBaseColor c)
  | label {d : Draft} (h : IsAssembled d) (r : Rule) : IsAssembled (d.label r)
  | labels {d : Draft} (h : IsAssembled d) (rs : List Rule) : IsAssembled (d.labels rs)
  | extend {d : Draft} (h : IsAssembled d) (base : Scheme) : IsAssembled (d.extend base)
  | rank {d : Draft} (h : IsAssembled d) (name : String) : IsAssembled (d.rank name)
  | rankGroup {d : Draft} (h : IsAssembled d) (names : List String) :
    IsAssembled (d.rankGroup names)
  | embed {d : Draft} (h : IsAssembled d) (label : String) (s : Scheme) :
    IsAssembled (d.embed label s)

variable {d : Draft}

theorem IsAssembled.isCanonical (h : d.IsAssembled) : ∀ e ∈ d.precedence, e.IsCanonical := by
  induction h with
  | new => exact nofun
  | withBaseColor _ _ ih | label _ _ ih | labels _ _ ih | extend _ _ ih | embed _ _ _ ih => exact ih
  | rank _ name ih =>
    intro e he
    obtain he | he := List.mem_append.1 he
    · exact ih e he
    · rw [List.mem_singleton.1 he]
      rfl
  | rankGroup _ names ih =>
    intro e he
    obtain he | he := List.mem_append.1 he
    · exact ih e he
    · exact Precedence.isCanonical_of_ofNames? (Option.mem_toList.1 he)

theorem IsAssembled.foldl {α : Type} {f : Draft → α → Draft}
    (hf : ∀ draft a, draft.IsAssembled → (f draft a).IsAssembled) (l : List α)
    (h : d.IsAssembled) : (l.foldl f d).IsAssembled := by
  induction l generalizing d with
  | nil => exact h
  | cons a l ih => exact ih (hf d a h)

def rankEntry (d : Draft) : Precedence → Draft
  | .single name => d.rank name
  | .group names => d.rankGroup names

theorem IsAssembled.rankEntry (h : d.IsAssembled) (e : Precedence) :
    (d.rankEntry e).IsAssembled := by
  cases e with
  | single name => exact h.rank name
  | group names => exact h.rankGroup names

theorem rankEntry_of_isCanonical {e : Precedence} (h : e.IsCanonical) :
    d.rankEntry e = { d with precedence := d.precedence ++ [e] } := by
  cases e with
  | single name => rfl
  | group names =>
    have he : Precedence.ofNames? names = some (.group names) := h
    rw [rankEntry, rankGroup, he]
    rfl

/-- The ranks of a scheme are added to a draft as they are. -/
theorem foldl_rankEntry {entries : List Precedence} (h : ∀ e ∈ entries, e.IsCanonical) :
    entries.foldl rankEntry d = { d with precedence := d.precedence ++ entries } := by
  induction entries generalizing d with
  | nil => simp
  | cons e entries ih =>
    obtain ⟨he, hentries⟩ := List.forall_mem_cons.1 h
    rw [List.foldl_cons, rankEntry_of_isCanonical he, ih hentries]
    simp

theorem foldl_embed (l : List (String × Scheme)) :
    l.foldl (fun draft e ↦ draft.embed e.1 e.2) d = { d with subSchemes := d.subSchemes ++ l } := by
  induction l generalizing d with
  | nil => simp
  | cons e l ih =>
    rw [List.foldl_cons, ih]
    simp [embed]

end Draft

/-- The schemes there are: those that a draft became. -/
def IsBuilt (s : Scheme) : Prop := ∃ d : Draft, d.IsAssembled ∧ d.build = .ok s

namespace IsBuilt

variable {s : Scheme} (h : s.IsBuilt)

include h

theorem wellNamed : s.WellNamed := by
  obtain ⟨d, -, hd⟩ := h
  exact Draft.wellNamed_of_build hd

theorem isCanonical : ∀ e ∈ s.precedence, e.IsCanonical := by
  obtain ⟨d, hassembled, hd⟩ := h
  obtain ⟨-, rfl⟩ := Draft.build_eq_ok_iff.1 hd
  intro e he
  obtain he | he := List.mem_append.1 he
  · exact hassembled.isCanonical e he
  · obtain ⟨r, -, rfl⟩ := List.mem_map.1 he
    rfl

theorem nodup_subSchemes : (s.subSchemes.map Prod.fst).Nodup := by
  obtain ⟨d, -, hd⟩ := h
  obtain ⟨-, rfl⟩ := Draft.build_eq_ok_iff.1 hd
  exact (Table.ofList d.subSchemes).nodup_names

end IsBuilt

end Scheme

namespace Definition

open Scheme

variable {d : Definition} {theme : Theme} {lookup : String → Option Scheme} {s base : Scheme}
  {own : List Rule}

theorem isAssembled_embedAll {references : List (String × String)} {draft draft' : Draft}
    (h : d.embedAll lookup draft references = .ok draft') (hdraft : draft.IsAssembled) :
    draft'.IsAssembled := by
  induction references generalizing draft with
  | nil =>
    cases h
    exact hdraft
  | cons e references ih =>
    obtain ⟨s, -, h⟩ := exists_of_bind_eq_ok h
    exact ih h (hdraft.embed e.1 s)

/-- A scheme that was compiled can be extended in its turn. -/
theorem isBuilt_of_compile (h : d.compile theme lookup = .ok s) : s.IsBuilt := by
  rw [compile] at h
  obtain ⟨base, -, h⟩ := exists_of_bind_eq_ok h
  dsimp only at h
  have hembed (draft : Draft) (e : String × Scheme) (hd : draft.IsAssembled) :
      (draft.embed e.1 e.2).IsAssembled := hd.embed e.1 e.2
  -- the color of the text that no rule labels is looked up in one of the two cases only
  split at h
  all_goals
    obtain ⟨baseColor, -, h⟩ := exists_of_bind_eq_ok h
    obtain ⟨rules, -, h⟩ := exists_of_bind_eq_ok h
    obtain ⟨draft, hdraft, h⟩ := exists_of_bind_eq_ok h
    refine ⟨draft, isAssembled_embedAll hdraft ?_, h⟩
    have hnew := ((Draft.IsAssembled.new d.name).withBaseColor baseColor).labels rules
    cases base with
    | none => exact hnew.foldl (fun draft e hd ↦ hd.rankEntry e) _
    | some b => exact ((hnew.extend b).foldl (fun draft e hd ↦ hd.rankEntry e) _).foldl hembed _

def labelNames (d : Definition) : List String := d.labels.map LabelDefinition.name

/-- Whether a definition extends a scheme without a fault. It has no ranks of its own, each of its
labels once with a color that there is and a start where it needs one, and what it embeds are known
schemes, in labels of its own or of the base. -/
structure Extends (d : Definition) (theme : Theme) (lookup : String → Option Scheme)
    (base : Scheme) : Prop where
  built : base.IsBuilt
  resolves : ∃ reference, d.base = some reference ∧ lookup reference = some base
  unranked : d.precedence = []
  nodup_labels : d.labelNames.Nodup
  colors : ∀ l ∈ d.labels, (theme.resolve? l.color.toList).isSome
  starts : ∀ l ∈ d.labels, l.search = .allText → l.start.isSome
  baseColor : ∀ value ∈ d.baseColor, (theme.resolve? value.toList).isSome
  known : ∀ e ∈ d.subSchemes.entries, (lookup e.2).isSome
  embedded : ∀ e ∈ d.subSchemes.entries, e.1 ∈ d.labelNames ∨ e.1 ∈ base.labelNames

/-- The color of the text that no rule labels, over a base. -/
def colorOver (d : Definition) (theme : Theme) (base : Scheme) : Except SchemeError Color :=
  match d.baseColor with
  | some value => d.resolveColor theme "" value
  | none => .ok base.baseColor

/-- What a definition takes over from a base, with the schemes embedded in that in some order. -/
def inherit (d : Definition) (base : Scheme) (order : List (String × Scheme)) (draft : Draft) :
    Draft :=
  let draft := (d.entries (some base)).foldl Draft.rankEntry (draft.extend base)
  (order.filter fun e ↦ !d.subSchemes.has e.1).foldl (fun draft e ↦ draft.embed e.1 e.2) draft

/-- What `compile` does on a base, with the schemes embedded in that in some order. -/
def compileOver (d : Definition) (theme : Theme) (lookup : String → Option Scheme) (base : Scheme)
    (order : List (String × Scheme)) : Except SchemeError Scheme := do
  let baseColor ← d.colorOver theme base
  let rules ← d.labels.mapM (d.labelRule theme)
  let draft := ((Draft.new d.name).withBaseColor baseColor).labels rules
  let draft ← d.embedAll lookup (d.inherit base order draft) d.subSchemes.entries
  draft.build

theorem compile_eq_compileOver {reference : String} (hd : d.base = some reference)
    (hbase : lookup reference = some base) :
    d.compile theme lookup = d.compileOver theme lookup base base.subSchemes := by
  have hresolve : d.base.mapM (d.resolveScheme lookup) = .ok (some base) := by
    rw [hd]
    show (some <$> d.resolveScheme lookup reference) = _
    rw [resolveScheme, hbase]
    rfl
  have hentry : (fun draft e ↦ match e with
      | .single name => draft.rank name
      | .group names => draft.rankGroup names) = Draft.rankEntry := by
    funext draft e
    cases e <;> rfl
  rw [compile, hresolve, compileOver, colorOver]
  simp only [inherit, ← hentry]
  cases d.baseColor <;> rfl

/-! ### The parts of a scheme that is extended -/

theorem exists_labelRule_eq_ok {l : LabelDefinition}
    (hcolor : (theme.resolve? l.color.toList).isSome)
    (hstart : l.search = .allText → l.start.isSome) : ∃ r, d.labelRule theme l = .ok r := by
  obtain ⟨color, hcolor⟩ := Option.isSome_iff_exists.1 hcolor
  have hresolve : d.resolveColor theme l.name l.color = .ok color := by rw [resolveColor, hcolor]
  rw [labelRule, hresolve]
  show ∃ r, l.rule d.name color = .ok r
  rw [LabelDefinition.rule]
  cases hsearch : l.search with
  | allText =>
    obtain ⟨start, hstart⟩ := Option.isSome_iff_exists.1 (hstart hsearch)
    rw [hstart]
    exact ⟨_, rfl⟩
  | separators => exact ⟨_, rfl⟩
  | singleChar => exact ⟨_, rfl⟩

theorem name_of_labelRule {l : LabelDefinition} {r : Rule} (h : d.labelRule theme l = .ok r) :
    r.name = l.name := by
  obtain ⟨color, -, h⟩ := exists_of_bind_eq_ok h
  rw [LabelDefinition.rule] at h
  cases hsearch : l.search with
  | allText =>
    rw [hsearch] at h
    cases hstart : l.start with
    | none =>
      rw [hstart] at h
      cases h
    | some start =>
      rw [hstart] at h
      cases h
      cases l.stop <;> rfl
  | separators =>
    rw [hsearch] at h
    cases h
    cases l.separators <;> cases l.pattern <;> rfl
  | singleChar =>
    rw [hsearch] at h
    cases h
    cases l.pattern <;> rfl

theorem map_name_of_labelRules {labels : List LabelDefinition}
    (h : List.Forall₂ (fun l r ↦ d.labelRule theme l = .ok r) labels own) :
    own.map LabelRule.name = labels.map LabelDefinition.name := by
  induction h with
  | nil => rfl
  | cons hr _ ih => rw [List.map_cons, List.map_cons, name_of_labelRule hr, ih]

/-- The schemes that references stand for. -/
def referred (lookup : String → Option Scheme) (references : List (String × String)) :
    List (String × Scheme) :=
  references.filterMap fun e ↦ (lookup e.2).map (e.1, ·)

section References

variable {references : List (String × String)}

theorem referred_cons {e : String × String} (hs : lookup e.2 = some s) :
    referred lookup (e :: references) = (e.1, s) :: referred lookup references := by
  rw [referred, List.filterMap_cons, hs]
  rfl

variable (h : ∀ e ∈ references, (lookup e.2).isSome)

include h

theorem embedAll_eq_ok (draft : Draft) : d.embedAll lookup draft references =
    .ok { draft with subSchemes := draft.subSchemes ++ referred lookup references } := by
  induction references generalizing draft with
  | nil => simp [embedAll, referred]
  | cons e references ih =>
    obtain ⟨he, hrest⟩ := List.forall_mem_cons.1 h
    obtain ⟨s, hs⟩ := Option.isSome_iff_exists.1 he
    have hresolve : d.resolveScheme lookup e.2 = .ok s := by rw [resolveScheme, hs]
    rw [embedAll, hresolve]
    show d.embedAll lookup (draft.embed e.1 s) references = _
    rw [ih hrest, referred_cons hs]
    simp [Draft.embed]

theorem lookup_referred (name : String) :
    (referred lookup references).lookup name = (references.lookup name).bind lookup := by
  induction references with
  | nil => rfl
  | cons e references ih =>
    obtain ⟨he, hrest⟩ := List.forall_mem_cons.1 h
    obtain ⟨s, hs⟩ := Option.isSome_iff_exists.1 he
    rw [referred_cons hs, List.lookup_cons, List.lookup_cons]
    split
    · exact hs.symm
    · exact ih hrest

theorem map_fst_referred :
    (referred lookup references).map Prod.fst = references.map Prod.fst := by
  induction references with
  | nil => rfl
  | cons e references ih =>
    obtain ⟨he, hrest⟩ := List.forall_mem_cons.1 h
    obtain ⟨s, hs⟩ := Option.isSome_iff_exists.1 he
    rw [referred_cons hs, List.map_cons, List.map_cons, ih hrest]

end References

/-- The draft of a definition on a base, with the rules of its own labels. -/
def extended (d : Definition) (lookup : String → Option Scheme) (base : Scheme) (color : Color)
    (own : List Rule) (order : List (String × Scheme)) : Draft where
  name := d.name
  baseColor := color
  rules := own ++ base.rules.filter fun r ↦ r.name ∉ d.labelNames
  precedence := base.precedence
  subSchemes := order.filter (fun e ↦ !d.subSchemes.has e.1) ++
    referred lookup d.subSchemes.entries

theorem labelNames_extended (hown : own.map LabelRule.name = d.labelNames) (color : Color)
    (order : List (String × Scheme)) :
    (d.extended lookup base color own order).labelNames =
      d.labelNames ++ base.labelNames.filter fun name ↦ name ∉ d.labelNames := by
  show (own ++ base.rules.filter fun r ↦ r.name ∉ d.labelNames).map LabelRule.name = _
  rw [List.map_append, hown, labelNames, Scheme.labelNames, List.filter_map]
  rfl

theorem mem_labelNames_extended (hown : own.map LabelRule.name = d.labelNames) {name : String}
    (color : Color) (order : List (String × Scheme)) :
    name ∈ (d.extended lookup base color own order).labelNames ↔
      name ∈ d.labelNames ∨ name ∈ base.labelNames := by
  rw [labelNames_extended hown, List.mem_append, List.mem_filter, decide_eq_true_eq]
  tauto

/-- The labels that only the definition has, in its order. -/
def freshNames (d : Definition) (base : Scheme) : List String :=
  d.labelNames.filter fun name ↦ name ∉ base.labelNames

namespace Extends

variable (h : d.Extends theme lookup base)

include h

theorem exists_color : ∃ color,
    (match d.baseColor with
      | some value => theme.resolve? value.toList = some color
      | none => color = base.baseColor) ∧ d.colorOver theme base = pure color := by
  rw [colorOver]
  cases hvalue : d.baseColor with
  | none => exact ⟨base.baseColor, rfl, rfl⟩
  | some value =>
    obtain ⟨color, hcolor⟩ := Option.isSome_iff_exists.1 (h.baseColor value hvalue)
    refine ⟨color, hcolor, ?_⟩
    simp only [resolveColor, hcolor]
    rfl

theorem inherit_eq {draft : Draft} (hlabels : draft.labelNames = d.labelNames)
    (hranks : draft.precedence = []) (order : List (String × Scheme)) :
    d.inherit base order draft = { draft with
      rules := draft.rules ++ base.rules.filter fun r ↦ r.name ∉ d.labelNames
      precedence := base.precedence
      subSchemes := draft.subSchemes ++ order.filter fun e ↦ !d.subSchemes.has e.1 } := by
  have hentries : d.entries (some base) = base.precedence := by rw [entries, h.unranked]; rfl
  have hextend : draft.extend base = { draft with
      rules := draft.rules ++ base.rules.filter fun r ↦ r.name ∉ d.labelNames } := by
    rw [Draft.extend]
    congr 2
    refine List.filter_congr fun r _ ↦ ?_
    rw [← hlabels, decide_not, Bool.not_inj_iff, Bool.eq_iff_iff, Draft.defines_iff,
      decide_eq_true_eq]
  rw [inherit, hentries, hextend, Draft.foldl_rankEntry h.built.isCanonical, Draft.foldl_embed,
    hranks]
  rfl

/-- The color and the rules that a definition gives, and the draft that they are put in. -/
theorem exists_own : ∃ color own,
    (match d.baseColor with
      | some value => theme.resolve? value.toList = some color
      | none => color = base.baseColor) ∧
    List.Forall₂ (fun l r ↦ d.labelRule theme l = .ok r) d.labels own ∧
    ∀ order, d.compileOver theme lookup base order =
      (d.extended lookup base color own order).build := by
  obtain ⟨own, hown, hall⟩ := exists_mapM_eq_ok fun l hl ↦
    exists_labelRule_eq_ok (d := d) (h.colors l hl) (h.starts l hl)
  obtain ⟨color, hcolor, hresolved⟩ := h.exists_color
  refine ⟨color, own, hcolor, hall, fun order ↦ ?_⟩
  have hown' : d.labels.mapM (d.labelRule theme) = pure own := hown
  rw [compileOver, hresolved, pure_bind, hown', pure_bind]
  dsimp only
  rw [h.inherit_eq (map_name_of_labelRules hall) rfl, embedAll_eq_ok h.known]
  rfl

theorem nodup_subSchemes_extended {order : List (String × Scheme)}
    (horder : order.Perm base.subSchemes) (color : Color) (own : List Rule) :
    ((d.extended lookup base color own order).subSchemes.map Prod.fst).Nodup := by
  show ((order.filter (fun e ↦ !d.subSchemes.has e.1) ++
    referred lookup d.subSchemes.entries).map Prod.fst).Nodup
  have hreferred : (referred lookup d.subSchemes.entries).map Prod.fst = d.subSchemes.names :=
    map_fst_referred h.known
  have hnodup : (order.map Prod.fst).Nodup :=
    (horder.map Prod.fst).nodup_iff.2 h.built.nodup_subSchemes
  rw [List.map_append, hreferred]
  refine List.nodup_append.2 ⟨hnodup.sublist (List.filter_sublist.map Prod.fst),
    d.subSchemes.nodup_names, fun name hname other hother ↦ ?_⟩
  rintro rfl
  obtain ⟨e, he, rfl⟩ := List.mem_map.1 hname
  have hnot := (List.mem_filter.1 he).2
  rw [Table.has_iff.2 hother] at hnot
  cases hnot

/-- The base is looked up only where the definition embeds nothing of its own. -/
theorem subScheme?_extended {order : List (String × Scheme)} (horder : order.Perm base.subSchemes)
    (color : Color) (name : String) :
    (d.extended lookup base color own order).complete.subScheme? name =
      match d.subSchemes.get? name with
      | some reference => lookup reference
      | none => base.subScheme? name := by
  have hnodup := h.nodup_subSchemes_extended horder color own
  have horder' : (order.map Prod.fst).Nodup :=
    (horder.map Prod.fst).nodup_iff.2 h.built.nodup_subSchemes
  have hown : (referred lookup d.subSchemes.entries).lookup name =
      (d.subSchemes.get? name).bind lookup := lookup_referred h.known name
  refine (Table.get?_ofList_of_nodup hnodup name).trans ?_
  show (order.filter (fun e ↦ !d.subSchemes.has e.1) ++
    referred lookup d.subSchemes.entries).lookup name = _
  rw [List.lookup_append, Table.lookup_filter (fun key ↦ !d.subSchemes.has key), hown, Table.has]
  cases hget : d.subSchemes.get? name with
  | none => simpa [subScheme?] using Table.lookup_eq_of_perm horder' horder name
  | some reference => rfl

theorem complete_extended_eq (color : Color) {order : List (String × Scheme)}
    (horder : order.Perm base.subSchemes) :
    (d.extended lookup base color own order).complete =
      (d.extended lookup base color own base.subSchemes).complete := by
  have hentries : Table.ofList (d.extended lookup base color own order).subSchemes =
      Table.ofList (d.extended lookup base color own base.subSchemes).subSchemes :=
    Table.ofList_eq_of_perm (h.nodup_subSchemes_extended horder color own)
      ((horder.filter _).append_right _)
  rw [Draft.complete, hentries]
  rfl

variable (hown : own.map LabelRule.name = d.labelNames)

include hown

theorem isConsistent_extended (color : Color) {order : List (String × Scheme)}
    (horder : order.Perm base.subSchemes) :
    (d.extended lookup base color own order).IsConsistent where
  nodup_labels := by
    rw [labelNames_extended hown]
    refine List.nodup_append.2 ⟨h.nodup_labels, h.built.wellNamed.nodup_labels.filter _,
      fun name hname other hother ↦ ?_⟩
    rintro rfl
    exact absurd hname (by simpa using (List.mem_filter.1 hother).2)
  ranked name hname := (mem_labelNames_extended hown color order).2
    (.inr (h.built.wellNamed.perm_ranked.mem_iff.1 hname))
  nodup_ranked :=
    h.built.wellNamed.perm_ranked.nodup_iff.2 h.built.wellNamed.nodup_labels
  embedded e he := by
    rw [mem_labelNames_extended hown]
    obtain he | he := List.mem_append.1 he
    · have hmem := horder.mem_iff.1 (List.mem_filter.1 he).1
      have hsub := (Table.lookup_eq_some_iff_mem h.built.nodup_subSchemes).2 hmem
      exact .inr (h.built.wellNamed.embedded e.1 (Option.isSome_iff_exists.2 ⟨e.2, hsub⟩))
    · obtain ⟨e', he', hsome⟩ := List.mem_filterMap.1 he
      obtain ⟨s, -, rfl⟩ := Option.map_eq_some_iff.1 hsome
      exact h.embedded e' he'

/-- The ranks of the base come first, and its labels are all ranked there. -/
theorem completePrecedence_extended (color : Color) (order : List (String × Scheme)) :
    (d.extended lookup base color own order).completePrecedence =
      base.precedence ++ (d.freshNames base).map .single := by
  have hranked (name : String) :
      (!base.rankedNames.contains name) = decide (name ∉ base.labelNames) := by
    rw [decide_not, Bool.not_inj_iff, Bool.eq_iff_iff, List.contains_iff_mem,
      h.built.wellNamed.perm_ranked.mem_iff, decide_eq_true_eq]
  have hbase : (base.rules.filter fun r ↦ r.name ∉ d.labelNames).filter
      (fun r ↦ !base.rankedNames.contains r.name) = [] := by
    refine List.filter_eq_nil_iff.2 fun r hr ↦ ?_
    have hmem : r.name ∈ base.labelNames := List.mem_map_of_mem (List.mem_filter.1 hr).1
    rw [hranked]
    simpa using hmem
  show base.precedence ++ ((own ++ base.rules.filter fun r ↦ r.name ∉ d.labelNames).filter
    fun r ↦ !base.rankedNames.contains r.name).map (fun r ↦ .single r.name) = _
  rw [List.filter_append, hbase, List.append_nil, freshNames, ← hown, List.filter_map,
    List.map_map]
  congr 2
  exact List.filter_congr fun r _ ↦ hranked r.name

omit hown

variable (hs : s.precedence = base.precedence ++ (d.freshNames base).map .single)

include hs

theorem rankOf?_of_mem {name : String} (hname : name ∈ base.labelNames) :
    ∃ rank < base.precedence.length,
      base.rankOf? name = some rank ∧ s.rankOf? name = some rank := by
  obtain ⟨rank, hrank⟩ :=
    Option.isSome_iff_exists.1 (h.built.wellNamed.isSome_rankOf?_iff.2 hname)
  have hrank' : base.precedence.findIdx? (·.contains name) = some rank := hrank
  refine ⟨rank, (List.findIdx?_eq_some_iff_getElem.1 hrank').1, hrank, ?_⟩
  rw [rankOf?, hs, List.findIdx?_append, hrank']
  rfl

theorem rankOf?_freshNames {name : String} {i : ℕ} (hi : (d.freshNames base)[i]? = some name) :
    s.rankOf? name = some (base.precedence.length + i) := by
  obtain ⟨hlt, rfl⟩ := List.getElem?_eq_some_iff.1 hi
  have hnot : (d.freshNames base)[i] ∉ base.labelNames := by
    simpa using (List.mem_filter.1 (List.getElem_mem hlt)).2
  have hnodup : (d.freshNames base).Nodup := h.nodup_labels.filter _
  have hbase : base.precedence.findIdx? (·.contains (d.freshNames base)[i]) = none := by
    rw [← Option.not_isSome_iff_eq_none]
    exact fun hsome ↦ hnot (h.built.wellNamed.isSome_rankOf?_iff.1 hsome)
  have hfresh : ((d.freshNames base).map Precedence.single).findIdx?
      (·.contains (d.freshNames base)[i]) = some i := by
    rw [List.findIdx?_map, List.findIdx?_eq_some_iff_getElem]
    refine ⟨hlt, by simp [Precedence.contains, Precedence.names], fun j hji hj ↦ ?_⟩
    have heq : (d.freshNames base)[i] = (d.freshNames base)[j] := by
      simpa [Precedence.contains, Precedence.names] using hj
    have := hnodup.getElem_inj_iff.1 heq
    omega
  rw [rankOf?, hs, List.findIdx?_append, hbase, hfresh, Nat.add_comm]
  rfl

omit hs

/-- The scheme of a definition is the one draft, however the schemes embedded in the base come. -/
theorem exists_complete : ∃ color own,
    (match d.baseColor with
      | some value => theme.resolve? value.toList = some color
      | none => color = base.baseColor) ∧
    List.Forall₂ (fun l r ↦ d.labelRule theme l = .ok r) d.labels own ∧
    own.map LabelRule.name = d.labelNames ∧
    d.compile theme lookup = .ok (d.extended lookup base color own base.subSchemes).complete ∧
    ∀ order, order.Perm base.subSchemes → d.compileOver theme lookup base order =
      .ok (d.extended lookup base color own base.subSchemes).complete := by
  obtain ⟨color, own, hcolor, hrules, hcompile⟩ := h.exists_own
  have hown : own.map LabelRule.name = d.labelNames := map_name_of_labelRules hrules
  have hover : ∀ order, order.Perm base.subSchemes → d.compileOver theme lookup base order =
      .ok (d.extended lookup base color own base.subSchemes).complete := fun order horder ↦ by
    rw [hcompile]
    exact Draft.build_eq_ok_iff.2
      ⟨h.isConsistent_extended hown color horder, (h.complete_extended_eq color horder).symm⟩
  obtain ⟨reference, hd, hbase⟩ := h.resolves
  exact ⟨color, own, hcolor, hrules, hown,
    (compile_eq_compileOver hd hbase).trans (hover base.subSchemes (.refl _)), hover⟩

end Extends

/-- The schemes that come of a base by definitions each of which extends the one before. -/
inductive Descends (base : Scheme) : Scheme → Prop
  | refl : Descends base base
  | extend {s s' : Scheme} {d : Definition} {theme : Theme} {lookup : String → Option Scheme}
      (h : Descends base s) (hd : d.Extends theme lookup s)
      (hs : d.compile theme lookup = .ok s') : Descends base s'

/-- A label has the same rank in all that descends from its scheme. -/
theorem Descends.rankOf?_eq (h : Descends base s) {name : String} (hname : name ∈ base.labelNames) :
    name ∈ s.labelNames ∧ s.rankOf? name = base.rankOf? name := by
  induction h with
  | refl => exact ⟨hname, rfl⟩
  | @extend s s' d _ lookup _ hd hs ih =>
    obtain ⟨hmem, hrank⟩ := ih
    obtain ⟨color, own, -, -, hown, hok, -⟩ := hd.exists_complete
    obtain rfl := Except.ok.inj (hs.symm.trans hok)
    have hprecedence := hd.completePrecedence_extended hown color s.subSchemes
    obtain ⟨rank, -, hbefore, hafter⟩ := hd.rankOf?_of_mem (s := Draft.complete _) hprecedence hmem
    have hkept : name ∈ (d.extended lookup s color own s.subSchemes).labelNames :=
      (mem_labelNames_extended hown color s.subSchemes).2 (.inr hmem)
    exact ⟨hkept, by rw [hafter, ← hbefore, hrank]⟩

/-- A definition that extends a scheme without a fault describes one. Its rules come before those of
the base that it does not define again, the labels of the base keep their ranks and the new ones
come after them, and what it does not embed or color itself is as in the base, in whatever order the
schemes embedded in the base are taken over. -/
theorem compile_extends (h : d.Extends theme lookup base) :
    ∃ s own, d.compile theme lookup = .ok s ∧ s.IsBuilt ∧ s.name = d.name ∧
      List.Forall₂ (fun l r ↦ d.labelRule theme l = .ok r ∧ r.name = l.name) d.labels own ∧
      s.rules = own ++ base.rules.filter (fun r ↦ r.name ∉ d.labelNames) ∧
      (∀ name ∈ base.labelNames, ∃ rank < base.precedence.length,
        base.rankOf? name = some rank ∧ s.rankOf? name = some rank) ∧
      (∀ i name, (d.freshNames base)[i]? = some name →
        s.rankOf? name = some (base.precedence.length + i)) ∧
      (∀ name, s.subScheme? name = match d.subSchemes.get? name with
        | some reference => lookup reference
        | none => base.subScheme? name) ∧
      (match d.baseColor with
        | some value => theme.resolve? value.toList = some s.baseColor
        | none => s.baseColor = base.baseColor) ∧
      ∀ order, order.Perm base.subSchemes →
        d.compileOver theme lookup base order = .ok s := by
  obtain ⟨color, own, hcolor, hrules, hown, hok, hover⟩ := h.exists_complete
  have hprecedence := h.completePrecedence_extended hown color base.subSchemes
  exact ⟨_, own, hok, isBuilt_of_compile hok, rfl,
    hrules.imp fun l r hr ↦ ⟨hr, name_of_labelRule hr⟩, rfl,
    fun name hname ↦ h.rankOf?_of_mem hprecedence hname,
    fun i name hi ↦ h.rankOf?_freshNames hprecedence hi,
    h.subScheme?_extended (.refl _) color, hcolor, hover⟩

/-- Pages with places left open in them, where a tag looks different. -/
def template : Definition where
  name := "template"
  baseColor := some "#102030"
  base := some "page"
  labels := [{ name := "SLOT", color := "#cba6f7", start := some "<%", stop := some "%>" },
    { name := "TAG", color := "tag", start := some "<" }]
  subSchemes := .ofList [("SLOT", "page")]

def pageOnly (name : String) : Option Scheme :=
  if name = "page" then some Draft.page.complete else none

theorem isBuilt_page : Draft.page.complete.IsBuilt :=
  ⟨Draft.page, (((Draft.IsAssembled.new "page").labels _).rankGroup _).embed "SCRIPT" default,
    Draft.build_eq_ok_iff.2
      ⟨⟨by decide +kernel, by decide +kernel, by decide +kernel, by decide +kernel⟩, rfl⟩⟩

theorem extends_template : template.Extends .mocha pageOnly Draft.page.complete where
  built := isBuilt_page
  resolves := ⟨"page", rfl, if_pos rfl⟩
  unranked := rfl
  nodup_labels := by decide +kernel
  colors := by decide +kernel
  starts := by decide +kernel
  baseColor := by decide +kernel
  known := by decide +kernel
  embedded := by decide +kernel

theorem compile_extends_template :
    template.Extends .mocha pageOnly Draft.page.complete ∧
      ∃ s, template.compile .mocha pageOnly = .ok s ∧
        s.labelNames = ["SLOT", "TAG", "REMARK", "WORD", "SCRIPT"] ∧
        s.rankOf? "TAG" = Draft.page.complete.rankOf? "TAG" ∧ s.rankOf? "SLOT" = some 3 ∧
        s.subScheme? "SLOT" = some Draft.page.complete ∧ s.subScheme? "SCRIPT" = some default ∧
        s.baseColor = .rgb 0x10 0x20 0x30 := by
  obtain ⟨s, own, hs, -, -, hown, hrules, hranks, hfresh, hsub, hcolor, -⟩ :=
    compile_extends extends_template
  have hslot : template.subSchemes.get? "SLOT" = some "page" := by decide +kernel
  have hscript : template.subSchemes.get? "SCRIPT" = none := by decide +kernel
  refine ⟨extends_template, s, hs, ?_, ?_, hfresh 0 "SLOT" (by decide +kernel), ?_, ?_, ?_⟩
  · rw [Scheme.labelNames, hrules, List.map_append,
      map_name_of_labelRules (hown.imp fun _ _ h ↦ h.1)]
    decide +kernel
  · obtain ⟨rank, -, hbase, hrank⟩ := hranks "TAG" (by decide +kernel)
    rw [hbase, hrank]
  · rw [hsub, hslot]
    exact if_pos rfl
  · rw [hsub, hscript]
    exact (Draft.subScheme?_complete "SCRIPT").trans List.lookup_cons_self
  · have hresolve : Theme.mocha.resolve? "#102030".toList = some (.rgb 0x10 0x20 0x30) := by
      decide +kernel
    exact Option.some.inj (hcolor.symm.trans hresolve)

end Definition

end Highlighter
