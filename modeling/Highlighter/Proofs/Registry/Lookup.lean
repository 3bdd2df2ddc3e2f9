import Highlighter.Proofs.Registry.Loading
import Highlighter.Proofs.Text.Lowering

/-!
What a registry lists can be looked up, as far as names are written as they are looked up: a name
with blanks around it, and an extension that still begins with a dot, are listed and not found.
-/

namespace Highlighter

namespace Registry

variable {r r' start : Registry} {d : Definition} {ds : List Definition} {s : Scheme}
  {names : List String} {n key ext : String}

/-! ### Forms of names -/

/-- Whether no blanks are around a name. -/
def IsTrimmed (name : String) : Prop := Text.trim name.toList = name.toList

instance (name : String) : Decidable (IsTrimmed name) := decEq _ _

theorem lowerName_lowerName (n : String) : lowerName (lowerName n) = lowerName n := by
  rw [lowerName, lowerName, String.toList_ofList, Text.lower_lower]

theorem isTrimmed_lowerName_iff : IsTrimmed (lowerName n) ↔ IsTrimmed n := by
  rw [IsTrimmed, lowerName, String.toList_ofList, Text.trim_lower_iff, IsTrimmed]

theorem isTrimmed_normalName (n : String) : IsTrimmed (normalName n) := by
  rw [IsTrimmed, normalName, String.toList_ofList, Text.trim_lower_iff, Text.trim_trim]

theorem normalName_eq_lowerName (h : IsTrimmed n) : normalName n = lowerName n := by
  rw [normalName, h, lowerName]

theorem lowerName_normalExtension (ext : String) :
    lowerName (normalExtension ext) = normalExtension ext := by
  rw [lowerName, normalExtension, String.toList_ofList, Text.lower_lower]

/-- An extension is in the form in which it is looked up if it is in lower case and has neither
blanks around it nor a dot before it. -/
theorem normalExtension_eq_self (hlower : lowerName ext = ext) (htrim : IsTrimmed ext)
    (hdot : ext.toList.head? ≠ some '.') : normalExtension ext = ext := by
  have hno : ∀ t, Text.trim ext.toList ≠ '.' :: t := fun t ht ↦ by
    rw [htrim] at ht
    exact hdot (ht ▸ rfl)
  rw [normalExtension]
  split
  · next t ht => exact absurd ht (hno t)
  · rw [htrim]
    exact hlower

/-! ### What holds of all registries -/

/-- The registry after a definition has become a scheme. -/
def register (r : Registry) (d : Definition) (s : Scheme) : Registry :=
  d.aliases.foldl (fun r other ↦ r.addAlias other d.name) (r.insert s d.extensions)

/-- Registries that come of another one, with the names of the schemes registered on the way, in
their order and as they were written. -/
inductive Grows : Registry → List String → Registry → Prop
  | refl (r : Registry) : Grows r [] r
  | insert {r r' : Registry} {names : List String} (h : Grows r names r') (s : Scheme)
      (extensions : List String) : Grows r (names ++ [s.name]) (r'.insert s extensions)
  | addAlias {r r' : Registry} {names : List String} (h : Grows r names r')
      (other name : String) : Grows r names (r'.addAlias other name)
  | load {r r' r'' : Registry} {names loaded : List String} {t : Text} (h : Grows r names r')
      (ht : r'.load t = (.ok loaded, r'')) : Grows r (names ++ loaded) r''

/-- Schemes stand under their names in lower case, extensions lead to schemes, and aliases lead to
names without blanks around them. -/
structure IsCoherent (r : Registry) : Prop where
  named : ∀ name s, r.schemes.get? name = some s → lowerName s.name = name
  leads : ∀ ext name, r.extensions.get? ext = some name → name ∈ r.names
  lower : ∀ ext ∈ r.extensions.names, lowerName ext = ext
  aliased : ∀ other name, r.aliases.get? other = some name → IsTrimmed name

theorem schemes_foldl_addAlias (aliases : List String) (name : String) (r : Registry) :
    (aliases.foldl (fun r other ↦ r.addAlias other name) r).schemes = r.schemes := by
  induction aliases generalizing r with
  | nil => rfl
  | cons other aliases ih => exact (ih _).trans rfl

theorem schemes_register (r : Registry) (d : Definition) (s : Scheme) :
    (r.register d s).schemes = r.schemes.put (lowerName s.name) s :=
  schemes_foldl_addAlias d.aliases d.name _

theorem get?_foldl_extensions {extensions : List String} {t : Table String} {value : String}
    (h : (extensions.foldl (fun t e ↦ t.put (normalExtension e) n) t).get? ext = some value) :
    value = n ∨ t.get? ext = some value := by
  induction extensions generalizing t with
  | nil => exact .inr h
  | cons e extensions ih =>
    obtain hv | hv := ih h
    · exact .inl hv
    · rw [Table.get?_put] at hv
      split at hv
      · exact .inl (Option.some.inj hv).symm
      · exact .inr hv

theorem mem_names_foldl_extensions {extensions : List String} {t : Table String}
    (h : ext ∈ (extensions.foldl (fun t e ↦ t.put (normalExtension e) n) t).names) :
    ext ∈ t.names ∨ ∃ e ∈ extensions, ext = normalExtension e := by
  induction extensions generalizing t with
  | nil => exact .inl h
  | cons e extensions ih =>
    obtain ht | ⟨e', he', rfl⟩ := ih h
    · obtain rfl | ht := Table.mem_names_put.1 ht
      · exact .inr ⟨e, List.mem_cons_self, rfl⟩
      · exact .inl ht
    · exact .inr ⟨e', List.mem_cons_of_mem _ he', rfl⟩

namespace IsCoherent

theorem empty (theme : Theme) : IsCoherent { theme } := ⟨nofun, nofun, nofun, nofun⟩

theorem insert (h : r.IsCoherent) (s : Scheme) (extensions : List String) :
    (r.insert s extensions).IsCoherent where
  named name s' hs' := by
    rw [Registry.insert, Table.get?_put] at hs'
    split at hs'
    · next hname => rw [hname, ← Option.some.inj hs']
    · exact h.named name s' hs'
  leads ext name hext := by
    refine Table.mem_names_put.2 ?_
    obtain hname | hold := get?_foldl_extensions hext
    · exact .inl hname
    · exact .inr (h.leads ext name hold)
  lower ext hext := by
    obtain hold | ⟨e, -, rfl⟩ := mem_names_foldl_extensions hext
    · exact h.lower ext hold
    · exact lowerName_normalExtension e
  aliased := h.aliased

theorem addAlias (h : r.IsCoherent) (other name : String) : (r.addAlias other name).IsCoherent where
  named := h.named
  leads := h.leads
  lower := h.lower
  aliased other' name' h' := by
    rw [Registry.addAlias, Table.get?_put] at h'
    split at h'
    · rw [← Option.some.inj h']
      exact isTrimmed_normalName name
    · exact h.aliased other' name' h'

theorem foldl_addAlias (h : r.IsCoherent) (aliases : List String) (name : String) :
    (aliases.foldl (fun r other ↦ r.addAlias other name) r).IsCoherent := by
  induction aliases generalizing r with
  | nil => exact h
  | cons other aliases ih => exact ih (h.addAlias other name)

theorem register (h : r.IsCoherent) (d : Definition) (s : Scheme) : (r.register d s).IsCoherent :=
  (h.insert s d.extensions).foldl_addAlias d.aliases d.name

end IsCoherent

/-! ### Loading -/

theorem addDefinitions_cons (h : r.addDefinitions (d :: ds) = (.ok names, r')) :
    ∃ s later, d.compile r.theme r.forName? = .ok s ∧
      (r.register d s).addDefinitions ds = (.ok later, r') ∧ names = d.name :: later := by
  rw [addDefinitions] at h
  split at h
  · cases h
  · next s hs =>
    dsimp only at h
    split at h
    · next later r'' hds =>
      cases h
      exact ⟨s, later, hs, hds, rfl⟩
    · cases h

theorem names_of_addDefinitions (h : r.addDefinitions ds = (.ok names, r')) :
    names = ds.map Definition.name := by
  induction ds generalizing r names with
  | nil =>
    cases h
    rfl
  | cons d ds ih =>
    obtain ⟨s, later, -, hds, rfl⟩ := addDefinitions_cons h
    rw [ih hds, List.map_cons]

theorem IsCoherent.addDefinitions (hr : r.IsCoherent)
    (h : r.addDefinitions ds = (.ok names, r')) : r'.IsCoherent := by
  induction ds generalizing r names with
  | nil =>
    cases h
    exact hr
  | cons d ds ih =>
    obtain ⟨s, later, -, hds, rfl⟩ := addDefinitions_cons h
    exact ih (hr.register d s) hds

theorem get?_addDefinitions (h : r.addDefinitions ds = (.ok names, r'))
    (hne : ∀ n ∈ names, lowerName n ≠ key) : r'.schemes.get? key = r.schemes.get? key := by
  induction ds generalizing r names with
  | nil =>
    cases h
    rfl
  | cons d ds ih =>
    obtain ⟨s, later, hs, hds, rfl⟩ := addDefinitions_cons h
    obtain ⟨hd, hlater⟩ := List.forall_mem_cons.1 hne
    rw [ih hds hlater, schemes_register, Table.get?_put_of_ne]
    rw [Definition.name_of_compile hs]
    exact Ne.symm hd

/-- Definitions that are all accepted can be loaded in two parts. -/
theorem addDefinitions_append {before : List Definition}
    (h : r.addDefinitions (before ++ ds) = (.ok names, r')) :
    ∃ q later, r.addDefinitions before = (.ok (before.map Definition.name), q) ∧
      q.addDefinitions ds = (.ok later, r') ∧
      names = before.map Definition.name ++ later := by
  induction before generalizing r names with
  | nil => exact ⟨r, names, rfl, h, rfl⟩
  | cons d before ih =>
    obtain ⟨s, later, hs, hds, rfl⟩ := addDefinitions_cons h
    obtain ⟨q, later', hbefore, hq, rfl⟩ := ih hds
    refine ⟨q, later', ?_, hq, rfl⟩
    rw [register] at hbefore
    rw [addDefinitions, hs]
    simp only [hbefore, List.map_cons]

theorem load_eq_ok {t : Text} (h : r.load t = (.ok names, r')) :
    ∃ ds, Definition.listOfText t = .ok ds ∧ r.addDefinitions ds = (.ok names, r') := by
  rw [load] at h
  split at h
  · cases h
  · next ds ht =>
    split at h
    · next names' r'' hds =>
      cases h
      exact ⟨ds, ht, hds⟩
    · cases h

/-! ### What is reached -/

theorem Grows.isCoherent (h : start.Grows names r) (hs : start.IsCoherent) : r.IsCoherent := by
  induction h with
  | refl => exact hs
  | insert h s extensions ih => exact ih.insert s extensions
  | addAlias h other name ih => exact ih.addAlias other name
  | load h ht ih =>
    obtain ⟨ds, -, hds⟩ := load_eq_ok ht
    exact ih.addDefinitions hds

/-- A scheme stays under its name until one of the same name is registered. -/
theorem Grows.get?_eq (h : start.Grows names r) (hne : ∀ n ∈ names, lowerName n ≠ key) :
    r.schemes.get? key = start.schemes.get? key := by
  induction h with
  | refl => rfl
  | insert h s extensions ih =>
    obtain ⟨hnames, hs⟩ := List.forall_mem_append.1 hne
    rw [Registry.insert, Table.get?_put_of_ne _ _ (Ne.symm (hs _ List.mem_cons_self)), ih hnames]
  | addAlias h other name ih => exact ih hne
  | load h ht ih =>
    obtain ⟨hnames, hloaded⟩ := List.forall_mem_append.1 hne
    obtain ⟨ds, -, hds⟩ := load_eq_ok ht
    rw [get?_addDefinitions hds hloaded, ih hnames]

theorem isCoherent_builtIn : builtIn.IsCoherent := by
  have hall (r : Registry) (h : r.IsCoherent) (s : Scheme) (extensions aliases : List String) :
      (r.insertAll s extensions aliases).IsCoherent :=
    (h.insert s extensions).foldl_addAlias aliases s.name
  rw [builtIn]
  split
  · next r h =>
    obtain ⟨javascript, -, h⟩ := exists_of_bind_eq_ok h
    obtain ⟨css, -, h⟩ := exists_of_bind_eq_ok h
    obtain ⟨html, -, h⟩ := exists_of_bind_eq_ok h
    obtain ⟨python, -, h⟩ := exists_of_bind_eq_ok h
    cases h
    exact hall _ (hall _ (hall _ (hall _ (.empty .mocha) _ _ _) _ _ _) _ _ _) _ _ _
  · exact .empty .mocha

/-! ### Looking up -/

/-- The scheme under a name is found by it exactly if no blanks are around that: what is looked up
has none. -/
theorem IsCoherent.forName?_eq_some_iff (h : r.IsCoherent)
    (hs : r.schemes.get? (lowerName n) = some s) : r.forName? n = some s ↔ IsTrimmed n := by
  constructor
  · intro hfound
    have hname := h.named _ _ hs
    rw [forName?, Option.or_eq_some_iff] at hfound
    rw [← isTrimmed_lowerName_iff, ← hname]
    obtain hfound | ⟨-, hfound⟩ := hfound
    · rw [h.named _ _ hfound]
      exact isTrimmed_normalName n
    · obtain ⟨name, halias, hfound⟩ := Option.bind_eq_some_iff.1 hfound
      rw [h.named _ _ hfound]
      exact h.aliased _ _ halias
  · intro htrim
    rw [forName?, normalName_eq_lowerName htrim, hs]
    rfl

theorem IsCoherent.forExtension?_iff (h : r.IsCoherent) :
    (∃ name s, r.schemes.get? name = some s ∧ r.forExtension? ext = some s) ↔
      normalExtension ext ∈ r.extensions.names := by
  rw [forExtension?, Table.mem_names_iff]
  constructor
  · rintro ⟨name, s, -, hs⟩
    obtain ⟨name', hname, -⟩ := Option.bind_eq_some_iff.1 hs
    exact ⟨name', hname⟩
  · rintro ⟨name, hname⟩
    obtain ⟨s, hs⟩ := Table.mem_names_iff.1 (h.leads _ _ hname)
    exact ⟨name, s, hs, by rw [hname]; exact hs⟩

theorem IsCoherent.exists_forName?_iff (h : r.IsCoherent) (hn : n ∈ r.names) :
    ∃ s, r.schemes.get? n = some s ∧ lowerName s.name = n ∧
      (r.forName? n = some s ↔ IsTrimmed n) := by
  obtain ⟨s, hs⟩ := Table.mem_names_iff.1 hn
  have hname := h.named n s hs
  have hlower : lowerName n = n := by rw [← hname, lowerName_lowerName]
  exact ⟨s, hs, hname, h.forName?_eq_some_iff (hlower.symm ▸ hs)⟩

/-- An extension that is written as it is looked up finds the scheme that it leads to. -/
theorem IsCoherent.exists_forExtension? (h : r.IsCoherent) (hext : ext ∈ r.extensions.names)
    (htrim : IsTrimmed ext) (hdot : ext.toList.head? ≠ some '.') :
    ∃ n s, r.extensions.get? ext = some n ∧ r.schemes.get? n = some s ∧
      r.forExtension? ext = some s := by
  have hnormal := normalExtension_eq_self (h.lower ext hext) htrim hdot
  obtain ⟨n, hn⟩ := Table.mem_names_iff.1 hext
  obtain ⟨s, hs⟩ := Table.mem_names_iff.1 (h.leads ext n hn)
  refine ⟨n, s, hn, hs, ?_⟩
  rw [forExtension?, hnormal, hn]
  exact hs

/-- Whether all that a registry lists can be looked up: its names give the schemes registered under
them, and its extensions give registered schemes. -/
structure FindsListed (r : Registry) : Prop where
  names : ∀ n ∈ r.names, ∃ s, r.schemes.get? n = some s ∧ r.forName? n = some s
  extensions : ∀ ext ∈ r.extensions.names,
    ∃ n s, r.schemes.get? n = some s ∧ r.forExtension? ext = some s

theorem IsCoherent.finds_iff (h : r.IsCoherent) :
    FindsListed r ↔ (∀ n ∈ r.names, IsTrimmed n) ∧
      ∀ ext ∈ r.extensions.names, normalExtension ext ∈ r.extensions.names := by
  constructor
  · intro hf
    constructor
    · intro n hn
      obtain ⟨s, hs, -, hiff⟩ := h.exists_forName?_iff hn
      obtain ⟨s', hs', hfound⟩ := hf.names n hn
      rw [hs] at hs'
      cases hs'
      exact hiff.1 hfound
    · intro ext hext
      exact h.forExtension?_iff.1 (hf.extensions ext hext)
  · rintro ⟨htrim, hnormal⟩
    constructor
    · intro n hn
      obtain ⟨s, hs, -, hiff⟩ := h.exists_forName?_iff hn
      exact ⟨s, hs, hiff.2 (htrim n hn)⟩
    · intro ext hext
      exact h.forExtension?_iff.2 (hnormal ext hext)

/-- What a text that was loaded defines stays until a scheme of the same name is registered. -/
theorem IsCoherent.exists_of_load {q : Registry} {t : Text} {loaded : List String}
    {before after : List Definition} (h : r.IsCoherent) (hload : r.load t = (.ok loaded, q))
    (ht : Definition.listOfText t = .ok (before ++ d :: after)) :
    ∃ p s, r.addDefinitions before = (.ok (before.map Definition.name), p) ∧
      d.compile p.theme p.forName? = .ok s ∧ s.name = d.name ∧
      loaded = before.map Definition.name ++ d.name :: after.map Definition.name ∧
      ∀ later r', q.Grows later r' →
        (∀ n ∈ after.map Definition.name ++ later, lowerName n ≠ lowerName d.name) →
        r'.schemes.get? (lowerName d.name) = some s ∧
          (r'.forName? d.name = some s ↔ IsTrimmed d.name) := by
  obtain ⟨ds, hds, hall⟩ := load_eq_ok hload
  cases ht.symm.trans hds
  obtain ⟨p, rest, hbefore, hp, rfl⟩ := addDefinitions_append hall
  obtain ⟨s, rest, hs, hafter, rfl⟩ := addDefinitions_cons hp
  have hname := Definition.name_of_compile hs
  have hrest := names_of_addDefinitions hafter
  refine ⟨p, s, hbefore, hs, hname, by rw [hrest], fun later r' hgrows hne ↦ ?_⟩
  obtain ⟨hne, hlater⟩ := List.forall_mem_append.1 hne
  rw [← hrest] at hne
  have hget : r'.schemes.get? (lowerName d.name) = some s := by
    rw [hgrows.get?_eq hlater, get?_addDefinitions hafter hne, schemes_register, hname,
      Table.get?_put_self]
  exact ⟨hget, (hgrows.isCoherent (h.addDefinitions hall)).forName?_eq_some_iff hget⟩

/-- Of what a registry lists, a name finds the scheme under it exactly if no blanks are around it,
and an extension finds a scheme exactly if the form in which it is looked up is listed as well. A
definition that is loaded has its scheme under its name until another one of that name is
registered, and is found by the name exactly if no blanks are around that. -/
theorem findsListed_iff (hstart : start = new ∨ start = builtIn) (h : start.Grows names r) :
    (FindsListed r ↔ (∀ n ∈ r.names, IsTrimmed n) ∧
      ∀ ext ∈ r.extensions.names, normalExtension ext ∈ r.extensions.names) ∧
    (∀ n ∈ r.names, ∃ s, r.schemes.get? n = some s ∧ lowerName s.name = n ∧
      (r.forName? n = some s ↔ IsTrimmed n)) ∧
    (∀ ext ∈ r.extensions.names,
      ((∃ n s, r.schemes.get? n = some s ∧ r.forExtension? ext = some s) ↔
        normalExtension ext ∈ r.extensions.names) ∧
      (IsTrimmed ext → ext.toList.head? ≠ some '.' → ∃ n s, r.extensions.get? ext = some n ∧
        r.schemes.get? n = some s ∧ r.forExtension? ext = some s)) ∧
    ∀ t loaded q, r.load t = (.ok loaded, q) → ∀ before d after,
      Definition.listOfText t = .ok (before ++ d :: after) →
      ∃ p s, r.addDefinitions before = (.ok (before.map Definition.name), p) ∧
        d.compile p.theme p.forName? = .ok s ∧ s.name = d.name ∧
        loaded = before.map Definition.name ++ d.name :: after.map Definition.name ∧
        ∀ later r', q.Grows later r' →
          (∀ n ∈ after.map Definition.name ++ later, lowerName n ≠ lowerName d.name) →
          r'.schemes.get? (lowerName d.name) = some s ∧
            (r'.forName? d.name = some s ↔ IsTrimmed d.name) := by
  have hr : r.IsCoherent := by
    refine h.isCoherent ?_
    rcases hstart with rfl | rfl
    · exact .empty .mocha
    · exact isCoherent_builtIn
  refine ⟨hr.finds_iff, fun n hn ↦ hr.exists_forName?_iff hn, fun ext hext ↦ ?_,
    fun t loaded q hload before d after ht ↦ hr.exists_of_load hload ht⟩
  exact ⟨hr.forExtension?_iff, hr.exists_forExtension? hext⟩

/-- A definition whose name has a blank before it and whose extension has two dots, and one that is
written as it is looked up. -/
def spaced : Text :=
  "[\x7b\"name\": \" Cfg\", \"extensions\": [\"..cfg\"]\x7d, ".toList ++
    "\x7b\"name\": \"Ini\", \"extensions\": [\".INI\"]\x7d]".toList

theorem grows_spaced : new.Grows [" Cfg", "Ini"] (new.load spaced).2 := by
  have hok : (new.load spaced).1 = .ok [" Cfg", "Ini"] := by decide +kernel
  have hload : new.load spaced = (.ok [" Cfg", "Ini"], (new.load spaced).2) := by rw [← hok]
  exact .load (.refl new) hload

theorem findsListed_iff_spaced :
    new.Grows [" Cfg", "Ini"] (new.load spaced).2 ∧
      (∃ s, (new.load spaced).2.forName? "ini" = some s ∧ lowerName s.name = "ini") ∧
      (∃ n s, (new.load spaced).2.schemes.get? n = some s ∧
        (new.load spaced).2.forExtension? "ini" = some s) ∧
      ¬FindsListed (new.load spaced).2 := by
  obtain ⟨hiff, hnames, hextensions, -⟩ := findsListed_iff (.inl rfl) grows_spaced
  obtain ⟨s, -, hname, hfound⟩ := hnames "ini" (by decide +kernel)
  refine ⟨grows_spaced, ⟨s, hfound.2 (by decide +kernel), hname⟩,
    (hextensions "ini" (by decide +kernel)).1.2 (by decide +kernel), fun hall ↦ ?_⟩
  exact absurd ((hiff.1 hall).1 " cfg" (by decide +kernel)) (by decide +kernel)

/-- A name with a blank before it is listed with the blank, and is not found. -/
theorem not_findsListed_spaced :
    ¬∀ (start r : Registry) (names : List String), start = new ∨ start = builtIn →
      start.Grows names r → FindsListed r := by
  intro h
  obtain ⟨s, -, hfound⟩ := (h new _ _ (.inl rfl) grows_spaced).names " cfg" (by decide +kernel)
  have hnone : ((new.load spaced).2.forName? " cfg").isNone = true := by decide +kernel
  rw [hfound] at hnone
  cases hnone

end Registry

end Highlighter
