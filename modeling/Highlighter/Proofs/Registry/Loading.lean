import Mathlib.Data.List.Basic
import Highlighter.Registry

/-!
Loading several definitions: those before the first one that is rejected are registered, although
the load fails.
-/

namespace Highlighter

theorem exists_of_bind_eq_ok {ε α β : Type} {x : Except ε α} {f : α → Except ε β} {b : β}
    (h : (x >>= f) = .ok b) : ∃ a, x = .ok a ∧ f a = .ok b := by
  cases x with
  | error e => cases h
  | ok a => exact ⟨a, rfl, h⟩

/-! ### The name of a scheme is that of its definition -/

namespace Scheme.Draft

theorem name_foldl {α : Type} {f : Draft → α → Draft}
    (hf : ∀ draft a, (f draft a).name = draft.name) (l : List α) (draft : Draft) :
    (l.foldl f draft).name = draft.name := by
  induction l generalizing draft with
  | nil => rfl
  | cons a l ih => rw [List.foldl_cons, ih, hf]

theorem name_of_build {d : Draft} {s : Scheme} (h : d.build = .ok s) : s.name = d.name := by
  rw [build] at h
  split at h
  · cases h
  · obtain ⟨_, -, h⟩ := exists_of_bind_eq_ok h
    dsimp only at h
    split at h
    · cases h
    · cases h
      rfl

end Scheme.Draft

namespace Definition

open Scheme

variable {d : Definition} {theme : Theme} {lookup : String → Option Scheme}

theorem name_of_embedAll {references : List (String × String)} {draft draft' : Draft}
    (h : d.embedAll lookup draft references = .ok draft') : draft'.name = draft.name := by
  induction references generalizing draft with
  | nil =>
    cases h
    rfl
  | cons r references ih =>
    obtain ⟨s, -, h⟩ := exists_of_bind_eq_ok h
    exact (ih h).trans rfl

theorem name_of_compile {s : Scheme} (h : d.compile theme lookup = .ok s) : s.name = d.name := by
  rw [compile] at h
  obtain ⟨base, -, h⟩ := exists_of_bind_eq_ok h
  dsimp only at h
  have hembed (draft : Draft) (e : String × Scheme) :
      (draft.embed e.1 e.2).name = draft.name := rfl
  -- the color of the text that no rule labels is looked up in one of the two cases only
  split at h
  all_goals
    obtain ⟨baseColor, -, h⟩ := exists_of_bind_eq_ok h
    obtain ⟨rules, -, h⟩ := exists_of_bind_eq_ok h
    obtain ⟨draft, hdraft, h⟩ := exists_of_bind_eq_ok h
    rw [Draft.name_of_build h, name_of_embedAll hdraft]
    cases base with
    | none =>
      refine Draft.name_foldl (fun draft e ↦ ?_) _ _
      cases e <;> rfl
    | some b =>
      refine (Draft.name_foldl hembed _ _).trans (Draft.name_foldl (fun draft e ↦ ?_) _ _)
      cases e <;> rfl

end Definition

namespace Registry

variable {r r' : Registry} {ds : List Definition}

theorem names_addAlias_foldl (aliases : List String) (name : String) (r : Registry) :
    (aliases.foldl (fun r other ↦ r.addAlias other name) r).names = r.names := by
  induction aliases generalizing r with
  | nil => rfl
  | cons other aliases ih => exact (ih _).trans rfl

/-- A load that is rejected has registered what comes before the definition at fault. -/
theorem addDefinitions_of_error {e : SchemeError} (h : r.addDefinitions ds = (.error e, r')) :
    ∃ accepted d rest names, ds = accepted ++ d :: rest ∧
      r.addDefinitions accepted = (.ok names, r') ∧ d.compile r'.theme r'.forName? = .error e := by
  induction ds generalizing r with
  | nil => cases h
  | cons d ds ih =>
    rw [addDefinitions] at h
    split at h
    · next e' hd =>
      cases h
      exact ⟨[], d, ds, [], rfl, rfl, hd⟩
    · next s hd =>
      dsimp only at h
      split at h
      · cases h
      · next e' r'' hds =>
        cases h
        obtain ⟨accepted, d', rest, names, rfl, haccepted, hd'⟩ := ih hds
        refine ⟨d :: accepted, d', rest, d.name :: names, rfl, ?_, hd'⟩
        rw [addDefinitions, hd]
        simp only [haccepted]

theorem mem_names_addDefinitions {names : List String}
    (h : r.addDefinitions ds = (.ok names, r')) (n : String) :
    n ∈ r'.names ↔ n ∈ r.names ∨ ∃ d ∈ ds, lowerName d.name = n := by
  induction ds generalizing r names with
  | nil =>
    cases h
    simp
  | cons d ds ih =>
    rw [addDefinitions] at h
    split at h
    · cases h
    · next s hd =>
      dsimp only at h
      split at h
      · next names' r'' hds =>
        cases h
        have hs : n ∈ (r.insert s d.extensions).names ↔ n = lowerName d.name ∨ n ∈ r.names := by
          rw [← Definition.name_of_compile hd]
          exact Table.mem_names_put
        rw [ih hds, names_addAlias_foldl, hs, List.exists_mem_cons_iff, or_assoc,
          or_left_comm, eq_comm]
      · cases h

theorem names_eq_iff : r'.names = r.names ↔ ∀ n, n ∈ r'.names ↔ n ∈ r.names := by
  refine ⟨fun h n ↦ by rw [h], fun h ↦ ?_⟩
  have hperm := (List.perm_ext_iff_of_nodup r'.schemes.nodup_names r.schemes.nodup_names).2 h
  refine hperm.eq_of_pairwise ?_ r'.schemes.pairwise_names r.schemes.pairwise_names
  intro a b _ _ hab hba
  exact absurd hba (String.lt_asymm hab)

/-- What a registry answers: the names of its schemes, the scheme for each name and for each
extension, and the extensions it knows. -/
structure SameAnswers (r r' : Registry) : Prop where
  names : r'.names = r.names
  forName? : ∀ name, r'.forName? name = r.forName? name
  forExtension? : ∀ ext, r'.forExtension? ext = r.forExtension? ext
  extensions : r'.extensions.names = r.extensions.names

/-- A load that fails over its text changes nothing. One that fails over a definition has registered
the definitions before that one, and these alone: the names stay the same just if the names of all
of them were registered before. -/
theorem load_of_error {t : Text} {e : LoadError} (h : (r.load t).1 = .error e) :
    (∃ e', Definition.listOfText t = .error e' ∧ e = .undecodable t e' ∧ (r.load t).2 = r) ∨
      ∃ accepted d rest names e', Definition.listOfText t = .ok (accepted ++ d :: rest) ∧
        r.addDefinitions accepted = (.ok names, (r.load t).2) ∧
        d.compile (r.load t).2.theme (r.load t).2.forName? = .error e' ∧ e = .rejected e' ∧
        (accepted = [] → (r.load t).2 = r) ∧
        (∀ n, n ∈ (r.load t).2.names ↔ n ∈ r.names ∨ ∃ d ∈ accepted, lowerName d.name = n) ∧
        ((r.load t).2.names = r.names ↔ ∀ d ∈ accepted, lowerName d.name ∈ r.names) := by
  generalize hload : r.load t = result at h ⊢
  rw [load] at hload
  split at hload
  · next e' ht =>
    subst hload
    cases h
    exact .inl ⟨e', ht, rfl, rfl⟩
  · next ds ht =>
    split at hload
    · subst hload
      cases h
    · next e' r' hds =>
      subst hload
      cases h
      obtain ⟨accepted, d, rest, names, rfl, haccepted, hd⟩ := addDefinitions_of_error hds
      have hmem := mem_names_addDefinitions haccepted
      refine .inr ⟨accepted, d, rest, names, e', ht, haccepted, hd, rfl, ?_, hmem, ?_⟩
      · rintro rfl
        cases haccepted
        rfl
      · rw [names_eq_iff]
        constructor
        · intro hsame d hd
          exact (hsame _).1 ((hmem _).2 (.inr ⟨d, hd, rfl⟩))
        · intro hold n
          rw [hmem]
          refine or_iff_left_of_imp ?_
          rintro ⟨d, hd, rfl⟩
          exact hold d hd

/-- A definition without fault, and one that extends a scheme that nothing defines. -/
def dangling : Text :=
  "[\x7b\"name\": \"a\", \"extensions\": [\"a\"]\x7d, ".toList ++
    "\x7b\"name\": \"b\", \"extends\": \"c\"\x7d]".toList

theorem load_dangling : (new.load dangling).1 = .error (.rejected (.unknownScheme "b" "c")) := by
  decide +kernel

theorem load_of_error_dangling :
    (new.load dangling).1 = .error (.rejected (.unknownScheme "b" "c")) ∧
      ∃ accepted d rest names e',
        Definition.listOfText dangling = .ok (accepted ++ d :: rest) ∧
        new.addDefinitions accepted = (.ok names, (new.load dangling).2) ∧
        d.compile (new.load dangling).2.theme (new.load dangling).2.forName? = .error e' ∧
        LoadError.rejected (.unknownScheme "b" "c") = .rejected e' ∧
        (accepted = [] → (new.load dangling).2 = new) ∧
        (∀ n, n ∈ (new.load dangling).2.names ↔
          n ∈ new.names ∨ ∃ d ∈ accepted, lowerName d.name = n) ∧
        ((new.load dangling).2.names = new.names ↔
          ∀ d ∈ accepted, lowerName d.name ∈ new.names) := by
  refine ⟨load_dangling, (load_of_error load_dangling).resolve_left ?_⟩
  rintro ⟨e', -, he, -⟩
  cases he

/-- The definition before the one at fault stays registered. -/
theorem not_sameAnswers_load_dangling :
    ¬∀ (r : Registry) (t : Text) (e : LoadError), (r.load t).1 = .error e →
      SameAnswers r (r.load t).2 := by
  intro h
  have hnames := (h new dangling _ load_dangling).names
  exact absurd hnames (by decide +kernel)

end Registry

end Highlighter
