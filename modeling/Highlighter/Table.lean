/-!
Tables: finite maps from names, as lists of entries in the order of their names. Each name has one
entry at most, so tables that agree on every name are equal.
-/

namespace Highlighter

structure Table (α : Type) where
  entries : List (String × α)
  ascending : entries.Pairwise (fun a b ↦ a.1 < b.1)
  deriving DecidableEq, Repr

namespace Table

variable {α : Type}

def empty : Table α := ⟨[], .nil⟩

def get? (t : Table α) (name : String) : Option α := t.entries.lookup name

def has (t : Table α) (name : String) : Bool := (t.get? name).isSome

def names (t : Table α) : List String := t.entries.map Prod.fst

/-- Entries with a new value for a name, in place of the value it had. -/
def putIn (name : String) (value : α) : List (String × α) → List (String × α)
  | [] => [(name, value)]
  | (k, v) :: rest =>
    if name < k then (name, value) :: (k, v) :: rest
    else if name = k then (name, value) :: rest
    else (k, v) :: putIn name value rest

theorem mem_putIn {name : String} {value : α} {l : List (String × α)} {e : String × α}
    (h : e ∈ putIn name value l) : e = (name, value) ∨ e ∈ l := by
  induction l with
  | nil => simpa [putIn] using h
  | cons f l ih =>
    obtain ⟨k, v⟩ := f
    rw [putIn] at h
    split at h
    · simpa using h
    · split at h
      · simp only [List.mem_cons] at h ⊢
        exact h.imp_right Or.inr
      · obtain rfl | h := List.mem_cons.1 h
        · simp
        · exact (ih h).imp_right (List.mem_cons_of_mem _)

theorem ascending_putIn {name : String} {value : α} {l : List (String × α)}
    (h : l.Pairwise (fun a b ↦ a.1 < b.1)) :
    (putIn name value l).Pairwise (fun a b ↦ a.1 < b.1) := by
  induction l with
  | nil => simp [putIn]
  | cons f l ih =>
    obtain ⟨k, v⟩ := f
    obtain ⟨hk, hl⟩ := List.pairwise_cons.1 h
    rw [putIn]
    split
    · next hn =>
      refine List.pairwise_cons.2 ⟨fun e he ↦ ?_, h⟩
      obtain rfl | he := List.mem_cons.1 he
      · exact hn
      · exact String.lt_trans hn (hk e he)
    · next hn =>
      split
      · next heq => subst heq; exact List.pairwise_cons.2 ⟨hk, hl⟩
      · next hne =>
        refine List.pairwise_cons.2 ⟨fun e he ↦ ?_, ih hl⟩
        obtain rfl | he := mem_putIn he
        · exact Std.lt_of_le_of_ne (String.not_lt.1 hn) (Ne.symm hne)
        · exact hk e he

theorem perm_putIn {name : String} {value : α} {l : List (String × α)}
    (h : ∀ e ∈ l, name ≠ e.1) : (putIn name value l).Perm ((name, value) :: l) := by
  induction l with
  | nil => exact .refl _
  | cons f l ih =>
    obtain ⟨k, v⟩ := f
    rw [putIn]
    split
    · exact .refl _
    · rw [if_neg (h (k, v) List.mem_cons_self)]
      exact ((ih fun e he ↦ h e (List.mem_cons_of_mem _ he)).cons _).trans (.swap ..)

def put (t : Table α) (name : String) (value : α) : Table α :=
  ⟨putIn name value t.entries, ascending_putIn t.ascending⟩

def ofList (l : List (String × α)) : Table α := l.foldl (fun t e ↦ t.put e.1 e.2) empty

theorem mem_names_put {t : Table α} {name a : String} {value : α} :
    a ∈ (t.put name value).names ↔ a = name ∨ a ∈ t.names := by
  obtain ⟨l, hl⟩ := t
  simp only [names, put]
  clear hl
  induction l with
  | nil => simp [putIn]
  | cons f l ih =>
    obtain ⟨k, v⟩ := f
    rw [putIn]
    split
    · simp
    · split
      · next hk => simp [hk]
      · rw [List.map_cons, List.mem_cons, ih, List.map_cons, List.mem_cons, or_left_comm]

theorem pairwise_names (t : Table α) : t.names.Pairwise (· < ·) := List.pairwise_map.2 t.ascending

theorem get?_put_self (t : Table α) (name : String) (value : α) :
    (t.put name value).get? name = some value := by
  obtain ⟨l, hl⟩ := t
  simp only [get?, put]
  clear hl
  induction l with
  | nil => simp [putIn]
  | cons f l ih =>
    obtain ⟨k, v⟩ := f
    rw [putIn]
    split
    · simp
    · split
      · simp
      · next hk =>
        have hb : (name == k) = false := by simpa using hk
        simpa [List.lookup_cons, hb] using ih

theorem get?_put_of_ne (t : Table α) {a b : String} (value : α) (h : b ≠ a) :
    (t.put a value).get? b = t.get? b := by
  have hb : (b == a) = false := by simpa using h
  obtain ⟨l, hl⟩ := t
  simp only [get?, put]
  clear hl
  induction l with
  | nil => simp [putIn, List.lookup_cons, hb]
  | cons f l ih =>
    obtain ⟨k, v⟩ := f
    rw [putIn]
    split
    · simp [List.lookup_cons, hb]
    · split
      · next hk => subst hk; simp [List.lookup_cons, hb]
      · simp only [List.lookup_cons]
        rw [ih]

theorem get?_put (t : Table α) (a b : String) (value : α) :
    (t.put a value).get? b = if b = a then some value else t.get? b := by
  split
  · next h => rw [h, get?_put_self]
  · next h => exact get?_put_of_ne t value h

theorem mem_names_iff {t : Table α} {name : String} :
    name ∈ t.names ↔ ∃ value, t.get? name = some value := by
  rw [← Option.isSome_iff_exists, ← Option.ne_none_iff_isSome, get?, ne_eq,
    List.lookup_eq_none_iff, names, List.mem_map]
  simp

theorem has_iff {t : Table α} {name : String} : t.has name = true ↔ name ∈ t.names := by
  rw [has, Option.isSome_iff_exists, mem_names_iff]

theorem nodup_names (t : Table α) : t.names.Nodup := by
  refine t.pairwise_names.imp ?_
  rintro a _ hlt rfl
  exact String.lt_irrefl a hlt

/-- Of several values for a name the last one counts. -/
theorem get?_ofList (l : List (String × α)) (name : String) :
    (ofList l).get? name = l.reverse.lookup name := by
  rw [ofList, ← List.foldr_reverse]
  induction l.reverse with
  | nil => rfl
  | cons e l ih =>
    rw [List.foldr_cons, List.lookup_cons]
    by_cases he : name = e.1
    · rw [he, get?_put_self, beq_self_eq_true]
    · have hb : (name == e.1) = false := by simpa using he
      rw [get?_put_of_ne _ _ he, ih, hb]

theorem perm_foldl_put {l : List (String × α)} (t : Table α)
    (h : (t.names ++ l.map Prod.fst).Nodup) :
    (l.foldl (fun t e ↦ t.put e.1 e.2) t).entries.Perm (t.entries ++ l) := by
  induction l generalizing t with
  | nil => exact .of_eq (List.append_nil _).symm
  | cons e l ih =>
    have hfresh : ∀ e' ∈ t.entries, e.1 ≠ e'.1 := fun e' he' heq ↦
      (List.nodup_append.1 h).2.2 _ (List.mem_map_of_mem he') _ List.mem_cons_self heq.symm
    have hput : (t.put e.1 e.2).entries.Perm (e :: t.entries) := perm_putIn hfresh
    have hnames : (t.put e.1 e.2).names.Perm (e.1 :: t.names) := hput.map Prod.fst
    refine (ih (t.put e.1 e.2) ?_).trans ((hput.append_right l).trans List.perm_middle.symm)
    exact ((hnames.append_right _).trans List.perm_middle.symm).nodup_iff.2 h

/-- Entries with different names are all kept. -/
theorem perm_ofList {l : List (String × α)} (h : (l.map Prod.fst).Nodup) :
    (ofList l).entries.Perm l := perm_foldl_put empty h

theorem lookup_eq_some_iff_mem {l : List (String × α)} (h : (l.map Prod.fst).Nodup)
    {name : String} {value : α} : l.lookup name = some value ↔ (name, value) ∈ l := by
  induction l with
  | nil => simp
  | cons e l ih =>
    obtain ⟨hfresh, hl⟩ := List.nodup_cons.1 h
    rw [List.lookup_cons, List.mem_cons]
    split
    · next heq =>
      obtain rfl := beq_iff_eq.1 heq
      have hnot : (e.1, value) ∉ l := fun hmem ↦ hfresh (List.mem_map.2 ⟨_, hmem, rfl⟩)
      simp [hnot, Prod.ext_iff, eq_comm]
    · next hne =>
      have hhead : (name, value) ≠ e := by
        rintro rfl
        simp at hne
      rw [ih hl, or_iff_right hhead]

theorem lookup_eq_of_perm {l l' : List (String × α)} (h : (l.map Prod.fst).Nodup)
    (hp : l.Perm l') (name : String) : l.lookup name = l'.lookup name := by
  have h' : (l'.map Prod.fst).Nodup := (hp.map Prod.fst).nodup_iff.1 h
  ext value
  rw [lookup_eq_some_iff_mem h, lookup_eq_some_iff_mem h', hp.mem_iff]

theorem lookup_filter (p : String → Bool) (l : List (String × α)) (name : String) :
    (l.filter fun e ↦ p e.1).lookup name = if p name then l.lookup name else none := by
  induction l with
  | nil => simp
  | cons e l ih =>
    obtain ⟨key, value⟩ := e
    by_cases hname : name = key
    · subst hname
      cases hp : p name <;> simp [hp, ih]
    · have hb : (name == key) = false := by simpa using hname
      cases hp : p key <;> simp [List.lookup_cons, hp, ih, hb]

theorem get?_ofList_of_nodup {l : List (String × α)} (h : (l.map Prod.fst).Nodup)
    (name : String) : (ofList l).get? name = l.lookup name :=
  (get?_ofList l name).trans (lookup_eq_of_perm h l.reverse_perm.symm name).symm

/-- A table does not know in which order its entries came. -/
theorem ofList_eq_of_perm {l l' : List (String × α)} (h : (l.map Prod.fst).Nodup)
    (hp : l.Perm l') : ofList l = ofList l' := by
  have h' : (l'.map Prod.fst).Nodup := (hp.map Prod.fst).nodup_iff.1 h
  have hentries : (ofList l).entries = (ofList l').entries := by
    refine ((perm_ofList h).trans (hp.trans (perm_ofList h').symm)).eq_of_pairwise
      (fun a b _ _ hab hba ↦ ?_) (ofList l).ascending (ofList l').ascending
    exact absurd hba (String.lt_asymm hab)
  cases hl : ofList l
  cases hl' : ofList l'
  simpa [hl, hl'] using hentries

theorem entries_ofList {l : List (String × α)} (h : l.Pairwise (fun a b ↦ a.1 < b.1)) :
    (ofList l).entries = l := by
  have hnodup : (l.map Prod.fst).Nodup := by
    refine List.pairwise_map.2 (h.imp ?_)
    intro a b hlt heq
    rw [heq] at hlt
    exact String.lt_irrefl _ hlt
  refine (perm_ofList hnodup).eq_of_pairwise (fun a b _ _ hab hba ↦ ?_) (ofList l).ascending h
  exact absurd (String.lt_trans hab hba) (String.lt_irrefl _)

theorem ofList_entries (t : Table α) : ofList t.entries = t := by
  have h := entries_ofList t.ascending
  cases hl : ofList t.entries
  rw [hl] at h
  cases t
  cases h
  rfl

end Table

end Highlighter
