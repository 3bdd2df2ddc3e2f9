import Mathlib.Data.List.Perm.Basic
import Mathlib.Data.List.Forall2
import Highlighter.Json.Decode

/-!
What written values are decoded to, whether they come from their text or from a text that was read
to its end before. In that case the members of an object are in another order.
-/

namespace Highlighter.Json

/-- A value as it comes from a source. -/
def Source.view : Source → Json → Json
  | text, v => v
  | value, v => v.settle

/-- Whether a value is decoded as what was written, wherever it comes from. -/
def Gives {α : Type} (d : Source → Decoder α) (v : Json) (a : α) : Prop :=
  ∀ src, d src (src.view v) = .ok a

/-! ### Strings and lists -/

@[simp]
theorem view_string (src : Source) (s : String) : src.view (.string s) = .string s := by
  cases src <;> rfl

@[simp]
theorem view_bool (src : Source) (b : Bool) : src.view (.bool b) = .bool b := by
  cases src <;> rfl

theorem settleItems_eq_map (items : List Json) : settleItems items = items.map settle := by
  induction items with
  | nil => rfl
  | cons v items ih => rw [settleItems, ih, List.map_cons]

theorem view_ofList (src : Source) (items : List Json) :
    src.view (.ofList items) = .ofList (items.map src.view) := by
  cases src with
  | text => exact congrArg ofList (List.map_id items).symm
  | value => exact congrArg ofList (settleItems_eq_map items)

theorem gives_string (s : String) : Gives (fun _ ↦ decodeString) (.string s) s := by
  intro src
  rw [view_string]
  rfl

theorem gives_bool (b : Bool) : Gives (fun _ ↦ decodeBool) (.bool b) b := by
  intro src
  rw [view_bool]
  rfl

theorem gives_some (s : String) :
    Gives (fun _ ↦ decodeOption decodeString) (.string s) (some s) := by
  intro src
  rw [view_string]
  rfl

variable {α : Type} {d : Source → Decoder α} {f : α → Json}

theorem decodeItems_map {l : List α} {d : Decoder α} {f : α → Json}
    (h : ∀ a ∈ l, d (f a) = .ok a) : decodeItems d (l.map f) = .ok l := by
  induction l with
  | nil => rfl
  | cons a l ih =>
    obtain ⟨ha, hl⟩ := List.forall_mem_cons.1 h
    rw [List.map_cons, decodeItems, ha, ih hl]
    rfl

theorem gives_list {l : List α} (h : ∀ a ∈ l, Gives d (f a) a) :
    Gives (fun src ↦ decodeList (d src)) (.ofList (l.map f)) l := by
  intro src
  have hitems : decodeItems (d src) (l.map fun a ↦ src.view (f a)) = .ok l :=
    decodeItems_map fun a ha ↦ h a ha src
  rw [view_ofList, List.map_map]
  show (do
    let list ← decodeItems (d src) (l.map fun a ↦ src.view (f a))
    atEnd none
    return list) = _
  rw [hitems]
  rfl

theorem gives_variant {variants : List (String × α)} {name : String} {a : α}
    (h : variants.lookup name = some a) :
    Gives (fun src ↦ decodeVariant src variants) (.string name) a := by
  intro src
  rw [view_string]
  show decodeVariantName variants name = _
  rw [decodeVariantName, h]

theorem gives_untagged {type : String} {pick : Json → Option α} {v : Json} {a : α}
    (hs : v.settle = v) (hf : v.firstFault? = none) (hp : pick v = some a) :
    Gives (fun _ ↦ decodeUntagged type pick) v a := by
  intro src
  have hv : src.view v = v := by
    cases src
    · rfl
    · exact hs
  rw [hv]
  simp only [decodeUntagged, hf, hp]

/-! ### Tables -/

theorem settleMembers_eq_foldl (done : Table Json) (members : List (String × Json)) :
    settleMembers done members =
      (members.map fun m ↦ (m.1, m.2.settle)).foldl (fun t e ↦ t.put e.1 e.2) done := by
  induction members generalizing done with
  | nil => rfl
  | cons m members ih =>
    obtain ⟨k, v⟩ := m
    rw [settleMembers, ih]
    rfl

theorem settle_ofMembers (members : List (String × Json)) :
    (ofMembers members).settle =
      .ofMembers (Table.ofList (members.map fun m ↦ (m.1, m.2.settle))).entries := by
  rw [Table.ofList, ← settleMembers_eq_foldl]
  rfl

theorem decodeEntries_map {d : Decoder α} {f : α → Json} (done : Table α)
    {l : List (String × α)} (h : ∀ e ∈ l, d (f e.2) = .ok e.2) :
    decodeEntries d done (l.map fun e ↦ (e.1, f e.2)) =
      .ok (l.foldl (fun t e ↦ t.put e.1 e.2) done) := by
  induction l generalizing done with
  | nil => rfl
  | cons e l ih =>
    obtain ⟨he, hl⟩ := List.forall_mem_cons.1 h
    rw [List.map_cons, decodeEntries, he]
    exact ih _ hl

theorem view_ofMembers_of_ascending (src : Source) {members : List (String × Json)}
    (h : members.Pairwise fun a b ↦ a.1 < b.1) :
    src.view (.ofMembers members) = .ofMembers (members.map fun m ↦ (m.1, src.view m.2)) := by
  cases src with
  | text => exact congrArg ofMembers (List.map_id members).symm
  | value =>
    refine (settle_ofMembers members).trans (congrArg ofMembers (Table.entries_ofList ?_))
    exact List.pairwise_map.2 h

theorem gives_table (t : Table α) (h : ∀ a, Gives d (f a) a) :
    Gives (fun src ↦ decodeTable (d src))
      (.ofMembers (t.entries.map fun e ↦ (e.1, f e.2))) t := by
  intro src
  have hentries : decodeEntries (d src) .empty (t.entries.map fun e ↦ (e.1, src.view (f e.2))) =
      .ok (Table.ofList t.entries) :=
    decodeEntries_map (f := fun a ↦ src.view (f a)) .empty fun e _ ↦ h e.2 src
  have hasc : (t.entries.map fun e ↦ (e.1, f e.2)).Pairwise fun a b ↦ a.1 < b.1 :=
    List.pairwise_map.2 t.ascending
  rw [view_ofMembers_of_ascending src hasc, List.map_map]
  show (do
    let table ← decodeEntries (d src) .empty
      (t.entries.map fun e : String × α ↦ (e.1, src.view (f e.2)))
    atEnd none
    return table) = _
  rw [hentries, Table.ofList_entries]
  rfl

/-! ### Records -/

/-- A field of a record as it is written, unless its value is `null`: then it is left out. -/
structure Slot (σ : Type) where
  key : String
  value : Json
  put : σ → σ

namespace Slot

variable {σ : Type}

def isWritten (p : Slot σ) : Bool :=
  match p.value with
  | .null => false
  | _ => true

def written (slots : List (Slot σ)) : List (String × Json) :=
  (slots.filter isWritten).map fun p ↦ (p.key, p.value)

def optional (key : String) (value : Option String) (set : Option String → σ → σ) : Slot σ :=
  ⟨key, (value.map .string).getD .null, set value⟩

end Slot

/-- Whether a field takes the value of a slot. A slot may be left out if its field need not be
there, and has the same value then. -/
structure Field.Takes {σ : Type} (f : Field σ) (src : Source) (initial : σ) (p : Slot σ) :
    Prop where
  name : f.name = p.key
  store : ∀ s, f.store (src.view p.value) s = .ok (p.put s)
  leftOut : p.isWritten = false → f.required = false ∧ p.put initial = initial

section Takes

variable {σ : Type} {key : String} {v : Json} {a : α} {set : α → σ → σ} {src : Source} {initial : σ}

theorem store_field (key : String) (h : Gives d v a) (s : σ) :
    (field key (d src) set).store (src.view v) s = .ok (set a s) := by
  show (d src (src.view v)).map (set · s) = _
  rw [h src]
  rfl

theorem takes_field (h : Gives d v a) (hv : Slot.isWritten ⟨key, v, set a⟩ = true) :
    (field key (d src) set).Takes src initial ⟨key, v, set a⟩ where
  name := rfl
  store := store_field key h
  leftOut hw := absurd (hv.symm.trans hw) Bool.noConfusion

theorem takes_requiredField (h : Gives d v a) (hv : Slot.isWritten ⟨key, v, set a⟩ = true) :
    (requiredField key (d src) set).Takes src initial ⟨key, v, set a⟩ where
  name := rfl
  store := store_field key h
  leftOut hw := absurd (hv.symm.trans hw) Bool.noConfusion

theorem takes_optional (key : String) (value : Option String) {set : Option String → σ → σ}
    (h : set none initial = initial) :
    (field key (decodeOption decodeString) set).Takes src initial (.optional key value set) := by
  cases value with
  | none =>
    refine ⟨rfl, fun s ↦ ?_, fun _ ↦ ⟨rfl, h⟩⟩
    cases src <;> rfl
  | some s => exact takes_field (gives_some s) rfl

end Takes

/-- Whether a value is written into the slots, in the order of the fields of its record. -/
structure Shape.Writes {σ : Type} (sh : Source → Shape σ) (slots : List (Slot σ)) (a : σ) :
    Prop where
  takes : ∀ src, List.Forall₂ (fun f p ↦ f.Takes src (sh src).initial p) (sh src).fields slots
  apart : slots.Pairwise fun p q ↦ p.key ≠ q.key ∧ ∀ s, q.put (p.put s) = p.put (q.put s)
  all : ∀ src, slots.foldl (fun s p ↦ p.put s) (sh src).initial = a

namespace Shape

variable {σ : Type} {src : Source} {initial : σ} {slots : List (Slot σ)}

theorem exists_find? {fields : List (Field σ)}
    (h : List.Forall₂ (fun f p ↦ f.Takes src initial p) fields slots)
    (hk : slots.Pairwise fun p q ↦ p.key ≠ q.key) {p : Slot σ} (hp : p ∈ slots) :
    ∃ f, fields.find? (·.name == p.key) = some f ∧ f.Takes src initial p := by
  induction h with
  | nil => cases hp
  | @cons f q fields slots hf h ih =>
    obtain ⟨hq, hk⟩ := List.pairwise_cons.1 hk
    rcases List.mem_cons.1 hp with rfl | hp
    · exact ⟨f, List.find?_cons_of_pos (beq_iff_eq.2 hf.name), hf⟩
    · have hne : f.name ≠ p.key := hf.name ▸ hq p hp
      rw [List.find?_cons_of_neg (by simpa using hne)]
      exact ih hk hp

theorem exists_takes {fields : List (Field σ)}
    (h : List.Forall₂ (fun f p ↦ f.Takes src initial p) fields slots) {f : Field σ}
    (hf : f ∈ fields) : ∃ p ∈ slots, f.Takes src initial p := by
  induction h with
  | nil => cases hf
  | @cons g p fields slots hp h ih =>
    rcases List.mem_cons.1 hf with rfl | hf
    · exact ⟨p, List.mem_cons_self, hp⟩
    · obtain ⟨q, hq, ht⟩ := ih hf
      exact ⟨q, List.mem_cons_of_mem _ hq, ht⟩

theorem storeMembers_map {sh : Shape σ}
    (h : ∀ p ∈ slots, ∃ f, sh.fields.find? (·.name == p.key) = some f ∧ f.Takes src sh.initial p)
    (s : σ) {seen : List String} (hn : (slots.map Slot.key).Nodup)
    (hseen : ∀ p ∈ slots, p.key ∉ seen) :
    sh.storeMembers seen s (slots.map fun p ↦ (p.key, src.view p.value)) =
      .ok (slots.foldl (fun s p ↦ p.put s) s, (slots.map Slot.key).reverse ++ seen) := by
  induction slots generalizing s seen with
  | nil => rfl
  | cons p slots ih =>
    obtain ⟨⟨f, hf, hp⟩, h⟩ := List.forall_mem_cons.1 h
    obtain ⟨hk, hseen⟩ := List.forall_mem_cons.1 hseen
    rw [List.map_cons, List.nodup_cons] at hn
    have hrest : ∀ q ∈ slots, q.key ∉ p.key :: seen := fun q hq hmem ↦ by
      rcases List.mem_cons.1 hmem with heq | hmem
      · exact hn.1 (heq ▸ List.mem_map_of_mem hq)
      · exact hseen q hq hmem
    simp only [List.map_cons, storeMembers, hf, if_neg hk, hp.store]
    refine (ih h (p.put s) hn.2 hrest).trans ?_
    simp

theorem exists_perm_of_map {β : Type} {g : β → α} {l : List α} {k : List β}
    (h : l.Perm (k.map g)) : ∃ k' : List β, k'.Perm k ∧ l = k'.map g := by
  have hk : List.Forall₂ (fun a b ↦ a = g b) (k.map g) k :=
    List.forall₂_map_left_iff.2 (List.forall₂_same.2 fun _ _ ↦ rfl)
  obtain ⟨k', hl, hperm⟩ := List.perm_comp_forall₂ h hk
  refine ⟨k', hperm, ?_⟩
  rwa [← List.forall₂_map_right_iff, List.forall₂_eq_eq_eq] at hl

/-- The members of an object come from each source, if only in another order. -/
theorem exists_view_ofMembers (src : Source) (h : (slots.map Slot.key).Nodup) :
    ∃ stored : List (Slot σ), stored.Perm slots ∧
      src.view (.ofMembers (slots.map fun p ↦ (p.key, p.value))) =
        .ofMembers (stored.map fun p ↦ (p.key, src.view p.value)) := by
  cases src with
  | text => exact ⟨slots, .refl _, rfl⟩
  | value =>
    have hsettle := settle_ofMembers (slots.map fun p ↦ (p.key, p.value))
    rw [List.map_map] at hsettle
    obtain ⟨stored, hperm, he⟩ := exists_perm_of_map (Table.perm_ofList
      (l := slots.map fun p ↦ (p.key, p.value.settle)) (by rwa [List.map_map]))
    exact ⟨stored, hperm, hsettle.trans (congrArg ofMembers he)⟩

variable {sh : Source → Shape σ} {a : σ}

theorem Writes.foldl_eq (h : Writes sh slots a) {stored stored' : List (Slot σ)}
    (hp : stored.Perm stored') (hsub : stored' ⊆ slots) (s : σ) :
    stored.foldl (fun s p ↦ p.put s) s = stored'.foldl (fun s p ↦ p.put s) s := by
  have hswap : ∀ p ∈ slots, ∀ q ∈ slots, ∀ s, q.put (p.put s) = p.put (q.put s) := by
    intro p hp q hq
    have hc := h.apart.imp And.right
    exact List.Pairwise.forall_of_forall_of_flip (fun _ _ _ ↦ rfl) hc
      (hc.imp fun h s ↦ (h s).symm) hp hq
  refine hp.foldl_eq' (fun p hm q hm' s ↦ ?_) s
  exact hswap p (hsub (hp.subset hm)) q (hsub (hp.subset hm')) s

theorem foldl_put_eq_self {s : σ} (h : ∀ p ∈ slots, p.put s = s) :
    slots.foldl (fun s p ↦ p.put s) s = s := by
  induction slots with
  | nil => rfl
  | cons p slots ih =>
    obtain ⟨hp, h⟩ := List.forall_mem_cons.1 h
    rw [List.foldl_cons, hp, ih h]

/-- Slots that are left out have no effect on a record to which nothing was stored. -/
theorem Writes.foldl_written (h : Writes sh slots a) (src : Source) :
    (slots.filter Slot.isWritten).foldl (fun s p ↦ p.put s) (sh src).initial = a := by
  have hleft : (slots.filter fun p ↦ !p.isWritten).foldl (fun s p ↦ p.put s) (sh src).initial =
      (sh src).initial := by
    refine foldl_put_eq_self fun p hp ↦ ?_
    obtain ⟨hp, hw⟩ := List.mem_filter.1 hp
    obtain ⟨f, -, ht⟩ := exists_find? (h.takes src) (h.apart.imp And.left) hp
    exact (ht.leftOut (by simpa using hw)).2
  have hsplit : (slots.filter (fun p ↦ !p.isWritten) ++ slots.filter Slot.isWritten).Perm slots :=
    List.perm_append_comm.trans (List.filter_append_perm Slot.isWritten slots)
  have hall := h.foldl_eq hsplit (List.Subset.refl slots) (sh src).initial
  rw [List.foldl_append, hleft, h.all] at hall
  exact hall

/-- No field is missing once all members are stored that were written. -/
theorem Writes.find?_missing (h : Writes sh slots a) (src : Source) {keys : List String}
    (hkeys : ∀ p ∈ slots, p.isWritten = true → p.key ∈ keys) :
    (sh src).fields.find? (fun f ↦ f.required && !keys.contains f.name) = none := by
  refine List.find?_eq_none.2 fun f hf ↦ ?_
  obtain ⟨p, hp, ht⟩ := exists_takes (h.takes src) hf
  cases hw : p.isWritten with
  | false => simp [(ht.leftOut hw).1]
  | true => simp [ht.name, hkeys p hp hw]

/-- A record is decoded as what was written: its members may come in any order. -/
theorem Writes.gives (h : Writes sh slots a) :
    Gives (fun src ↦ (sh src).decode src) (.ofMembers (Slot.written slots)) a := by
  intro src
  have hsub : (slots.filter Slot.isWritten).Sublist slots := List.filter_sublist
  have hkeys : ((slots.filter Slot.isWritten).map Slot.key).Nodup :=
    List.pairwise_map.2 ((h.apart.imp And.left).sublist hsub)
  obtain ⟨stored, hperm, hview⟩ := exists_view_ofMembers src hkeys
  have hstored : (sh src).storeMembers [] (sh src).initial
      (stored.map fun p ↦ (p.key, src.view p.value)) =
        .ok (a, (stored.map Slot.key).reverse ++ []) := by
    rw [← h.foldl_written src, ← h.foldl_eq hperm hsub.subset]
    refine storeMembers_map (fun p hp ↦ ?_) _ ((hperm.map _).nodup_iff.2 hkeys) fun _ _ ↦
      List.not_mem_nil
    exact exists_find? (h.takes src) (h.apart.imp And.left) (hsub.subset (hperm.subset hp))
  have hmissing : (sh src).fields.find? (fun f ↦ f.required &&
      !((stored.map Slot.key).reverse ++ []).contains f.name) = none := by
    refine h.find?_missing src fun p hp hw ↦ ?_
    have hmem : p ∈ stored := hperm.mem_iff.2 (List.mem_filter.2 ⟨hp, hw⟩)
    simpa using (⟨p, hmem, rfl⟩ : ∃ q ∈ stored, q.key = p.key)
  have hdecode : (sh src).decode src
      (.ofMembers (stored.map fun p ↦ (p.key, src.view p.value))) = .ok a := by
    simp only [ofMembers, decode, hstored, bind, Except.bind, atEnd]
    rw [hmissing]
    rfl
  rw [Slot.written, hview]
  exact hdecode

end Shape

end Highlighter.Json
