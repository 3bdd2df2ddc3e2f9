import Highlighter.Proofs.Regex.Grouping
import Highlighter.Proofs.Scheme.PatternLaws
import Mathlib.Data.List.Forall2

/-!
Regular expressions as a library of patterns: anchors and groups in a row are read one after the
other and matched in turn, and a group is read without what stands around it.
-/

namespace Highlighter

open PatternLibrary

namespace Place

/-- The place after so many characters more. -/
def advance : Place → ℕ → Place
  | p, 0 => p
  | ⟨before, []⟩, _ + 1 => ⟨before, []⟩
  | ⟨_, c :: rest⟩, n + 1 => advance ⟨some c, rest⟩ n

/-- Where a text begins. -/
def start (t : Text) : Place := ⟨none, t⟩

variable {p : Place} {t : Text} {i j : ℕ}

theorem advance_advance (p : Place) (m n : ℕ) : (p.advance m).advance n = p.advance (m + n) := by
  induction m generalizing p with
  | zero => rw [Nat.zero_add]; rfl
  | succ m ih =>
    rw [Nat.succ_add]
    obtain ⟨before, rest⟩ := p
    cases rest with
    | nil => cases n <;> rfl
    | cons c rest => exact ih ⟨some c, rest⟩

theorem rest_advance (p : Place) (n : ℕ) : (p.advance n).rest = p.rest.drop n := by
  induction n generalizing p with
  | zero => rfl
  | succ n ih =>
    obtain ⟨before, rest⟩ := p
    cases rest with
    | nil => rfl
    | cons c rest => exact ih ⟨some c, rest⟩

theorem advance_inj (hi : i ≤ p.rest.length) (hj : j ≤ p.rest.length) :
    p.advance i = p.advance j ↔ i = j := by
  refine ⟨fun h ↦ ?_, congrArg p.advance⟩
  have hlength := congrArg (List.length ∘ Place.rest) h
  simp only [Function.comp_apply, rest_advance, List.length_drop] at hlength
  omega

theorem before_advance_ne_none (h : p.before ≠ none) (n : ℕ) : (p.advance n).before ≠ none := by
  induction n generalizing p with
  | zero => exact h
  | succ n ih =>
    obtain ⟨before, rest⟩ := p
    cases rest with
    | nil => exact h
    | cons c rest => exact ih (Option.some_ne_none c)

theorem isAt_textStart_advance (hi : i ≤ t.length) :
    ((start t).advance i).isAt .textStart = true ↔ i = 0 := by
  rw [isAt, Option.isNone_iff_eq_none]
  cases i with
  | zero => exact iff_of_true rfl rfl
  | succ i =>
    cases t with
    | nil => cases hi
    | cons c t =>
      have hbefore := before_advance_ne_none (p := ⟨some c, t⟩) (Option.some_ne_none c) i
      exact iff_of_false hbefore (Nat.succ_ne_zero i)

theorem isAt_textEnd_advance (hi : i ≤ t.length) :
    ((start t).advance i).isAt .textEnd = true ↔ i = t.length := by
  rw [isAt, after, rest_advance, Option.isNone_iff_eq_none, List.head?_eq_none_iff,
    List.drop_eq_nil_iff]
  exact ⟨Nat.le_antisymm hi, Nat.le_of_eq ∘ Eq.symm⟩

end Place

namespace Regex

variable {r : Regex} {p q o : Place} {t : Text} {i j : ℕ}

/-- A match goes forward in the text. -/
theorem Matches.exists_advance (h : r.Matches p q) : ∃ n ≤ p.rest.length, q = p.advance n := by
  induction h with
  | empty p | boundary _ | stop => exact ⟨0, Nat.zero_le _, rfl⟩
  | set h => exact ⟨1, Nat.succ_le_succ (Nat.zero_le _), rfl⟩
  | seq _ _ ihr ihs | step _ _ _ ihr ihs =>
    obtain ⟨m, hm, rfl⟩ := ihr
    obtain ⟨n, hn, rfl⟩ := ihs
    rw [Place.rest_advance, List.length_drop] at hn
    exact ⟨m + n, by omega, Place.advance_advance ..⟩
  | left _ ih | right _ ih => exact ih

theorem matchesAfter_iff (h : r.HasBounds) (before : Option Char) (t : Text) :
    r.matchesAfter before t = true ↔
      ∃ i ≤ t.length, ∃ q, r.Matches ((⟨before, t⟩ : Place).advance i) q := by
  induction t generalizing before with
  | nil =>
    rw [matchesAfter, matchLength?_isSome_iff h]
    simp [Place.advance]
  | cons c t ih =>
    rw [matchesAfter, Bool.or_eq_true, matchLength?_isSome_iff h, ih]
    constructor
    · rintro (hq | ⟨i, hi, hq⟩)
      · exact ⟨0, Nat.zero_le _, hq⟩
      · exact ⟨i + 1, Nat.succ_le_succ hi, hq⟩
    · rintro ⟨_ | i, hi, hq⟩
      · exact .inl hq
      · exact .inr ⟨i, Nat.le_of_succ_le_succ hi, hq⟩

/-- Whether a regular expression matches a text from one place to another. -/
def Spans (r : Regex) (t : Text) (i j : ℕ) : Prop :=
  i ≤ t.length ∧ j ≤ t.length ∧ r.Matches ((Place.start t).advance i) ((Place.start t).advance j)

theorem Matches.exists_spans (hi : i ≤ t.length) (h : r.Matches ((Place.start t).advance i) q) :
    ∃ j, q = (Place.start t).advance j ∧ r.Spans t i j := by
  obtain ⟨n, hn, rfl⟩ := h.exists_advance
  rw [Place.rest_advance, List.length_drop] at hn
  rw [Place.advance_advance] at h
  have hstop : i + n ≤ t.length := by
    change n ≤ t.length - i at hn
    omega
  exact ⟨i + n, Place.advance_advance .., hi, hstop, h⟩

theorem isMatch_iff_spans (h : r.HasBounds) (t : Text) :
    r.isMatch t = true ↔ ∃ i j, r.Spans t i j := by
  rw [isMatch, matchesAfter_iff h]
  constructor
  · rintro ⟨i, hi, q, hq⟩
    obtain ⟨j, -, hspans⟩ := hq.exists_spans hi
    exact ⟨i, j, hspans⟩
  · rintro ⟨i, j, hi, -, hq⟩
    exact ⟨i, hi, _, hq⟩

/-! ### Regular expressions in a row -/

def inRow : List Regex → Regex
  | [] => .empty
  | r :: rest => rest.foldl .seq r

def MatchInTurn : List Regex → Place → Place → Prop
  | [], p, q => q = p
  | r :: rest, p, o => ∃ q, r.Matches p q ∧ MatchInTurn rest q o

theorem matches_foldl_seq_iff {rest : List Regex} :
    (rest.foldl .seq r).Matches p o ↔ ∃ q, r.Matches p q ∧ MatchInTurn rest q o := by
  induction rest generalizing r with
  | nil => simp [MatchInTurn]
  | cons s rest ih =>
    rw [List.foldl_cons, ih]
    simp only [matches_seq_iff, MatchInTurn]
    constructor
    · rintro ⟨q, ⟨m, hr, hs⟩, hrest⟩
      exact ⟨m, hr, q, hs, hrest⟩
    · rintro ⟨m, hr, q, hs, hrest⟩
      exact ⟨q, ⟨m, hr, hs⟩, hrest⟩

theorem matches_inRow_iff {rs : List Regex} : (inRow rs).Matches p o ↔ MatchInTurn rs p o := by
  cases rs with
  | nil => exact matches_empty_iff
  | cons r rest => exact matches_foldl_seq_iff

namespace GroupState

variable {st : GroupState}

theorem items_foldl_add (rs : List Regex) :
    (rs.foldl add st).items = (rs.map some).reverse ++ st.items := by
  induction rs generalizing st with
  | nil => rfl
  | cons r rs ih =>
    rw [List.foldl_cons, ih, List.map_cons, List.reverse_cons, List.append_assoc]
    rfl

theorem alternatives_foldl_add (rs : List Regex) :
    (rs.foldl add st).alternatives = st.alternatives := by
  induction rs generalizing st with
  | nil => rfl
  | cons r rs ih => rw [List.foldl_cons, ih]; rfl

theorem value_foldl_add (rs : List Regex) : (rs.foldl add {}).value = inRow rs := by
  rw [value, alternatives_foldl_add, sequence, items_foldl_add, List.append_nil,
    List.reverse_reverse, List.filterMap_map]
  cases rs <;> simp [inRow]

end GroupState

/-! ### Reading a row -/

/-- What an item is read as. -/
def ofItem? : Item → Option Regex
  | .start => some (.boundary .textStart)
  | .stop => some (.boundary .textEnd)
  | .group p => parse? p

/-- What the items of a row are read as. -/
def ReadAs (row : List Item) (rs : List Regex) : Prop :=
  List.Forall₂ (fun x r ↦ ofItem? x = some r) row rs

variable {st : GroupState} {fuel fuel' : ℕ} {x : Item} {row : List Item} {rs : List Regex}
  {s u v : Text}

theorem isPattern_iff (h : s.length < fuel) :
    IsPattern Pattern s ↔ ∃ e, readGroup fuel {} {} s = some (e, []) := by
  simp only [← parse?_eq_some_iff h, ← Option.isSome_iff_exists]
  exact iff_of_eq (congrArg (· = true) Option.isSome_map)

theorem readGroup_close (v : Text) :
    readGroup fuel {} {} (u ++ ')' :: v) = some (r, ')' :: v) ↔
      readGroup fuel {} {} u = some (r, []) :=
  (isReader_readGroup {} fuel {}).close_iff v

theorem readGroup_open : readGroup (fuel + 1) {} st ("(?:".toList ++ s) =
    (readGroup fuel {} {} s).bind fun r ↦ readClose (readGroup fuel {} (st.add r.1)) r.2 :=
  readGroup_question

theorem readGroup_item (hx : ofItem? x = some r) (t : Text) (h : (x.text ++ t).length < fuel)
    (h' : t.length < fuel') :
    readGroup fuel {} st (x.text ++ t) = readGroup fuel' {} (st.add r) t := by
  obtain ⟨fuel, rfl⟩ := Nat.exists_eq_succ_of_ne_zero (Nat.ne_zero_of_lt h)
  cases x with
  | start =>
    cases hx
    exact readGroup_fuel (Nat.lt_of_succ_lt_succ h) h'
  | stop =>
    cases hx
    exact readGroup_fuel (Nat.lt_of_succ_lt_succ h) h'
  | group p =>
    have htext : (Item.group p).text ++ t = "(?:".toList ++ (p ++ ')' :: t) := by
      simp [Item.text]
    have hlength : p.length + t.length + 3 < fuel := by
      rw [htext, List.length_append, List.length_append, List.length_cons,
        show "(?:".toList.length = 3 from rfl] at h
      omega
    have hp : readGroup fuel {} {} p = some (r, []) := (parse?_eq_some_iff (by omega)).1 hx
    rw [htext, readGroup_open, (readGroup_close t).2 hp]
    exact readGroup_fuel (by omega) h'

theorem readGroup_row (h : ReadAs row rs) (t : Text) (hf : (rowText row ++ t).length < fuel)
    (hf' : t.length < fuel') : readGroup fuel {} st (rowText row ++ t) =
      readGroup fuel' {} (rs.foldl GroupState.add st) t := by
  induction h generalizing st fuel with
  | nil => exact readGroup_fuel hf hf'
  | @cons x r row rs hx _ ih =>
    rw [rowText, List.flatMap_cons, List.append_assoc] at hf ⊢
    rw [readGroup_item hx _ hf (Nat.lt_succ_self _)]
    exact ih (Nat.lt_succ_self _)

theorem parse?_row (h : ReadAs row rs) : parse? (rowText row) = some (inRow rs) := by
  have hlength : (rowText row ++ []).length < (rowText row).length + 1 := by simp
  have hrow : readGroup ((rowText row).length + 1) {} {} (rowText row) =
      readGroup 1 {} (rs.foldl GroupState.add {}) [] := by
    simpa only [List.append_nil] using readGroup_row h [] hlength Nat.zero_lt_one
  rw [parse?_eq_some_iff (Nat.lt_succ_self _), hrow, ← GroupState.value_foldl_add]
  rfl

theorem exists_readAs (h : IsRow Pattern row) : ∃ rs, ReadAs row rs := by
  induction row with
  | nil => exact ⟨[], .nil⟩
  | cons x row ih =>
    obtain ⟨rs, hrs⟩ := ih fun p hp ↦ h p (List.mem_cons_of_mem x hp)
    have hx : ∃ r, ofItem? x = some r := by
      cases x with
      | start | stop => exact ⟨_, rfl⟩
      | group p =>
        have hp : IsPattern Pattern p := h p List.mem_cons_self
        obtain ⟨e, he⟩ := (isPattern_iff (Nat.lt_succ_self _)).1 hp
        exact ⟨e, (parse?_eq_some_iff (Nat.lt_succ_self _)).2 he⟩
    exact ⟨_, .cons hx.choose_spec hrs⟩

/-- The item that is matched from one place to another. -/
theorem item_matches_iff (hx : ofItem? x = some r) :
    x.Matches (fun e : Pattern ↦ e.regex.Spans) t i j ↔ r.Spans t i j := by
  have hboundary {b : Boundary} {n : ℕ} (hn : n ≤ t.length)
      (hb : ∀ i ≤ t.length, ((Place.start t).advance i).isAt b = true ↔ i = n) :
      i = n ∧ j = n ↔ (boundary b).Spans t i j := by
    rw [Spans, matches_boundary_iff]
    constructor
    · rintro ⟨rfl, rfl⟩
      exact ⟨hn, hn, (hb _ hn).2 rfl, rfl⟩
    · rintro ⟨hi, hj, hat, hji⟩
      obtain rfl := (hb i hi).1 hat
      exact ⟨rfl, (Place.advance_inj hj hi).1 hji⟩
  cases x with
  | start =>
    cases hx
    exact hboundary (Nat.zero_le _) fun i hi ↦ Place.isAt_textStart_advance hi
  | stop =>
    cases hx
    exact hboundary (Nat.le_refl _) fun i hi ↦ Place.isAt_textEnd_advance hi
  | group p =>
    have hp : parse? p = some r := hx
    simp [Item.Matches, compile?, hp]

theorem matchInTurn_iff (h : ReadAs row rs) :
    PatternLibrary.MatchInTurn (fun e : Pattern ↦ e.regex.Spans) t row i j ↔
      i ≤ t.length ∧ j ≤ t.length ∧
        MatchInTurn rs ((Place.start t).advance i) ((Place.start t).advance j) := by
  induction h generalizing i with
  | nil =>
    constructor
    · rintro ⟨hi, rfl⟩
      exact ⟨hi, hi, rfl⟩
    · rintro ⟨hi, hj, hij⟩
      exact ⟨hi, (Place.advance_inj hj hi).1 hij⟩
  | @cons x r row rs hx _ ih =>
    simp only [PatternLibrary.MatchInTurn, MatchInTurn, item_matches_iff hx, ih]
    constructor
    · rintro ⟨k, ⟨hi, -, hr⟩, -, hj, hrs⟩
      exact ⟨hi, hj, _, hr, hrs⟩
    · rintro ⟨hi, hj, q, hr, hrs⟩
      obtain ⟨k, rfl, hspans⟩ := hr.exists_spans hi
      exact ⟨k, hspans, hspans.2.1, hj, hrs⟩

/-- The group that is opened behind a row. -/
theorem isPattern_row_iff (h : ReadAs row rs) (hf : (rowText row ++ s).length < fuel) :
    IsPattern Pattern (rowText row ++ s) ↔
      ∃ e, readGroup fuel {} (rs.foldl GroupState.add {}) s = some (e, []) := by
  have hs : s.length < fuel := by
    rw [List.length_append] at hf
    omega
  rw [isPattern_iff hf, readGroup_row h s hf hs]

/-- What is read behind a group does not depend on what the group holds. -/
theorem isPattern_behind_iff (h : ReadAs row rs) (r : Regex) (v : Text)
    (hf : (rowText (row ++ [.group []]) ++ v).length < fuel) :
    IsPattern Pattern (rowText (row ++ [.group []]) ++ v) ↔
      ∃ e, readGroup fuel {} ((rs.foldl GroupState.add {}).add r) v = some (e, []) := by
  have hrow : ReadAs (row ++ [.group []]) (rs ++ [.empty]) :=
    List.rel_append h (.cons rfl .nil)
  rw [isPattern_row_iff hrow hf, List.foldl_append]
  have hsome (o : Option (Regex × Text)) : (∃ e, o = some (e, [])) ↔ o.map Prod.snd = some [] := by
    simp
  rw [hsome, hsome]
  exact iff_of_eq (congrArg (· = some []) (readGroup_rest rfl))

theorem isPattern_group_iff (h : ReadAs row rs) :
    IsPattern Pattern (rowText row ++ "(?:".toList ++ s) ↔ ∃ u v, s = u ++ ')' :: v ∧
      IsPattern Pattern u ∧ IsPattern Pattern (rowText (row ++ [.group []]) ++ v) := by
  obtain ⟨fuel, hfuel⟩ : ∃ fuel, fuel = (rowText row).length + s.length + 5 := ⟨_, rfl⟩
  have hlength : (rowText row ++ ("(?:".toList ++ s)).length < fuel + 1 := by
    rw [List.length_append, List.length_append, hfuel, show "(?:".toList.length = 3 from rfl]
    omega
  have hparts {u v : Text} (hs : s = u ++ ')' :: v) :
      u.length < fuel ∧ (rowText (row ++ [.group []]) ++ v).length < fuel := by
    have hgroup : (rowText [.group []]).length = 4 := rfl
    rw [hs, List.length_append, List.length_cons] at hfuel
    rw [rowText_append, List.length_append, List.length_append, hgroup]
    omega
  rw [List.append_assoc, isPattern_row_iff h hlength, readGroup_open]
  simp only [Option.bind_eq_some_iff, readClose_eq_some_iff]
  constructor
  · rintro ⟨e, ⟨r, _⟩, hr, v, rfl, he⟩
    obtain ⟨u, rfl⟩ := (isReader_readGroup ..).suffix hr
    obtain ⟨hu, hv⟩ := hparts rfl
    exact ⟨u, v, rfl, (isPattern_iff hu).2 ⟨r, (readGroup_close v).1 hr⟩,
      (isPattern_behind_iff h r v hv).2 ⟨e, he⟩⟩
  · rintro ⟨u, v, rfl, hpattern, hbehind⟩
    obtain ⟨hu, hv⟩ := hparts rfl
    obtain ⟨r, hr⟩ := (isPattern_iff hu).1 hpattern
    obtain ⟨e, he⟩ := (isPattern_behind_iff h r v hv).1 hbehind
    exact ⟨e, (r, ')' :: v), (readGroup_close v).2 hr, v, rfl, he⟩

theorem not_isPattern_close (h : IsPattern Pattern u) (v : Text) :
    ¬IsPattern Pattern (u ++ ')' :: v) := by
  intro hp
  have hu : u.length < (u ++ ')' :: v).length + 1 := by
    rw [List.length_append]
    omega
  obtain ⟨e, he⟩ := (isPattern_iff (Nat.lt_succ_self _)).1 hp
  obtain ⟨r, hr⟩ := (isPattern_iff hu).1 h
  rw [(readGroup_close v).2 hr] at he
  cases he

end Regex

namespace Pattern

def Spans (p : Pattern) : Text → ℕ → ℕ → Prop := p.regex.Spans

/-- All of it holds without further conditions on the patterns. -/
theorem laws : Laws Pattern Spans fun _ ↦ True where
  isMatch_iff he t := by
    obtain ⟨r, hr, rfl⟩ := Option.map_eq_some_iff.1 he
    exact Regex.isMatch_iff_spans (Regex.parse?_hasBounds hr) t
  compile?_row hr _ := by
    obtain ⟨rs, hrs⟩ := Regex.exists_readAs hr
    refine ⟨_, Option.map_eq_some_iff.2 ⟨_, Regex.parse?_row hrs, rfl⟩, fun t i j ↦ ?_⟩
    refine Iff.trans ?_ (Regex.matchInTurn_iff hrs).symm
    change _ ∧ _ ∧ _ ↔ _
    rw [Regex.matches_inRow_iff]
  isPattern_group_iff hr _ := by
    obtain ⟨rs, hrs⟩ := Regex.exists_readAs hr
    exact Regex.isPattern_group_iff hrs
  not_isPattern_close hu _ := Regex.not_isPattern_close hu _

end Pattern

end Highlighter
