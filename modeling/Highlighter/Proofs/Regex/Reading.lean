import Highlighter.Regex.Reader
import Mathlib.Data.List.Infix

/-!
A closing parenthesis behind a pattern ends what is read of it, as the end of the pattern does:
reading goes the same way up to there, whatever follows. So the readers of the parts of a pattern
are composed here from readers that have this property.
-/

namespace Highlighter.Regex

variable {α β : Type} {f g : Text → Option (α × Text)} {t rest : Text} {x : α}

/-- What was read, with a closing parenthesis and more text behind what is left. -/
def closed (w : Text) (r : α × Text) : α × Text := (r.1, r.2 ++ ')' :: w)

/-- Reads from the front of a text, and the same with a closing parenthesis behind the text, where
nothing from there on is read and `P` holds of what is left of the text. -/
structure IsReaderWhere (P : Text → Prop) (f : Text → Option (α × Text)) : Prop where
  suffix {t rest : Text} {x : α} (h : f t = some (x, rest)) : rest <:+ t
  append_iff_of {t rest : Text} {x : α} (w : Text) (h : P rest) :
    f (t ++ ')' :: w) = some (x, rest ++ ')' :: w) ↔ f t = some (x, rest)

abbrev IsReader (f : Text → Option (α × Text)) : Prop := IsReaderWhere (fun _ ↦ True) f

/-! ### Readers from readers -/

/-- Nothing that is left of a text reaches beyond it. -/
theorem not_append_suffix (rest w : Text) : ¬ rest ++ ')' :: w <:+ w := by
  intro h
  have hle := h.length_le
  rw [List.length_append, List.length_cons] at hle
  omega

theorem ne_cons_of_head? {d : Char} (h : t.head? ≠ some d) (t' : Text) : t ≠ d :: t' :=
  fun ht ↦ h (ht ▸ rfl)

theorem head?_ne_closed {d : Char} (hd : d ≠ ')') (h : t.head? ≠ some d) (w : Text) :
    (t ++ ')' :: w).head? ≠ some d := by
  cases t with
  | nil => exact fun hd' ↦ hd (Option.some.inj hd').symm
  | cons c t => exact h

/-- One reader after another, which reads on only where the first one may stop. -/
theorem IsReaderWhere.bind {k : α → Text → Option (β × Text)} {P Q : Text → Prop}
    (hf : IsReaderWhere P f) (hk : ∀ x, IsReaderWhere Q (k x))
    (hP : ∀ {x t r}, k x t = some r → P t) :
    IsReaderWhere Q fun t ↦ (f t).bind fun r ↦ k r.1 r.2 where
  suffix {t rest y} h := by
    obtain ⟨⟨x, mid⟩, hr, hs⟩ := Option.bind_eq_some_iff.1 h
    exact ((hk x).suffix hs).trans (hf.suffix hr)
  append_iff_of {t rest y} w hq := by
    simp only [Option.bind_eq_some_iff]
    constructor
    · rintro ⟨⟨x, mid⟩, hr, hs⟩
      obtain ⟨mid, rfl⟩ := (List.suffix_append rest _).trans ((hk x).suffix hs)
      have hs' := ((hk x).append_iff_of w hq).1 hs
      exact ⟨(x, mid), (hf.append_iff_of w (hP hs')).1 hr, hs'⟩
    · rintro ⟨⟨x, mid⟩, hr, hs⟩
      exact ⟨(x, mid ++ ')' :: w), (hf.append_iff_of w (hP hs)).2 hr,
        ((hk x).append_iff_of w hq).2 hs⟩

namespace IsReader

theorem append_iff (hf : IsReader f) (w : Text) :
    f (t ++ ')' :: w) = some (x, rest ++ ')' :: w) ↔ f t = some (x, rest) :=
  hf.append_iff_of w trivial

/-- It is enough that the parenthesis changes nothing but what is left. -/
theorem of_closed (hs : ∀ {t rest x}, f t = some (x, rest) → rest <:+ t)
    (h : ∀ t w, f (t ++ ')' :: w) = (f t).map (closed w)) : IsReader f where
  suffix := hs
  append_iff_of {t rest x} w _ := by
    rw [h, Option.map_eq_some_iff]
    constructor
    · rintro ⟨⟨y, rest'⟩, hr, heq⟩
      obtain ⟨rfl, rfl⟩ : y = x ∧ rest' = rest := by
        simpa only [closed, Prod.mk.injEq, List.append_cancel_right_eq] using heq
      exact hr
    · exact fun hr ↦ ⟨_, hr, rfl⟩

theorem const (x : Option α) : IsReader fun t ↦ x.map (·, t) := by
  cases x with
  | none => exact .of_closed nofun fun _ _ ↦ rfl
  | some x => exact .of_closed (fun h ↦ by cases h; exact List.suffix_rfl) fun _ _ ↦ rfl

theorem pure (x : α) : IsReader fun t ↦ some (x, t) := const (some x)

theorem fail : IsReader fun _ ↦ (none : Option (α × Text)) := const none

/-- A text of which nothing is left has no first character, and one that begins with the
parenthesis behind it is not read. -/
theorem cons (hnil : f [] = none) (h : ∀ c, IsReader fun t ↦ f (c :: t)) : IsReader f where
  suffix {t rest x} hr := by
    cases t with
    | nil => rw [hnil] at hr; cases hr
    | cons c t => exact ((h c).suffix hr).trans (List.suffix_cons c t)
  append_iff_of {t rest x} w _ := by
    cases t with
    | nil =>
      rw [hnil]
      exact ⟨fun hr ↦ absurd ((h ')').suffix hr) (not_append_suffix rest w), nofun⟩
    | cons c t => exact (h c).append_iff w

/-- Nothing is read before a closing parenthesis. -/
theorem of_ends (x : α) (hnil : f [] = some (x, []))
    (hclose : ∀ t, f (')' :: t) = some (x, ')' :: t))
    (h : ∀ c ≠ ')', IsReader fun t ↦ f (c :: t)) : IsReader f where
  suffix {t rest y} hr := by
    cases t with
    | nil =>
      rw [hnil] at hr
      cases hr
      exact List.suffix_rfl
    | cons c t =>
      by_cases hc : c = ')'
      · subst hc
        rw [hclose] at hr
        cases hr
        exact List.suffix_rfl
      · exact ((h c hc).suffix hr).trans (List.suffix_cons c t)
  append_iff_of {t rest y} w _ := by
    cases t with
    | nil =>
      rw [hnil, List.nil_append, hclose]
      exact (pure x).append_iff (t := []) w
    | cons c t =>
      by_cases hc : c = ')'
      · subst hc
        rw [hclose, List.cons_append, hclose]
        exact (pure x).append_iff (t := ')' :: t) w
      · exact (h c hc).append_iff w

/-- One way to read after a certain sign, another one without it. -/
theorem of_head (d : Char) (hd : d ≠ ')') (hf : IsReader fun t ↦ f (d :: t)) (hg : IsReader g)
    (h : ∀ t, t.head? ≠ some d → f t = g t) : IsReader f where
  suffix {t rest x} hr := by
    by_cases ht : t.head? = some d
    · obtain ⟨t, rfl⟩ := List.head?_eq_some_iff.1 ht
      exact (hf.suffix hr).trans (List.suffix_cons d t)
    · exact hg.suffix (h t ht ▸ hr)
  append_iff_of {t rest x} w _ := by
    by_cases ht : t.head? = some d
    · obtain ⟨t, rfl⟩ := List.head?_eq_some_iff.1 ht
      exact hf.append_iff w
    · rw [h t ht, h _ (head?_ne_closed hd ht w)]
      exact hg.append_iff w

theorem bind {k : α → Text → Option (β × Text)} {P : Text → Prop} (hf : IsReader f)
    (hk : ∀ x, IsReaderWhere P (k x)) : IsReaderWhere P fun t ↦ (f t).bind fun r ↦ k r.1 r.2 :=
  IsReaderWhere.bind hf hk fun _ ↦ trivial

theorem map (k : α → β) (hf : IsReader f) :
    IsReader fun t ↦ (f t).map fun r ↦ (k r.1, r.2) := by
  simp only [Option.map_eq_bind]
  exact hf.bind fun x ↦ pure (k x)

theorem ite {P : Prop} [Decidable P] (hf : IsReader f) (hg : IsReader g) :
    IsReader fun t ↦ if P then f t else g t := by
  by_cases h : P
  · simpa only [if_pos h] using hf
  · simpa only [if_neg h] using hg

theorem close_iff (hf : IsReader f) (w : Text) :
    f (t ++ ')' :: w) = some (x, ')' :: w) ↔ f t = some (x, []) :=
  @append_iff _ f t [] x hf w

end IsReader

/-! ### Escapes -/

theorem isReader_readHexDigits (n value : ℕ) : IsReader (readHexDigits n value) := by
  induction n generalizing value with
  | zero => exact .pure value
  | succ n ih =>
    refine .cons rfl fun c ↦ ?_
    simp only [readHexDigits]
    cases Text.hexValue? c with
    | none => exact .fail
    | some d => exact ih (16 * value + d)

/-- A run of characters other than parentheses does not go on beyond the text. -/
theorem span_closed {p : Char → Bool} (hp : p ')' = false) (t w : Text) :
    (t ++ ')' :: w).span p = ((t.span p).1, (t.span p).2 ++ ')' :: w) := by
  simp only [List.span_eq_takeWhile_dropWhile]
  induction t with
  | nil => simp [hp]
  | cons c t ih => by_cases hc : p c = true <;> simp_all

theorem span_suffix {p : Char → Bool} {inner : Text} (h : t.span p = (inner, rest)) :
    rest <:+ t := by
  rw [List.span_eq_takeWhile_dropWhile] at h
  obtain ⟨-, rfl⟩ := Prod.mk.inj h
  exact List.dropWhile_suffix p

/-- Where a sign does not stand in the text, what is read up to it has the parenthesis in it, and
reaches beyond the text. -/
theorem span_until {d : Char} (hd : d ≠ ')') (t w : Text) :
    (∃ inner rest, t.span (· != d) = (inner, d :: rest) ∧
      (t ++ ')' :: w).span (· != d) = (inner, d :: (rest ++ ')' :: w))) ∨
    t.span (· != d) = (t, []) ∧ ')' ∈ ((t ++ ')' :: w).span (· != d)).1 ∧
      ((t ++ ')' :: w).span (· != d)).2 <:+ w := by
  simp only [List.span_eq_takeWhile_dropWhile]
  induction t with
  | nil => simp [hd.symm, List.dropWhile_suffix]
  | cons c t ih =>
    by_cases hc : c = d
    · subst hc
      exact .inl ⟨[], t, by simp⟩
    · obtain ⟨inner, rest, h₁, h₂⟩ | ⟨h₁, h₂⟩ := ih
      · refine .inl ⟨c :: inner, rest, ?_⟩
        simp_all
      · refine .inr ?_
        simp_all

/-- What stands before a sign, and what comes after that. -/
def readUntil (d : Char) (t : Text) : Option (Text × Text) :=
  match t.span (· != d) with
  | (inner, _ :: rest) => some (inner, rest)
  | _ => none

theorem isReader_readUntil {d : Char} (hd : d ≠ ')') : IsReader (readUntil d) where
  suffix {t rest inner} h := by
    rw [readUntil] at h
    split at h
    · next e _ hspan =>
      cases h
      exact (List.suffix_cons e rest).trans (span_suffix hspan)
    · cases h
  append_iff_of {t rest inner} w _ := by
    rw [readUntil, readUntil]
    obtain ⟨inner', rest', ht, htw⟩ | ⟨ht, -, htw⟩ := span_until hd t w
    · rw [ht, htw]
      simp
    · rw [ht]
      refine ⟨fun h ↦ ?_, nofun⟩
      split at h
      · next e _ hspan =>
        cases h
        rw [hspan] at htw
        exact absurd ((List.suffix_cons e _).trans htw) (not_append_suffix rest w)
      · cases h

/-- The code point in braces. -/
def bracedChar? (inner : Text) : Option Char :=
  if inner = [] then none else do validChar? (← readHexDigits inner.length 0 inner).1

theorem readCodePoint_brace (digits : ℕ) (t : Text) : readCodePoint digits ('{' :: t) =
    (readUntil '}' t).bind fun r ↦ (bracedChar? r.1).map (·, r.2) := by
  rw [readCodePoint, readUntil]
  rcases t.span (· != '}') with ⟨_ | ⟨c, inner⟩, _ | ⟨d, rest⟩⟩
  · rfl
  · rfl
  · rfl
  · simp only [Option.bind_some, bracedChar?, if_neg (List.cons_ne_nil c inner),
      Option.map_eq_bind, Option.bind_eq_bind, Option.bind_assoc]
    rfl

theorem isReader_readCodePoint (digits : ℕ) : IsReader (readCodePoint digits) := by
  have hdigits : IsReader fun t ↦ (readHexDigits digits 0 t).bind fun r ↦
      (validChar? r.1).map (·, r.2) :=
    (isReader_readHexDigits digits 0).bind fun n ↦ IsReader.const (validChar? n)
  refine .of_head '{' (by decide) ?_ hdigits fun t ht ↦ ?_
  · simp only [readCodePoint_brace]
    exact (isReader_readUntil (d := '}') (by decide)).bind fun inner ↦
      IsReader.const (bracedChar? inner)
  · rw [readCodePoint.eq_2 digits t (ne_cons_of_head? ht)]
    simp only [Option.map_eq_bind]
    rfl

def isHalfSign (c : Char) : Bool := c.isAlpha || c == '-'

/-- The half of a word boundary that is named in braces. -/
def half? (name : Text) : Option Boundary :=
  if name = "start".toList then some .wordStart
  else if name = "end".toList then some .wordEnd
  else if name = "start-half".toList then some .noWordBefore
  else if name = "end-half".toList then some .noWordAfter
  else none

theorem readWordBoundary_brace (t : Text) : readWordBoundary ('{' :: t) =
    if t.head?.any isHalfSign then
      match (t.span isHalfSign).2 with
      | '}' :: rest => (half? (t.span isHalfSign).1).map (·, rest)
      | _ => none
    else some (.word, '{' :: t) := by
  unfold readWordBoundary
  change (if t.head?.any isHalfSign then _ else _) = _
  congr 1
  change (match (t.span isHalfSign).2 with | '}' :: rest => _ | _ => none) = _
  split
  · simp only [half?, apply_ite (Option.map _), Option.map_some, Option.map_none]
    rfl
  · rfl

theorem readWordBoundary_of_ne (h : t.head? ≠ some '{') : readWordBoundary t = some (.word, t) :=
  readWordBoundary.eq_2 t (ne_cons_of_head? h)

theorem readWordBoundary_suffix {b : Boundary} (h : readWordBoundary t = some (b, rest)) :
    rest <:+ t := by
  by_cases ht : t.head? = some '{'
  · obtain ⟨t, rfl⟩ := List.head?_eq_some_iff.1 ht
    rw [readWordBoundary_brace] at h
    split at h
    · split at h
      · next rest' hspan =>
        obtain ⟨_, -, h⟩ := Option.map_eq_some_iff.1 h
        cases h
        have hs : '}' :: rest <:+ t := span_suffix (Prod.ext rfl hspan)
        exact ((List.suffix_cons '}' rest).trans hs).trans (List.suffix_cons '{' t)
      · cases h
    · cases h
      exact List.suffix_rfl
  · rw [readWordBoundary_of_ne ht] at h
    cases h
    exact List.suffix_rfl

theorem readWordBoundary_closed (t w : Text) :
    readWordBoundary (t ++ ')' :: w) = (readWordBoundary t).map (closed w) := by
  by_cases ht : t.head? = some '{'
  · obtain ⟨t, rfl⟩ := List.head?_eq_some_iff.1 ht
    have hhead : (t ++ ')' :: w).head?.any isHalfSign = t.head?.any isHalfSign := by
      cases t <;> rfl
    rw [List.cons_append, readWordBoundary_brace, readWordBoundary_brace, hhead,
      span_closed (p := isHalfSign) (by decide)]
    rcases t.span isHalfSign with ⟨name, mid⟩
    split
    · cases mid with
      | nil => rfl
      | cons c mid =>
        by_cases hc : c = '}'
        · subst hc
          cases half? name <;> simp [closed]
        · simp [hc]
    · rfl
  · rw [readWordBoundary_of_ne ht, readWordBoundary_of_ne (head?_ne_closed (by decide) ht w)]
    rfl

theorem isReader_readWordBoundary : IsReader readWordBoundary :=
  .of_closed readWordBoundary_suffix readWordBoundary_closed

theorem isReader_readEscape : IsReader readEscape := by
  refine .cons rfl fun c ↦ ?_
  by_cases hb : c = 'b'
  · subst hb
    exact isReader_readWordBoundary.map Atom.boundary
  by_cases hx : c = 'x'
  · subst hx
    exact (isReader_readCodePoint 2).map Atom.char
  by_cases hu : c = 'u'
  · subst hu
    exact (isReader_readCodePoint 4).map Atom.char
  by_cases hU : c = 'U'
  · subst hU
    exact (isReader_readCodePoint 8).map Atom.char
  obtain ⟨a, h⟩ : ∃ a : Option Atom, ∀ t, readEscape (c :: t) = a.map (·, t) := by
    refine ⟨(readEscape [c]).map Prod.fst, fun t ↦ ?_⟩
    simp only [readEscape]
    split <;> first | rfl | contradiction | skip
    split <;> rfl
  simpa only [h] using .const a

/-! ### Classes -/

theorem close_not_mem_of_asciiClass? {name : String} {s : CharSet} (h : asciiClass? name = some s) :
    ')' ∉ name.toList := by
  unfold asciiClass? at h
  split at h
  case h_15 => cases h
  all_goals decide

/-- A named class, after the signs before its name. -/
def readClassName (modes : Modes) (negated : Bool) (t : Text) : Option (CharSet × Text) :=
  match t.span (· != ':') with
  | (name, ':' :: ']' :: rest) => do
    let s := modes.fold (← asciiClass? (String.ofList name))
    return (if negated then .compl s else s, rest)
  | _ => none

theorem readAsciiClass_of_ne {modes : Modes} (h : t.head? ≠ some '^') :
    readAsciiClass modes (':' :: t) = readClassName modes false t :=
  readAsciiClass.eq_2 modes t (ne_cons_of_head? h)

theorem readAsciiClass_eq_none {modes : Modes} (h : t.head? ≠ some ':') :
    readAsciiClass modes t = none :=
  readAsciiClass.eq_3 modes t (ne_cons_of_head? h)

theorem readClassName_suffix {modes : Modes} {negated : Bool} {s : CharSet}
    (h : readClassName modes negated t = some (s, rest)) : rest <:+ t := by
  rw [readClassName] at h
  split at h
  · next hspan =>
    obtain ⟨_, -, h⟩ := Option.bind_eq_some_iff.1 h
    cases h
    exact (List.suffix_append [':', ']'] rest).trans (span_suffix hspan)
  · cases h

theorem readClassName_closed (modes : Modes) (negated : Bool) (t w : Text) :
    readClassName modes negated (t ++ ')' :: w) =
      (readClassName modes negated t).map (closed w) := by
  rw [readClassName, readClassName]
  obtain ⟨name, rest, ht, htw⟩ | ⟨ht, htw, -⟩ := span_until (d := ':') (by decide) t w
  · rw [ht, htw]
    cases rest with
    | nil => rfl
    | cons c rest =>
      by_cases hc : c = ']'
      · subst hc
        simp only [List.cons_append]
        cases asciiClass? (String.ofList name) <;> rfl
      · simp [hc]
  · rw [ht]
    split
    · next name rest hspan =>
      rw [hspan] at htw
      cases h : asciiClass? (String.ofList name) with
      | none => rfl
      | some s =>
        have hmem := close_not_mem_of_asciiClass? h
        rw [String.toList_ofList] at hmem
        exact absurd htw hmem
    · rfl

theorem readAsciiClass_suffix {modes : Modes} {s : CharSet}
    (h : readAsciiClass modes t = some (s, rest)) : rest <:+ t := by
  by_cases ht : t.head? = some ':'
  · obtain ⟨t, rfl⟩ := List.head?_eq_some_iff.1 ht
    by_cases ht' : t.head? = some '^'
    · obtain ⟨t, rfl⟩ := List.head?_eq_some_iff.1 ht'
      exact (readClassName_suffix h).trans (List.suffix_append [':', '^'] t)
    · rw [readAsciiClass_of_ne ht'] at h
      exact (readClassName_suffix h).trans (List.suffix_cons ':' t)
  · rw [readAsciiClass_eq_none ht] at h
    cases h

theorem readAsciiClass_closed (modes : Modes) (t w : Text) :
    readAsciiClass modes (t ++ ')' :: w) = (readAsciiClass modes t).map (closed w) := by
  by_cases ht : t.head? = some ':'
  · obtain ⟨t, rfl⟩ := List.head?_eq_some_iff.1 ht
    by_cases ht' : t.head? = some '^'
    · obtain ⟨t, rfl⟩ := List.head?_eq_some_iff.1 ht'
      exact readClassName_closed modes true t w
    · rw [List.cons_append, readAsciiClass_of_ne ht',
        readAsciiClass_of_ne (head?_ne_closed (by decide) ht' w)]
      exact readClassName_closed modes false t w
  · rw [readAsciiClass_eq_none ht, readAsciiClass_eq_none (head?_ne_closed (by decide) ht w)]
    rfl

theorem isReader_readClassHyphens (modes : Modes) (st : ClassState) :
    IsReader fun t ↦ some (readClassHyphens modes st t) := by
  refine .of_closed (fun {t rest st'} h ↦ ?_) fun t w ↦ congrArg some ?_
  · have hs : (readClassHyphens modes st t).2 <:+ t := by
      clear h
      fun_induction readClassHyphens modes st t with
      | case1 st t ih => exact ih.trans (List.suffix_cons '-' t)
      | case2 => exact List.suffix_rfl
    rwa [Option.some.inj h] at hs
  · fun_induction readClassHyphens modes st t with
    | case1 st t ih => exact ih
    | case2 st t ht =>
      have htw : (t ++ ')' :: w).head? ≠ some '-' := by
        refine head?_ne_closed (by decide) (fun h ↦ ?_) w
        obtain ⟨t, rfl⟩ := List.head?_eq_some_iff.1 h
        exact ht t rfl
      exact readClassHyphens.eq_2 modes st _ (ne_cons_of_head? htw)

/-- A closing bracket is an item where no other one stands before it. -/
def openItems (negated : Bool) (st : ClassState) : Text → (Bool × ClassState) × Text
  | ']' :: t =>
    if st.items = .none then ((negated, st.add (.single ']')), t) else ((negated, st), ']' :: t)
  | t => ((negated, st), t)

theorem isReader_openItems (negated : Bool) (st : ClassState) :
    IsReader fun t ↦ some (openItems negated st t) := by
  by_cases hst : st.items = .none
  · refine .of_head ']' (by decide) ?_ (.pure (negated, st)) fun t ht ↦ ?_
    · simpa only [openItems, if_pos hst] using .pure (negated, st.add (.single ']'))
    · rw [openItems.eq_2 negated st t (ne_cons_of_head? ht)]
  · have h (t : Text) : openItems negated st t = ((negated, st), t) := by
      unfold openItems
      split
      · rw [if_neg hst]
      · rfl
    simpa only [h] using .pure (negated, st)

/-- The signs at the beginning of a class, with what they say set apart from what is left. -/
def readClassOpening (modes : Modes) (t : Text) : Option ((Bool × ClassState) × Text) :=
  let (negated, st, rest) := openClass modes t
  some ((negated, st), rest)

theorem readClassOpening_eq {modes : Modes} {negated : Bool} {t' : Text}
    (h : openClass modes t = match readClassHyphens modes {} t' with
      | (st, ']' :: rest) =>
        if st.items = .none then (negated, st.add (.single ']'), rest)
        else (negated, st, ']' :: rest)
      | (st, rest) => (negated, st, rest)) :
    readClassOpening modes t = (some (readClassHyphens modes {} t')).bind fun r ↦
      some (openItems negated r.1 r.2) := by
  rw [readClassOpening, h]
  rcases readClassHyphens modes {} t' with ⟨st, _ | ⟨c, rest⟩⟩
  · rfl
  · by_cases hc : c = ']'
    · subst hc
      by_cases hst : st.items = .none <;> simp [openItems, hst]
    · simp [openItems, hc]

theorem isReader_readClassOpening (modes : Modes) : IsReader (readClassOpening modes) := by
  have hopen (negated : Bool) := (isReader_readClassHyphens modes {}).bind fun st ↦
    isReader_openItems negated st
  refine .of_head '^' (by decide) ?_ (hopen false) fun t ht ↦
    readClassOpening_eq (openClass.eq_2 modes t (ne_cons_of_head? ht))
  simp only [readClassOpening_eq (openClass.eq_1 modes _)]
  exact hopen true

theorem isReader_readClassAtom_cons (c : Char) : IsReader fun t ↦ readClassAtom (c :: t) := by
  by_cases hc : c = '\\'
  · subst hc
    exact isReader_readEscape
  · simpa only [readClassAtom, hc] using .pure (Atom.char c)

theorem isReader_readClassAtom : IsReader readClassAtom := .cons rfl isReader_readClassAtom_cons

/-- Whether a range goes on after its first character. -/
def goesOn : Text → Bool
  | '-' :: t => t.head? != some ']' && t.head? != some '-'
  | _ => false

/-- An item that is no range. -/
def singleItem? (modes : Modes) : Atom → Option CharSet
  | .char c => some (modes.fold (.single c))
  | .set s => some s
  | .boundary _ => none

def rangeItem? (modes : Modes) : Atom → Atom → Option CharSet
  | .char a, .char b => if a ≤ b then some (modes.fold (.range a b)) else none
  | _, _ => none

/-- A range after its first character and the hyphen. -/
def readRange (modes : Modes) (first : Atom) (t : Text) : Option (CharSet × Text) :=
  (readClassAtom t).bind fun r ↦ (rangeItem? modes first r.1).map (·, r.2)

theorem isReader_readRange (modes : Modes) (first : Atom) : IsReader (readRange modes first) :=
  isReader_readClassAtom.bind fun last ↦ IsReader.const (rangeItem? modes first last)

/-- An item of a class after its first atom. -/
def readItemFrom (modes : Modes) (first : Atom) (t : Text) : Option (CharSet × Text) :=
  if t = [] then none
  else if goesOn t then readRange modes first t.tail
  else (singleItem? modes first).map (·, t)

theorem readClassItem_eq (modes : Modes) (t : Text) : readClassItem modes t =
    (readClassAtom t).bind fun r ↦ readItemFrom modes r.1 r.2 := by
  rw [readClassItem]
  change (readClassAtom t).bind _ = _
  refine Option.bind_congr fun ⟨first, mid⟩ _ ↦ ?_
  rw [readItemFrom]
  cases mid with
  | nil => rfl
  | cons d mid =>
    by_cases hd : d = '-'
    · subst hd
      cases mid with
      | nil => rfl
      | cons c after =>
        by_cases hc : c = ']'
        · subst hc
          cases first <;> rfl
        by_cases hc' : c = '-'
        · subst hc'
          cases first <;> rfl
        · have hon : goesOn ('-' :: c :: after) = true := by simp [goesOn, hc, hc']
          simp only [reduceCtorEq, hon, if_false, if_true]
          split
          · next h => cases h
          · next h => cases h; exact absurd rfl hc
          · next h => cases h; exact absurd rfl hc'
          · change (readClassAtom (c :: after)).bind _ = _
            refine Option.bind_congr fun ⟨last, rest⟩ _ ↦ ?_
            cases first <;> cases last <;> simp [rangeItem?, apply_ite (Option.map _)]
    · have hon : goesOn (d :: mid) = false := by simp [goesOn, hd]
      cases first <;> simp [hd, hon, singleItem?]

theorem goesOn_closed (h : t ≠ []) (w : Text) : goesOn (t ++ ')' :: w) = goesOn t := by
  cases t with
  | nil => exact absurd rfl h
  | cons c t =>
    by_cases hc : c = '-'
    · subst hc
      cases t <;> rfl
    · simp [goesOn, hc]

theorem isReader_readItemFrom (modes : Modes) (first : Atom) :
    IsReaderWhere (· ≠ []) (readItemFrom modes first) where
  suffix {t rest s} h := by
    rw [readItemFrom] at h
    split at h
    · cases h
    · split at h
      · exact ((isReader_readRange modes first).suffix h).trans (List.tail_suffix t)
      · exact (IsReader.const _).suffix h
  append_iff_of {t rest s} w hrest := by
    have hw : t ++ ')' :: w ≠ [] := List.append_ne_nil_of_right_ne_nil t nofun
    rw [readItemFrom, if_neg hw]
    cases t with
    | nil =>
      -- Only the parenthesis itself ends the item, so nothing of the text is left.
      have hon : goesOn (')' :: w) = false := rfl
      refine ⟨fun h ↦ ?_, nofun⟩
      rw [List.nil_append, hon, if_neg Bool.false_ne_true] at h
      obtain ⟨_, -, h⟩ := Option.map_eq_some_iff.1 h
      have hlen := congrArg List.length (Prod.mk.inj h).2
      rw [List.length_append, List.length_cons] at hlen
      exact absurd (List.length_eq_zero_iff.1 (by omega)) hrest
    | cons c t =>
      rw [readItemFrom, if_neg (List.cons_ne_nil c t), goesOn_closed (List.cons_ne_nil c t)]
      split
      · exact (isReader_readRange modes first).append_iff w
      · exact (IsReader.const _).append_iff w

theorem isReader_readClassItem_cons (modes : Modes) (c : Char) :
    IsReaderWhere (· ≠ []) fun t ↦ readClassItem modes (c :: t) := by
  simp only [readClassItem_eq]
  exact (isReader_readClassAtom_cons c).bind fun first ↦ isReader_readItemFrom modes first

def operator? : Char → Option SetOperator
  | '&' => some .inter
  | '-' => some .diff
  | '~' => some .symmDiff
  | _ => none

/-- A class after its opening bracket. -/
def readOpenClass (modes : Modes) (fuel : ℕ) (t : Text) : Option (CharSet × Text) :=
  (readClassOpening modes t).bind fun r ↦ readClass modes fuel r.1.1 r.1.2 r.2

/-- A class inside a class, after its opening bracket. -/
def readInnerClass (modes : Modes) (fuel : ℕ) (t : Text) : Option (CharSet × Text) :=
  match readAsciiClass modes t with
  | some r => some r
  | none => readOpenClass modes fuel t

section

variable {modes : Modes} {fuel : ℕ} {negated : Bool} {st : ClassState} {c : Char}

theorem readClass_operator {op : SetOperator} (h : operator? c = some op) :
    readClass modes (fuel + 1) negated st (c :: c :: t) =
      readClass modes fuel negated (st.operate op) t := by
  unfold operator? at h
  split at h <;> cases h <;> rfl

theorem readClass_bracket : readClass modes (fuel + 1) negated st ('[' :: t) =
    (readInnerClass modes fuel t).bind fun r ↦ readClass modes fuel negated (st.add r.1) r.2 := by
  rw [readClass, readInnerClass]
  cases readAsciiClass modes t <;> rfl

theorem readClass_item (hc : c ≠ ']') (hb : c ≠ '[')
    (ho : operator? c = none ∨ t.head? ≠ some c) :
    readClass modes (fuel + 1) negated st (c :: t) =
      (readClassItem modes (c :: t)).bind fun r ↦
        readClass modes fuel negated (st.add r.1) r.2 := by
  have hno {d : Char} {op : SetOperator} (hd : operator? d = some op) (t' : Text) (h : c = d)
      (h' : t = d :: t') : False := by
    subst h h'
    obtain ho | ho := ho
    · rw [hd] at ho
      cases ho
    · exact ho rfl
  rw [readClass.eq_8 modes negated st fuel c t hc hb (hno (d := '&') rfl) (hno (d := '-') rfl)
    (hno (d := '~') rfl)]
  rfl

end

theorem readClass_nil (modes : Modes) (fuel : ℕ) (negated : Bool) (st : ClassState) :
    readClass modes fuel negated st [] = none := by
  cases fuel <;> rfl

theorem isReader_readOpenClass_of {modes : Modes} {fuel : ℕ}
    (h : ∀ negated st, IsReader (readClass modes fuel negated st)) :
    IsReader (readOpenClass modes fuel) :=
  (isReader_readClassOpening modes).bind fun signs ↦ h signs.1 signs.2

theorem isReader_readInnerClass_of {modes : Modes} {fuel : ℕ}
    (h : IsReader (readOpenClass modes fuel)) : IsReader (readInnerClass modes fuel) where
  suffix {t rest s} hr := by
    rw [readInnerClass] at hr
    split at hr
    · next hname =>
      cases hr
      exact readAsciiClass_suffix hname
    · exact h.suffix hr
  append_iff_of {t rest s} w _ := by
    rw [readInnerClass, readInnerClass, readAsciiClass_closed]
    cases readAsciiClass modes t with
    | some r => simp [closed, Prod.ext_iff]
    | none => exact h.append_iff w

theorem isReader_readClass (modes : Modes) (fuel : ℕ) (negated : Bool) (st : ClassState) :
    IsReader (readClass modes fuel negated st) := by
  induction fuel generalizing negated st with
  | zero => exact .fail
  | succ fuel ih =>
    refine .cons rfl fun c ↦ ?_
    by_cases hc : c = ']'
    · subst hc
      exact .pure (if negated then .compl st.value else st.value)
    by_cases hb : c = '['
    · subst hb
      simp only [readClass_bracket]
      exact (isReader_readInnerClass_of (isReader_readOpenClass_of ih)).bind fun s ↦
        ih negated (st.add s)
    -- A class is not at its end behind an item, so what the item leaves is not empty.
    have hitem : IsReader fun t ↦ (readClassItem modes (c :: t)).bind fun r ↦
        readClass modes fuel negated (st.add r.1) r.2 := by
      refine (isReader_readClassItem_cons modes c).bind (fun s ↦ ih negated (st.add s)) ?_
      rintro s t r hr rfl
      rw [readClass_nil] at hr
      cases hr
    cases ho : operator? c with
    | none => simpa only [readClass_item hc hb (.inl ho)] using hitem
    | some op =>
      have hclose : c ≠ ')' := by
        rintro rfl
        cases ho
      refine .of_head c hclose ?_ hitem fun t ht ↦ readClass_item hc hb (.inr ht)
      simpa only [readClass_operator ho] using ih negated (st.operate op)

theorem isReader_readOpenClass (modes : Modes) (fuel : ℕ) : IsReader (readOpenClass modes fuel) :=
  isReader_readOpenClass_of (isReader_readClass modes fuel)

theorem readOpenClass_fuel_of {modes : Modes} {fuel fuel' : ℕ}
    (h : ∀ {t : Text} {negated st}, t.length < fuel → t.length < fuel' →
      readClass modes fuel negated st t = readClass modes fuel' negated st t)
    (ht : t.length < fuel) (ht' : t.length < fuel') :
    readOpenClass modes fuel t = readOpenClass modes fuel' t := by
  refine Option.bind_congr fun ⟨signs, mid⟩ hr ↦ ?_
  have hle := ((isReader_readClassOpening modes).suffix hr).length_le
  exact h (hle.trans_lt ht) (hle.trans_lt ht')

/-- More fuel than characters is enough fuel. -/
theorem readClass_fuel {modes : Modes} {fuel fuel' : ℕ} {negated : Bool} {st : ClassState}
    (h : t.length < fuel) (h' : t.length < fuel') :
    readClass modes fuel negated st t = readClass modes fuel' negated st t := by
  induction fuel generalizing fuel' negated st t with
  | zero => exact absurd h (Nat.not_lt_zero _)
  | succ fuel ih =>
    obtain ⟨fuel', rfl⟩ := Nat.exists_eq_succ_of_ne_zero (Nat.ne_zero_of_lt h')
    cases t with
    | nil => rfl
    | cons c t =>
      replace h : t.length < fuel := Nat.lt_of_succ_lt_succ h
      replace h' : t.length < fuel' := Nat.lt_of_succ_lt_succ h'
      by_cases hc : c = ']'
      · subst hc
        rfl
      by_cases hb : c = '['
      · subst hb
        have hinner : readInnerClass modes fuel t = readInnerClass modes fuel' t := by
          rw [readInnerClass, readInnerClass, readOpenClass_fuel_of ih h h']
        rw [readClass_bracket, readClass_bracket, hinner]
        refine Option.bind_congr fun ⟨s, mid⟩ hr ↦ ?_
        have hreader := isReader_readInnerClass_of (isReader_readOpenClass modes fuel')
        have hle := (hreader.suffix hr).length_le
        exact ih (hle.trans_lt h) (hle.trans_lt h')
      by_cases ho : operator? c = none ∨ t.head? ≠ some c
      · rw [readClass_item hc hb ho, readClass_item hc hb ho]
        refine Option.bind_congr fun ⟨s, mid⟩ hr ↦ ?_
        have hle := ((isReader_readClassItem_cons modes c).suffix hr).length_le
        exact ih (hle.trans_lt h) (hle.trans_lt h')
      · rw [not_or, not_not] at ho
        obtain ⟨op, hop⟩ := Option.ne_none_iff_exists'.1 ho.1
        obtain ⟨t, rfl⟩ := List.head?_eq_some_iff.1 ho.2
        rw [readClass_operator hop, readClass_operator hop]
        exact ih (Nat.lt_of_succ_lt h) (Nat.lt_of_succ_lt h')

theorem readOpenClass_fuel {modes : Modes} {fuel fuel' : ℕ} (h : t.length < fuel)
    (h' : t.length < fuel') : readOpenClass modes fuel t = readOpenClass modes fuel' t :=
  readOpenClass_fuel_of readClass_fuel h h'

end Highlighter.Regex
