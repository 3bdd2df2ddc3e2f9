import Highlighter.Theme
import Highlighter.Proofs.Text.Lowering
import Mathlib.Data.List.TakeWhile

/-!
The written form of colors. Reading accepts `#` and six hexadecimal digits of either case among
blanks, printing writes the digits in lower case, and themes read colors in the same way.
-/

namespace Highlighter

namespace Text

variable {c : Char} {t l r core : Text}

/-! ### Hexadecimal digits -/

/-- The digits in lower case, each at the place that is its value. -/
def hexLetters : Text := "0123456789abcdef".toList

def IsHexDigit (c : Char) : Prop := c.toLower ∈ hexLetters

instance (c : Char) : Decidable (IsHexDigit c) := inferInstanceAs (Decidable (_ ∈ hexLetters))

def digitValue (c : Char) : ℕ := hexLetters.idxOf c.toLower

theorem forall_of_all {p : Char → Prop} [DecidablePred p] (h : t.all (p ·) = true) :
    ∀ c ∈ t, p c := by simpa using h

theorem lt_of_isHexDigit (h : IsHexDigit c) : c.toNat < 128 := by
  by_contra hc
  have hlow : c.toLower = c := dif_neg fun ⟨_, hle⟩ ↦ hc (Nat.lt_of_le_of_lt hle (by decide))
  have hall : ∀ d ∈ hexLetters, d.toNat < 128 := forall_of_all (by decide)
  exact hc (hlow ▸ hall _ h)

/-- What holds of the first 128 characters can be tested. -/
theorem of_ascii {p : Char → Prop} (hp : ∀ n : Fin 128, p (.ofNat n.val)) (h : c.toNat < 128) :
    p c := by
  have hc := hp ⟨c.toNat, h⟩
  rwa [Char.ofNat_toNat] at hc

theorem hexValue?_eq (c : Char) :
    hexValue? c = if IsHexDigit c then some (digitValue c) else none := by
  by_cases h : c.toNat < 128
  · revert h
    exact of_ascii (p := fun c ↦ hexValue? c = if IsHexDigit c then some (digitValue c) else none)
      (by decide +kernel)
  · have hnot : ¬ IsHexDigit c := fun hc ↦ h (lt_of_isHexDigit hc)
    have hle (d : Char) (hd : d.toNat < 128) : ¬ c ≤ d := fun hcd ↦ h (Nat.lt_of_le_of_lt hcd hd)
    rw [if_neg hnot, hexValue?, if_neg (hle '9' (by decide) ·.2), if_neg (hle 'f' (by decide) ·.2),
      if_neg (hle 'F' (by decide) ·.2)]

theorem IsHexDigit.mem (h : IsHexDigit c) : c ∈ "0123456789abcdefABCDEF".toList := by
  revert h
  by_cases hc : c.toNat < 128
  · exact of_ascii (p := fun c ↦ IsHexDigit c → c ∈ "0123456789abcdefABCDEF".toList)
      (by decide +kernel) hc
  · exact fun h ↦ absurd (lt_of_isHexDigit h) hc

/-- What holds of all digits can be tested. -/
theorem IsHexDigit.of_all {p : Char → Prop} [DecidablePred p]
    (hp : "0123456789abcdefABCDEF".toList.all (p ·) = true) (h : IsHexDigit c) : p c :=
  forall_of_all hp c h.mem

theorem digitValue_lt (h : IsHexDigit c) : digitValue c < 16 := List.idxOf_lt_length_of_mem h

theorem hexDigit_digitValue (h : IsHexDigit c) : hexDigit (digitValue c) = c.toLower :=
  h.of_all (p := fun c ↦ hexDigit (digitValue c) = c.toLower) (by decide)

theorem lowerChar_of_sign_or_digit (h : c = '#' ∨ IsHexDigit c) :
    lowerChar c = [c.toLower] ∧ c ≠ 'Σ' := by
  have hall : ∀ c ∈ "#0123456789abcdefABCDEF".toList, lowerChar c = [c.toLower] ∧ c ≠ 'Σ' :=
    forall_of_all (by decide +kernel)
  exact hall c (List.mem_cons.2 (h.imp_right IsHexDigit.mem))

theorem isBlank_of_isHexDigit (h : IsHexDigit c) : isBlank c = false :=
  h.of_all (p := fun c ↦ isBlank c = false) (by decide +kernel)

/-! ### Digits as bytes -/

theorem utf8EncodeChar_ascii (h : c.toNat < 128) :
    String.utf8EncodeChar c = [.ofNat c.toNat] := by
  have hle : c.val.toNat ≤ 127 := Nat.le_of_lt_succ h
  rw [String.utf8EncodeChar, if_pos hle]
  rfl

theorem ofNat_toNat_ascii (h : c.toNat < 128) :
    Char.ofNat (UInt8.ofNat c.toNat).toNat = c := by
  rw [UInt8.toNat_ofNat', Nat.mod_eq_of_lt (by omega), Char.ofNat_toNat]

theorem not_isHexDigit_high {n : ℕ} (hn : 128 ≤ n) (hlt : n < 256) :
    ¬ IsHexDigit (.ofNat (UInt8.ofNat n).toNat) := by
  have hall : ∀ n : Fin 256, 128 ≤ n.val → ¬ IsHexDigit (.ofNat n.val) := by decide +kernel
  rw [UInt8.toNat_ofNat', Nat.mod_eq_of_lt hlt]
  exact hall ⟨n, hlt⟩ hn

/-- The first byte of any other character is not that of a digit. -/
theorem exists_high_byte (h : ¬ c.toNat < 128) :
    ∃ b ∈ String.utf8EncodeChar c, ¬ IsHexDigit (.ofNat b.toNat) := by
  have hgt : ¬ c.val.toNat ≤ 127 := fun hle ↦ h (Nat.lt_succ_of_le hle)
  rw [String.utf8EncodeChar, if_neg hgt]
  split
  · exact ⟨_, List.mem_cons_self, not_isHexDigit_high (by omega) (by omega)⟩
  · split
    · exact ⟨_, List.mem_cons_self, not_isHexDigit_high (by omega) (by omega)⟩
    · exact ⟨_, List.mem_cons_self, not_isHexDigit_high (by omega) (by omega)⟩

theorem forall_bytes_iff (t : Text) :
    (∀ b ∈ t.flatMap String.utf8EncodeChar, IsHexDigit (.ofNat b.toNat)) ↔
      ∀ c ∈ t, IsHexDigit c := by
  simp only [List.mem_flatMap, forall_exists_index, and_imp]
  constructor
  · intro h c hc
    have hlow : c.toNat < 128 := by
      by_contra hlow
      obtain ⟨b, hb, hnot⟩ := exists_high_byte hlow
      exact hnot (h b c hc hb)
    have hd := h _ c hc (utf8EncodeChar_ascii hlow ▸ List.mem_singleton_self _)
    rwa [ofNat_toNat_ascii hlow] at hd
  · intro h b c hc hb
    have hlow := lt_of_isHexDigit (h c hc)
    rw [utf8EncodeChar_ascii hlow, List.mem_singleton] at hb
    rw [hb, ofNat_toNat_ascii hlow]
    exact h c hc

theorem flatMap_utf8EncodeChar (h : ∀ c ∈ t, IsHexDigit c) :
    t.flatMap String.utf8EncodeChar = t.map fun c ↦ .ofNat c.toNat := by
  induction t with
  | nil => rfl
  | cons c t ih =>
    obtain ⟨hc, ht⟩ := List.forall_mem_cons.1 h
    rw [List.flatMap_cons, utf8EncodeChar_ascii (lt_of_isHexDigit hc), ih ht]
    rfl

/-! ### Blanks around a text -/

theorem exists_trim (t : Text) : ∃ l r, t = l ++ trim t ++ r ∧ (∀ x ∈ l, isBlank x = true) ∧
    ∀ x ∈ r, isBlank x = true := by
  have hsplit (t : Text) : t = t.takeWhile isBlank ++ trimLeft t :=
    List.takeWhile_append_dropWhile.symm
  have hblank (t : Text) : ∀ x ∈ t.takeWhile isBlank, isBlank x = true := fun x hx ↦
    List.mem_takeWhile_imp hx
  refine ⟨t.takeWhile isBlank, ((trimLeft t).reverse.takeWhile isBlank).reverse, ?_, hblank t,
    fun x hx ↦ hblank _ x (List.mem_reverse.1 hx)⟩
  have hright := congrArg List.reverse (hsplit (trimLeft t).reverse)
  rw [List.reverse_reverse, List.reverse_append] at hright
  rw [List.append_assoc, trim, trimRight, ← hright]
  exact hsplit t

theorem trimLeft_append (h : ∀ x ∈ l, isBlank x = true) (t : Text) :
    trimLeft (l ++ t) = trimLeft t := List.dropWhile_append_of_pos h

theorem trim_append (hl : ∀ x ∈ l, isBlank x = true) (hr : ∀ x ∈ r, isBlank x = true)
    (hcore : core ≠ []) (htrim : trim core = core) : trim (l ++ core ++ r) = core := by
  obtain ⟨hfirst, hlast⟩ := trim_eq_self_iff.1 htrim
  have hleft : trimLeft (core ++ r) = core ++ r := by
    rw [trimLeft_eq_self_iff, List.head?_append_of_ne_nil _ hcore]
    exact hfirst
  rw [trim, List.append_assoc, trimLeft_append hl, hleft, trimRight, List.reverse_append,
    trimLeft_append fun x hx ↦ hr x (List.mem_reverse.1 hx)]
  exact trimRight_eq_self_iff.2 hlast

end Text

namespace Color

open Text

variable {s : Text} {c : Color}

/-- Six hexadecimal digits after `#` among blanks, and the color of their three pairs. -/
inductive IsWritten : Text → Color → Prop
  | mk {left right : Text} {r₁ r₂ g₁ g₂ b₁ b₂ : Char} (hl : ∀ x ∈ left, isBlank x = true)
      (hr : ∀ x ∈ right, isBlank x = true) (hd : ∀ d ∈ [r₁, r₂, g₁, g₂, b₁, b₂], IsHexDigit d) :
      IsWritten (left ++ ['#', r₁, r₂, g₁, g₂, b₁, b₂] ++ right)
        (.rgb (.ofNat (16 * digitValue r₁ + digitValue r₂))
          (.ofNat (16 * digitValue g₁ + digitValue g₂))
          (.ofNat (16 * digitValue b₁ + digitValue b₂)))

/-- The number that six digits write, read byte by byte, and the color with its three bytes. -/
def ofBytes? (bytes : List UInt8) : Option Color :=
  if bytes.length == 6 && bytes.all (IsHexDigit <| .ofNat ·.toNat) then
    some (ofNat (bytes.foldl (fun n b ↦ 16 * n + digitValue (.ofNat b.toNat)) 0))
  else none

def readBytes? (s : Text) : Option Color :=
  match trim s with
  | '#' :: t => ofBytes? (t.flatMap String.utf8EncodeChar)
  | _ => none

theorem trim_written {r₁ r₂ g₁ g₂ b₁ b₂ : Char} {left right : Text}
    (hl : ∀ x ∈ left, isBlank x = true) (hr : ∀ x ∈ right, isBlank x = true)
    (hd : ∀ d ∈ [r₁, r₂, g₁, g₂, b₁, b₂], IsHexDigit d) :
    trim (left ++ ['#', r₁, r₂, g₁, g₂, b₁, b₂] ++ right) = ['#', r₁, r₂, g₁, g₂, b₁, b₂] := by
  refine trim_append hl hr (List.cons_ne_nil _ _) (trim_eq_self_iff.2 ⟨nofun, ?_⟩)
  have hlast := isBlank_of_isHexDigit (hd b₂ (by simp))
  simp [hlast]

theorem hexPair?_eq (high low : Char) :
    hexPair? high low = if IsHexDigit high ∧ IsHexDigit low then
      some (.ofNat (16 * digitValue high + digitValue low)) else none := by
  rw [hexPair?, hexValue?_eq, hexValue?_eq]
  by_cases hh : IsHexDigit high <;> by_cases hl : IsHexDigit low <;> simp [hh, hl]

theorem bind_hexPair?_eq_some_iff {r₁ r₂ g₁ g₂ b₁ b₂ : Char} :
    (do
      let r ← hexPair? r₁ r₂
      let g ← hexPair? g₁ g₂
      let b ← hexPair? b₁ b₂
      return Color.rgb r g b) = some c ↔
    (∀ d ∈ [r₁, r₂, g₁, g₂, b₁, b₂], IsHexDigit d) ∧
      c = .rgb (.ofNat (16 * digitValue r₁ + digitValue r₂))
        (.ofNat (16 * digitValue g₁ + digitValue g₂))
        (.ofNat (16 * digitValue b₁ + digitValue b₂)) := by
  simp only [hexPair?_eq, Option.bind_eq_bind, Option.bind_eq_some_iff,
    Option.ite_none_right_eq_some, List.forall_mem_cons, List.not_mem_nil, false_implies,
    implies_true, and_true, and_assoc, pure, Option.some.injEq]
  constructor
  · rintro ⟨_, hr₁, hr₂, rfl, _, hg₁, hg₂, rfl, _, hb₁, hb₂, rfl, rfl⟩
    exact ⟨hr₁, hr₂, hg₁, hg₂, hb₁, hb₂, rfl⟩
  · rintro ⟨hr₁, hr₂, hg₁, hg₂, hb₁, hb₂, rfl⟩
    exact ⟨_, hr₁, hr₂, rfl, _, hg₁, hg₂, rfl, _, hb₁, hb₂, rfl, rfl⟩

theorem parse?_eq_some_iff : parse? s = some c ↔ IsWritten s c := by
  constructor
  · intro h
    obtain ⟨left, right, hs, hl, hr⟩ := exists_trim s
    rw [parse?] at h
    split at h
    · next r₁ r₂ g₁ g₂ b₁ b₂ ht =>
      obtain ⟨hd, rfl⟩ := bind_hexPair?_eq_some_iff.1 h
      rw [hs, ht]
      exact .mk hl hr hd
    · cases h
  · rintro ⟨hl, hr, hd⟩
    rw [parse?, trim_written hl hr hd]
    exact bind_hexPair?_eq_some_iff.2 ⟨hd, rfl⟩

/-! ### Reading bytes -/

theorem ofBytes?_eq_some_iff {t : Text} : ofBytes? (t.flatMap String.utf8EncodeChar) = some c ↔
    (t.length = 6 ∧ ∀ d ∈ t, IsHexDigit d) ∧
      ofNat (t.foldl (fun n d ↦ 16 * n + digitValue d) 0) = c := by
  simp only [ofBytes?, Option.ite_none_right_eq_some, Bool.and_eq_true, beq_iff_eq,
    List.all_eq_true, decide_eq_true_eq, forall_bytes_iff, Option.some.injEq]
  by_cases hd : ∀ d ∈ t, IsHexDigit d
  · have hvalues : t.foldl (fun n d ↦ 16 * n + digitValue (.ofNat (UInt8.ofNat d.toNat).toNat)) 0 =
        t.foldl (fun n d ↦ 16 * n + digitValue d) 0 := by
      refine List.foldl_ext _ _ 0 fun n d hm ↦ ?_
      rw [ofNat_toNat_ascii (lt_of_isHexDigit (hd d hm))]
    rw [flatMap_utf8EncodeChar hd, List.length_map, List.foldl_map, hvalues]
  · exact iff_of_false (hd ·.1.2) (hd ·.1.2)

/-- The three bytes of a number of six digits are the values of its pairs. -/
theorem ofNat_digits {r₁ r₂ g₁ g₂ b₁ b₂ : Char}
    (hd : ∀ d ∈ [r₁, r₂, g₁, g₂, b₁, b₂], IsHexDigit d) :
    ofNat ([r₁, r₂, g₁, g₂, b₁, b₂].foldl (fun n d ↦ 16 * n + digitValue d) 0) =
      .rgb (.ofNat (16 * digitValue r₁ + digitValue r₂))
        (.ofNat (16 * digitValue g₁ + digitValue g₂))
        (.ofNat (16 * digitValue b₁ + digitValue b₂)) := by
  have hlt : ∀ d ∈ [r₁, r₂, g₁, g₂, b₁, b₂], digitValue d < 16 := fun d hm ↦ digitValue_lt (hd d hm)
  simp only [List.forall_mem_cons] at hlt
  obtain ⟨hr₁, hr₂, hg₁, hg₂, hb₁, hb₂, -⟩ := hlt
  simp only [List.foldl_cons, List.foldl_nil, ofNat, rgb.injEq, UInt8.ofNat_eq_iff_mod_eq_toNat,
    UInt8.toNat_ofNat']
  omega

theorem readBytes?_eq_some_iff : readBytes? s = some c ↔ IsWritten s c := by
  constructor
  · intro h
    obtain ⟨left, right, hs, hl, hr⟩ := exists_trim s
    rw [readBytes?] at h
    split at h
    · next t ht =>
      obtain ⟨⟨hlength, hd⟩, hc⟩ := ofBytes?_eq_some_iff.1 h
      rw [hs, ht]
      match t, hlength with
      | [r₁, r₂, g₁, g₂, b₁, b₂], _ =>
        rw [← hc, ofNat_digits hd]
        exact .mk hl hr hd
    · cases h
  · rintro ⟨hl, hr, hd⟩
    rw [readBytes?, trim_written hl hr hd]
    exact ofBytes?_eq_some_iff.2 ⟨⟨rfl, hd⟩, ofNat_digits hd⟩

/-! ### Printing -/

theorem hexPair_digits {high low : Char} (hh : IsHexDigit high) (hl : IsHexDigit low) :
    hexPair (.ofNat (16 * digitValue high + digitValue low)) = [high.toLower, low.toLower] := by
  have hhigh := digitValue_lt hh
  have hlow := digitValue_lt hl
  rw [hexPair, UInt8.toNat_ofNat', Nat.mod_eq_of_lt (by omega), ← hexDigit_digitValue hh,
    ← hexDigit_digitValue hl]
  congr 2
  · omega
  · congr 1
    omega

theorem lowerAfter_of_single {before t : Text} (h : ∀ d ∈ t, lowerChar d = [d.toLower] ∧ d ≠ 'Σ') :
    lowerAfter before t = t.map Char.toLower := by
  induction t generalizing before with
  | nil => rfl
  | cons d t ih =>
    obtain ⟨⟨hd, hsigma⟩, ht⟩ := List.forall_mem_cons.1 h
    rw [lowerAfter_cons, lowerAt, if_neg hsigma, hd, ih ht]
    rfl

theorem print_written {r₁ r₂ g₁ g₂ b₁ b₂ : Char}
    (hd : ∀ d ∈ [r₁, r₂, g₁, g₂, b₁, b₂], IsHexDigit d) :
    print (.rgb (.ofNat (16 * digitValue r₁ + digitValue r₂))
      (.ofNat (16 * digitValue g₁ + digitValue g₂))
      (.ofNat (16 * digitValue b₁ + digitValue b₂))) =
    '#' :: [r₁, r₂, g₁, g₂, b₁, b₂].map Char.toLower := by
  simp only [List.forall_mem_cons] at hd
  obtain ⟨hr₁, hr₂, hg₁, hg₂, hb₁, hb₂, -⟩ := hd
  change '#' :: (hexPair _ ++ hexPair _ ++ hexPair _) = _
  rw [hexPair_digits hr₁ hr₂, hexPair_digits hg₁ hg₂, hexPair_digits hb₁ hb₂]
  rfl

theorem print_of_isWritten (h : IsWritten s c) : print c = lower (trim s) := by
  obtain ⟨hl, hr, hd⟩ := h
  rw [print_written hd, trim_written hl hr hd, lower, lowerAfter_of_single]
  · rfl
  · exact List.forall_mem_cons.2 ⟨lowerChar_of_sign_or_digit (.inl rfl),
      fun d hm ↦ lowerChar_of_sign_or_digit (.inr (hd d hm))⟩

theorem isHexDigit_toLower {d : Char} (h : IsHexDigit d) :
    IsHexDigit d.toLower ∧ digitValue d.toLower = digitValue d :=
  h.of_all (p := fun d ↦ IsHexDigit d.toLower ∧ digitValue d.toLower = digitValue d) (by decide)

theorem isWritten_print (h : IsWritten s c) : IsWritten (print c) c := by
  obtain ⟨hl, hr, hd⟩ := h
  have hlower := fun d hm ↦ isHexDigit_toLower (hd d hm)
  have hwritten := @IsWritten.mk [] [] _ _ _ _ _ _ nofun nofun
    (List.forall_mem_map.2 fun d hm ↦ (hlower d hm).1)
  simp only [List.forall_mem_cons] at hlower
  obtain ⟨hr₁, hr₂, hg₁, hg₂, hb₁, hb₂, -⟩ := hlower
  rw [print_written hd]
  rw [hr₁.2, hr₂.2, hg₁.2, hg₂.2, hb₁.2, hb₂.2] at hwritten
  exact hwritten

theorem parse_eq_ok_iff : parse s = .ok c ↔ IsWritten s c := by
  rw [← parse?_eq_some_iff, parse]
  cases parse? s with
  | none => exact iff_of_false nofun nofun
  | some d => rw [Except.ok.injEq, Option.some.injEq]

theorem parse_eq_error_iff {e : ColorError} :
    parse s = .error e ↔ (∀ c, ¬ IsWritten s c) ∧ e = ⟨s⟩ := by
  simp only [← parse?_eq_some_iff, ← Option.eq_none_iff_forall_ne_some, parse]
  cases parse? s with
  | none => simp [eq_comm]
  | some d => exact iff_of_false nofun nofun

theorem toOption_parse (s : Text) : (parse s).toOption = parse? s := by
  rw [parse]
  cases parse? s <;> rfl

theorem resolve?_of_sign {left right : Text} (hl : ∀ x ∈ left, isBlank x = true) (t : Theme) :
    t.resolve? (left ++ '#' :: right) = parse? (left ++ '#' :: right) := by
  have hsign : trimLeft ('#' :: right) = '#' :: right := trimLeft_eq_self_iff.2 nofun
  rw [Theme.resolve?, trimLeft_append hl, hsign]
  rfl

/-- Colors have one grammar: `#` and six hexadecimal digits of either case among blanks, however
they are read. The color is that of the three pairs of digits; it is printed as the text without
the blanks in lower case, which is read as the same color, and every theme reads a text whose first
character other than blanks is `#` in this way. Any other text is an error that holds the text. -/
theorem parse_written (s : Text) :
    (∀ c, parse s = .ok c ↔ IsWritten s c) ∧
      (∀ e, parse s = .error e ↔ (∀ c, ¬ IsWritten s c) ∧ e = ⟨s⟩) ∧
      readBytes? s = (parse s).toOption ∧
      (∀ c, parse s = .ok c → print c = lower (trim s) ∧ parse (print c) = .ok c) ∧
      ∀ left right, (∀ x ∈ left, isBlank x = true) → s = left ++ '#' :: right →
        ∀ theme : Theme, theme.resolve? s = (parse s).toOption := by
  refine ⟨fun c ↦ parse_eq_ok_iff, fun e ↦ parse_eq_error_iff, ?_, fun c hc ↦ ?_, ?_⟩
  · refine Option.ext fun c ↦ ?_
    rw [readBytes?_eq_some_iff, toOption_parse, parse?_eq_some_iff]
  · have hwritten := parse_eq_ok_iff.1 hc
    exact ⟨print_of_isWritten hwritten, parse_eq_ok_iff.2 (isWritten_print hwritten)⟩
  · rintro left right hl rfl theme
    rw [resolve?_of_sign hl, toOption_parse]

example : parse " #CBa6F7\u3000".toList = .ok (.ofNat 0xcba6f7) := by decide +kernel

end Color

end Highlighter
