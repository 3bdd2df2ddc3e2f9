import Mathlib.Data.Int.Notation
import Mathlib.Data.List.TakeDrop
import Highlighter.Json.Decode
import Highlighter.Json.Printer

/-!
Printed values are read back as they were.
-/

namespace Highlighter.Json

/-! ### Numbers -/

/-- Whether a number that stands before this text ends there. -/
def EndsNumber (t : Text) : Prop := ∀ c ∈ t.head?, c = ',' ∨ c = ']' ∨ c = '\x7d'

theorem addDigits_concat {s m : ℕ} {digits : Text} {c : Char} (h : addDigits s digits = (m, 0))
    (hc : 10 * m + (c.toNat - 48) ≤ 0xffffffffffffffff) :
    addDigits s (digits ++ [c]) = (10 * m + (c.toNat - 48), 0) := by
  induction digits generalizing s with
  | nil =>
    cases h
    simp [addDigits, hc]
  | cons d digits ih =>
    simp only [List.cons_append, addDigits] at h ⊢
    split at h
    · next hd =>
      rw [if_pos hd]
      exact ih h
    · cases h

theorem addDigits_toDigits {n : ℕ} (h : n ≤ 0xffffffffffffffff) :
    addDigits 0 (Nat.toDigits 10 n) = (n, 0) := by
  induction n using Nat.strongRecOn with
  | ind n ih =>
    have hlast {d m : ℕ} {digits : Text} (hd : d < 10) (hm : addDigits 0 digits = (m, 0))
        (hle : 10 * m + d ≤ 0xffffffffffffffff) :
        addDigits 0 (digits ++ [d.digitChar]) = (10 * m + d, 0) := by
      rw [← Nat.toNat_digitChar_sub_48_of_lt_ten hd] at hle
      rw [addDigits_concat hm hle, Nat.toNat_digitChar_sub_48_of_lt_ten hd]
    rw [Nat.toDigits_eq_if (by decide)]
    split
    · next hn =>
      have hfirst : addDigits 0 [] = (0, 0) := rfl
      simpa using hlast hn hfirst (by omega)
    · next hn =>
      rw [hlast (Nat.mod_lt n (by decide)) (ih (n / 10) (by omega) (by omega)) (by omega),
        Nat.div_add_mod]

theorem head_toDigits {n : ℕ} (h : 0 < n) : (Nat.toDigits 10 n).head? ≠ some '0' := by
  induction n using Nat.strongRecOn with
  | ind n ih =>
    rw [Nat.toDigits_eq_if (by decide)]
    split
    · simp
      omega
    · next hn =>
      have hfront := ih (n / 10) (by omega) (by omega)
      obtain ⟨c, digits, hd⟩ :=
        List.exists_cons_of_ne_nil (Nat.toDigits_ne_nil (n := n / 10) (b := 10))
      rw [hd] at hfront ⊢
      exact hfront

theorem span_toDigits {n : ℕ} {rest : Text} (hr : EndsNumber rest) :
    (Nat.toDigits 10 n ++ rest).span Char.isDigit = (Nat.toDigits 10 n, rest) := by
  have hdigits : ∀ c ∈ Nat.toDigits 10 n, c.isDigit = true := fun c hc ↦
    Nat.isDigit_of_mem_toDigits (by decide) (by decide) hc
  have hstop : ∀ c ∈ rest.head?, c.isDigit = false := fun c hc ↦ by
    rcases hr c hc with rfl | rfl | rfl <;> rfl
  rw [List.span_eq_takeWhile_dropWhile, List.takeWhile_append_of_pos hdigits,
    List.dropWhile_append_of_pos hdigits]
  cases rest with
  | nil => simp
  | cons c rest => simp [hstop c rfl]

theorem readNumber_toDigits {negative : Bool} {n : ℕ} {rest : Text} (h : n ≤ 0xffffffffffffffff)
    (hn : negative = true → 0 < n ∧ n ≤ 0x8000000000000000) (hr : EndsNumber rest) :
    readNumber negative (Nat.toDigits 10 n ++ rest) =
      .ok (.integer (if negative then -n else n), rest) := by
  have hnatural : Number.ofNatural negative n = .integer (if negative then -n else n) := by
    rw [Number.ofNatural]
    cases negative with
    | false => rfl
    | true =>
      have hbound := hn rfl
      rw [if_neg (by simp), if_neg (by omega)]
      rfl
  obtain ⟨c, digits, hd⟩ := List.exists_cons_of_ne_nil (Nat.toDigits_ne_nil (n := n) (b := 10))
  have hc : c.isDigit = true :=
    Nat.isDigit_of_mem_toDigits (n := n) (by decide) (by decide) (hd ▸ List.mem_cons_self)
  -- a zero stands alone
  have hspan : (if c = '0' then ([c], digits ++ rest) else
      (c :: (digits ++ rest)).span Char.isDigit) = (Nat.toDigits 10 n, rest) := by
    split
    · next h0 =>
      rcases Nat.eq_zero_or_pos n with rfl | hpos
      · cases hd
        rfl
      · exact absurd (by rw [hd, h0]; rfl) (head_toDigits hpos)
    · rw [← List.cons_append, ← hd]
      exact span_toDigits hr
  rw [hd, List.cons_append, readNumber, hc]
  simp only [Bool.not_true, Bool.false_eq_true, if_false]
  rw [hspan, addDigits_toDigits h]
  cases rest with
  | nil => simp [hnatural]
  | cons d rest => rcases hr d rfl with rfl | rfl | rfl <;> simp [hnatural]

/-! ### Strings -/

theorem hexValue?_hexDigit {d : ℕ} (h : d < 16) : Text.hexValue? (Text.hexDigit d) = some d := by
  have hall : ∀ d : Fin 16, Text.hexValue? (Text.hexDigit d) = some d.val := by decide
  exact hall ⟨d, h⟩

theorem readUnit_control {n : ℕ} (h : n < 32) (t : Text) :
    readUnit ('0' :: '0' :: (Text.hexPair (.ofNat n) ++ t)) = .ok (n, t) := by
  have hn : (UInt8.ofNat n).toNat = n := by simp; omega
  have h0 : Text.hexValue? '0' = some 0 := rfl
  simp only [Text.hexPair, hn, List.cons_append, List.nil_append, readUnit, h0,
    hexValue?_hexDigit (show n / 16 < 16 by omega), hexValue?_hexDigit (show n % 16 < 16 by omega)]
  congr 2
  omega

theorem readString_printChar (fuel : ℕ) (c : Char) (t : Text) :
    readString (fuel + 1) (printChar c ++ t) =
      (readString fuel t).bind fun p ↦ .ok (c :: p.1, p.2) := by
  rw [printChar]
  split
  · next h => subst h; rfl
  · next hquote =>
    split
    · next h => subst h; rfl
    · next hslash =>
      iterate 5
        split
        · next h => subst h; rfl
      split
      · next hcontrol =>
        have he : readEscapedChar ('u' :: '0' :: '0' :: (Text.hexPair (.ofNat c.toNat) ++ t)) =
            .ok (c, t) := by
          rw [readEscapedChar, readUnit_control hcontrol]
          simp only [bind, Except.bind]
          rw [if_neg (by omega), if_neg (by omega), Char.ofNat_toNat]
        simp only [List.cons_append, readString, he]
        rfl
      · next hcontrol =>
        rw [List.singleton_append, readString, if_neg hcontrol]
        · rfl
        · exact hquote
        · exact hslash

theorem readString_flatMap {fuel : ℕ} {s : Text} (h : s.length < fuel) (rest : Text) :
    readString fuel (s.flatMap printChar ++ '"' :: rest) = .ok (s, rest) := by
  induction s generalizing fuel with
  | nil =>
    obtain ⟨fuel, rfl⟩ := Nat.exists_eq_add_one_of_ne_zero (Nat.ne_zero_of_lt h)
    rfl
  | cons c s ih =>
    obtain ⟨fuel, rfl⟩ := Nat.exists_eq_add_one_of_ne_zero (Nat.ne_zero_of_lt h)
    rw [List.flatMap_cons, List.append_assoc, readString_printChar,
      ih (Nat.lt_of_succ_lt_succ h)]
    rfl

/-! ### Values -/

mutual

/-- Whether a value was read without a fault, has no numbers but integers of 64 bits, and is nested
at most so deep. -/
def IsPlain : ℕ → Json → Prop
  | _, null => True
  | _, bool _ => True
  | _, number (.integer n) => -0x8000000000000000 ≤ n ∧ n ≤ 0xffffffffffffffff
  | _, string _ => True
  | depth + 1, array items none => ArePlain depth items
  | depth + 1, object members none => HavePlain depth members
  | _, _ => False

def ArePlain : ℕ → List Json → Prop
  | _, [] => True
  | depth, v :: rest => IsPlain depth v ∧ ArePlain depth rest

def HavePlain : ℕ → List (String × Json) → Prop
  | _, [] => True
  | depth, (_, v) :: rest => IsPlain depth v ∧ HavePlain depth rest

end

theorem arePlain_of_forall {depth : ℕ} {items : List Json} (h : ∀ v ∈ items, IsPlain depth v) :
    ArePlain depth items := by
  induction items with
  | nil => exact trivial
  | cons v items ih =>
    obtain ⟨hv, hitems⟩ := List.forall_mem_cons.1 h
    exact ⟨hv, ih hitems⟩

theorem havePlain_of_forall {depth : ℕ} {members : List (String × Json)}
    (h : ∀ m ∈ members, IsPlain depth m.2) : HavePlain depth members := by
  induction members with
  | nil => exact trivial
  | cons m members ih =>
    obtain ⟨hm, hmembers⟩ := List.forall_mem_cons.1 h
    exact ⟨hm, ih hmembers⟩

/-- The text of the items of an array after the first one, or of all of them behind others. -/
def printRest : List Json → Text
  | [] => []
  | v :: rest => ',' :: printItems (v :: rest)

def printRestMembers : List (String × Json) → Text
  | [] => []
  | m :: rest => ',' :: printMembers (m :: rest)

theorem printItems_cons (v : Json) (rest : List Json) :
    printItems (v :: rest) = print v ++ printRest rest := by
  cases rest <;> simp [printItems, printRest]

theorem printMembers_cons (k : String) (v : Json) (rest : List (String × Json)) :
    printMembers ((k, v) :: rest) = printString k ++ ':' :: (print v ++ printRestMembers rest) := by
  cases rest <;> simp [printMembers, printRestMembers]

theorem toList_print_integer (n : ℤ) :
    (Number.integer n).print.toList =
      if n < 0 then '-' :: Nat.toDigits 10 n.natAbs else Nat.toDigits 10 n.natAbs := by
  cases n with
  | ofNat n =>
    rw [if_neg (by simp)]
    exact String.toList_ofList
  | negSucc n =>
    rw [if_pos (Int.negSucc_lt_zero n)]
    exact String.toList_append.trans (congrArg ('-' :: ·) String.toList_ofList)

/-- The first character of a printed value is no blank and does not end an array. -/
theorem exists_print_eq {depth : ℕ} {v : Json} (h : IsPlain depth v) :
    ∃ c t, print v = c :: t ∧ (∀ u, skipBlanks (c :: u) = c :: u) ∧ c ≠ ']' := by
  cases v with
  | null => exact ⟨'n', _, rfl, fun _ ↦ rfl, by decide⟩
  | bool b => cases b <;> exact ⟨_, _, rfl, fun _ ↦ rfl, by decide⟩
  | number n =>
    cases n with
    | double bits => cases h
    | integer n =>
      rw [print, toList_print_integer]
      split
      · exact ⟨'-', _, rfl, fun _ ↦ rfl, by decide⟩
      · obtain ⟨c, t, hd⟩ :=
          List.exists_cons_of_ne_nil (Nat.toDigits_ne_nil (n := n.natAbs) (b := 10))
        have hc : c.isDigit = true := Nat.isDigit_of_mem_toDigits (n := n.natAbs) (b := 10)
          (by decide) (by decide) (hd ▸ List.mem_cons_self)
        refine ⟨c, t, hd, fun u ↦ ?_, ?_⟩
        · rw [skipBlanks, List.dropWhile_cons_of_neg]
          simp only [Bool.or_eq_true, beq_iff_eq]
          rintro (((rfl | rfl) | rfl) | rfl) <;> cases hc
        · rintro rfl
          cases hc
  | string s => exact ⟨'"', _, rfl, fun _ ↦ rfl, by decide⟩
  | array items fault => exact ⟨'[', _, rfl, fun _ ↦ rfl, by decide⟩
  | object members fault => exact ⟨'{', _, rfl, fun _ ↦ rfl, by decide⟩
  | broken fault => cases depth <;> cases h

theorem endsNumber_printRest (items : List Json) (rest : Text) :
    EndsNumber (printRest items ++ ']' :: rest) := by
  cases items <;> rintro c ⟨⟩ <;> simp

theorem endsNumber_printRestMembers (members : List (String × Json)) (rest : Text) :
    EndsNumber (printRestMembers members ++ '}' :: rest) := by
  cases members <;> rintro c ⟨⟩ <;> simp

section Steps

variable {fuel depth : ℕ} {v b : Json} {before : List Json} {c : Char} {t u rest : Text}

theorem readItems_end :
    readItems (fuel + 1) depth before (']' :: rest) = (array before.reverse none, some rest) := rfl

theorem readItems_first (hblank : skipBlanks (c :: t) = c :: t) (hc : c ≠ ']')
    (hv : readValue fuel depth (c :: t) = (v, some rest)) :
    readItems (fuel + 1) depth [] (c :: t) = readItems fuel depth [v] rest := by
  simp [readItems, hblank, hv]

theorem readItems_next (hblank : skipBlanks (c :: t) = c :: t) (hc : c ≠ ']')
    (hv : readValue fuel depth (c :: t) = (v, some rest)) :
    readItems (fuel + 1) depth (b :: before) (',' :: c :: t) =
      readItems fuel depth (v :: b :: before) rest := by
  have hcomma : skipBlanks (',' :: c :: t) = ',' :: c :: t := rfl
  simp [readItems, hcomma, hblank, hc, hv]

variable {m : String × Json} {done : List (String × Json)} {key : Text}

theorem readMembers_end :
    readMembers (fuel + 1) depth done ('}' :: rest) = (object done.reverse none, some rest) := rfl

theorem readMembers_first (hk : readString (fuel + 1) t = .ok (key, ':' :: u))
    (hv : readValue fuel depth u = (v, some rest)) :
    readMembers (fuel + 1) depth [] ('"' :: t) =
      readMembers fuel depth [(String.ofList key, v)] rest := by
  have hquote : skipBlanks ('"' :: t) = '"' :: t := rfl
  have hcolon : skipBlanks (':' :: u) = ':' :: u := rfl
  simp [readMembers, hquote, hk, hcolon, hv]

theorem readMembers_next (hk : readString (fuel + 1) t = .ok (key, ':' :: u))
    (hv : readValue fuel depth u = (v, some rest)) :
    readMembers (fuel + 1) depth (m :: done) (',' :: '"' :: t) =
      readMembers fuel depth ((String.ofList key, v) :: m :: done) rest := by
  have hcomma : skipBlanks (',' :: '"' :: t) = ',' :: '"' :: t := rfl
  have hquote : skipBlanks ('"' :: t) = '"' :: t := rfl
  have hcolon : skipBlanks (':' :: u) = ':' :: u := rfl
  simp [readMembers, hcomma, hquote, hk, hcolon, hv]

end Steps

theorem readValue_integer {n : ℤ} {fuel depth : ℕ} {rest : Text}
    (hn : -0x8000000000000000 ≤ n ∧ n ≤ 0xffffffffffffffff) (hr : EndsNumber rest) :
    readValue (fuel + 1) depth (print (.number (.integer n)) ++ rest) =
      (.number (.integer n), some rest) := by
  rw [print, toList_print_integer]
  split
  · next hneg =>
    have hnumber : readNumber true (Nat.toDigits 10 n.natAbs ++ rest) = _ :=
      readNumber_toDigits (by omega) (fun _ ↦ by omega) hr
    have hminus : skipBlanks ('-' :: (Nat.toDigits 10 n.natAbs ++ rest)) =
        '-' :: (Nat.toDigits 10 n.natAbs ++ rest) := rfl
    rw [if_pos rfl, show -(n.natAbs : ℤ) = n by omega] at hnumber
    rw [List.cons_append, readValue, hminus]
    simp [hnumber]
  · next hpos =>
    have hnumber : readNumber false (Nat.toDigits 10 n.natAbs ++ rest) = _ :=
      readNumber_toDigits (by omega) nofun hr
    rw [if_neg Bool.false_ne_true, show (n.natAbs : ℤ) = n by omega] at hnumber
    have hplain : IsPlain 0 (.number (.integer n)) := hn
    obtain ⟨c, t, hp, hblank, -⟩ := exists_print_eq hplain
    rw [print, toList_print_integer, if_neg hpos] at hp
    have hc : c.isDigit = true := Nat.isDigit_of_mem_toDigits (n := n.natAbs) (b := 10)
      (by decide) (by decide) (hp ▸ List.mem_cons_self)
    have hne (d : Char) (hd : d.isDigit = false) : c ≠ d := by
      rintro rfl
      rw [hc] at hd
      cases hd
    have hn := hne 'n' rfl
    have ht := hne 't' rfl
    have hf := hne 'f' rfl
    have hquote := hne '"' rfl
    have harray := hne '[' rfl
    have hobject := hne '{' rfl
    rw [hp, List.cons_append] at hnumber ⊢
    simp [readValue, hblank, hc, hne '-' rfl, hnumber]

theorem readValue_string {s : String} {fuel depth : ℕ} (h : s.toList.length ≤ fuel) (rest : Text) :
    readValue (fuel + 1) depth (print (.string s) ++ rest) = (.string s, some rest) := by
  have hquote (t : Text) : skipBlanks ('"' :: t) = '"' :: t := rfl
  rw [print, printString, List.cons_append, List.append_assoc, List.singleton_append, readValue,
    hquote]
  simp [readString_flatMap (Nat.lt_succ_of_le h)]

theorem readValue_array {fuel depth : ℕ} {t : Text} (h : 1 < depth) :
    readValue (fuel + 1) depth ('[' :: t) = readItems fuel (depth - 1) [] t := by
  have hblank : skipBlanks ('[' :: t) = '[' :: t := rfl
  rw [readValue, hblank]
  exact if_neg (Nat.not_le_of_lt h)

theorem readValue_object {fuel depth : ℕ} {t : Text} (h : 1 < depth) :
    readValue (fuel + 1) depth ('{' :: t) = readMembers fuel (depth - 1) [] t := by
  have hblank : skipBlanks ('{' :: t) = '{' :: t := rfl
  rw [readValue, hblank]
  exact if_neg (Nat.not_le_of_lt h)

/-- A string is no longer than its text. -/
theorem length_le_flatMap_printChar (s : Text) : s.length ≤ (s.flatMap printChar).length := by
  induction s with
  | nil => exact Nat.le_refl _
  | cons c s ih =>
    have hc : 0 < (printChar c).length := by
      rw [printChar]
      repeat' split
      all_goals simp
    rw [List.flatMap_cons, List.length_append, List.length_cons]
    omega

theorem printString_append (s : String) (t : Text) :
    printString s ++ t = '"' :: (s.toList.flatMap printChar ++ '"' :: t) := by
  simp [printString]

mutual

theorem readValue_print (v : Json) {n depth fuel : ℕ} {rest : Text} (h : IsPlain n v)
    (hd : n < depth) (hf : 2 * (print v).length ≤ fuel) (hr : EndsNumber rest) :
    readValue fuel depth (print v ++ rest) = (v, some rest) := by
  obtain ⟨c, t, hp, -⟩ := exists_print_eq h
  have hlen : (print v).length = t.length + 1 := by rw [hp]; rfl
  obtain ⟨fuel, rfl⟩ : ∃ f, fuel = f + 1 := ⟨fuel - 1, by omega⟩
  match v, n, h with
  | null, _, _ => rfl
  | bool true, _, _ => rfl
  | bool false, _, _ => rfl
  | number (.integer i), _, h => exact readValue_integer h hr
  | string s, _, _ =>
    have hle := length_le_flatMap_printChar s.toList
    simp only [print, printString, List.length_cons, List.length_append] at hf
    exact readValue_string (by omega) rest
  | array items none, n + 1, hitems =>
    simp only [print, List.length_cons, List.length_append, List.length_nil] at hf
    rw [print, List.cons_append, List.append_assoc, List.singleton_append,
      readValue_array (by omega)]
    exact readItems_printItems items hitems (by omega) (by omega)
  | object members none, n + 1, hmembers =>
    simp only [print, List.length_cons, List.length_append, List.length_nil] at hf
    rw [print, List.cons_append, List.append_assoc, List.singleton_append,
      readValue_object (by omega)]
    exact readMembers_printMembers members hmembers (by omega) (by omega)

theorem readItems_printItems (items : List Json) {n depth fuel : ℕ} {rest : Text}
    (h : ArePlain n items) (hd : n < depth) (hf : 2 * ((printItems items).length + 1) ≤ fuel + 1) :
    readItems fuel depth [] (printItems items ++ ']' :: rest) = (array items none, some rest) := by
  obtain ⟨fuel, rfl⟩ : ∃ f, fuel = f + 1 := ⟨fuel - 1, by omega⟩
  match items, h with
  | [], _ => rfl
  | v :: items, ⟨hv, hitems⟩ =>
    obtain ⟨c, t, hp, hblank, hc⟩ := exists_print_eq hv
    have hpos : 0 < (print v).length := by rw [hp]; exact Nat.succ_pos _
    have hstop := endsNumber_printRest items rest
    rw [printItems_cons, List.length_append] at hf
    have hfirst : readValue fuel depth (print v ++ (printRest items ++ ']' :: rest)) = _ :=
      readValue_print v hv hd (by omega) hstop
    rw [printItems_cons, List.append_assoc]
    rw [hp, List.cons_append] at hfirst ⊢
    rw [readItems_first (hblank _) hc hfirst]
    exact readItems_printRest items hitems hd (by omega)

theorem readItems_printRest (items : List Json) {n depth fuel : ℕ} {b : Json}
    {before : List Json} {rest : Text} (h : ArePlain n items) (hd : n < depth)
    (hf : 2 * ((printRest items).length + 1) ≤ fuel + 1) :
    readItems fuel depth (b :: before) (printRest items ++ ']' :: rest) =
      (array ((b :: before).reverse ++ items) none, some rest) := by
  obtain ⟨fuel, rfl⟩ : ∃ f, fuel = f + 1 := ⟨fuel - 1, by omega⟩
  match items, h with
  | [], _ => exact readItems_end.trans (by rw [List.append_nil])
  | v :: items, ⟨hv, hitems⟩ =>
    obtain ⟨c, t, hp, hblank, hc⟩ := exists_print_eq hv
    have hstop := endsNumber_printRest items rest
    rw [printRest, printItems_cons, List.length_cons, List.length_append] at hf
    have hnext : readValue fuel depth (print v ++ (printRest items ++ ']' :: rest)) = _ :=
      readValue_print v hv hd (by omega) hstop
    rw [printRest, printItems_cons, List.cons_append, List.append_assoc]
    rw [hp, List.cons_append] at hnext ⊢
    rw [readItems_next (hblank _) hc hnext, readItems_printRest items hitems hd (by omega)]
    simp

theorem readMembers_printMembers (members : List (String × Json)) {n depth fuel : ℕ}
    {rest : Text} (h : HavePlain n members) (hd : n < depth)
    (hf : 2 * ((printMembers members).length + 1) ≤ fuel + 1) :
    readMembers fuel depth [] (printMembers members ++ '}' :: rest) =
      (object members none, some rest) := by
  obtain ⟨fuel, rfl⟩ : ∃ f, fuel = f + 1 := ⟨fuel - 1, by omega⟩
  match members, h with
  | [], _ => rfl
  | (k, v) :: members, ⟨hv, hmembers⟩ =>
    have hstop := endsNumber_printRestMembers members rest
    have hk := length_le_flatMap_printChar k.toList
    rw [printMembers_cons] at hf
    simp only [printString, List.length_cons, List.length_append] at hf
    have hfirst : readValue fuel depth (print v ++ (printRestMembers members ++ '}' :: rest)) =
      _ := readValue_print v hv hd (by omega) hstop
    rw [printMembers_cons, List.append_assoc, printString_append, List.cons_append,
      List.append_assoc, readMembers_first (readString_flatMap (by omega) _) hfirst,
      String.ofList_toList]
    exact readMembers_printRest members hmembers hd (by omega)

theorem readMembers_printRest (members : List (String × Json)) {n depth fuel : ℕ}
    {m : String × Json} {done : List (String × Json)} {rest : Text} (h : HavePlain n members)
    (hd : n < depth) (hf : 2 * ((printRestMembers members).length + 1) ≤ fuel + 1) :
    readMembers fuel depth (m :: done) (printRestMembers members ++ '}' :: rest) =
      (object ((m :: done).reverse ++ members) none, some rest) := by
  obtain ⟨fuel, rfl⟩ : ∃ f, fuel = f + 1 := ⟨fuel - 1, by omega⟩
  match members, h with
  | [], _ => exact readMembers_end.trans (by rw [List.append_nil])
  | (k, v) :: members, ⟨hv, hmembers⟩ =>
    have hstop := endsNumber_printRestMembers members rest
    have hk := length_le_flatMap_printChar k.toList
    rw [printRestMembers, printMembers_cons] at hf
    simp only [printString, List.length_cons, List.length_append] at hf
    have hnext : readValue fuel depth (print v ++ (printRestMembers members ++ '}' :: rest)) =
      _ := readValue_print v hv hd (by omega) hstop
    rw [printRestMembers, printMembers_cons, List.cons_append, List.append_assoc,
      printString_append, List.cons_append, List.append_assoc,
      readMembers_next (readString_flatMap (by omega) _) hnext, String.ofList_toList,
      readMembers_printRest members hmembers hd (by omega)]
    simp

end

mutual

theorem firstFault?_eq_none (v : Json) {n : ℕ} (h : IsPlain n v) : v.firstFault? = none := by
  match v, n, h with
  | null, _, _ => rfl
  | bool _, _, _ => rfl
  | number _, _, _ => rfl
  | string _, _, _ => rfl
  | array items none, n + 1, hitems => rw [firstFault?, firstFaultIn?_eq_none items hitems]; rfl
  | object members none, n + 1, hmembers =>
    rw [firstFault?, firstFaultOf?_eq_none members hmembers]; rfl

theorem firstFaultIn?_eq_none (items : List Json) {n : ℕ} (h : ArePlain n items) :
    firstFaultIn? items = none := by
  match items, h with
  | [], _ => rfl
  | v :: items, ⟨hv, hitems⟩ =>
    rw [firstFaultIn?, firstFault?_eq_none v hv, firstFaultIn?_eq_none items hitems]; rfl

theorem firstFaultOf?_eq_none (members : List (String × Json)) {n : ℕ} (h : HavePlain n members) :
    firstFaultOf? members = none := by
  match members, h with
  | [], _ => rfl
  | (_, v) :: members, ⟨hv, hmembers⟩ =>
    rw [firstFaultOf?, firstFault?_eq_none v hv, firstFaultOf?_eq_none members hmembers]; rfl

end

/-- The text of a value is read as this value. -/
theorem read_print {v : Json} {depth : ℕ} (h : IsPlain depth v) (hd : depth < 128) :
    read (print v) = ⟨v, none⟩ := by
  have hv : readValue (2 * (print v).length + 2) 128 (print v ++ []) = (v, some []) :=
    readValue_print v h hd (by omega) nofun
  rw [List.append_nil] at hv
  rw [read, hv]
  rfl

theorem parse_print {v : Json} {depth : ℕ} (h : IsPlain depth v) (hd : depth < 128) :
    parse (print v) = .ok v.settle := by
  rw [parse, read_print h hd]
  simp only [Reading.firstFault?, firstFault?_eq_none v h]
  rfl

end Highlighter.Json
