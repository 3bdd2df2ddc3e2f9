import Mathlib.Data.List.Nodup
import Highlighter.Proofs.Brackets.Balance

/-!
What becomes of every bracket: it is paired, or reported once. Pairs are properly nested, and the
reports are in the order of the text, those of closing brackets first.
-/

namespace Highlighter

theorem filter_concat_of_pos {α : Type} {p : α → Bool} {a : α} (h : p a = true) (l : List α) :
    (l ++ [a]).filter p = l.filter p ++ [a] := by
  rw [List.filter_append, List.filter_cons_of_pos h, List.filter_nil]

theorem filter_concat_of_neg {α : Type} {p : α → Bool} {a : α} (h : p a = false) (l : List α) :
    (l ++ [a]).filter p = l.filter p := by
  rw [List.filter_append, List.filter_cons_of_neg (by rw [h]; exact Bool.false_ne_true),
    List.filter_nil, List.append_nil]

namespace OpenBracket

/-- In the order of the text. -/
def Before (a b : OpenBracket) : Prop := a.line < b.line ∨ a.line = b.line ∧ a.column < b.column

theorem Before.not_before {a b : OpenBracket} (h : a.Before b) : ¬b.Before a := by
  simp only [Before] at *
  omega

theorem not_before_self (a : OpenBracket) : ¬a.Before a := fun h ↦ h.not_before h

def isOpener (o : OpenBracket) : Bool := (BracketChecker.closerFor? o.char).isSome

def isCloser (o : OpenBracket) : Bool := BracketChecker.isCloser o.char

theorem isOpener_eq_false {o : OpenBracket} (h : o.isCloser = true) : o.isOpener = false := by
  rw [isOpener, BracketChecker.closerFor?_of_isCloser h]
  rfl

theorem isCloser_eq_false {o : OpenBracket} (h : o.isOpener = true) : o.isCloser = false := by
  cases hc : o.isCloser with
  | false => rfl
  | true => rw [isOpener_eq_false hc] at h; cases h

end OpenBracket

namespace MaskedLine

theorem of_mem_bracketsFrom {l : MaskedLine} {column : Nat} {t : Text} {o : OpenBracket}
    (h : o ∈ l.bracketsFrom column t) :
    o.line = l.number ∧ column ≤ o.column ∧ BracketChecker.isBracket o.char := by
  induction t generalizing column with
  | nil => cases h
  | cons c t ih =>
    rw [bracketsFrom_cons] at h
    split at h
    · next hc =>
      obtain rfl | h := List.mem_cons.1 h
      · exact ⟨rfl, Nat.le_refl _, (Bool.and_eq_true_iff.1 hc).1⟩
      · obtain ⟨hline, hcolumn, hbracket⟩ := ih h
        exact ⟨hline, Nat.le_of_succ_le hcolumn, hbracket⟩
    · obtain ⟨hline, hcolumn, hbracket⟩ := ih h
      exact ⟨hline, Nat.le_of_succ_le hcolumn, hbracket⟩

theorem pairwise_bracketsFrom (l : MaskedLine) (column : Nat) (t : Text) :
    (l.bracketsFrom column t).Pairwise OpenBracket.Before := by
  induction t generalizing column with
  | nil => exact .nil
  | cons c t ih =>
    rw [bracketsFrom_cons]
    split
    · refine List.pairwise_cons.2 ⟨fun o ho ↦ ?_, ih (column + 1)⟩
      obtain ⟨hline, hcolumn, -⟩ := of_mem_bracketsFrom ho
      exact .inr ⟨hline.symm, hcolumn⟩
    · exact ih (column + 1)

theorem pairwise_brackets {lines : List MaskedLine}
    (h : (lines.map number).Pairwise (· < ·)) :
    (lines.flatMap brackets).Pairwise OpenBracket.Before := by
  rw [List.pairwise_map] at h
  refine List.pairwise_flatMap.2 ⟨fun l _ ↦ l.pairwise_bracketsFrom 0 l.text, ?_⟩
  refine h.imp fun {l m} hlm a ha b hb ↦ .inl ?_
  rw [(of_mem_bracketsFrom ha).1, (of_mem_bracketsFrom hb).1]
  exact hlm

theorem isBracket_of_mem_brackets {lines : List MaskedLine} {o : OpenBracket}
    (h : o ∈ lines.flatMap brackets) : BracketChecker.isBracket o.char := by
  obtain ⟨l, -, ho⟩ := List.mem_flatMap.1 h
  exact (of_mem_bracketsFrom ho).2.2

end MaskedLine

namespace BracketChecker

/-- Whether an opening bracket before another bracket is not closed before it. -/
def IsOpenAt (brackets : List OpenBracket) (pairs : List (OpenBracket × OpenBracket))
    (c o : OpenBracket) : Prop :=
  o ∈ brackets ∧ o.isOpener = true ∧ o.Before c ∧ ∀ p ∈ pairs, p.1 = o → ¬p.2.Before c

def IsInnermostAt (brackets : List OpenBracket) (pairs : List (OpenBracket × OpenBracket))
    (c o : OpenBracket) : Prop :=
  IsOpenAt brackets pairs c o ∧ ∀ o', IsOpenAt brackets pairs c o' → o' = o ∨ o'.Before o

/-- Why a closing bracket has no partner. -/
inductive RefusedAs (brackets : List OpenBracket) (pairs : List (OpenBracket × OpenBracket))
    (c : OpenBracket) : BracketProblem.Kind → Prop
  | unexpected (h : ∀ o, ¬IsOpenAt brackets pairs c o) :
      RefusedAs brackets pairs c (.unexpected c.char)
  | mismatched {o : OpenBracket} {expected : Char} (h : IsInnermostAt brackets pairs c o)
      (hc : closerFor? o.char = some expected) (hne : expected ≠ c.char) :
      RefusedAs brackets pairs c (.mismatched expected c.char)

/-- Whether every opening bracket is paired or left unclosed, and every closing bracket is paired
or refused: each one once, closing brackets with the innermost open one only, and what has no
partner in the order of the text. -/
structure Accounts (brackets : List OpenBracket) (pairs : List (OpenBracket × OpenBracket))
    (refused : List (OpenBracket × BracketProblem.Kind)) (unclosed : List OpenBracket) : Prop where
  openers : (brackets.filter OpenBracket.isOpener).Perm (pairs.map Prod.fst ++ unclosed)
  closers : (brackets.filter OpenBracket.isCloser).Perm
    (pairs.map Prod.snd ++ refused.map Prod.fst)
  paired : ∀ p ∈ pairs,
    closerFor? p.1.char = some p.2.char ∧ IsInnermostAt brackets pairs p.2 p.1
  refusedAs : ∀ r ∈ refused, RefusedAs brackets pairs r.1 r.2
  refused_sublist : (refused.map Prod.fst).Sublist brackets
  unclosed_sublist : unclosed.Sublist brackets

section Openness

variable {brackets brackets' : List OpenBracket} {pairs pairs' : List (OpenBracket × OpenBracket)}
variable {c o x : OpenBracket} {kind : BracketProblem.Kind}

theorem IsInnermostAt.congr
    (h : ∀ o, IsOpenAt brackets' pairs' c o ↔ IsOpenAt brackets pairs c o)
    (hi : IsInnermostAt brackets pairs c o) : IsInnermostAt brackets' pairs' c o :=
  ⟨(h o).2 hi.1, fun o' ho' ↦ hi.2 o' ((h o').1 ho')⟩

theorem RefusedAs.congr (h : ∀ o, IsOpenAt brackets' pairs' c o ↔ IsOpenAt brackets pairs c o)
    (hr : RefusedAs brackets pairs c kind) : RefusedAs brackets' pairs' c kind := by
  cases hr with
  | unexpected hnone => exact .unexpected fun o ho ↦ hnone o ((h o).1 ho)
  | mismatched hi hc hne => exact .mismatched (hi.congr h) hc hne

/-- Whether the pairs that were added to others all end with one bracket. -/
def ExtendAt (x : OpenBracket) (pairs pairs' : List (OpenBracket × OpenBracket)) : Prop :=
  pairs ⊆ pairs' ∧ ∀ p ∈ pairs', p ∈ pairs ∨ p.2 = x

theorem ExtendAt.refl (x : OpenBracket) (pairs : List (OpenBracket × OpenBracket)) :
    ExtendAt x pairs pairs := ⟨List.Subset.refl _, fun _ hp ↦ .inl hp⟩

theorem ExtendAt.concat (o x : OpenBracket) (pairs : List (OpenBracket × OpenBracket)) :
    ExtendAt x pairs (pairs ++ [(o, x)]) := by
  refine ⟨List.subset_append_left _ _, fun p hp ↦ ?_⟩
  obtain hp | hp := List.mem_append.1 hp
  · exact .inl hp
  · rw [List.mem_singleton.1 hp]
    exact .inr rfl

/-- What is open at a bracket does not depend on a later bracket, nor on what that one closes. -/
theorem isOpenAt_concat (he : ExtendAt x pairs pairs') (hc : ¬x.Before c) :
    IsOpenAt (brackets ++ [x]) pairs' c o ↔ IsOpenAt brackets pairs c o := by
  constructor
  · rintro ⟨hmem, ho, hb, hp⟩
    refine ⟨?_, ho, hb, fun p hm ↦ hp p (he.1 hm)⟩
    obtain hmem | hmem := List.mem_append.1 hmem
    · exact hmem
    · rw [List.mem_singleton.1 hmem] at hb
      exact absurd hb hc
  · rintro ⟨hmem, ho, hb, hp⟩
    refine ⟨List.mem_append_left _ hmem, ho, hb, fun p hm hpo ↦ ?_⟩
    obtain hm | hpx := he.2 p hm
    · exact hp p hm hpo
    · rw [hpx]
      exact hc

end Openness

namespace Accounts

variable {brackets : List OpenBracket} {pairs pairs' : List (OpenBracket × OpenBracket)}
variable {refused : List (OpenBracket × BracketProblem.Kind)} {unclosed : List OpenBracket}
variable {o x : OpenBracket}

theorem mem_of_mem_pairs (h : Accounts brackets pairs refused unclosed)
    {p : OpenBracket × OpenBracket} (hp : p ∈ pairs) :
    (p.1 ∈ brackets ∧ p.1.isOpener = true) ∧ p.2 ∈ brackets ∧ p.2.isCloser = true := by
  have hfst : p.1 ∈ pairs.map Prod.fst ++ unclosed :=
    List.mem_append_left _ (List.mem_map_of_mem hp)
  have hsnd : p.2 ∈ pairs.map Prod.snd ++ refused.map Prod.fst :=
    List.mem_append_left _ (List.mem_map_of_mem hp)
  exact ⟨List.mem_filter.1 (h.openers.mem_iff.2 hfst), List.mem_filter.1 (h.closers.mem_iff.2 hsnd)⟩

theorem isOpener_of_mem_unclosed (h : Accounts brackets pairs refused unclosed)
    (ho : o ∈ unclosed) : o ∈ brackets ∧ o.isOpener = true :=
  List.mem_filter.1 (h.openers.mem_iff.2 (List.mem_append_right _ ho))

/-- An opening bracket is paired once at most, and not if it is left unclosed. -/
theorem nodup_openers (h : Accounts brackets pairs refused unclosed)
    (hb : brackets.Pairwise OpenBracket.Before) : (pairs.map Prod.fst ++ unclosed).Nodup := by
  have hn : brackets.Nodup := by
    refine hb.imp fun {a b} hab he ↦ ?_
    rw [he] at hab
    exact OpenBracket.not_before_self b hab
  exact h.openers.nodup_iff.1 (hn.filter _)

/-- After all brackets, those are open that are left unclosed. -/
theorem isOpenAt_iff (h : Accounts brackets pairs refused unclosed)
    (hb : brackets.Pairwise OpenBracket.Before) (hx : ∀ a ∈ brackets, a.Before x) :
    IsOpenAt brackets pairs x o ↔ o ∈ unclosed := by
  constructor
  · rintro ⟨hmem, ho, -, hp⟩
    have hm := h.openers.mem_iff.1 (List.mem_filter.2 ⟨hmem, ho⟩)
    obtain hm | hm := List.mem_append.1 hm
    · obtain ⟨p, hpm, rfl⟩ := List.mem_map.1 hm
      exact absurd (hx p.2 (h.mem_of_mem_pairs hpm).2.1) (hp p hpm rfl)
    · exact hm
  · intro ho
    obtain ⟨hmem, hopener⟩ := h.isOpener_of_mem_unclosed ho
    refine ⟨hmem, hopener, hx o hmem, fun p hp he ↦ ?_⟩
    have hne := (List.nodup_append.1 (h.nodup_openers hb)).2.2 p.1 (List.mem_map_of_mem hp) o ho
    exact absurd he hne

theorem isInnermostAt_of_concat (h : Accounts brackets pairs refused (unclosed ++ [o]))
    (hb : brackets.Pairwise OpenBracket.Before) (hx : ∀ a ∈ brackets, a.Before x) :
    IsInnermostAt brackets pairs x o := by
  refine ⟨(h.isOpenAt_iff hb hx).2 (by simp), fun o' ho' ↦ ?_⟩
  have hmem := (h.isOpenAt_iff hb hx).1 ho'
  obtain hmem | hmem := List.mem_append.1 hmem
  · have hlast := (List.pairwise_append.1 (hb.sublist h.unclosed_sublist)).2.2
    exact .inr (hlast o' hmem o (List.mem_singleton_self o))
  · exact .inl (List.mem_singleton.1 hmem)

theorem paired_concat (h : Accounts brackets pairs refused unclosed)
    (hx : ∀ a ∈ brackets, a.Before x) (he : ExtendAt x pairs pairs') :
    ∀ p ∈ pairs, closerFor? p.1.char = some p.2.char ∧
      IsInnermostAt (brackets ++ [x]) pairs' p.2 p.1 := by
  intro p hp
  obtain ⟨hc, hi⟩ := h.paired p hp
  have hbefore := (hx p.2 (h.mem_of_mem_pairs hp).2.1).not_before
  exact ⟨hc, hi.congr fun o ↦ isOpenAt_concat he hbefore⟩

theorem refusedAs_concat (h : Accounts brackets pairs refused unclosed)
    (hx : ∀ a ∈ brackets, a.Before x) (he : ExtendAt x pairs pairs') :
    ∀ r ∈ refused, RefusedAs (brackets ++ [x]) pairs' r.1 r.2 := by
  intro r hr
  have hmem : r.1 ∈ brackets := h.refused_sublist.subset (List.mem_map_of_mem hr)
  exact (h.refusedAs r hr).congr fun o ↦ isOpenAt_concat he (hx r.1 hmem).not_before

/-! ### One more bracket -/

theorem opener (h : Accounts brackets pairs refused unclosed) (hx : ∀ a ∈ brackets, a.Before x)
    (ho : x.isOpener = true) :
    Accounts (brackets ++ [x]) pairs refused (unclosed ++ [x]) where
  openers := by
    rw [filter_concat_of_pos ho, ← List.append_assoc]
    exact h.openers.append_right [x]
  closers := by
    rw [filter_concat_of_neg (OpenBracket.isCloser_eq_false ho)]
    exact h.closers
  paired := h.paired_concat hx (.refl x pairs)
  refusedAs := h.refusedAs_concat hx (.refl x pairs)
  refused_sublist := h.refused_sublist.trans (List.sublist_append_left _ _)
  unclosed_sublist := h.unclosed_sublist.append (List.Sublist.refl [x])

theorem partner (h : Accounts brackets pairs refused (unclosed ++ [o]))
    (hb : brackets.Pairwise OpenBracket.Before) (hx : ∀ a ∈ brackets, a.Before x)
    (hc : closerFor? o.char = some x.char) :
    Accounts (brackets ++ [x]) (pairs ++ [(o, x)]) refused unclosed where
  openers := by
    have hcloser : x.isCloser = true := isCloser_of_closerFor? hc
    rw [filter_concat_of_neg (OpenBracket.isOpener_eq_false hcloser), List.map_append,
      List.append_assoc]
    exact h.openers.trans (List.perm_append_comm.append_left _)
  closers := by
    have hcloser : x.isCloser = true := isCloser_of_closerFor? hc
    rw [filter_concat_of_pos hcloser, List.map_append, List.append_assoc]
    refine (h.closers.append_right [x]).trans ?_
    rw [List.append_assoc]
    exact List.perm_append_comm.append_left _
  paired := by
    refine List.forall_mem_append.2 ⟨h.paired_concat hx (.concat o x pairs), ?_⟩
    rw [List.forall_mem_singleton]
    refine ⟨hc, (h.isInnermostAt_of_concat hb hx).congr fun o' ↦ ?_⟩
    exact isOpenAt_concat (.concat o x pairs) (OpenBracket.not_before_self x)
  refusedAs := h.refusedAs_concat hx (.concat o x pairs)
  refused_sublist := h.refused_sublist.trans (List.sublist_append_left _ _)
  unclosed_sublist := ((List.sublist_append_left unclosed [o]).trans h.unclosed_sublist).trans
    (List.sublist_append_left _ _)

theorem refuse (h : Accounts brackets pairs refused unclosed) (hx : ∀ a ∈ brackets, a.Before x)
    (hc : x.isCloser = true) {kind : BracketProblem.Kind} (hk : RefusedAs brackets pairs x kind) :
    Accounts (brackets ++ [x]) pairs (refused ++ [(x, kind)]) unclosed where
  openers := by
    rw [filter_concat_of_neg (OpenBracket.isOpener_eq_false hc)]
    exact h.openers
  closers := by
    rw [filter_concat_of_pos hc, List.map_append, ← List.append_assoc]
    exact h.closers.append_right [x]
  paired := h.paired_concat hx (.refl x pairs)
  refusedAs := by
    refine List.forall_mem_append.2 ⟨h.refusedAs_concat hx (.refl x pairs), ?_⟩
    rw [List.forall_mem_singleton]
    exact hk.congr fun o ↦ isOpenAt_concat (.refl x pairs) (OpenBracket.not_before_self x)
  refused_sublist := by
    rw [List.map_append]
    exact h.refused_sublist.append (List.Sublist.refl [x])
  unclosed_sublist := h.unclosed_sublist.trans (List.sublist_append_left _ _)

/-- Of two pairs one lies inside the other, or behind it. -/
theorem nested (h : Accounts brackets pairs refused unclosed)
    (hb : brackets.Pairwise OpenBracket.Before) {p q : OpenBracket × OpenBracket} (hp : p ∈ pairs)
    (hq : q ∈ pairs) (hpq : p.1.Before q.1) : q.2.Before p.2 ∨ p.2.Before q.1 := by
  obtain ⟨⟨-, -⟩, hpc, hpcloser⟩ := h.mem_of_mem_pairs hp
  obtain ⟨⟨hqo, hqopener⟩, -, -⟩ := h.mem_of_mem_pairs hq
  have hne : p.2 ≠ q.1 := by
    intro he
    rw [he, OpenBracket.isCloser_eq_false hqopener] at hpcloser
    cases hpcloser
  obtain hbefore | hbefore := Sorting.rel_or_rel_of_mem hb hpc hqo hne
  · exact .inr hbefore
  · refine Classical.byContradiction fun hnot ↦ ?_
    -- the inner opening bracket is closed by then, or it would be the innermost one
    have hopen : IsOpenAt brackets pairs p.2 q.1 := by
      refine ⟨hqo, hqopener, hbefore, fun p' hp' he hclosed ↦ ?_⟩
      have hnodup : (pairs.map Prod.fst).Nodup := (List.nodup_append.1 (h.nodup_openers hb)).1
      obtain rfl : p' = q := List.inj_on_of_nodup_map hnodup hp' hq he
      exact hnot (.inl hclosed)
    obtain he | hlater := (h.paired p hp).2.2 q.1 hopen
    · rw [he] at hpq
      exact OpenBracket.not_before_self _ hpq
    · exact hpq.not_before hlater

end Accounts

/-! ### A whole text -/

def refusal (r : OpenBracket × BracketProblem.Kind) : BracketProblem := ⟨r.1.line, r.1.column, r.2⟩

def unclosedProblem (o : OpenBracket) : BracketProblem := ⟨o.line, o.column, .unclosed o.char⟩

variable {b : BracketChecker} {brackets rest : List OpenBracket}
variable {pairs : List (OpenBracket × OpenBracket)}
variable {refused : List (OpenBracket × BracketProblem.Kind)} {x : OpenBracket}

theorem exists_accounts_next (h : Accounts brackets pairs refused b.stack.reverse)
    (hproblems : b.problems.reverse = refused.map refusal)
    (hb : brackets.Pairwise OpenBracket.Before) (hx : ∀ a ∈ brackets, a.Before x)
    (hbracket : isBracket x.char) :
    ∃ pairs refused, Accounts (brackets ++ [x]) pairs refused (b.next x).stack.reverse ∧
      (b.next x).problems.reverse = refused.map refusal := by
  by_cases ho : x.isOpener = true
  · rw [next_of_opener ho]
    refine ⟨pairs, refused, ?_, hproblems⟩
    rw [List.reverse_cons]
    exact h.opener hx ho
  · have hc : x.isCloser = true := (Bool.or_eq_true_iff.1 hbracket).resolve_left ho
    cases hstack : b.stack with
    | nil =>
      rw [next_of_unexpected hc hstack]
      refine ⟨pairs, refused ++ [(x, .unexpected x.char)], ?_, ?_⟩
      · refine h.refuse hx hc (.unexpected fun o ↦ ?_)
        rw [h.isOpenAt_iff hb hx, hstack]
        exact List.not_mem_nil
      · rw [report, List.reverse_cons, hproblems, List.map_append]
        rfl
    | cons top stack =>
      rw [hstack, List.reverse_cons] at h
      have hopener := (h.isOpener_of_mem_unclosed (List.mem_concat_self ..)).2
      obtain ⟨expected, hexpected⟩ := Option.isSome_iff_exists.1 hopener
      by_cases he : expected = x.char
      · rw [he] at hexpected
        rw [next_of_partner hstack hexpected]
        exact ⟨_, refused, h.partner hb hx hexpected, hproblems⟩
      · rw [next_of_mismatched hc hstack hexpected he]
        refine ⟨pairs, refused ++ [(x, .mismatched expected x.char)], ?_, ?_⟩
        · rw [report, hstack, List.reverse_cons]
          exact h.refuse hx hc (.mismatched (h.isInnermostAt_of_concat hb hx) hexpected he)
        · rw [report, List.reverse_cons, hproblems, List.map_append]
          rfl

theorem exists_accounts_foldl_next (h : Accounts brackets pairs refused b.stack.reverse)
    (hproblems : b.problems.reverse = refused.map refusal)
    (hb : (brackets ++ rest).Pairwise OpenBracket.Before) (hrest : ∀ o ∈ rest, isBracket o.char) :
    ∃ pairs refused, Accounts (brackets ++ rest) pairs refused (rest.foldl next b).stack.reverse ∧
      (rest.foldl next b).problems.reverse = refused.map refusal := by
  induction rest generalizing brackets pairs refused b with
  | nil => exact ⟨pairs, refused, by rwa [List.append_nil], hproblems⟩
  | cons x rest ih =>
    obtain ⟨hbefore, -, hx⟩ := List.pairwise_append.1 hb
    rw [List.forall_mem_cons] at hrest
    obtain ⟨pairs', refused', h', hproblems'⟩ := exists_accounts_next h hproblems hbefore
      (fun a ha ↦ hx a ha x List.mem_cons_self) hrest.1
    rw [List.append_cons] at hb ⊢
    exact ih h' hproblems' hb hrest.2

/-- There is nothing to report exactly if the brackets are balanced. In any case each of them is
paired or reported, properly nested and in the order of the text. -/
theorem finish_checkLines (lines : List MaskedLine)
    (h : (lines.map MaskedLine.number).Pairwise (· < ·)) :
    let brackets := lines.flatMap MaskedLine.brackets
    let problems := (checkLines {} lines).finish
    (problems = [] ↔ Balanced (lines.flatMap fun l ↦ bracketsOf l.masked l.text)) ∧
      brackets.Pairwise OpenBracket.Before ∧
      ∃ pairs refused unclosed, Accounts brackets pairs refused unclosed ∧
        (∀ p ∈ pairs, ∀ q ∈ pairs, p.1.Before q.1 → q.2.Before p.2 ∨ p.2.Before q.1) ∧
        problems = refused.map refusal ++ unclosed.map unclosedProblem := by
  intro brackets problems
  have hb : brackets.Pairwise OpenBracket.Before := MaskedLine.pairwise_brackets h
  have hbracket : ∀ o ∈ brackets, isBracket o.char := fun o ho ↦
    MaskedLine.isBracket_of_mem_brackets ho
  have hproblems : problems = (brackets.foldl next {}).finish := by
    rw [← checkLines_eq_foldl]
  have hchars : brackets.map OpenBracket.char =
      lines.flatMap fun l ↦ bracketsOf l.masked l.text := by
    rw [List.map_flatMap]
    exact congrArg (lines.flatMap ·) (funext MaskedLine.map_char_brackets)
  refine ⟨?_, hb, ?_⟩
  · rw [hproblems, finish_foldl_next_eq_nil_iff hbracket, hchars]
  · have hstart : Accounts [] [] [] ([] : List OpenBracket) :=
      ⟨.nil, .nil, by simp, by simp, .slnil, .slnil⟩
    obtain ⟨pairs, refused, haccounts, hreported⟩ :=
      exists_accounts_foldl_next (b := {}) hstart rfl hb hbracket
    refine ⟨pairs, refused, _, haccounts, fun p hp q hq ↦ haccounts.nested hb hp hq, ?_⟩
    rw [hproblems, finish]
    exact congrArg (· ++ _) hreported

/-- A bracket of each kind without a partner, and a masked one. -/
def snippet : List MaskedLine :=
  [⟨0, "\x7b f(a]".toList, fun _ ↦ false⟩, ⟨1, ") \x7d '('".toList, (· == 5)⟩,
    ⟨4, "] (".toList, fun _ ↦ false⟩]

theorem finish_checkLines_snippet :
    (snippet.map MaskedLine.number).Pairwise (· < ·) ∧
      (checkLines {} snippet).finish = [⟨0, 5, .mismatched ')' ']'⟩, ⟨4, 0, .unexpected ']'⟩,
        ⟨4, 2, .unclosed '('⟩] ∧
      ¬Balanced (snippet.flatMap fun l ↦ bracketsOf l.masked l.text) := by
  have hn : (snippet.map MaskedLine.number).Pairwise (· < ·) := by decide
  have hfinish : (checkLines {} snippet).finish = [⟨0, 5, .mismatched ')' ']'⟩,
      ⟨4, 0, .unexpected ']'⟩, ⟨4, 2, .unclosed '('⟩] := by decide
  refine ⟨hn, hfinish, fun hbalanced ↦ ?_⟩
  rw [← (finish_checkLines snippet hn).1, hfinish] at hbalanced
  cases hbalanced

end BracketChecker

end Highlighter
