import Highlighter.Proofs.Regex.Reading
import Highlighter.Proofs.Regex.Matching

/-!
What is read of a pattern step by step: one sign or item at a time, which goes on with what was
read before it, or begins a group.
-/

namespace Highlighter.Regex

variable {t rest : Text}

/-! ### Repetitions -/

theorem dropWhile_closed {p : Char → Bool} (hp : p ')' = false) (t w : Text) :
    (t ++ ')' :: w).dropWhile p = t.dropWhile p ++ ')' :: w := by
  simpa only [List.span_eq_takeWhile_dropWhile] using congrArg Prod.snd (span_closed hp t w)

theorem readCount_closed (t w : Text) :
    readCount (t ++ ')' :: w) = ((readCount t).1, (readCount t).2 ++ ')' :: w) := by
  rw [readCount, readCount, dropWhile_closed (by decide), span_closed (by decide)]
  simp only [dropWhile_closed (p := Text.isBlank) (by decide)]

theorem readCount_suffix : (readCount t).2 <:+ t :=
  (List.dropWhile_suffix _).trans ((span_suffix rfl).trans (List.dropWhile_suffix _))

theorem isReader_readCount : IsReader fun t ↦ some (readCount t) := by
  refine .of_closed (fun {t rest n} h ↦ ?_) fun t w ↦ congrArg some (readCount_closed t w)
  have hs : (readCount t).2 <:+ t := readCount_suffix
  rwa [Option.some.inj h] at hs

/-- The end of a repetition with two bounds. -/
def readMost (n : ℕ) : Option ℕ → Text → Option ((ℕ × Option ℕ) × Text)
  | some m, '}' :: t => if n ≤ m then some ((n, some m), t) else none
  | _, _ => none

/-- A repetition after its lower bound. -/
def readAfterLeast : Option ℕ → Text → Option ((ℕ × Option ℕ) × Text)
  | some n, '}' :: t => some ((n, some n), t)
  | some n, ',' :: '}' :: t => some ((n, none), t)
  | some n, ',' :: t => readMost n (readCount t).1 (readCount t).2
  | _, _ => none

theorem readAfterLeast_comma {n : ℕ} (h : t.head? ≠ some '}') :
    readAfterLeast (some n) (',' :: t) = readMost n (readCount t).1 (readCount t).2 :=
  readAfterLeast.eq_3 n t (ne_cons_of_head? h)

theorem readBounds_eq (t : Text) :
    readBounds t = (some (readCount t)).bind fun r ↦ readAfterLeast r.1 r.2 := by
  rw [readBounds, Option.bind_some]
  rcases readCount t with ⟨_ | n, mid⟩
  · rfl
  cases mid with
  | nil => rfl
  | cons c mid =>
    by_cases hc : c = '}'
    · subst hc
      rfl
    by_cases hc' : c = ','
    · subst hc'
      by_cases hmid : mid.head? = some '}'
      · obtain ⟨mid, rfl⟩ := List.head?_eq_some_iff.1 hmid
        rfl
      · rw [readAfterLeast_comma hmid]
        split
        · next h => simp at h
        · next h =>
          cases h
          exact absurd rfl hmid
        · next h =>
          cases h
          rcases readCount mid with ⟨m, after⟩
          unfold readMost
          split <;> simp_all
        · next h => exact absurd rfl (h n mid)
    · simp [readAfterLeast, hc, hc']

theorem isReader_readMost (n : ℕ) (m : Option ℕ) : IsReader (readMost n m) := by
  cases m with
  | none => exact .fail
  | some m =>
    refine .cons rfl fun c ↦ ?_
    by_cases hc : c = '}'
    · subst hc
      exact .ite (.pure (n, some m)) .fail
    · simpa [readMost, hc] using IsReader.fail

theorem isReader_readAfterLeast (n : Option ℕ) : IsReader (readAfterLeast n) := by
  cases n with
  | none => exact .fail
  | some n =>
    refine .cons rfl fun c ↦ ?_
    by_cases hc : c = '}'
    · subst hc
      exact .pure (n, some n)
    by_cases hc' : c = ','
    · subst hc'
      refine .of_head '}' (by decide) (.pure (n, none))
        (isReader_readCount.bind fun m ↦ isReader_readMost n m) fun t ht ↦ ?_
      exact readAfterLeast_comma ht
    · simpa [readAfterLeast, hc, hc'] using IsReader.fail

theorem isReader_readBounds : IsReader readBounds := by
  simp only [funext readBounds_eq]
  exact isReader_readCount.bind isReader_readAfterLeast

/-- How often, as the sign of a repetition says. -/
def readTimes : Text → Option ((ℕ × Option ℕ) × Text)
  | '*' :: t => some ((0, none), t)
  | '+' :: t => some ((1, none), t)
  | '?' :: t => some ((0, some 1), t)
  | '{' :: t => readBounds t
  | _ => none

def readLazy (modes : Modes) : Text → Bool × Text
  | '?' :: t => (!modes.lazy, t)
  | t => (modes.lazy, t)

theorem readRepetition_eq (modes : Modes) (t : Text) : readRepetition modes t =
    (readTimes t).bind fun r ↦
      some ((r.1.1, r.1.2, (readLazy modes r.2).1), (readLazy modes r.2).2) := by
  have hlazy (n : ℕ × Option ℕ) (mid : Text) : (match mid with
      | '?' :: rest => some ((n.1, n.2, !modes.lazy), rest)
      | _ => some ((n.1, n.2, modes.lazy), mid)) =
        some ((n.1, n.2, (readLazy modes mid).1), (readLazy modes mid).2) := by
    unfold readLazy
    split <;> rfl
  rw [readRepetition.eq_def]
  split
  · exact hlazy (0, none) _
  · exact hlazy (1, none) _
  · exact hlazy (0, some 1) _
  · exact Option.bind_congr fun ⟨n, mid⟩ _ ↦ hlazy n mid
  · next h₁ h₂ h₃ h₄ =>
    rw [readTimes.eq_5 t h₁ h₂ h₃ h₄]
    rfl

theorem isReader_readTimes_cons (c : Char) : IsReader fun t ↦ readTimes (c :: t) := by
  by_cases h₁ : c = '*'
  · subst h₁
    exact .pure (0, none)
  by_cases h₂ : c = '+'
  · subst h₂
    exact .pure (1, none)
  by_cases h₃ : c = '?'
  · subst h₃
    exact .pure (0, some 1)
  by_cases h₄ : c = '{'
  · subst h₄
    exact isReader_readBounds
  · simpa [readTimes, h₁, h₂, h₃, h₄] using IsReader.fail

theorem isReader_readLazy (modes : Modes) : IsReader fun t ↦ some (readLazy modes t) := by
  refine .of_head '?' (by decide) (.pure _) (.pure modes.lazy) fun t ht ↦ ?_
  rw [readLazy.eq_2 modes t (ne_cons_of_head? ht)]

theorem isReader_readRepetition_cons (modes : Modes) (c : Char) :
    IsReader fun t ↦ readRepetition modes (c :: t) := by
  simp only [readRepetition_eq]
  exact (isReader_readTimes_cons c).bind fun n ↦ (isReader_readLazy modes).map fun z ↦ (n.1, n.2, z)

/-! ### Items and signs -/

theorem readModes_suffix {modes inner : Modes} {on isGroup : Bool} {seen : List Char}
    (h : readModes modes on seen t = some (inner, isGroup, rest)) : rest <:+ t := by
  fun_induction readModes modes on seen t with
  | case1 | case3 | case5 | case7 | case9 => cases h
  | case2 modes on seen t => cases h; exact List.suffix_cons ':' _
  | case4 modes on seen t => cases h; exact List.suffix_cons ')' _
  | case6 modes on seen t hs ih => exact (ih h).trans (List.suffix_cons '-' t)
  | case8 modes on seen c t h₁ h₂ h₃ hs ih =>
    obtain ⟨modes', hm, h⟩ := Option.bind_eq_some_iff.1 h
    exact (ih modes' h).trans (List.suffix_cons c t)

theorem readModes_append_iff {modes inner : Modes} {on isGroup : Bool} {seen : List Char}
    (w : Text) : readModes modes on seen (t ++ ')' :: w) = some (inner, isGroup, rest ++ ')' :: w) ↔
      readModes modes on seen t = some (inner, isGroup, rest) := by
  fun_induction readModes modes on seen t with
  | case1 modes on seen t hs => simp [readModes, hs]
  | case2 modes on seen t hs => simp [readModes, hs]
  | case3 modes on seen t hs => simp [readModes, hs]
  | case4 modes on seen t hs => simp [readModes, hs]
  | case5 modes on seen t hs => simp [readModes, hs]
  | case6 modes on seen t hs ih => simp [readModes, hs, ih]
  | case7 modes on seen c t h₁ h₂ h₃ hs => simp [readModes, hs]
  | case8 modes on seen c t h₁ h₂ h₃ hs ih =>
    rw [List.cons_append, readModes.eq_4 modes on seen c _ h₁ h₂ h₃, if_neg hs]
    cases hm : modes.switch on c with
    | none => simp
    | some modes' => exact ih modes'
  | case9 modes on seen =>
    refine ⟨fun h ↦ ?_, nofun⟩
    rw [List.nil_append, readModes] at h
    split at h
    · cases h
    · have hrest : w = rest ++ ')' :: w := (Prod.mk.inj (Prod.mk.inj (Option.some.inj h)).2).2
      have hs : rest ++ ')' :: w <:+ w := by rw [← hrest]
      exact absurd hs (not_append_suffix rest w)

/-- What one step of a group reads. -/
inductive Piece where
  | alternative
  | single (r : Regex)
  | repetition (least : ℕ) (most : Option ℕ) (lazy : Bool)
  | switch (modes : Modes)
  | enter (modes : Modes)

/-- What stands after an opening parenthesis and a question mark. -/
def readSwitch (modes : Modes) (t : Text) : Option (Piece × Text) :=
  (readModes modes true [] t).map fun r ↦ (if r.2.1 then .enter r.1 else .switch r.1, r.2.2)

def readOpening (modes : Modes) : Text → Option (Piece × Text)
  | '?' :: t => readSwitch modes t
  | t => some (.enter modes, t)

def Modes.dot (modes : Modes) : CharSet :=
  if modes.dotAll then .compl .none else .compl (.single '\n')

def Modes.caret (modes : Modes) : Boundary := if modes.multiLine then .lineStart else .textStart

def Modes.dollar (modes : Modes) : Boundary := if modes.multiLine then .lineEnd else .textEnd

def readPiece (modes : Modes) (fuel : ℕ) (c : Char) (t : Text) : Option (Piece × Text) :=
  if c = '|' then some (.alternative, t)
  else if c = '(' then readOpening modes t
  else if c = '[' then (readOpenClass modes fuel t).map fun r ↦ (.single (.set r.1), r.2)
  else if c = '\\' then (readEscape t).map fun r ↦ (.single (r.1.regex modes), r.2)
  else if c = '.' then some (.single (.set modes.dot), t)
  else if c = '^' then some (.single (.boundary modes.caret), t)
  else if c = '$' then some (.single (.boundary modes.dollar), t)
  else if isRepetitionSign c then
    (readRepetition modes (c :: t)).map fun r ↦ (.repetition r.1.1 r.1.2.1 r.1.2.2, r.2)
  else some (.single (literal modes c), t)

theorem isReader_readSwitch (modes : Modes) : IsReader (readSwitch modes) where
  suffix {t rest piece} h := by
    obtain ⟨⟨inner, isGroup, mid⟩, hr, heq⟩ := Option.map_eq_some_iff.1 h
    cases heq
    exact readModes_suffix hr
  append_iff_of {t rest piece} w _ := by
    simp only [readSwitch, Option.map_eq_some_iff]
    constructor
    · rintro ⟨⟨inner, isGroup, mid⟩, hr, heq⟩
      cases heq
      exact ⟨_, (readModes_append_iff w).1 hr, rfl⟩
    · rintro ⟨⟨inner, isGroup, mid⟩, hr, heq⟩
      cases heq
      exact ⟨_, (readModes_append_iff w).2 hr, rfl⟩

theorem isReader_readOpening (modes : Modes) : IsReader (readOpening modes) :=
  .of_head '?' (by decide) (isReader_readSwitch modes) (.pure (.enter modes)) fun t ht ↦
    readOpening.eq_2 modes t (ne_cons_of_head? ht)

theorem isReader_readPiece (modes : Modes) (fuel : ℕ) (c : Char) :
    IsReader (readPiece modes fuel c) :=
  .ite (.pure Piece.alternative) <| .ite (isReader_readOpening modes) <|
    .ite ((isReader_readOpenClass modes fuel).map fun s ↦ Piece.single (.set s)) <|
    .ite (isReader_readEscape.map fun a ↦ Piece.single (a.regex modes)) <|
    .ite (.pure (Piece.single (.set modes.dot))) <|
    .ite (.pure (Piece.single (.boundary modes.caret))) <|
    .ite (.pure (Piece.single (.boundary modes.dollar))) <|
    .ite ((isReader_readRepetition_cons modes c).map fun n ↦ Piece.repetition n.1 n.2.1 n.2.2)
      (.pure (Piece.single (literal modes c)))

theorem readPiece_fuel {modes : Modes} {fuel fuel' : ℕ} (c : Char) (h : t.length < fuel)
    (h' : t.length < fuel') : readPiece modes fuel c t = readPiece modes fuel' c t := by
  rw [readPiece, readPiece, readOpenClass_fuel h h']

/-- What a group goes on with after a piece that is no group. -/
def GroupState.act? (modes : Modes) (st : GroupState) : Piece → Option (Modes × GroupState)
  | .alternative => some (modes, st.nextAlternative)
  | .single r => some (modes, st.add r)
  | .repetition least most lazy => (st.repeatLast least most lazy).map (modes, ·)
  | .switch inner => some (inner, { st with items := none :: st.items })
  | .enter _ => none

def readClose (k : Text → Option (Regex × Text)) : Text → Option (Regex × Text)
  | ')' :: t => k t
  | _ => none

/-- The rest of a group after a piece of it. -/
def readGroupFrom (modes : Modes) (fuel : ℕ) (st : GroupState) :
    Piece → Text → Option (Regex × Text)
  | .enter inner, t => (readGroup fuel inner {} t).bind fun r ↦
      readClose (readGroup fuel modes (st.add r.1)) r.2
  | piece, t => (st.act? modes piece).bind fun next ↦ readGroup fuel next.1 next.2 t

section

variable {modes : Modes} {fuel : ℕ} {st : GroupState}

theorem readGroup_enter {inner : Modes} : (do
      match ← readGroup fuel inner {} t with
      | (r, ')' :: rest) => readGroup fuel modes (st.add r) rest
      | _ => none) = readGroupFrom modes fuel st (.enter inner) t := by
  refine Option.bind_congr fun ⟨r, mid⟩ _ ↦ ?_
  unfold readClose
  split
  · next h =>
    cases h
    rfl
  · next h =>
    dsimp only
    split
    · exact absurd rfl (h _ _)
    · rfl

theorem readGroup_question : readGroup (fuel + 1) modes st ('(' :: '?' :: t) =
    (readSwitch modes t).bind fun r ↦ readGroupFrom modes fuel st r.1 r.2 := by
  rw [readGroup, readSwitch, Option.bind_map]
  refine Option.bind_congr fun ⟨inner, isGroup, mid⟩ _ ↦ ?_
  cases isGroup with
  | false => rfl
  | true => exact readGroup_enter

theorem readGroup_opening (h : t.head? ≠ some '?') : readGroup (fuel + 1) modes st ('(' :: t) =
    readGroupFrom modes fuel st (.enter modes) t :=
  (readGroup.eq_6 modes st fuel t (ne_cons_of_head? h)).trans readGroup_enter

theorem readGroup_cons {c : Char} (hc : c ≠ ')') : readGroup (fuel + 1) modes st (c :: t) =
    (readPiece modes fuel c t).bind fun r ↦ readGroupFrom modes fuel st r.1 r.2 := by
  unfold readPiece
  split_ifs with h₁ h₂ h₃ h₄ h₅ h₆ h₇ h₈
  · subst h₁
    rfl
  · subst h₂
    by_cases ht : t.head? = some '?'
    · obtain ⟨t, rfl⟩ := List.head?_eq_some_iff.1 ht
      exact readGroup_question
    · rw [readGroup_opening ht, readOpening.eq_2 modes t (ne_cons_of_head? ht)]
      rfl
  · subst h₃
    rw [Option.bind_map]
    rfl
  · subst h₄
    rw [Option.bind_map]
    rfl
  · subst h₅
    rfl
  · subst h₆
    rfl
  · subst h₇
    rfl
  · rw [readGroup.eq_12 modes st fuel c t hc h₁ (fun _ h ↦ absurd h h₂) h₂ h₃ h₄ h₅ h₆ h₇,
      if_pos h₈, Option.bind_map]
    refine Option.bind_congr fun ⟨⟨least, most, lazy⟩, mid⟩ _ ↦ ?_
    change _ = ((st.repeatLast least most lazy).map (modes, ·)).bind _
    rw [Option.bind_map]
    rfl
  · rw [readGroup.eq_12 modes st fuel c t hc h₁ (fun _ h ↦ absurd h h₂) h₂ h₃ h₄ h₅ h₆ h₇,
      if_neg h₈]
    rfl

end

theorem readClose_eq_some_iff {k : Text → Option (Regex × Text)} {r : Regex × Text} :
    readClose k t = some r ↔ ∃ t', t = ')' :: t' ∧ k t' = some r := by
  unfold readClose
  split
  · simp
  · next h => exact ⟨nofun, fun ⟨t', ht, _⟩ ↦ absurd ht (h t')⟩

theorem isReader_readClose {k : Text → Option (Regex × Text)} (h : IsReader k) :
    IsReader (readClose k) := by
  refine .cons rfl fun c ↦ ?_
  by_cases hc : c = ')'
  · subst hc
    exact h
  · simpa [readClose, hc] using IsReader.fail

theorem isReader_readGroupFrom {modes : Modes} {fuel : ℕ} {st : GroupState}
    (h : ∀ modes st, IsReader (readGroup fuel modes st)) (piece : Piece) :
    IsReader (readGroupFrom modes fuel st piece) := by
  have hact : IsReader fun t ↦ (st.act? modes piece).bind fun next ↦
      readGroup fuel next.1 next.2 t := by
    cases st.act? modes piece with
    | none => exact .fail
    | some next => exact h next.1 next.2
  cases piece with
  | enter inner => exact (h inner {}).bind fun r ↦ isReader_readClose (h modes (st.add r))
  | _ => exact hact

theorem isReader_readGroup (modes : Modes) (fuel : ℕ) (st : GroupState) :
    IsReader (readGroup fuel modes st) := by
  induction fuel generalizing modes st with
  | zero => exact .fail
  | succ fuel ih =>
    refine .of_ends st.value rfl (fun _ ↦ rfl) fun c hc ↦ ?_
    simp only [readGroup_cons hc]
    exact (isReader_readPiece modes fuel c).bind (isReader_readGroupFrom ih)

/-- More fuel than characters is enough fuel. -/
theorem readGroup_fuel {modes : Modes} {fuel fuel' : ℕ} {st : GroupState} (h : t.length < fuel)
    (h' : t.length < fuel') : readGroup fuel modes st t = readGroup fuel' modes st t := by
  induction fuel generalizing fuel' modes st t with
  | zero => exact absurd h (Nat.not_lt_zero _)
  | succ fuel ih =>
    obtain ⟨fuel', rfl⟩ := Nat.exists_eq_succ_of_ne_zero (Nat.ne_zero_of_lt h')
    cases t with
    | nil => rfl
    | cons c t =>
      by_cases hc : c = ')'
      · subst hc
        rfl
      replace h : t.length < fuel := Nat.lt_of_succ_lt_succ h
      replace h' : t.length < fuel' := Nat.lt_of_succ_lt_succ h'
      rw [readGroup_cons hc, readGroup_cons hc, readPiece_fuel c h h']
      refine Option.bind_congr fun ⟨piece, mid⟩ hr ↦ ?_
      have hle := ((isReader_readPiece modes fuel' c).suffix hr).length_le
      have hm : mid.length < fuel := hle.trans_lt h
      have hm' : mid.length < fuel' := hle.trans_lt h'
      cases piece with
      | enter inner =>
        dsimp only [readGroupFrom]
        rw [ih hm hm']
        refine Option.bind_congr fun ⟨r, mid'⟩ hr' ↦ ?_
        have hle' := ((isReader_readGroup inner fuel' {}).suffix hr').length_le
        cases mid' with
        | nil => rfl
        | cons d t' =>
          have hlt : t'.length < mid.length := hle'
          by_cases hd : d = ')'
          · subst hd
            exact ih (hlt.trans hm) (hlt.trans hm')
          · simp [readClose, hd]
      | _ =>
        dsimp only [readGroupFrom]
        exact Option.bind_congr fun next _ ↦ ih hm hm'

/-! ### Bounds of repetitions -/

def Piece.HasBounds : Piece → Prop
  | .single r => r.HasBounds
  | .repetition least most _ => ∀ n ∈ most, least ≤ n
  | _ => True

structure GroupState.HasBounds (st : GroupState) : Prop where
  alternatives {r : Regex} (h : r ∈ st.alternatives) : r.HasBounds
  items {r : Regex} (h : some r ∈ st.items) : r.HasBounds

namespace GroupState

variable {st : GroupState}

theorem HasBounds.init : HasBounds {} := ⟨nofun, nofun⟩

theorem HasBounds.add {r : Regex} (h : st.HasBounds) (hr : r.HasBounds) : (st.add r).HasBounds where
  alternatives := h.alternatives
  items hs := by
    obtain hs | hs := List.mem_cons.1 hs
    · cases hs
      exact hr
    · exact h.items hs

theorem HasBounds.sequence (h : st.HasBounds) : st.sequence.HasBounds := by
  have hitems : ∀ r ∈ st.items.reverse.filterMap id, r.HasBounds := by
    intro r hr
    obtain ⟨item, hitem, rfl⟩ := List.mem_filterMap.1 hr
    exact h.items (List.mem_reverse.1 hitem)
  rw [GroupState.sequence]
  split
  · trivial
  · next r rest hrest =>
    rw [hrest, List.forall_mem_cons] at hitems
    exact List.foldlRecOn rest Regex.seq hitems.1 fun _ hr s hs ↦ ⟨hr, hitems.2 s hs⟩

theorem HasBounds.nextAlternative (h : st.HasBounds) : st.nextAlternative.HasBounds where
  alternatives hr := by
    obtain rfl | hr := List.mem_cons.1 hr
    · exact h.sequence
    · exact h.alternatives hr
  items := nofun

theorem HasBounds.value (h : st.HasBounds) : st.value.HasBounds :=
  List.foldlRecOn st.alternatives _ h.sequence fun _ hr _ hs ↦ ⟨h.alternatives hs, hr⟩

theorem HasBounds.act? {modes : Modes} {piece : Piece} {next : Modes × GroupState}
    (h : st.HasBounds) (hp : piece.HasBounds) (ha : st.act? modes piece = some next) :
    next.2.HasBounds := by
  cases piece with
  | alternative => cases ha; exact h.nextAlternative
  | single r => cases ha; exact h.add hp
  | repetition least most lazy =>
    obtain ⟨st', hst', rfl⟩ := Option.map_eq_some_iff.1 ha
    rw [repeatLast] at hst'
    split at hst'
    · next r rest hrest =>
      cases hst'
      refine ⟨h.alternatives, fun hs ↦ ?_⟩
      obtain hs | hs := List.mem_cons.1 hs
      · cases hs
        exact ⟨hp, h.items (hrest ▸ List.mem_cons_self)⟩
      · exact h.items (hrest ▸ List.mem_cons_of_mem _ hs)
    · cases hst'
  | switch inner => cases ha; exact ⟨h.alternatives, fun hs ↦ h.items (by simpa using hs)⟩
  | enter inner => cases ha

end GroupState

theorem readBounds_le {n : ℕ × Option ℕ} (h : readBounds t = some (n, rest)) :
    ∀ m ∈ n.2, n.1 ≤ m := by
  rw [readBounds_eq, Option.bind_some] at h
  unfold readAfterLeast at h
  split at h
  · cases h; simp
  · cases h; simp
  · unfold readMost at h
    split at h
    · split at h
      · cases h; simpa
      · cases h
    · cases h
  · cases h

theorem readRepetition_le {modes : Modes} {n : ℕ × Option ℕ × Bool}
    (h : readRepetition modes t = some (n, rest)) : ∀ m ∈ n.2.1, n.1 ≤ m := by
  rw [readRepetition_eq] at h
  obtain ⟨⟨k, mid⟩, hk, heq⟩ := Option.bind_eq_some_iff.1 h
  cases heq
  unfold readTimes at hk
  split at hk
  · cases hk; nofun
  · cases hk; nofun
  · cases hk; simp
  · exact readBounds_le hk
  · cases hk

theorem readPiece_hasBounds {modes : Modes} {fuel : ℕ} {c : Char} {piece : Piece}
    (h : readPiece modes fuel c t = some (piece, rest)) : piece.HasBounds := by
  unfold readPiece at h
  split_ifs at h
  · cases h; trivial
  · unfold readOpening readSwitch at h
    split at h
    · obtain ⟨r, -, h⟩ := Option.map_eq_some_iff.1 h
      cases h
      split <;> trivial
    · cases h; trivial
  · obtain ⟨r, -, h⟩ := Option.map_eq_some_iff.1 h
    cases h; trivial
  · obtain ⟨⟨a, mid⟩, -, h⟩ := Option.map_eq_some_iff.1 h
    cases h
    cases a <;> trivial
  · cases h; trivial
  · cases h; trivial
  · cases h; trivial
  · obtain ⟨r, hr, h⟩ := Option.map_eq_some_iff.1 h
    cases h
    exact readRepetition_le hr
  · cases h; trivial

theorem readGroup_hasBounds {modes : Modes} {fuel : ℕ} {st : GroupState} {r : Regex}
    (h : readGroup fuel modes st t = some (r, rest)) (hst : st.HasBounds) : r.HasBounds := by
  induction fuel generalizing modes st t r rest with
  | zero => cases h
  | succ fuel ih =>
    cases t with
    | nil => cases h; exact hst.value
    | cons c t =>
      by_cases hc : c = ')'
      · subst hc
        cases h
        exact hst.value
      rw [readGroup_cons hc] at h
      obtain ⟨⟨piece, mid⟩, hp, h⟩ := Option.bind_eq_some_iff.1 h
      have hpiece := readPiece_hasBounds hp
      have hact (h : ((st.act? modes piece).bind fun next ↦
          readGroup fuel next.1 next.2 mid) = some (r, rest)) : r.HasBounds := by
        obtain ⟨next, ha, h⟩ := Option.bind_eq_some_iff.1 h
        exact ih h (hst.act? hpiece ha)
      cases piece with
      | enter inner =>
        obtain ⟨⟨s, mid'⟩, hs, h⟩ := Option.bind_eq_some_iff.1 h
        obtain ⟨t', rfl, h⟩ := readClose_eq_some_iff.1 h
        exact ih h (hst.add (ih hs .init))
      | _ => exact hact h

/-! ### Groups after other items -/

namespace GroupState

/-- Whether what was read last can be repeated. -/
def canRepeat (st : GroupState) : Bool :=
  match st.items with
  | some _ :: _ => true
  | _ => false

theorem repeatLast_canRepeat (st : GroupState) (least : ℕ) (most : Option ℕ) (lazy : Bool) :
    (st.repeatLast least most lazy).map canRepeat = if st.canRepeat then some true else none := by
  rcases st with ⟨_, _ | ⟨_ | r, rest⟩⟩ <;> rfl

theorem act?_canRepeat {modes : Modes} {st st' : GroupState} (piece : Piece)
    (h : st.canRepeat = st'.canRepeat) :
    (st.act? modes piece).map (fun next ↦ (next.1, next.2.canRepeat)) =
      (st'.act? modes piece).map fun next ↦ (next.1, next.2.canRepeat) := by
  cases piece with
  | repetition least most lazy =>
    have hr : (st.repeatLast least most lazy).map canRepeat =
        (st'.repeatLast least most lazy).map canRepeat := by
      rw [repeatLast_canRepeat, repeatLast_canRepeat, h]
    simpa only [act?, Option.map_map, Function.comp_def] using congrArg (Option.map (modes, ·)) hr
  | _ => rfl

end GroupState

/-- How far a group reads depends on what stands before only in whether that can be repeated. -/
theorem readGroup_rest {modes : Modes} {fuel : ℕ} {st st' : GroupState}
    (h : st.canRepeat = st'.canRepeat) :
    (readGroup fuel modes st t).map Prod.snd = (readGroup fuel modes st' t).map Prod.snd := by
  induction fuel generalizing modes st st' t with
  | zero => rfl
  | succ fuel ih =>
    cases t with
    | nil => rfl
    | cons c t =>
      by_cases hc : c = ')'
      · subst hc
        rfl
      rw [readGroup_cons hc, readGroup_cons hc, Option.map_bind, Option.map_bind]
      refine Option.bind_congr fun ⟨piece, mid⟩ _ ↦ ?_
      have hact : ((st.act? modes piece).bind fun next ↦ readGroup fuel next.1 next.2 mid).map
          Prod.snd = ((st'.act? modes piece).bind fun next ↦ readGroup fuel next.1 next.2 mid).map
          Prod.snd := by
        have ha : (st.act? modes piece).map (fun next ↦ (next.1, next.2.canRepeat)) = _ :=
          GroupState.act?_canRepeat piece h
        cases hs : st'.act? modes piece with
        | none =>
          rw [hs] at ha
          rw [Option.map_eq_none_iff.1 ha]
        | some next' =>
          rw [hs] at ha
          obtain ⟨next, hn, heq⟩ := Option.map_eq_some_iff.1 ha
          obtain ⟨hm, hc⟩ := Prod.mk.inj heq
          rw [hn, Option.bind_some, Option.bind_some, hm]
          exact ih hc
      cases piece with
      | enter inner =>
        simp only [Function.comp_apply, readGroupFrom, Option.map_bind]
        refine Option.bind_congr fun ⟨r, mid'⟩ _ ↦ ?_
        change (readClose _ mid').map _ = (readClose _ mid').map _
        unfold readClose
        split
        · exact ih rfl
        · rfl
      | _ => exact hact

/-! ### Patterns -/

theorem parse?_eq_some_iff {p : Text} {e : Regex} {fuel : ℕ} (h : p.length < fuel) :
    parse? p = some e ↔ readGroup fuel {} {} p = some (e, []) := by
  rw [parse?, readGroup_fuel (Nat.lt_succ_self _) h]
  split
  · next r hr => simp [hr]
  · next hne => exact ⟨nofun, fun hr ↦ absurd hr (hne e)⟩

theorem parse?_hasBounds {p : Text} {e : Regex} (h : parse? p = some e) : e.HasBounds :=
  readGroup_hasBounds ((parse?_eq_some_iff (Nat.lt_succ_self _)).1 h) .init

end Highlighter.Regex
