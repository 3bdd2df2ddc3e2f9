import Highlighter.Proofs.Buffer.Deletion

/-!
Inserting text into a buffer, seen as inserting it into the content: at which offset it goes in,
where it ends, and that deleting it again leaves the lines that there were.
-/

namespace Highlighter

namespace Text

theorem joinLines_splitLines (t : Text) : joinLines (splitLines t) = t := by
  induction t with
  | nil => rfl
  | cons c t ih =>
    rw [splitLines]
    split
    · next hc => rw [joinLines_cons _ (splitLines_ne_nil t), ih, hc, List.nil_append]
    · cases h : splitLines t with
      | nil => exact absurd h (splitLines_ne_nil t)
      | cons line rest =>
        rw [h] at ih
        -- the character goes in front of the first line
        have hjoin := joinLines_append [] [c] line rest
        rw [List.nil_append, List.nil_append, joinLines_singleton, ih] at hjoin
        exact hjoin

theorem newline_notMem_of_mem_splitLines {t line : Text} (h : line ∈ splitLines t) :
    '\n' ∉ line := by
  induction t generalizing line with
  | nil =>
    rw [splitLines, List.mem_singleton] at h
    rw [h]
    exact List.not_mem_nil
  | cons c t ih =>
    rw [splitLines] at h
    split at h
    · obtain rfl | h := List.mem_cons.1 h
      · exact List.not_mem_nil
      · exact ih h
    · next hc =>
      cases hs : splitLines t with
      | nil => exact absurd hs (splitLines_ne_nil t)
      | cons first rest =>
        rw [hs] at h ih
        obtain rfl | h := List.mem_cons.1 h
        · have hfirst : '\n' ∉ first := ih List.mem_cons_self
          rw [List.mem_cons, not_or]
          exact ⟨Ne.symm hc, hfirst⟩
        · exact ih (List.mem_cons_of_mem _ h)

theorem joinLines_concat {above : List Text} (h : above ≠ []) (last : Text) :
    joinLines (above ++ [last]) = joinLines above ++ '\n' :: last := by
  induction above with
  | nil => exact absurd rfl h
  | cons t above ih =>
    rw [List.cons_append, joinLines_cons t (by simp)]
    cases above with
    | nil => rw [List.nil_append, joinLines_singleton, joinLines_singleton]
    | cons u above =>
      rw [ih (List.cons_ne_nil u above), joinLines_cons t (List.cons_ne_nil u above),
        List.append_assoc, List.cons_append]

theorem count_newline_joinLines {above : List Text} {last : Text}
    (h : ∀ line ∈ above ++ [last], '\n' ∉ line) :
    (joinLines (above ++ [last])).count '\n' = above.length := by
  induction above with
  | nil =>
    rw [List.nil_append, joinLines_singleton]
    exact List.count_eq_zero_of_not_mem (h last (by simp))
  | cons t above ih =>
    rw [List.cons_append, List.forall_mem_cons] at h
    rw [List.cons_append, joinLines_cons t (by simp), List.count_append, List.count_cons_self,
      List.count_eq_zero_of_not_mem h.1, ih h.2, List.length_cons, Nat.zero_add]

theorem takeWhile_reverse_joinLines (above : List Text) {last : Text} (h : '\n' ∉ last) :
    (joinLines (above ++ [last])).reverse.takeWhile (· != '\n') = last.reverse := by
  have hlast : ∀ c ∈ last.reverse, (c != '\n') = true := by
    intro c hc
    rw [bne_iff_ne]
    rintro rfl
    exact h (List.mem_reverse.1 hc)
  have hrest : ∃ rest, joinLines (above ++ [last]) = rest ++ last ∧
      rest.reverse.takeWhile (· != '\n') = [] := by
    by_cases ha : above = []
    · exact ⟨[], by rw [ha, List.nil_append, joinLines_singleton, List.nil_append], rfl⟩
    · refine ⟨joinLines above ++ ['\n'], ?_, ?_⟩
      · rw [joinLines_concat ha, List.append_assoc, List.singleton_append]
      · rw [List.reverse_append]
        rfl
  obtain ⟨rest, hjoin, hstop⟩ := hrest
  rw [hjoin, List.reverse_append, List.takeWhile_append_of_pos hlast, hstop, List.append_nil]

/-- The position after lines without newlines, in any text that begins with them. -/
theorem positionAt_joinLines {above : List Text} {last : Text}
    (h : ∀ line ∈ above ++ [last], '\n' ∉ line) (rest : Text) :
    positionAt (joinLines (above ++ [last]) ++ rest) (joinLines (above ++ [last])).length =
      ⟨above.length, last.length⟩ := by
  have hlast : '\n' ∉ last := h last (by simp)
  rw [positionAt, List.take_left, count_newline_joinLines h,
    takeWhile_reverse_joinLines above hlast, List.length_reverse]

end Text

open Text

namespace Buffer

/-- The content of a buffer that is made of a text is that text. -/
theorem content_ofText (t : Text) : (ofText t).content = t := joinLines_splitLines t

theorem lines_replaceLine (b : Buffer) (n : Nat) (t : Text) :
    (b.replaceLine n t).lines = b.lines.set n t := rfl

theorem lines_insertLines (b : Buffer) (n : Nat) (new : List Text) :
    (b.insertLines n new).lines = b.lines.take n ++ new ++ b.lines.drop n := rfl

theorem lineAt_length_of_lines_eq {b : Buffer} {above below : List Text} {line : Text}
    (h : b.lines = above ++ line :: below) : b.lineAt above.length = line := by
  rw [lineAt, h, List.getD_eq_getElem?_getD, List.getElem?_append_right (Nat.le_refl _),
    Nat.sub_self, List.getElem?_cons_zero, Option.getD_some]

/-- A text without newlines goes into one line. -/
theorem insertText_of_singleton (b : Buffer) (p : Position) {t piece : Text}
    (hs : splitLines t = [piece]) :
    let n := min p.line b.lastLine
    b.insertText p t = (⟨n, ((b.lineAt n).take p.column ++ piece).length⟩,
      b.replaceLine n ((b.lineAt n).take p.column ++ piece ++ (b.lineAt n).drop p.column)) := by
  intro n
  simp only [insertText, hs, List.length_append, n]

/-- The first line of a text with newlines ends the line it goes into, the last one begins the rest
of that line, and those between become lines. -/
theorem insertText_of_concat (b : Buffer) (p : Position) {t piece last : Text} {middle : List Text}
    (hs : splitLines t = piece :: (middle ++ [last])) :
    let n := min p.line b.lastLine
    b.insertText p t = (⟨n + (middle.length + 1), last.length⟩,
      (b.replaceLine n ((b.lineAt n).take p.column ++ piece)).insertLines (n + 1)
        (middle ++ [last ++ (b.lineAt n).drop p.column])) := by
  intro n
  obtain ⟨next, rest, hrest⟩ : ∃ next rest, middle ++ [last] = next :: rest := by
    cases middle with
    | nil => exact ⟨last, [], rfl⟩
    | cons next middle => exact ⟨next, middle ++ [last], rfl⟩
  rw [hrest] at hs
  simp only [insertText, hs]
  rw [← hrest, List.dropLast_concat, List.getLastD_concat, List.length_append,
    List.length_singleton]

/-- How a text inserted at a position lies in the lines: the lines above its end with the part of
its last line, and the rest of the line it went into with the lines below. -/
structure InsertedAs (b : Buffer) (p : Position) (t : Text) (above : List Text) (last : Text) :
    Prop where
  lines : (b.insertText p t).2.lines =
    above ++ (last ++ (b.lineAt (min p.line b.lastLine)).drop p.column) ::
      b.lines.drop (min p.line b.lastLine + 1)
  position : (b.insertText p t).1 = ⟨above.length, last.length⟩
  pieces : ∃ piece rest, splitLines t = piece :: rest ∧ above ++ [last] =
    b.lines.take (min p.line b.lastLine) ++
      ((b.lineAt (min p.line b.lastLine)).take p.column ++ piece) :: rest

theorem exists_insertedAs (b : Buffer) (p : Position) (t : Text) :
    ∃ above last, b.InsertedAs p t above last := by
  have hn : min p.line b.lastLine < b.lines.length := b.min_lastLine_lt p.line
  have htake : (b.lines.take (min p.line b.lastLine)).length = min p.line b.lastLine :=
    List.length_take_of_le (Nat.le_of_lt hn)
  cases hs : splitLines t with
  | nil => exact absurd hs (splitLines_ne_nil t)
  | cons piece rest =>
    obtain rfl | ⟨middle, last, rfl⟩ := List.eq_nil_or_concat rest
    · have hinsert := b.insertText_of_singleton p hs
      refine ⟨_, _, ?_, ?_, piece, [], hs, rfl⟩
      · rw [hinsert, lines_replaceLine, List.set_eq_take_append_cons_drop, if_pos hn]
      · rw [hinsert, htake]
    · rw [List.concat_eq_append] at hs
      have hinsert := b.insertText_of_concat p hs
      refine ⟨b.lines.take (min p.line b.lastLine) ++
        ((b.lineAt (min p.line b.lastLine)).take p.column ++ piece) :: middle, last, ?_, ?_, piece,
        middle ++ [last], hs, ?_⟩
      · rw [hinsert, lines_insertLines, lines_replaceLine, List.drop_set_of_lt (Nat.lt_succ_self _),
          List.take_add_one, List.take_set_of_le (Nat.le_refl _), List.getElem?_set_self hn,
          Option.toList_some]
        simp only [List.append_assoc, List.cons_append, List.nil_append]
      · rw [hinsert, List.length_append, htake, List.length_cons]
      · rw [List.append_assoc, List.cons_append]

namespace InsertedAs

variable {b : Buffer} {p : Position} {t : Text} {above : List Text} {last : Text}

/-- What is before the end of the text is what was before the position, and the text. -/
theorem joinLines_above (h : b.InsertedAs p t above last) :
    joinLines (above ++ [last]) = b.textBefore p ++ t := by
  obtain ⟨piece, rest, hs, ha⟩ := h.pieces
  rw [ha, joinLines_append, ← hs, joinLines_splitLines, textBefore]

theorem newline_notMem (h : b.InsertedAs p t above last) (hb : ∀ line ∈ b.lines, '\n' ∉ line) :
    ∀ line ∈ above ++ [last], '\n' ∉ line := by
  obtain ⟨piece, rest, hs, ha⟩ := h.pieces
  have hpieces : ∀ line ∈ piece :: rest, '\n' ∉ line := fun line hl ↦
    newline_notMem_of_mem_splitLines (hs ▸ hl)
  rw [List.forall_mem_cons] at hpieces
  intro line hl
  rw [ha, List.mem_append, List.mem_cons] at hl
  obtain hl | rfl | hl := hl
  · exact hb line (List.mem_of_mem_take hl)
  · have hline : '\n' ∉ b.lineAt (min p.line b.lastLine) := by
      rw [lineAt_eq_getElem (b.min_lastLine_lt p.line)]
      exact hb _ (List.getElem_mem _)
    rw [List.mem_append, not_or]
    exact ⟨fun hm ↦ hline (List.mem_of_mem_take hm), hpieces.1⟩
  · exact hpieces.2 line hl

theorem content_eq (h : b.InsertedAs p t above last) :
    (b.insertText p t).2.content = b.textBefore p ++ t ++ b.textFrom p := by
  rw [content, h.lines, joinLines_append, h.joinLines_above, textFrom]

theorem offset_position (h : b.InsertedAs p t above last) :
    (b.insertText p t).2.offset (b.insertText p t).1 = (b.textBefore p ++ t).length := by
  rw [offset, h.lines, h.position, offsetIn_append, h.joinLines_above]

theorem lineCount_eq (h : b.InsertedAs p t above last) : (b.insertText p t).2.lineCount =
    above.length + 1 + (b.lines.drop (min p.line b.lastLine + 1)).length := by
  rw [lineCount, h.lines, List.length_append, List.length_cons, Nat.add_right_comm, Nat.add_assoc]

theorem lineAt_position (h : b.InsertedAs p t above last) :
    (b.insertText p t).2.lineAt above.length =
      last ++ (b.lineAt (min p.line b.lastLine)).drop p.column :=
  lineAt_length_of_lines_eq h.lines

theorem min_position (h : b.InsertedAs p t above last) :
    min above.length (b.insertText p t).2.lastLine = above.length := by
  have hcount := h.lineCount_eq
  rw [lastLine]
  omega

theorem clamp_position (h : b.InsertedAs p t above last) :
    (b.insertText p t).2.clamp (b.insertText p t).1 = (b.insertText p t).1 := by
  have hlength : last.length ≤ (b.insertText p t).2.lineLength above.length := by
    rw [lineLength, h.lineAt_position, List.length_append]
    exact Nat.le_add_right _ _
  rw [h.position, clamp, h.min_position, Nat.min_eq_left hlength]

/-- The text begins where the clamped position is, also in the lines after it was inserted. -/
theorem exists_lines_eq (h : b.InsertedAs p t above last) :
    (b.clamp p).le ⟨above.length, last.length⟩ = true ∧ ∃ more below,
      (b.insertText p t).2.lines = b.lines.take (min p.line b.lastLine) ++
        ((b.lineAt (min p.line b.lastLine)).take p.column ++ more) :: below := by
  have htake : (b.lines.take (min p.line b.lastLine)).length = min p.line b.lastLine :=
    List.length_take_of_le (Nat.le_of_lt (b.min_lastLine_lt p.line))
  obtain ⟨piece, rest, -, ha⟩ := h.pieces
  rw [h.lines, Position.le_iff, clamp, lineLength]
  dsimp only
  obtain rfl | ⟨middle, last', rfl⟩ := List.eq_nil_or_concat rest
  · obtain ⟨rfl, hlast⟩ := List.append_inj' ha rfl
    obtain rfl := (List.cons.inj hlast).1
    refine ⟨.inr ⟨htake.symm, ?_⟩, piece ++ _, _, by rw [List.append_assoc]⟩
    rw [List.length_append, List.length_take]
    exact Nat.le_add_right _ _
  · rw [List.concat_eq_append, ← List.cons_append, ← List.append_assoc] at ha
    obtain ⟨rfl, hlast⟩ := List.append_inj' ha rfl
    refine ⟨.inl ?_, piece, middle ++ _, by rw [List.append_assoc, List.cons_append]⟩
    rw [List.length_append, htake, List.length_cons]
    omega

theorem lines_deleteRange (h : b.InsertedAs p t above last) :
    ((b.insertText p t).2.deleteRange (b.clamp p) (b.insertText p t).1).lines = b.lines := by
  have hn : min p.line b.lastLine < b.lines.length := b.min_lastLine_lt p.line
  have htake : (b.lines.take (min p.line b.lastLine)).length = min p.line b.lastLine :=
    List.length_take_of_le (Nat.le_of_lt hn)
  obtain ⟨hle, more, below, hlines⟩ := h.exists_lines_eq
  have hmin : min (b.clamp p).line (b.insertText p t).2.lastLine = min p.line b.lastLine := by
    have hline : (b.clamp p).line ≤ above.length := by
      rw [Position.le_iff] at hle
      dsimp only at hle
      omega
    have hlast := h.min_position
    show min (b.clamp p).line _ = (b.clamp p).line
    omega
  -- the line the text went into begins with what was before the position
  have hbefore : ((b.insertText p t).2.lineAt (min p.line b.lastLine)).take (b.clamp p).column =
      (b.lineAt (min p.line b.lastLine)).take p.column := by
    have hline := lineAt_length_of_lines_eq hlines
    have hcolumn : (b.clamp p).column = ((b.lineAt (min p.line b.lastLine)).take p.column).length :=
      List.length_take.symm
    rw [htake] at hline
    rw [hline, hcolumn, List.take_left]
  have habove : (b.insertText p t).2.lines.take (min p.line b.lastLine) =
      b.lines.take (min p.line b.lastLine) := by
    rw [hlines, List.take_left' htake]
  have hbelow : (b.insertText p t).2.lines.drop (above.length + 1) =
      b.lines.drop (min p.line b.lastLine + 1) := by
    rw [h.lines, List.append_cons, List.drop_left' (by rw [List.length_append]; rfl)]
  rw [h.position, lines_deleteRange_of_le _ hle, hmin, h.min_position, h.lineAt_position, hbefore,
    List.drop_left, habove, hbelow, ← lines_eq_append hn]

end InsertedAs

/-- Inserting at a position inserts at its offset, and the position answered is that of the offset
after the inserted text. Deleting from the one position to the other leaves the lines as they
were. -/
theorem content_ofText_and_insertText :
    (∀ t, (ofText t).content = t) ∧
    ∀ (b : Buffer) (p : Position) (t : Text), (∀ line ∈ b.lines, '\n' ∉ line) →
      let k := b.offset (b.clamp p)
      let q := (b.insertText p t).1
      let b' := (b.insertText p t).2
      b'.content = b.content.take k ++ t ++ b.content.drop k ∧
        q = positionAt b'.content (k + t.length) ∧
        b'.clamp q = q ∧ b'.offset q = k + t.length ∧
        (b'.deleteRange (b.clamp p) q).lines = b.lines := by
  refine ⟨content_ofText, ?_⟩
  intro b p t hb k q b'
  obtain ⟨above, last, h⟩ := b.exists_insertedAs p t
  have hk : k + t.length = (b.textBefore p ++ t).length := by
    rw [List.length_append, length_textBefore]
  refine ⟨?_, ?_, h.clamp_position, hk ▸ h.offset_position, h.lines_deleteRange⟩
  · rw [take_offset, drop_offset]
    exact h.content_eq
  · have hposition := positionAt_joinLines (h.newline_notMem hb) (b.textFrom p)
    rw [h.joinLines_above, ← h.content_eq, ← hk] at hposition
    exact h.position.trans hposition.symm

/-- Two newlines are pasted into a line, which becomes three. -/
theorem content_insertText_pasted :
    let b : Buffer := { lines := [['a', 'b'], ['c']] }
    let t : Text := ['x', '\n', '\n', 'y']
    let b' := (b.insertText ⟨0, 1⟩ t).2
    (∀ line ∈ b.lines, '\n' ∉ line) ∧ b'.lines = [['a', 'x'], [], ['y', 'b'], ['c']] ∧
      (b'.deleteRange ⟨0, 1⟩ ⟨2, 1⟩).lines = b.lines := by
  intro b t b'
  have hb : ∀ line ∈ b.lines, '\n' ∉ line := by decide
  exact ⟨hb, rfl, (content_ofText_and_insertText.2 b ⟨0, 1⟩ t hb).2.2.2.2⟩

end Buffer

end Highlighter
