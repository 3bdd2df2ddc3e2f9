import Highlighter.Buffer.Change
import Highlighter.Buffer.Follower

/-!
What a buffer records of its mutations is all that one has to be told: whoever knew the lines
before and follows the recorded edits one by one knows the lines after.
-/

namespace Highlighter

/-- Entries of a list whose middle part was replaced by other entries. -/
theorem getElem?_splice {α : Type} {l new : List α} {n m : Nat} (hn : n ≤ l.length) (i : Nat) :
    (l.take n ++ new ++ l.drop m)[i]? =
      if i < n then l[i]?
      else if i < n + new.length then new[i - n]?
      else l[i - n - new.length + m]? := by
  have ht : (l.take n).length = n := List.length_take_of_le hn
  rw [List.append_assoc, List.getElem?_append, List.getElem?_append, ht, List.getElem?_drop]
  split
  · next hi => rw [List.getElem?_take_of_lt hi]
  · split
    · next hi => rw [if_pos (by omega)]
    · next hi => rw [if_neg (by omega)]; congr 1; omega

namespace Edit

/-- Follows edits from known lines to others, with a line left after each of them. -/
inductive Leads : List Edit → KnownLines → KnownLines → Prop
  | nil (known : KnownLines) : Leads [] known known
  | cons {e : Edit} {rest : List Edit} {known next last : KnownLines} :
      e.follow? known = some next → next ≠ [] → Leads rest next last → Leads (e :: rest) known last

theorem Leads.append {edits more : List Edit} {known next last : KnownLines}
    (h : Leads edits known next) (h' : Leads more next last) :
    Leads (edits ++ more) known last := by
  induction h with
  | nil => exact h'
  | cons he hn h ih => exact .cons he hn (ih h')

theorem Leads.followAll? {edits : List Edit} {known last : KnownLines}
    (h : Leads edits known last) : followAll? edits known = some last := by
  induction h with
  | nil => rfl
  | cons he hn h ih => simpa [Edit.followAll?, he] using ih

end Edit

namespace Buffer

theorem lineCount_pos (b : Buffer) : 0 < b.lineCount := List.length_pos_iff.2 b.lines_ne_nil

theorem agrees_known (b : Buffer) : b.Agrees b.known := by
  refine ⟨by simp [known, lineCount], fun n t h ↦ ?_⟩
  simpa [known, line?] using h

theorem Agrees.ne_nil {b : Buffer} {known : KnownLines} (h : b.Agrees known) : known ≠ [] :=
  List.length_pos_iff.1 (h.1 ▸ b.lineCount_pos)

/-- Whether the edits recorded since the first buffer tell all that changed up to the second. -/
def Recorded (b b' : Buffer) : Prop :=
  ∃ edits, b'.pending = b.pending ++ edits ∧
    ∀ known, b.Agrees known → ∃ known', Edit.Leads edits known known' ∧ b'.Agrees known'

theorem Recorded.refl (b : Buffer) : b.Recorded b :=
  ⟨[], by simp, fun known h ↦ ⟨known, .nil known, h⟩⟩

theorem Recorded.trans {b b' b'' : Buffer} (h : b.Recorded b') (h' : b'.Recorded b'') :
    b.Recorded b'' := by
  obtain ⟨edits, hp, hk⟩ := h
  obtain ⟨more, hp', hk'⟩ := h'
  refine ⟨edits ++ more, by rw [hp', hp, List.append_assoc], fun known ha ↦ ?_⟩
  obtain ⟨next, hl, hn⟩ := hk known ha
  obtain ⟨last, hl', hn'⟩ := hk' next hn
  exact ⟨last, hl.append hl', hn'⟩

/-- A change that is recorded by one edit. -/
theorem Recorded.single {b b' : Buffer} {e : Edit} (hp : b'.pending = b.pending ++ [e])
    (h : ∀ known, b.Agrees known → ∃ known', e.follow? known = some known' ∧ b'.Agrees known') :
    b.Recorded b' := by
  refine ⟨[e], hp, fun known ha ↦ ?_⟩
  obtain ⟨known', hf, ha'⟩ := h known ha
  exact ⟨known', .cons hf ha'.ne_nil (.nil known'), ha'⟩

theorem recorded_replaceLine {b : Buffer} {n : Nat} (t : Text) (hn : n < b.lineCount) :
    b.Recorded (b.replaceLine n t) := by
  refine .single rfl fun known ha ↦ ⟨known.set n none, by simp [Edit.follow?, ha.1, hn], ?_, ?_⟩
  · simpa [replaceLine, lineCount] using ha.1
  · intro i u hi
    rw [List.getElem?_set] at hi
    split at hi
    · split at hi <;> simp at hi
    · next hne =>
      have h := ha.2 i u hi
      simpa [replaceLine, line?, List.getElem?_set_ne hne] using h

theorem recorded_replaceIfNew {b : Buffer} {n : Nat} (t : Text) (hn : n < b.lineCount) :
    b.Recorded (b.replaceIfNew n t) := by
  rw [replaceIfNew]
  split
  · exact .refl b
  · exact recorded_replaceLine t hn

theorem recorded_insertLines {b : Buffer} {n : Nat} (new : List Text) (hn : n ≤ b.lineCount) :
    b.Recorded (b.insertLines n new) := by
  refine .single rfl fun known ha ↦ ?_
  have hk : n ≤ known.length := ha.1 ▸ hn
  refine ⟨_, if_pos hk, ?_, fun i u hi ↦ ?_⟩
  · have hl := ha.1
    simp only [insertLines, lineCount, List.length_append, List.length_take, List.length_drop,
      List.length_replicate] at hn hl ⊢
    omega
  · rw [getElem?_splice hk, List.length_replicate] at hi
    show (b.lines.take n ++ new ++ b.lines.drop n)[i]? = some u
    rw [getElem?_splice hn]
    split at hi
    · next h => rw [if_pos h]; exact ha.2 i u hi
    · next h =>
      split at hi
      · next h' => simp [List.getElem?_replicate] at hi
      · next h' => rw [if_neg h, if_neg h']; exact ha.2 _ u hi

/-- Taking out some lines, as long as one is left. -/
theorem recorded_removal {b b' : Buffer} {first count : Nat} (hn : first + count ≤ b.lineCount)
    (hl : b'.lines = b.lines.take first ++ b.lines.drop (first + count))
    (hp : b'.pending = b.pending ++ [.removed first count]) : b.Recorded b' := by
  refine .single hp fun known ha ↦ ?_
  have hk : first + count ≤ known.length := ha.1 ▸ hn
  refine ⟨_, if_pos hk, ?_, fun i u hi ↦ ?_⟩
  · have hlen := ha.1
    simp only [lineCount, hl, List.length_append, List.length_take, List.length_drop] at hlen hn ⊢
    omega
  · rw [← List.append_nil (known.take first), getElem?_splice (by omega)] at hi
    show b'.lines[i]? = some u
    rw [hl, ← List.append_nil (b.lines.take first),
      getElem?_splice (show first ≤ b.lines.length from Nat.le_trans (Nat.le_add_right _ _) hn)]
    split at hi
    · next h => rw [if_pos h]; exact ha.2 i u hi
    · next h =>
      rw [List.length_nil, Nat.add_zero, if_neg h] at hi
      rw [if_neg h, List.length_nil, Nat.add_zero, if_neg h]
      exact ha.2 _ u hi

theorem recorded_removeAfter {b : Buffer} {n count : Nat} (hn : n + 1 + count ≤ b.lineCount) :
    b.Recorded (b.removeAfter n count) := recorded_removal hn rfl rfl

theorem lineCount_replaceIfNew (b : Buffer) (n : Nat) (t : Text) :
    (b.replaceIfNew n t).lineCount = b.lineCount := by
  rw [replaceIfNew]
  split
  · rfl
  · simp [replaceLine, lineCount]

theorem lineCount_replaceLine (b : Buffer) (n : Nat) (t : Text) :
    (b.replaceLine n t).lineCount = b.lineCount := by simp [replaceLine, lineCount]

theorem min_lastLine_lt (b : Buffer) (n : Nat) : min n b.lastLine < b.lineCount := by
  have h := b.lineCount_pos
  rw [lastLine]
  omega

theorem recorded_setLine {b b' : Buffer} {n : Nat} {t : Text} (h : b.setLine? n t = some b') :
    b.Recorded b' := by
  rw [setLine?] at h
  split at h
  · next hn => cases h; exact recorded_replaceIfNew t hn
  · cases h

theorem recorded_insertLine (b : Buffer) (n : Nat) (t : Text) : b.Recorded (b.insertLine n t) :=
  recorded_insertLines [t] (Nat.min_le_right _ _)

theorem recorded_removeLine {b b' : Buffer} {n : Nat} {t : Text}
    (h : b.removeLine? n = some (t, b')) : b.Recorded b' := by
  rw [removeLine?] at h
  split at h
  · next hn =>
    split at h
    · cases h; exact recorded_replaceIfNew [] hn
    · cases h; exact recorded_removal hn (List.eraseIdx_eq_take_drop_succ _ _) rfl
  · cases h

theorem recorded_insertText (b : Buffer) (p : Position) (t : Text) :
    b.Recorded (b.insertText p t).2 := by
  have hn := b.min_lastLine_lt p.line
  simp only [insertText]
  split
  · exact .refl b
  · exact recorded_replaceLine _ hn
  · refine (recorded_replaceLine _ hn).trans (recorded_insertLines _ ?_)
    rw [lineCount_replaceLine]
    exact hn

theorem recorded_deleteRange (b : Buffer) (p q : Position) : b.Recorded (b.deleteRange p q) := by
  simp only [deleteRange]
  generalize (if p.le q then (p, q) else (q, p)) = range
  obtain ⟨low, high⟩ := range
  have hl := b.min_lastLine_lt low.line
  have hh := b.min_lastLine_lt high.line
  dsimp only
  split
  · next h =>
    refine (recorded_replaceIfNew _ hl).trans (recorded_removeAfter ?_)
    rw [lineCount_replaceIfNew]
    omega
  · exact recorded_replaceIfNew _ hl

theorem recorded_perform (b : Buffer) (c : Change) : b.Recorded (b.perform c).2 := by
  cases c with
  | setLine n t =>
    simp only [perform]
    cases h : b.setLine? n t with
    | none => exact .refl b
    | some b' => exact recorded_setLine h
  | insertLine n t => exact recorded_insertLine b n t
  | pushLine t => exact recorded_insertLine b b.lineCount t
  | removeLine n =>
    simp only [perform]
    cases h : b.removeLine? n with
    | none => exact .refl b
    | some r => exact recorded_removeLine h
  | insertText p t => exact recorded_insertText b p t
  | deleteRange p q => exact recorded_deleteRange b p q

theorem recorded_after (b : Buffer) (changes : List Change) : b.Recorded (b.after changes) := by
  induction changes generalizing b with
  | nil => exact .refl b
  | cons c changes ih => exact (recorded_perform b c).trans (ih (b.perform c).2)

/-- The edits that any changes record can be followed from the lines there were before them, and
lead to as many lines as there are then, of which those that are still known are right. -/
theorem exists_followAll_after (b : Buffer) (changes : List Change) :
    ∃ edits known, (b.after changes).pending = b.pending ++ edits ∧
      Edit.followAll? edits b.known = some known ∧
      known.length = (b.after changes).lineCount ∧ 0 < known.length ∧
      ∀ n t, known[n]? = some (some t) → (b.after changes).line? n = some t := by
  obtain ⟨edits, hpending, hfollow⟩ := recorded_after b changes
  obtain ⟨known, hleads, hagrees⟩ := hfollow b.known b.agrees_known
  exact ⟨edits, known, hpending, hleads.followAll?, hagrees.1,
    List.length_pos_iff.2 hagrees.ne_nil, hagrees.2⟩

end Buffer

end Highlighter
