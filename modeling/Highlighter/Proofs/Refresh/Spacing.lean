import Highlighter.Refresh.Throttle
import Mathlib.Algebra.Order.Group.Int

/-!
What a throttle answers between one refresh and the next. Of the requests that come too soon one is
put off until the interval is over, the others are merged with it, and it is taken up once.
-/

namespace Highlighter.Throttle

/-- Steps with what each of them gives. -/
abbrev Log := List (Step × Outcome)

def log (t : Throttle) : List Step → Log
  | [] => []
  | s :: steps => (s, (t.perform s).1) :: (t.perform s).2.log steps

def Step.time : Step → ℤ
  | .request now _ _ => now
  | .markRan now => now
  | .takeDue now => now

def Step.interval? : Step → Option ℕ
  | .request _ interval _ => some interval
  | _ => none

def Step.isRun : Step → Bool
  | .markRan _ => true
  | _ => false

def Outcome.isPutOff : Outcome → Bool
  | .answered (.deferred _) => true
  | _ => false

/-- Whether time does not go back, and all requests keep to one interval. -/
structure IsTimed (interval : ℕ) (steps : List Step) : Prop where
  ordered : (steps.map Step.time).Pairwise (· ≤ ·)
  interval : ∀ s ∈ steps, ∀ n ∈ s.interval?, n = interval

namespace IsTimed

variable {interval : ℕ} {steps steps' : List Step} {s : Step}

theorem sublist (h : IsTimed interval steps) (hs : steps'.Sublist steps) :
    IsTimed interval steps' where
  ordered := h.ordered.sublist (hs.map Step.time)
  interval s hm := h.interval s (hs.mem hm)

theorem tail (h : IsTimed interval (s :: steps)) : IsTimed interval steps :=
  h.sublist (List.sublist_cons_self s steps)

theorem le_tail (h : IsTimed interval (s :: steps)) : ∀ s' ∈ steps, s.time ≤ s'.time :=
  List.forall_mem_map.1 (List.pairwise_cons.1 h.ordered).1

end IsTimed

/-- What holds of the steps between a refresh and the next one. -/
structure Spaces (interval : ℕ) (last : ℤ) (l : Log) : Prop where
  putOff_once : l.countP (·.2.isPutOff) ≤ 1
  taken_once : l.countP (·.2 = .taken true) ≤ 1
  taken_due : ∀ now, (.takeDue now, .taken true) ∈ l → last + interval ≤ now
  run_iff : ∀ now n force a, (.request now n force, .answered a) ∈ l →
    (a = .run ↔ force = true ∨ last + interval ≤ now)
  putOff_due : ∀ now n force due, (.request now n force, .answered (.deferred due)) ∈ l →
    due = last + interval ∧ now < due
  /-- A request is merged only with one that was put off. -/
  merged : ∀ before s after, l = before ++ (s, .answered .coalesced) :: after →
    ∃ e ∈ before, e.2.isPutOff = true
  /-- A request that does not run is taken up by the first look after it is due. -/
  kept : ∀ before s a between now b after,
    l = before ++ (s, .answered a) :: (between ++ (.takeDue now, .taken b) :: after) → a ≠ .run →
    (∀ e ∈ between, ∀ early, e.1 = .takeDue early → early < last + interval) →
    last + interval ≤ now → b = true

variable {t : Throttle} {last now due due' : ℤ} {interval n : ℕ} {force b : Bool} {a : Answer}
  {l before between after : Log} {s : Step} {steps : List Step}

/-! ### What a throttle does after a refresh -/

theorem request_of_lastRun (hl : t.lastRun = some last) (hle : last ≤ now) (interval : ℕ)
    (force : Bool) :
    (force = true ∨ last + interval ≤ now) ∧ t.request now interval force = (.run, t) ∨
    (force = false ∧ now < last + interval) ∧ t.request now interval force =
      if t.isDeferred then (.coalesced, t)
      else (.deferred (last + interval), { t with deferredUntil := some (last + interval) }) := by
  rw [request, hl]
  cases force with
  | true => exact .inl ⟨.inl rfl, rfl⟩
  | false =>
    simp only [Bool.false_or, decide_eq_true_eq]
    split
    · exact .inl ⟨.inr (by omega), rfl⟩
    · exact .inr ⟨⟨trivial, by omega⟩, rfl⟩

/-- What was put off since a refresh: nothing, a request that waits, or one that was taken up. -/
inductive Phase where
  | fresh
  | waiting
  | taken
  deriving DecidableEq

def Phase.throttle (last due : ℤ) : Phase → Throttle
  | .waiting => { lastRun := some last, deferredUntil := some due }
  | _ => { lastRun := some last }

variable {phase : Phase}

/-- The steps that a throttle can take from a phase on, when what is put off is due at `due`. -/
inductive Follows (due : ℤ) : Phase → Log → Prop
  | nil (phase : Phase) : Follows due phase []
  | run {phase : Phase} {now : ℤ} {n : ℕ} {force : Bool} {l : Log}
      (h : force = true ∨ due ≤ now) (hl : Follows due phase l) :
      Follows due phase ((.request now n force, .answered .run) :: l)
  | putOff {now : ℤ} {n : ℕ} {l : Log} (h : now < due) (hl : Follows due .waiting l) :
      Follows due .fresh ((.request now n false, .answered (.deferred due)) :: l)
  | merge {now : ℤ} {n : ℕ} {l : Log} (h : now < due) (hl : Follows due .waiting l) :
      Follows due .waiting ((.request now n false, .answered .coalesced) :: l)
  | leave {phase : Phase} {now : ℤ} {l : Log} (h : phase = .waiting → now < due)
      (hl : Follows due phase l) : Follows due phase ((.takeDue now, .taken false) :: l)
  | take {now : ℤ} {l : Log} (h : due ≤ now) (hl : Follows due .taken l) :
      Follows due .waiting ((.takeDue now, .taken true) :: l)

/-- When what was put off is over the interval is over as well, so that no request is too soon. -/
theorem follows_perform (hs : s.isRun = false) (hi : ∀ n ∈ s.interval?, n = interval)
    (hle : last ≤ s.time) (hover : phase = .taken → last + interval ≤ s.time) :
    ∃ phase', ((phase.throttle last (last + interval)).perform s).2 =
        Phase.throttle last (last + interval) phase' ∧
      (phase' = .taken → last + interval ≤ s.time) ∧
      ∀ l, Follows (last + interval) phase' l → Follows (last + interval) phase
        ((s, ((phase.throttle last (last + interval)).perform s).1) :: l) := by
  cases s with
  | markRan now => cases hs
  | request now n force =>
    obtain rfl : n = interval := hi n rfl
    have hl : (phase.throttle last (last + n)).lastRun = some last := by cases phase <;> rfl
    have hle : last ≤ now := hle
    have hover : phase = .taken → last + n ≤ now := hover
    obtain ⟨hrun, heq⟩ | ⟨⟨rfl, hsoon⟩, heq⟩ := request_of_lastRun hl hle n force
    · rw [perform, heq]
      exact ⟨phase, rfl, hover, fun _ ↦ .run hrun⟩
    · rw [perform, heq]
      cases phase with
      | fresh => exact ⟨.waiting, rfl, nofun, fun _ ↦ .putOff hsoon⟩
      | waiting => exact ⟨.waiting, rfl, nofun, fun _ ↦ .merge hsoon⟩
      | taken => exact absurd (hover rfl) (not_le.2 hsoon)
  | takeDue now =>
    simp only [perform, takeDue]
    split
    · next hdue =>
      cases phase with
      | fresh => cases hdue
      | waiting =>
        have hdue : last + interval ≤ now := of_decide_eq_true hdue
        exact ⟨.taken, rfl, fun _ ↦ hdue, fun _ ↦ .take hdue⟩
      | taken => cases hdue
    · next hdue =>
      refine ⟨phase, rfl, hover, fun _ ↦ .leave ?_⟩
      rintro rfl
      exact not_le.1 fun hle ↦ hdue (decide_eq_true hle)

theorem follows_log (ht : IsTimed interval steps) (hno : ∀ s ∈ steps, s.isRun = false)
    (hle : ∀ s ∈ steps, last ≤ s.time)
    (hover : phase = .taken → ∀ s ∈ steps, last + interval ≤ s.time) :
    Follows (last + interval) phase ((phase.throttle last (last + interval)).log steps) := by
  induction steps generalizing phase with
  | nil => exact .nil phase
  | cons s steps ih =>
    rw [List.forall_mem_cons] at hno hle
    obtain ⟨phase', hnext, hover', hfollows⟩ := follows_perform hno.1
      (ht.interval s List.mem_cons_self) hle.1 fun hp ↦ hover hp s List.mem_cons_self
    rw [log, hnext]
    refine hfollows _ (ih ht.tail hno.2 hle.2 fun hp s' hs' ↦ ?_)
    exact (hover' hp).trans (ht.le_tail s' hs')

/-- Without a refresh nothing is too soon. -/
theorem log_new (hno : ∀ s ∈ steps, s.isRun = false) :
    ∀ e ∈ new.log steps, e.2 = .answered .run ∨ e.2 = .taken false := by
  induction steps with
  | nil => nofun
  | cons s steps ih =>
    rw [List.forall_mem_cons] at hno
    cases s with
    | markRan now => cases hno.1
    | request now n force => exact List.forall_mem_cons.2 ⟨.inl rfl, ih hno.2⟩
    | takeDue now => exact List.forall_mem_cons.2 ⟨.inr rfl, ih hno.2⟩

/-! ### What follows a refresh -/

namespace Follows

theorem countP_isPutOff (h : Follows due phase l) :
    l.countP (·.2.isPutOff) ≤ if phase = .fresh then 1 else 0 := by
  induction h with
  | nil => exact Nat.zero_le _
  | putOff _ _ ih => simpa [Outcome.isPutOff] using ih
  | run _ _ ih | merge _ _ ih | leave _ _ ih | take _ _ ih => exact ih

theorem countP_taken (h : Follows due phase l) :
    l.countP (·.2 = .taken true) ≤ if phase = .taken then 0 else 1 := by
  induction h with
  | nil => exact Nat.zero_le _
  | take _ _ ih => simpa using ih
  | run _ _ ih | putOff _ _ ih | merge _ _ ih | leave _ _ ih => simpa using ih

theorem taken_due (h : Follows due phase l) (hm : (.takeDue now, .taken true) ∈ l) : due ≤ now := by
  induction h with
  | nil => cases hm
  | take h _ ih =>
    cases hm with
    | head => exact h
    | tail _ hm => exact ih hm
  | run _ _ ih | putOff _ _ ih | merge _ _ ih | leave _ _ ih =>
    cases hm with
    | tail _ hm => exact ih hm

theorem run_iff (h : Follows due phase l) (hm : (.request now n force, .answered a) ∈ l) :
    a = .run ↔ force = true ∨ due ≤ now := by
  induction h with
  | nil => cases hm
  | run h _ ih =>
    cases hm with
    | head => exact iff_of_true rfl h
    | tail _ hm => exact ih hm
  | putOff h _ ih | merge h _ ih =>
    cases hm with
    | head => exact iff_of_false nofun (by simpa using h)
    | tail _ hm => exact ih hm
  | leave _ _ ih | take _ _ ih =>
    cases hm with
    | tail _ hm => exact ih hm

theorem putOff_due (h : Follows due phase l)
    (hm : (.request now n force, .answered (.deferred due')) ∈ l) : due' = due ∧ now < due' := by
  induction h with
  | nil => cases hm
  | putOff h _ ih =>
    cases hm with
    | head => exact ⟨rfl, h⟩
    | tail _ hm => exact ih hm
  | run _ _ ih | merge _ _ ih | leave _ _ ih | take _ _ ih =>
    cases hm with
    | tail _ hm => exact ih hm

theorem merged (h : Follows due phase (before ++ (s, .answered .coalesced) :: after)) :
    phase = .waiting ∨ ∃ e ∈ before, e.2.isPutOff = true := by
  induction before generalizing phase with
  | nil =>
    cases h with
    | merge => exact .inl rfl
  | cons e before ih =>
    cases h with
    | run _ hl | leave _ hl => exact (ih hl).imp_right fun ⟨e, he, h⟩ ↦ ⟨e, .tail _ he, h⟩
    | putOff => exact .inr ⟨_, .head _, rfl⟩
    | merge => exact .inl rfl
    | take => exact .inl rfl

/-- Whether a request that does not run is put off or merged, one waits after it. -/
theorem waiting_of_not_run (h : Follows due phase (before ++ (s, .answered a) :: after))
    (ha : a ≠ .run) : Follows due .waiting after := by
  induction before generalizing phase with
  | nil =>
    cases h with
    | run => exact absurd rfl ha
    | putOff _ hl => exact hl
    | merge _ hl => exact hl
  | cons e before ih =>
    cases h with
    | run _ hl | putOff _ hl | merge _ hl | leave _ hl | take _ hl => exact ih hl

theorem taken_of_waiting
    (h : Follows due .waiting (between ++ (.takeDue now, .taken b) :: after))
    (hb : ∀ e ∈ between, ∀ early, e.1 = .takeDue early → early < due) (hn : due ≤ now) :
    b = true := by
  induction between with
  | nil =>
    cases h with
    | leave h => exact absurd (h rfl) (not_lt.2 hn)
    | take => rfl
  | cons e between ih =>
    rw [List.forall_mem_cons] at hb
    cases h with
    | run _ hl | merge _ hl | leave _ hl => exact ih hl hb.2
    | take h => exact absurd (hb.1 _ rfl) (not_lt.2 h)

theorem spaces (h : Follows (last + interval) .fresh l) : Spaces interval last l where
  putOff_once := h.countP_isPutOff
  taken_once := h.countP_taken
  taken_due _ := h.taken_due
  run_iff _ _ _ _ := h.run_iff
  putOff_due _ _ _ _ := h.putOff_due
  merged _ _ _ hl := (hl ▸ h).merged.resolve_left nofun
  kept _ _ _ _ _ _ _ hl ha hb hn := ((hl ▸ h).waiting_of_not_run ha).taken_of_waiting hb hn

end Follows

/-! ### Whole logs -/

theorem map_fst_log (t : Throttle) (steps : List Step) : (t.log steps).map Prod.fst = steps := by
  induction steps generalizing t with
  | nil => rfl
  | cons s steps ih => exact congrArg (s :: ·) (ih _)

/-- The parts of a log are logs. -/
theorem log_eq_append (h : t.log steps = before ++ after) :
    before = t.log (before.map Prod.fst) ∧
      ∃ t' : Throttle, after = t'.log (after.map Prod.fst) := by
  induction before generalizing t steps with
  | nil =>
    obtain rfl : t.log steps = after := h
    exact ⟨rfl, t, by rw [map_fst_log]⟩
  | cons e before ih =>
    cases steps with
    | nil => cases h
    | cons s steps =>
      obtain ⟨rfl, hrest⟩ := List.cons.inj h
      obtain ⟨hbefore, hafter⟩ := ih hrest
      exact ⟨congrArg _ hbefore, hafter⟩

/-- What a throttle answers as long as time does not go back. Before the first refresh nothing is
put off. Between two refreshes, and after the last one, at most one request is put off, to the end
of the interval since the refresh, and taken up at most once, not before then; a request is put off
or merged exactly if it is not forced and the interval is not over, and the first look for it at or
after the end of the interval takes it up. -/
theorem spaces_log (ht : IsTimed interval steps) :
    (∀ stretch later, new.log steps = stretch ++ later → (∀ e ∈ stretch, e.1.isRun = false) →
      ∀ e ∈ stretch, e.2 = .answered .run ∨ e.2 = .taken false) ∧
    ∀ earlier last stretch later,
      new.log steps = earlier ++ (.markRan last, .nothing) :: (stretch ++ later) →
      (∀ e ∈ stretch, e.1.isRun = false) → Spaces interval last stretch := by
  constructor
  · intro stretch later hl hno
    rw [(log_eq_append hl).1]
    exact log_new (List.forall_mem_map.2 hno)
  · intro earlier last stretch later hl hno
    -- the throttle is as the refresh leaves it
    obtain ⟨t, hafter⟩ := (log_eq_append hl).2
    have hstretch := (log_eq_append (List.cons.inj hafter).2.symm).1
    have hsteps : steps = earlier.map Prod.fst ++
        .markRan last :: (stretch.map Prod.fst ++ later.map Prod.fst) := by
      rw [← map_fst_log new steps, hl, List.map_append, List.map_cons, List.map_append]
    have hpart : (.markRan last :: stretch.map Prod.fst).Sublist steps := by
      rw [hsteps]
      exact ((List.sublist_append_left _ _).cons_cons _).trans (List.sublist_append_right _ _)
    have ht' := ht.sublist hpart
    have hfollows : Follows (last + interval) .fresh
        ((Phase.fresh.throttle last (last + interval)).log (stretch.map Prod.fst)) :=
      follows_log ht'.tail (List.forall_mem_map.2 hno) ht'.le_tail nofun
    rw [hstretch]
    exact hfollows.spaces

/-- Two requests come too soon; one that is forced does not hang on them. -/
def spacedSteps : List Step :=
  [.request 0 500 false, .markRan 0, .request 100 500 false, .request 200 500 false,
    .takeDue 499, .request 499 500 true, .takeDue 500, .takeDue 500, .request 500 500 false,
    .markRan 510]

theorem spaces_log_twice :
    IsTimed 500 spacedSteps ∧ Spaces 500 0
      [(.request 100 500 false, .answered (.deferred 500)),
        (.request 200 500 false, .answered .coalesced), (.takeDue 499, .taken false),
        (.request 499 500 true, .answered .run), (.takeDue 500, .taken true),
        (.takeDue 500, .taken false), (.request 500 500 false, .answered .run)] := by
  have ht : IsTimed 500 spacedSteps := ⟨by decide, by decide⟩
  exact ⟨ht, (spaces_log ht).2 [(.request 0 500 false, .answered .run)] 0 _
    [(.markRan 510, .nothing)] rfl (by decide)⟩

end Highlighter.Throttle
