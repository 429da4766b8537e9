import Deduction.Proofs.Search.Bounds

/-!
# Searches by their steps

What a search does is put together from the steps of its machine. Here the step is a parameter, so that it may be
interrupted, and so is the bound on the steps, the answers and the depth of questions. The searches within a bound are
those by `Machine.step` (`Search.nextBy_step`, `consultBy_step`).
-/

namespace Deduction

namespace Search

section

variable (config : Config) (step : Machine → Metered Machine) (bound : Nat)

/-- Runs the machine by steps to the next answer, or to the end. -/
def runBy : Nat → Machine → Metered Outcome
  | 0, _ => throw .stepBound
  | n + 1, m => do
    if ← Meter.isSpent config then return .limitReached m.work
    match m with
    | ⟨.proved .done otherwise, w⟩ => return .answer otherwise w
    | ⟨.failed .none, w⟩ => return .exhausted w
    | m =>
      let m ← step m
      runBy n m

/-- The next answer, if there is one. -/
def nextBy (s : Search) : Metered (Option Term × Search) :=
  if s.status = .running then s.conclude <$> runBy config step bound s.machine else return (none, s)

/-- Goes on to at most so many further answers. -/
def pullBy : Nat → Search → List Term → Metered (List Term × Search)
  | 0, s, found => return (found, s)
  | n + 1, s, found => do
    let (answer, s) ← s.nextBy config step bound
    answer.elim (return (found, s)) fun t => pullBy n s (t :: found)

/-- The answers that are still to come, within the bound. -/
def takeBy (s : Search) : Metered (List Term) := do
  return (← s.pullBy config step bound bound []).1.reverse

end

end Search

/-- Answers a question by steps, where questions within it are put to an answerer. -/
def answerBy (src : Sources) (ask : Answerer) (step : Machine → Metered Machine) (bound : Nat) : Answerer
  | .all template goal => (Search.start src.config template goal).takeBy src.config step bound
  | .first template goal => do
    return (← (Search.start src.config template goal).nextBy src.config step bound).1.toList
  | .value expr => do return (← (valueOf src ask expr).run).toList

/-- Answers a question by steps that put questions to an answerer, to a depth of questions within questions. -/
def consultBy (src : Sources) (step : Answerer → Machine → Metered Machine) (bound : Nat) : Nat → Answerer
  | 0 => fun _ => throw .stepBound
  | n + 1 => answerBy src (consultBy src step bound n) (step (consultBy src step bound n)) bound

/-! ### The steps of the library -/

namespace Search

variable (src : Sources) (ask : Answerer)

theorem runBy_step (n : Nat) (m : Machine) : runBy src.config (Machine.step src ask) n m = run src ask n m := by
  induction n generalizing m with
  | zero => rfl
  | succ n ih =>
    unfold runBy run
    apply bind_congr
    intro spent
    obtain ⟨control, w⟩ := m
    cases spent with
    | true => rfl
    | false =>
      cases control with
      | prove goal env next otherwise => exact bind_congr ih
      | proved next otherwise =>
        cases next with
        | done => rfl
        | goals env rest next => exact bind_congr ih
        | leave goal env next => exact bind_congr ih
        | refuted cp otherwise => exact bind_congr ih
      | failed otherwise =>
        cases otherwise with
        | none => rfl
        | undo cp otherwise => exact bind_congr ih
        | reenter goal env otherwise => exact bind_congr ih
        | absent next otherwise => exact bind_congr ih
        | disjuncts env goals next otherwise => exact bind_congr ih
        | candidates c next otherwise => exact bind_congr ih
        | rules x next otherwise => exact bind_congr ih

theorem nextBy_step (bound : Nat) (s : Search) :
    s.nextBy src.config (Machine.step src ask) bound = s.nextWithin src ask bound := by
  rw [nextBy, nextWithin, runBy_step]

theorem pullBy_step (bound n : Nat) (s : Search) (found : List Term) :
    s.pullBy src.config (Machine.step src ask) bound n found = s.pullWithin src ask bound n found := by
  induction n generalizing s found with
  | zero => rfl
  | succ n ih =>
    unfold pullBy pullWithin
    rw [nextBy_step]
    apply bind_congr
    rintro ⟨answer, s⟩
    cases answer with
    | none => rfl
    | some t => exact ih s (t :: found)

end Search

theorem consultBy_step (src : Sources) (bound n : Nat) :
    consultBy src (Machine.step src) bound n = consultWithin src bound n := by
  induction n with
  | zero => rfl
  | succ n ih =>
    funext q
    unfold consultBy consultWithin
    rw [ih]
    cases q with
    | all template goal =>
      dsimp only [answerBy, answerWithin]
      unfold Search.takeBy Search.takeWithin
      rw [Search.pullBy_step]
    | first template goal =>
      dsimp only [answerBy, answerWithin]
      rw [Search.nextBy_step]
    | value expr => rfl

/-! ### Searches by steps that only count up -/

section

variable {src : Sources} {ask : Answerer} {config : Config} {step : Machine → Metered Machine}

theorem Search.counts_runBy (hstep : ∀ m, Counts (step m)) (n : Nat) (m : Machine) :
    Counts (runBy config step n m) := by
  induction n generalizing m with
  | zero => exact counts_throw _
  | succ n ih =>
    unfold runBy
    refine (counts_isSpent config).bind fun spent => counts_ite (counts_pure _) ?_
    split
    · exact counts_pure _
    · exact counts_pure _
    · exact (hstep m).bind ih

theorem Search.counts_nextBy (hstep : ∀ m, Counts (step m)) (bound : Nat) (s : Search) :
    Counts (s.nextBy config step bound) :=
  counts_ite ((counts_runBy hstep bound s.machine).map _) (counts_pure _)

theorem Search.counts_pullBy (hstep : ∀ m, Counts (step m)) (bound n : Nat) (s : Search) (found : List Term) :
    Counts (s.pullBy config step bound n found) := by
  induction n generalizing s found with
  | zero => exact counts_pure _
  | succ n ih =>
    unfold pullBy
    refine (counts_nextBy hstep bound s).bind fun r => ?_
    obtain ⟨answer, s⟩ := r
    cases answer with
    | none => exact counts_pure _
    | some t => exact ih s (t :: found)

theorem counting_answerBy (hask : ask.Counting) (hstep : ∀ m, Counts (step m)) (bound : Nat) :
    (answerBy src ask step bound).Counting := by
  intro q
  cases q with
  | all template goal => exact (Search.counts_pullBy hstep bound _ _ _).bind fun _ => counts_pure _
  | first template goal => exact (Search.counts_nextBy hstep bound _).bind fun _ => counts_pure _
  | value expr => exact Counts.bind (countsOption_valueOf hask expr) fun _ => counts_pure _

end

end Deduction
