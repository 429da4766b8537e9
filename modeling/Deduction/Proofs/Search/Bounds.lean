import Deduction.Proofs.Search.Visits

/-!
# Searches within a bound

The step bound keeps searches total; it is no part of what they mean. Here it is a parameter: of the steps to the next
answer, of the answers to a question, and of the depth of questions within questions. The searches of the library are
those within `stepBound` (`Search.nextWithin_stepBound`, `consultWithin_stepBound`).
-/

namespace Deduction

namespace Search

variable (src : Sources) (ask : Answerer) (bound : Nat)

/-- The answer that an outcome gives, if it gives one, and the search from there on. -/
def conclude (s : Search) : Outcome → Option Term × Search
  | .answer otherwise w => (some (answer s.template w), { s with machine := resume s.template otherwise w })
  | .exhausted w => (none, { s with machine := ⟨.failed .none, w⟩, status := .exhausted })
  | .limitReached w => (none, { s with machine := ⟨.failed .none, w⟩, status := .limitReached })

/-- The next answer, if there is one, within a bound on the steps. -/
def nextWithin (s : Search) : Metered (Option Term × Search) :=
  if s.status = .running then s.conclude <$> run src ask bound s.machine else return (none, s)

/-- Goes on to further answers within the bounds. -/
def pullWithin : Nat → Search → List Term → Metered (List Term × Search)
  | 0, s, found => return (found, s)
  | n + 1, s, found => do
    let (answer, s) ← s.nextWithin src ask bound
    answer.elim (return (found, s)) fun t => pullWithin n s (t :: found)

/-- The answers that are still to come, within the bound. -/
def takeWithin (s : Search) : Metered (List Term) := do
  return (← s.pullWithin src ask bound bound []).1.reverse

end Search

/-- Answers a question within a bound, where questions within it are put to an answerer. -/
def answerWithin (src : Sources) (ask : Answerer) (bound : Nat) : Answerer
  | .value expr => do return (← (valueOf src ask expr).run).toList
  | .first template goal => do
    return (← (Search.start src.config template goal).nextWithin src ask bound).1.toList
  | .all template goal => (Search.start src.config template goal).takeWithin src ask bound

/-- Answers a question within a bound, to a depth of questions within questions. -/
def consultWithin (src : Sources) (bound : Nat) : Nat → Answerer
  | 0 => fun _ => throw .stepBound
  | n + 1 => answerWithin src (consultWithin src bound n) bound

/-! ### The bound of the library -/

theorem Search.nextWithin_stepBound (src : Sources) (ask : Answerer) (s : Search) :
    s.nextWithin src ask stepBound = s.next src ask := by
  unfold nextWithin next
  split
  · rename_i hrunning
    rw [if_neg (by simp [hrunning]), map_eq_pure_bind]
    apply bind_congr
    intro outcome
    cases outcome <;> rfl
  · rfl

theorem Search.pullWithin_stepBound (src : Sources) (ask : Answerer) (n : Nat) (s : Search) (found : List Term) :
    s.pullWithin src ask stepBound n found = s.pull src ask n found := by
  induction n generalizing s found with
  | zero => rfl
  | succ n ih =>
    unfold pullWithin pull
    rw [nextWithin_stepBound]
    apply bind_congr
    rintro ⟨answer, s⟩
    cases answer with
    | none => rfl
    | some t => exact ih s (t :: found)

theorem consultWithin_stepBound (src : Sources) (n : Nat) : consultWithin src stepBound n = consultAt src n := by
  induction n with
  | zero => rfl
  | succ n ih =>
    funext q
    unfold consultWithin consultAt answerWithin
    rw [ih]
    cases q with
    | all template goal =>
      dsimp only
      unfold Search.takeWithin Search.take
      rw [Search.pullWithin_stepBound]
    | first template goal =>
      dsimp only
      rw [Search.nextWithin_stepBound]
    | value expr => rfl

/-! ### Searches within a bound only count up -/

section

variable {src : Sources} {ask : Answerer} (hask : ask.Counting) (bound : Nat)

include hask

theorem Search.counts_nextWithin (s : Search) : Counts (s.nextWithin src ask bound) := by
  unfold nextWithin
  exact counts_ite ((counts_run hask bound s.machine).map _) (counts_pure _)

theorem Search.counts_pullWithin (n : Nat) (s : Search) (found : List Term) :
    Counts (s.pullWithin src ask bound n found) := by
  induction n generalizing s found with
  | zero => exact counts_pure _
  | succ n ih =>
    unfold pullWithin
    refine (counts_nextWithin hask bound s).bind fun r => ?_
    obtain ⟨answer, s⟩ := r
    cases answer with
    | none => exact counts_pure _
    | some t => exact ih s (t :: found)

theorem counts_answerWithin : (answerWithin src ask bound).Counting := by
  intro q
  cases q with
  | all template goal => exact (Search.counts_pullWithin hask bound bound _ _).bind fun _ => counts_pure _
  | first template goal => exact (Search.counts_nextWithin hask bound _).bind fun _ => counts_pure _
  | value expr => exact Counts.bind (countsOption_valueOf hask expr) fun _ => counts_pure _

end

theorem counts_consultWithin (src : Sources) (bound n : Nat) : (consultWithin src bound n).Counting := by
  induction n with
  | zero => exact fun _ => counts_throw _
  | succ n ih => exact counts_answerWithin ih bound

end Deduction
