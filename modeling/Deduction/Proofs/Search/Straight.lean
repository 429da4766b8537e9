import Deduction.Proofs.Search.Curtailing
import Deduction.Proofs.Store.Straight

/-!
# Straight searches

Searches follow variables to their end. In a store that is not straight some variable has none
(`Store.Trailed.exists_endless`), and a search that comes to one is never done with following it, whatever its limit. Such
stores come about where a rule has a variable that is called as plugging calls the next one that it renames, or is given
one by the answers of a query within.

Within a step variables are followed before any of them is renamed, or after the renaming was taken back, and what else a
step does keeps stores straight (`Store.ChainsEnd.unify`, `Store.ChainsEnd.rollback`). So a step comes to an end if the
store is straight when it is begun. Here searches are interrupted otherwise (`Machine.stepStraight`). As long as they are
not, they are like any search (`Solutions.nextStraight_cases`).
-/

namespace Deduction

/-- One step of the machine, unless variables lead round in its store. -/
def Machine.stepStraight (src : Sources) (ask : Answerer) (m : Machine) : Metered Machine :=
  if m.work.store.isStraight then step src ask m else throw .endless

theorem Machine.curtails_stepStraight (src : Sources) {ask ask' : Answerer} (h : ask.Curtails ask') (m : Machine) :
    Curtails (stepStraight src ask m) (step src ask' m) := by
  unfold stepStraight
  split
  · exact curtails_step h m
  · exact .throw _

/-- Answers a question within a bound, unless variables lead round in a store that comes up. -/
def Sources.consultStraight (src : Sources) (bound : Nat) : Answerer :=
  consultBy src (Machine.stepStraight src) bound bound

theorem Sources.curtails_consultStraight (src : Sources) (bound : Nat) :
    (src.consultStraight bound).Curtails (consultWithin src bound bound) := by
  rw [← consultBy_step]
  exact curtails_consultBy (Machine.curtails_stepStraight src) bound bound

namespace Solutions

/-- The next answer, if there is one, where the steps to it, and the steps within questions and their depth, are within
the bound. -/
def nextWithin (bound : Nat) (s : Solutions) : Except Interruption (Option Term × Solutions) := do
  let ((answer, search), meter) ← (s.search.nextWithin s.sources (consultWithin s.sources bound bound) bound).run s.meter
  return (answer, { s with search, meter })

theorem nextWithin_stepBound (s : Solutions) : s.nextWithin stepBound = s.next := by
  unfold nextWithin next Sources.consult
  rw [consultWithin_stepBound, Search.nextWithin_stepBound]

/-- The next answer within the bound, unless variables lead round in a store that comes up. -/
def nextStraight (bound : Nat) (s : Solutions) : Except Interruption (Option Term × Solutions) := do
  let step := Machine.stepStraight s.sources (s.sources.consultStraight bound)
  let ((answer, search), meter) ← (s.search.nextBy s.sources.config step bound).run s.meter
  return (answer, { s with search, meter })

/-- What is answered the next so many times, each time within the bound, unless variables lead round. -/
def answersStraight (bound : Nat) : Nat → Solutions → Except Interruption (List (Option Term) × Solutions)
  | 0, s => .ok ([], s)
  | n + 1, s => do
    let (answer, s) ← s.nextStraight bound
    let (rest, s) ← answersStraight bound n s
    return (answer :: rest, s)

theorem answersStraight_succ {bound n : Nat} {s s' : Solutions} {answer : Option Term}
    (h : s.nextStraight bound = .ok (answer, s')) :
    s.answersStraight bound (n + 1) = (s'.answersStraight bound n).map fun r => (answer :: r.1, r.2) := by
  rw [answersStraight, h]
  change (s'.answersStraight bound n >>= fun r => pure (answer :: r.1, r.2)) = _
  cases s'.answersStraight bound n <;> rfl

theorem answersStraight_of_error {bound n : Nat} {s : Solutions} {e : Interruption} (h : s.nextStraight bound = .error e) :
    s.answersStraight bound (n + 1) = .error e := by
  rw [answersStraight, h]
  rfl

/-- The next answer is that of any search within the bound, unless variables lead round. -/
theorem nextStraight_cases (bound : Nat) (s : Solutions) :
    s.nextStraight bound = .error .endless ∨ s.nextStraight bound = s.nextWithin bound := by
  have hstep (m : Machine) : Curtails (m.stepStraight s.sources (s.sources.consultStraight bound))
      (m.step s.sources (consultWithin s.sources bound bound)) :=
    Machine.curtails_stepStraight s.sources (s.sources.curtails_consultStraight bound) m
  have hnext : Curtails _ (s.search.nextBy s.sources.config _ bound) := Search.curtails_nextBy hstep bound s.search
  rw [Search.nextBy_step] at hnext
  unfold nextStraight nextWithin
  dsimp only
  rcases hnext s.meter with h | h
  · left
    rw [h]
    rfl
  · right
    rw [h]

end Solutions

end Deduction
