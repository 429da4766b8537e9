import Deduction.Proofs.Search.Bounds
import Deduction.Proofs.Search.Hypothetical
import Deduction.Proofs.Store.Allowance

/-!
# Shallow searches

A search is shallow if whatever it plugs stays within the allowance: the inputs of goals, the answers, and the same for
the questions that come up on the way. What is cut off by the end of the allowance keeps the variables of the environment
that it comes from, wherever it is put. Shallow searches are those that come to an end when they are interrupted as soon
as something is cut off (`Solutions.staysShallow`).
-/

namespace Deduction

/-! ### What a step plugs -/

/-- The arguments at the given places, as far as there are any. -/
def argsAt (places : List Nat) (args : List Term) : List Term := places.flatMap fun i => args[i]?.toList

/-- The arguments of a computed goal that are plugged, in order. -/
def computedInputs (f : String) (args : List Term) : List Term :=
  if f = "evaluate" then argsAt [0] args
  else if f = "map" then argsAt [1] args
  else if f = "matches" || f = "submatches" || isAggregate f then argsAt [0, 1] args
  else args.dropLast

/-- The terms that are plugged before a goal is proved, in order. -/
def Goal.inputs : Goal → List Term
  | .mutex terms => terms
  | .member _ list => [list]
  | .dataset _ name => [name]
  | .computed f args => computedInputs f args
  | _ => []

/-- Can the terms be plugged one after the other within the allowance? -/
def Workspace.plugsWithin (e : EnvId) (ts : List Term) (w : Workspace) : Bool :=
  (Store.threadMapWithin (Store.plugWithin e allowance e) ts (w.store, w.names)).isSome

/-- Does what is plugged next stay within the allowance, in a search for the instances of a template? -/
def Machine.isShallow (src : Sources) (template : Term) (m : Machine) : Bool :=
  match m.control with
  | .prove goal env _ _ =>
    let goal := m.work.store.resolve goal env
    m.work.plugsWithin goal.env (Goal.ofTerm src.rules goal.term).inputs
  | .proved .done _ => m.work.plugsWithin Search.queryEnv [template]
  | _ => true

/-! ### Searches that are interrupted -/

namespace Search

variable (src : Sources) (ask : Answerer)

/-- Runs the machine to the next answer, or to the end, as long as it is shallow. -/
def runShallow (template : Term) : Nat → Machine → Metered Outcome
  | 0, _ => throw .stepBound
  | n + 1, m => do
    if ← Meter.isSpent src.config then return .limitReached m.work
    else if m.isShallow src template then
      match m with
      | ⟨.proved .done otherwise, w⟩ => return .answer otherwise w
      | ⟨.failed .none, w⟩ => return .exhausted w
      | m =>
        let m ← Machine.step src ask m
        runShallow template n m
    else throw .stepBound

/-- The next answer, if there is one. -/
def nextShallow (s : Search) : Metered (Option Term × Search) :=
  if s.status = .running then s.conclude <$> runShallow src ask s.template stepBound s.machine else return (none, s)

/-- Goes on to at most so many further answers. -/
def pullShallow : Nat → Search → List Term → Metered (List Term × Search)
  | 0, s, found => return (found, s)
  | n + 1, s, found => do
    let (answer, s) ← s.nextShallow src ask
    answer.elim (return (found, s)) fun t => pullShallow n s (t :: found)

/-- The answers that are still to come, at most so many. -/
def takeShallow (n : Nat) (s : Search) : Metered (List Term) := do
  return (← s.pullShallow src ask n []).1.reverse

end Search

/-- Answers a question from the sources, to a depth of questions within questions, as long as the searches are shallow. -/
def consultShallow (src : Sources) : Nat → Answerer
  | 0 => fun _ => throw .stepBound
  | n + 1 => fun
    | .all template goal => (Search.start src.config template goal).takeShallow src (consultShallow src n) stepBound
    | .first template goal => do
      return (← (Search.start src.config template goal).nextShallow src (consultShallow src n)).1.toList
    | .value expr => do return (← (valueOf src (consultShallow src n) expr).run).toList

namespace Solutions

/-- The next answer, if there is one and the search is shallow up to there. -/
def nextShallow (s : Solutions) : Except Interruption (Option Term × Solutions) := do
  let ((answer, search), meter) ← (s.search.nextShallow s.sources (consultShallow s.sources stepBound)).run s.meter
  return (answer, { s with search, meter })

/-- The next answers, as long as the search is shallow. -/
def answersShallow : Nat → Solutions → Except Interruption (List (Option Term) × Solutions)
  | 0, s => return ([], s)
  | n + 1, s => do
    let (answer, s) ← s.nextShallow
    let (rest, s) ← answersShallow n s
    return (answer :: rest, s)

/-- Is the search shallow up to the given number of answers? -/
def staysShallow (n : Nat) (s : Solutions) : Bool := (answersShallow n s).isOk

end Solutions

end Deduction
