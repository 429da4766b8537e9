import Deduction.Search.Computation
import Deduction.Search.Goal
import Deduction.Store.Unify
import Deduction.Syntax.Printer

/-!
# The search machine

A search proves goals depth first and from left to right. The machine holds what is left to prove when the goal at
hand is proved, the agenda, and what is left to try when it fails, the alternatives. Going back to an alternative
undoes the bindings made since it was left, so a search that has tried everything has undone everything.

Tests that bind nothing leave no alternative. A negation proves its goal aside: the agenda then ends in the failure
of the negation, and its success is what is left to try.

## Frames

The same search is often told with an arena of frames. There is a frame for each goal that was come to. It knows the
frame that called it, where the trail was when it was called, and how far it has come, and control goes from frame to
frame with a task: a frame is called, redone for another solution, told that a frame it called has a solution (next),
or that it has none left (back). The machine has no arena, and its parts correspond to it as follows.

* Calling a frame is `Control.prove`. The kind of the frame is the `Goal` that the term is read as.
* A frame with a solution tells its caller, which is `Control.proved`. The chain of callers is the agenda: a conjunction
  or a body with the goals that it has yet to call is `Agenda.goals`, a goal that waits for the body of a rule is
  `Agenda.leave`, and a negation is `Agenda.refuted`.
* A frame without a solution is `Control.failed`. What its caller does when it is back is the alternative on top: the
  next disjunct, the next rule, the success of a negation, or redoing the goal that was proved before it.
* What a frame goes by when it is redone is the alternative that it left: a cursor over candidates, an expansion over
  rules, the disjuncts that are left, or the trail to be undone. It holds the place in the trail too. A frame is redone
  only after all that came later has failed, so the alternative still says how far the frame has come.
* A conjunction redoes the goals that have a solution from the last to the first, which is their order among the
  alternatives. A frame that hands on what it is told leaves no alternative of its own: a conjunction, a disjunction
  whose disjunct holds, a symbol that stands for a relation.

Frames report on goals when they are called, left, redone and given up. So that the machine does too, a goal that has
been left is followed by `Alternatives.reenter`, which only reports.
-/

namespace Deduction

/-- Where candidates come from. Facts and those of datasets count as instantiations, and goals that facts answer
report. -/
inductive Cursor.Origin where
  | facts
  | dataset
  | computed
  deriving DecidableEq

/-- A target and the candidates that are still to be tried for it. -/
structure Cursor where
  origin : Cursor.Origin
  target : Term
  env : EnvId
  candidates : List Term
  candidateEnv : EnvId
  /-- Where the trail was when the goal was come to. -/
  checkpoint : Checkpoint

/-- A goal and the rules that are still to be tried for it. -/
structure Expansion where
  goal : Term
  env : EnvId
  rules : List Term
  /-- The environment that the rules are read in, one after the other. -/
  ruleEnv : EnvId
  checkpoint : Checkpoint

mutual
/-- What is left to prove. -/
inductive Agenda where
  | done
  /-- The goals of a conjunction or of a body, and what follows. -/
  | goals (env : EnvId) (rest : List Term) (next : Agenda)
  /-- The goal was proved by a rule, whose body is done. -/
  | leave (goal : Term) (env : EnvId) (next : Agenda)
  /-- The goal of a negation was proved, so the negation fails. -/
  | refuted (checkpoint : Checkpoint) (otherwise : Alternatives)

/-- What is left to try. -/
inductive Alternatives where
  | none
  /-- A goal without another solution: its bindings are undone. -/
  | undo (checkpoint : Checkpoint) (otherwise : Alternatives)
  /-- A goal on a relation is come back to for another solution. -/
  | reenter (goal : Term) (env : EnvId) (otherwise : Alternatives)
  /-- The goal of a negation has failed, so the negation holds. -/
  | absent (next : Agenda) (otherwise : Alternatives)
  | disjuncts (env : EnvId) (goals : List Term) (next : Agenda) (otherwise : Alternatives)
  | candidates (cursor : Cursor) (next : Agenda) (otherwise : Alternatives)
  | rules (expansion : Expansion) (next : Agenda) (otherwise : Alternatives)
end

/-- What the machine is about to do. -/
inductive Control where
  | prove (goal : Term) (env : EnvId) (next : Agenda) (otherwise : Alternatives)
  | proved (next : Agenda) (otherwise : Alternatives)
  | failed (otherwise : Alternatives)

structure Machine where
  control : Control
  work : Workspace

/-! ### Reports -/

/-- Reports on a goal, shown with its bindings, if its relation is traced. -/
def reportGoal (config : Config) (event : String) (s : Store) (goal : Term) (env : EnvId) : Metered Unit :=
  match goal.functor? with
  | some f => if config.traced.contains f then Meter.report s!"{event}: {(s.display goal env).print}" else return
  | none => return

/-- Reports on a goal that facts answer. -/
def Cursor.report (config : Config) (event : String) (s : Store) (c : Cursor) : Metered Unit :=
  if c.origin = .facts then reportGoal config event s c.target c.env else return

namespace Machine

/-! ### Candidates and rules -/

/-- Makes the target equal to the first candidate that it can be made equal to. -/
def tryCandidates (src : Sources) (c : Cursor) (next : Agenda) (otherwise : Alternatives) :
    List Term → Workspace → Metered Machine
  | [], w => do
    c.report src.config "Fail" w.store
    return ⟨.failed otherwise, w⟩
  | t :: rest, ⟨store, names⟩ => do
    unless c.origin = .computed do Meter.instantiate
    match store.unify c.target c.env t c.candidateEnv with
    | (true, store) => do
      c.report src.config "Exit" store
      let others := .candidates { c with candidates := rest } next otherwise
      let others := if c.origin = .facts then .reenter c.target c.env others else others
      return ⟨.proved next others, ⟨store, names⟩⟩
    | (false, store) => tryCandidates src c next otherwise rest ⟨store, names⟩

/-- Expands the goal by the first rule whose head fits; the body is to be proved then. A sentence that is no rule
answers the goal itself. -/
def tryRules (src : Sources) (x : Expansion) (next : Agenda) (otherwise : Alternatives) :
    List Term → Workspace → Metered Machine
  | [], w => do
    reportGoal src.config "Fail" w.store x.goal x.env
    return ⟨.failed otherwise, w⟩
  | sentence :: rest, ⟨store, names⟩ => do
    Meter.infer
    let others := .rules { x with rules := rest } next otherwise
    match sentence.asRule with
    | some (head, body) =>
      match store.unify head x.ruleEnv x.goal x.env with
      | (true, store) =>
        return ⟨.proved (.goals x.ruleEnv body (.leave x.goal x.env next)) others, ⟨store, names⟩⟩
      | (false, store) => tryRules src x next otherwise rest ⟨store, names⟩
    | none =>
      match store.unify x.goal x.env sentence x.ruleEnv with
      | (true, store) => do
        reportGoal src.config "Exit" store x.goal x.env
        return ⟨.proved next (.reenter x.goal x.env others), ⟨store, names⟩⟩
      | (false, store) => tryRules src x next otherwise rest ⟨store, names⟩

/-- Goes over what a goal selects. -/
def select (src : Sources) (origin : Cursor.Origin) (env : EnvId) (selecting : Selecting Selection)
    (next : Agenda) (otherwise : Alternatives) (w : Workspace) : Metered Machine := do
  let checkpoint := w.store.checkpoint
  match ← selecting.run.run w with
  | (none, w) => return ⟨.failed otherwise, w⟩
  | (some selection, ⟨store, names⟩) =>
    let cursor := ⟨origin, selection.target, env, selection.candidates, selection.env, checkpoint⟩
    tryCandidates src cursor next otherwise selection.candidates ⟨store.rollback checkpoint, names⟩

/-- Goes over the rules for a goal. -/
def expand (src : Sources) (goal : Term) (env : EnvId) (next : Agenda) (otherwise : Alternatives)
    (w : Workspace) : Metered Machine := do
  reportGoal src.config "Call" w.store goal env
  let rules := src.rules.lookupIn w.store goal env
  let checkpoint := w.store.checkpoint
  let (ruleEnv, store) := w.store.newEnv
  tryRules src ⟨goal, env, rules, ruleEnv, checkpoint⟩ next otherwise rules { w with store }

/-! ### Steps -/

/-- Comes to a goal whose variables are resolved. -/
def proveResolved (src : Sources) (ask : Answerer) (goal : Term) (env : EnvId) (next : Agenda)
    (otherwise : Alternatives) (w : Workspace) : Metered Machine :=
  match Goal.ofTerm src.rules goal with
  | .fails => return ⟨.failed otherwise, w⟩
  | .holds => return ⟨.proved next (.undo w.store.checkpoint otherwise), w⟩
  | .same x y =>
    let checkpoint := w.store.checkpoint
    match w.store.unify x env y env with
    | (true, store) => return ⟨.proved next (.undo checkpoint otherwise), { w with store }⟩
    | (false, store) => return ⟨.failed otherwise, { w with store }⟩
  | .distinct x y =>
    let checkpoint := w.store.checkpoint
    match w.store.unify x env y env with
    | (true, store) => return ⟨.failed otherwise, { w with store := store.rollback checkpoint }⟩
    | (false, store) => return ⟨.proved next otherwise, { w with store }⟩
  | .mutex terms => do
    match ← (Selecting.inputs env terms).run.run w with
    | (some values, w) => return ⟨if pairwiseDistinct values then .proved next otherwise else .failed otherwise, w⟩
    | (none, w) => return ⟨.failed otherwise, w⟩
  | .negation goal => return ⟨.prove goal env (.refuted w.store.checkpoint otherwise) (.absent next otherwise), w⟩
  | .conjunction goals => return ⟨.proved (.goals env goals next) otherwise, w⟩
  | .disjunction goals => return ⟨.failed (.disjuncts env goals next otherwise), w⟩
  | .member item list => select src .computed env (selectMembers item list env) next otherwise w
  | .dataset goal name => select src .dataset env (selectDataset src goal name env) next otherwise w
  | .computed f args => select src .computed env (selectComputed src ask f args env) next otherwise w
  | .view => expand src goal env next otherwise w
  | .base => do
    reportGoal src.config "Call" w.store goal env
    select src .facts env (selectFacts src goal env) next otherwise w

/-- Goes on with the agenda after a goal was proved. -/
def advance (src : Sources) : Agenda → Alternatives → Workspace → Metered Machine
  | .done, otherwise, w => return ⟨.proved .done otherwise, w⟩
  | .goals _ [] next, otherwise, w => return ⟨.proved next otherwise, w⟩
  | .goals env (goal :: rest) next, otherwise, w => return ⟨.prove goal env (.goals env rest next) otherwise, w⟩
  | .leave goal env next, otherwise, w => do
    reportGoal src.config "Exit" w.store goal env
    return ⟨.proved next (.reenter goal env otherwise), w⟩
  | .refuted checkpoint otherwise, _, w =>
    return ⟨.failed otherwise, { w with store := w.store.rollback checkpoint }⟩

/-- Goes back to what is left to try. -/
def retreat (src : Sources) : Alternatives → Workspace → Metered Machine
  | .none, w => return ⟨.failed .none, w⟩
  | .undo checkpoint otherwise, w => return ⟨.failed otherwise, { w with store := w.store.rollback checkpoint }⟩
  | .reenter goal env otherwise, w => do
    reportGoal src.config "Redo" w.store goal env
    return ⟨.failed otherwise, w⟩
  | .absent next otherwise, w => return ⟨.proved next otherwise, w⟩
  | .disjuncts _ [] _ otherwise, w => return ⟨.failed otherwise, w⟩
  | .disjuncts env (goal :: rest) next otherwise, w =>
    return ⟨.prove goal env next (.disjuncts env rest next otherwise), w⟩
  | .candidates c next otherwise, w =>
    tryCandidates src c next otherwise c.candidates { w with store := w.store.rollback c.checkpoint }
  | .rules x next otherwise, w =>
    tryRules src x next otherwise x.rules { w with store := w.store.rollback x.checkpoint }

/-- One step of the machine. -/
def step (src : Sources) (ask : Answerer) : Machine → Metered Machine
  | ⟨.prove goal env next otherwise, w⟩ =>
    let goal := w.store.resolve goal env
    proveResolved src ask goal.term goal.env next otherwise w
  | ⟨.proved next otherwise, w⟩ => advance src next otherwise w
  | ⟨.failed otherwise, w⟩ => retreat src otherwise w

end Machine

end Deduction
