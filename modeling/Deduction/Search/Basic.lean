import Deduction.Search.Machine
import Deduction.Search.Value

/-!
# Searches

A search finds the instances of a template for which a goal holds, one after the other. Between answers it keeps
what is left to try, so that the next answer goes on from the last one. It ends when everything was tried or when
the limit is reached; the limit is looked at before every step.
-/

namespace Deduction

/-! ### Names that occur in terms -/

/-- The number after a plus sign that may be missing, if it fits into 64 bits. -/
def parseIndex? (digits : List Char) : Option Nat :=
  let digits := match digits with
    | '+' :: rest => rest
    | _ => digits
  if digits.isEmpty || !digits.all Char.isDigit then none
  else
    let n := digits.foldl (fun n c => 10 * n + (c.toNat - '0'.toNat)) 0
    if n < UInt64.size then some n else none

/-- The number of a variable that is spelled as supplies of names spell them, `V12` or `_12`. -/
def freshIndex? (v : String) : Option Nat :=
  match v.toList with
  | 'V' :: rest => parseIndex? rest
  | '_' :: rest => parseIndex? rest
  | _ => none

/-- A supply whose names do not occur in the terms. -/
def NameSupply.after (terms : List Term) : NameSupply :=
  ⟨((terms.flatMap Term.vars).filterMap freshIndex?).foldl max 0⟩

/-! ### Searches -/

/-- Whether a search may have further answers. -/
inductive Search.Status where
  | running
  /-- Everything was tried. -/
  | exhausted
  | limitReached
  deriving DecidableEq

structure Search where
  template : Term
  machine : Machine
  status : Search.Status := .running

namespace Search

/-- The environment of the variables of the query itself. -/
def queryEnv : EnvId := 0

/-- A search for the instances of the template for which the goal holds. -/
def start (config : Config) (template goal : Term) : Search where
  template := template
  machine :=
    let (env, store) := Store.newEnv { occursCheck := config.occursCheck }
    { control := .prove goal env .done .none, work := ⟨store, .after [template, goal]⟩ }

/-- How a run of the machine ends. -/
inductive Outcome where
  /-- The goal was proved; this is left to try. -/
  | answer (otherwise : Alternatives) (work : Workspace)
  | exhausted (work : Workspace)
  | limitReached (work : Workspace)

/-- Runs the machine to the next answer, or to the end. -/
def run (src : Sources) (ask : Answerer) : Nat → Machine → Metered Outcome
  | 0, _ => throw .stepBound
  | n + 1, m => do
    if ← Meter.isSpent src.config then return .limitReached m.work
    match m with
    | ⟨.proved .done otherwise, w⟩ => return .answer otherwise w
    | ⟨.failed .none, w⟩ => return .exhausted w
    | m =>
      let m ← Machine.step src ask m
      run src ask n m

/-- The next answer, if there is one. -/
def next (src : Sources) (ask : Answerer) (s : Search) : Metered (Option Term × Search) := do
  if s.status ≠ .running then return (none, s)
  match ← run src ask stepBound s.machine with
  | .answer otherwise ⟨store, names⟩ =>
    let (t, store, names) := store.plug s.template queryEnv queryEnv names
    return (some t, { s with machine := ⟨.failed otherwise, ⟨store, names⟩⟩ })
  | .exhausted w => return (none, { s with machine := ⟨.failed .none, w⟩, status := .exhausted })
  | .limitReached w => return (none, { s with machine := ⟨.failed .none, w⟩, status := .limitReached })

/-- Goes on to at most so many further answers. The answers are put before those found so far, the last one first. -/
def pull (src : Sources) (ask : Answerer) : Nat → Search → List Term → Metered (List Term × Search)
  | 0, s, found => return (found, s)
  | n + 1, s, found => do
    match ← s.next src ask with
    | (none, s) => return (found, s)
    | (some t, s) => pull src ask n s (t :: found)

/-- The answers that are still to come, at most so many. -/
def take (src : Sources) (ask : Answerer) (n : Nat) (s : Search) : Metered (List Term) := do
  return (← s.pull src ask n []).1.reverse

end Search

/-! ### Questions -/

/-- Answers a question. Questions that come up on the way are answered in the same manner, to a depth that no query
comes to. -/
def consultAt (src : Sources) : Nat → Answerer
  | 0 => fun _ => throw .stepBound
  | n + 1 => fun
    | .all template goal =>
      (Search.start src.config template goal).take src (consultAt src n) stepBound
    | .first template goal => do
      return (← (Search.start src.config template goal).next src (consultAt src n)).1.toList
    | .value expr => do return (← (valueOf src (consultAt src n) expr).run).toList

/-- Answers a question from the sources. -/
def Sources.consult (src : Sources) : Answerer := consultAt src stepBound

end Deduction
