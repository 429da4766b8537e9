import Deduction.Builtin.Surroundings
import Deduction.Dedup

/-!
# Meters

A query runs under a limit: every rule that is tried is an inference, every fact that is tried an instantiation, and
when both together reach the limit the query ends. Queries within a query count on the same meter, which also takes
down the lines that traced goals report.

A computation that has not ended after more steps than any machine could do is interrupted. That is no part of what
a query means: it keeps computations total.
-/

namespace Deduction

/-- Settings of queries and updates. -/
structure Config where
  /-- How many inferences and instantiations one query may take. -/
  limit : Nat := 100000
  occursCheck : Bool := false
  /-- How repeated answers are removed where all answers are wanted. -/
  dedup : DedupPolicy := .adaptive 10
  /-- How often a change may be handled over before it is dropped. -/
  expandDepth : Nat := 100
  /-- The relations whose goals report when they are called, left, reentered and given up. -/
  traced : List String := []
  /-- What the builtins of a query find. -/
  surroundings : Surroundings := {}
  deriving Inhabited

/-- What a query has taken so far. -/
structure Meter where
  inferences : Nat := 0
  instantiations : Nat := 0
  /-- The lines that traced goals reported, the first one first. -/
  lines : Array String := #[]
  deriving Inhabited

/-- Why a computation has no result. -/
inductive Interruption where
  /-- It has not ended within the step bound. -/
  | stepBound
  /-- It has come to variables that lead round to where they were, so that following them does not end. -/
  | endless
  deriving DecidableEq

/-- Computations that count on a meter. -/
abbrev Metered := StateT Meter (Except Interruption)

namespace Meter

/-- Inferences and instantiations together. -/
def spent (m : Meter) : Nat := m.inferences + m.instantiations

/-- Counts a rule that is tried. -/
def infer : Metered Unit := modify fun m => { m with inferences := m.inferences + 1 }

/-- Counts a fact that is tried. -/
def instantiate : Metered Unit := modify fun m => { m with instantiations := m.instantiations + 1 }

/-- Has the limit been reached? -/
def isSpent (config : Config) : Metered Bool := do return config.limit ≤ (← get).spent

/-- Takes down a line. -/
def report (line : String) : Metered Unit := modify fun m => { m with lines := m.lines.push line }

end Meter

/-- The result of a computation on a meter of its own. -/
def Metered.result {α : Type} (x : Metered α) : Except Interruption α := (x.run {}).map Prod.fst

end Deduction
