import Deduction.Search.Basic

/-!
# Queries

The ways to ask for answers: the first one, all of them, some of them, whether there is any, the value of an
expression, and one at a time. A query under an overlay, or with rules that are only there for its duration, is a
query to sources that have them.
-/

namespace Deduction.Sources

/-- The first instance of the template for which the goal holds. -/
def findFirst? (src : Sources) (template goal : Term) : Metered (Option Term) :=
  src.consult.findFirst? template goal

/-- The instances of the template for which the goal holds, without those that the settings remove as repeated. -/
def findAll (src : Sources) (template goal : Term) : Metered (List Term) :=
  src.consult.findAll src.config template goal

/-- At most so many instances of the template for which the goal holds, repeated ones included. -/
def findUpTo (src : Sources) (n : Nat) (template goal : Term) : Metered (List Term) :=
  (Search.start src.config template goal).take src src.consult n

/-- Does the goal hold? -/
def holds (src : Sources) (goal : Term) : Metered Bool := src.consult.holds goal

/-- The value of an expression. -/
def value? (src : Sources) (expr : Term) : Metered (Option Term) := (valueOf src src.consult expr).run

/-- Asks the sources with further rules at the end. The rules are as before then. -/
def withRules {α : Type} (src : Sources) (rules : List Term) (query : Sources → Metered α) :
    Metered (α × Sources) := do
  let (ids, extended) := src.rules.append rules
  let answer ← query { src with rules := extended }
  return (answer, { src with rules := extended.removeAll ids })

end Deduction.Sources

namespace Deduction

/-- The answers of a query, one at a time, on a meter of its own. -/
structure Solutions where
  sources : Sources
  search : Search
  meter : Meter := {}

/-- The instances of the template for which the goal holds. -/
def Sources.solutions (src : Sources) (template goal : Term) : Solutions where
  sources := src
  search := .start src.config template goal

namespace Solutions

/-- The next answer, if there is one. -/
def next (s : Solutions) : Except Interruption (Option Term × Solutions) := do
  let ((answer, search), meter) ← (s.search.next s.sources s.sources.consult).run s.meter
  return (answer, { s with search, meter })

/-- Did the query end for reaching its limit? -/
def limitReached (s : Solutions) : Bool := s.search.status = .limitReached

/-- How many bindings are on the trail. -/
def trailSize (s : Solutions) : Nat := s.search.machine.work.store.trail.size

end Solutions

/-! ### Different answers -/

/-- Goes on to further answers until as many different ones are found as are wanted, at least one. They are put
before those found so far, the last one first. -/
def Search.pullDistinct (src : Sources) (wanted : Option Nat) : Nat → Search → List Term →
    Metered (List Term × Search)
  | 0, _, _ => throw .stepBound
  | n + 1, s, found => do
    match ← s.next src src.consult with
    | (none, s) => return (found, s)
    | (some t, s) =>
      let found := if found.contains t then found else t :: found
      if wanted.any (· ≤ found.length) then return (found, s) else pullDistinct src wanted n s found

/-- The different instances of the template for which the goal holds, at most as many as are wanted, but at least
one, and whether the limit was reached. -/
def Sources.findDistinct (src : Sources) (wanted : Option Nat) (template goal : Term) :
    Metered (List Term × Bool) := do
  let (found, s) ← (Search.start src.config template goal).pullDistinct src wanted stepBound []
  return (found.reverse, s.status = .limitReached)

end Deduction
