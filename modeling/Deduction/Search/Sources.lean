import Deduction.Search.Meter
import Deduction.Theory.Lookup

/-!
# Sources

What a query is answered from: facts, rules, named datasets, and possibly an overlay of facts that are taken to be
added or removed.
-/

namespace Deduction

/-- Facts taken to be there, and facts taken not to be there. -/
structure Overlay where
  adds : Theory
  dels : Theory

structure Sources where
  facts : Theory := .facts
  rules : Theory := .rules
  overlay : Option Overlay := none
  /-- The datasets by name. -/
  datasets : List (String × Theory) := []
  config : Config := {}

namespace Sources

/-! ### Datasets -/

def dataset? (src : Sources) (name : String) : Option Theory := src.datasets.lookup name

/-- The sources without a dataset. -/
def removeDataset (src : Sources) (name : String) : Sources :=
  { src with datasets := src.datasets.filter fun d => d.1 ≠ name }

/-- The sources with a dataset, in place of one of the same name. -/
def addDataset (src : Sources) (name : String) (dataset : Theory) : Sources :=
  { src with datasets := (name, dataset) :: (src.removeDataset name).datasets }

/-! ### Candidates -/

/-- The facts that could fit a goal: those that are taken to be added first. -/
def factsFor (src : Sources) (s : Store) (goal : Term) (env : EnvId) : List Term :=
  let stored := src.facts.lookupIn s goal env
  match src.overlay with
  | none => stored
  | some overlay => overlay.adds.lookupIn s goal env ++ stored.filter fun fact => !overlay.dels.contains fact

/-- The facts of a dataset that could fit a goal. A dataset that does not exist has none. -/
def datasetFactsFor (src : Sources) (name : String) (s : Store) (goal : Term) (env : EnvId) : List Term :=
  match src.dataset? name with
  | some dataset => dataset.lookupIn s goal env
  | none => []

end Sources

/-! ### Questions -/

/-- What is asked of the sources while a goal or an expression is worked on. -/
inductive Question where
  /-- All instances of the template for which the goal holds. -/
  | all (template goal : Term)
  /-- The first instance of the template for which the goal holds. -/
  | first (template goal : Term)
  /-- The value of an expression. -/
  | value (expr : Term)

/-- Something that answers questions, counting on the meter of whoever asks. -/
abbrev Answerer := Question → Metered (List Term)

namespace Answerer

/-- All instances of the template, without those that the settings remove as repeated. -/
def findAll (ask : Answerer) (config : Config) (template goal : Term) : Metered (List Term) := do
  return config.dedup.apply (← ask (.all template goal))

/-- How many different instances of the template there are, as a number. -/
def count (ask : Answerer) (template goal : Term) : Metered Term := do
  return .number (Float.ofNat (Dedup.distinct (← ask (.all template goal))).length)

def findFirst? (ask : Answerer) (template goal : Term) : Metered (Option Term) := do
  return (← ask (.first template goal)).head?

/-- Does the goal hold? -/
def holds (ask : Answerer) (goal : Term) : Metered Bool := do
  return (← ask.findFirst? (.sym "true") goal).isSome

end Answerer

end Deduction
