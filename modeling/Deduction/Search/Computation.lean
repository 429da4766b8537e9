import Deduction.Builtin.Library
import Deduction.Search.Sources
import Deduction.Store.Plug

/-!
# Computed goals

A computed goal selects a target, one of its own terms, and the candidates that the target may be made equal to.
Its inputs are plugged first. Plugging may rename variables, and that stays in the store when there is nothing to
select; whoever goes back over the goal undoes it.
-/

namespace Deduction

/-- A store and the names that may be invented in it. -/
structure Workspace where
  store : Store
  names : NameSupply

/-- A term to be made equal to one of some candidates, which are read in an environment of theirs. -/
structure Selection where
  target : Term
  candidates : List Term
  env : EnvId

/-- Computations in a workspace that may have no result. -/
abbrev Selecting := OptionT (StateT Workspace Metered)

namespace Selecting

/-- A term with bindings applied; its variables are those of the environment. -/
def input (t : Term) (env : EnvId) : Selecting Term :=
  modifyGet fun w =>
    let (t, store, names) := w.store.plug t env env w.names
    (t, ⟨store, names⟩)

/-- Inputs with bindings applied. An input that is still a variable has no value. -/
def inputs (env : EnvId) : List Term → Selecting (List Term)
  | [] => return []
  | t :: ts => do
    let value ← input t env
    if value.isVariable then failure
    return value :: (← inputs env ts)

/-- A fresh variable. -/
def freshVar : Selecting Term :=
  modifyGet fun w =>
    let (v, names) := w.names.freshVar
    (v, { w with names })

/-- A fresh environment. -/
def newEnv : Selecting EnvId :=
  modifyGet fun w =>
    let (env, store) := w.store.newEnv
    (env, { w with store })

end Selecting

open Selecting (input inputs)

/-! ### Facts -/

/-- The facts that could fit a goal. -/
def selectFacts (src : Sources) (goal : Term) (env : EnvId) : Selecting Selection := do
  let facts := src.factsFor (← get).store goal env
  return ⟨goal, facts, ← Selecting.newEnv⟩

/-- The facts of a dataset that could fit a goal. -/
def selectDataset (src : Sources) (goal name : Term) (env : EnvId) : Selecting Selection := do
  let name ← (← input name env).asSymbol.getM
  let facts := src.datasetFactsFor name (← get).store goal env
  return ⟨goal, facts, ← Selecting.newEnv⟩

/-- The elements of a list. -/
def selectMembers (item list : Term) (env : EnvId) : Selecting Selection := do
  return ⟨item, (← input list env).cells, env⟩

/-! ### Values -/

/-- The groups of the first match of a pattern in a text, for as many outputs as there are. -/
def selectGroups (surroundings : Surroundings) (args : List Term) (env : EnvId) : Selecting Selection := do
  let text ← input (← args[0]?.getM) env
  let pattern ← input (← args[1]?.getM) env
  let groups := (← (surroundings.firstMatch (← text.stringText?.getM) (← pattern.stringText?.getM)).getM).drop 1
  let outputs := args.drop 2
  if groups.length < outputs.length then failure
  return ⟨.list outputs, [.list ((groups.take outputs.length).map Term.string)], env⟩

/-- Every match of a pattern in a text. -/
def selectMatches (surroundings : Surroundings) (args : List Term) (env : EnvId) : Selecting Selection := do
  let text ← input (← args[0]?.getM) env
  let pattern ← input (← args[1]?.getM) env
  let found := surroundings.allMatches (← text.stringText?.getM) (← pattern.stringText?.getM)
  return ⟨← args[2]?.getM, found.map Term.string, env⟩

/-- What a relation gives for each element of a list. -/
def mapRelation (ask : Answerer) (relation : String) : List Term → Selecting (List Term)
  | [] => return []
  | item :: items => do
    let out ← Selecting.freshVar
    match ← ask (.first out (.apply relation [item, out])) with
    | result :: _ => return result :: (← mapRelation ask relation items)
    | [] => failure

/-- The list of what a relation gives for each element of a list. -/
def selectMapped (ask : Answerer) (args : List Term) (env : EnvId) : Selecting Selection := do
  let relation ← (← args[0]?.getM).asSymbol.getM
  let list ← input (← args[1]?.getM) env
  let results ← mapRelation ask relation (← list.items?.getM)
  return ⟨← args[2]?.getM, [.list results], env⟩

/-- The answers of a goal, as a list or as their number. -/
def selectAggregate (src : Sources) (ask : Answerer) (f : String) (args : List Term) (env : EnvId) :
    Selecting Selection := do
  let template ← input (← args[0]?.getM) env
  let goal ← input (← args[1]?.getM) env
  let value ←
    if f = "setofall" then pure (Term.list (← ask.findAll src.config template goal))
    else ask.count template goal
  return ⟨← args[2]?.getM, [value], env⟩

/-- The value of an expression. -/
def selectValue (ask : Answerer) (args : List Term) (env : EnvId) : Selecting Selection := do
  let expr ← input (← args[0]?.getM) env
  let values ← ask (.value expr)
  let value ← values.head?.getM
  return ⟨← args[1]?.getM, [value], env⟩

/-- The value of a builtin, a math function or a list operator on all arguments but the last. -/
def selectCall (surroundings : Surroundings) (f : String) (args : List Term) (env : EnvId) : Selecting Selection := do
  let output ← args.getLast?.getM
  let values ← inputs env args.dropLast
  let value ←
    if isBuiltin f then (callBuiltin f values surroundings).getM
    else if isMath f then (callMath f values surroundings).getM
    else (values.head?.bind (callListOperator f)).getM
  return ⟨output, [value], env⟩

/-- The selection of a computed goal. -/
def selectComputed (src : Sources) (ask : Answerer) (f : String) (args : List Term) (env : EnvId) :
    Selecting Selection :=
  match f, args with
  | "evaluate", args => selectValue ask args env
  | "matches", args => selectGroups src.config.surroundings args env
  | "submatches", args => selectMatches src.config.surroundings args env
  | "map", args => selectMapped ask args env
  | f, args =>
    if isAggregate f then selectAggregate src ask f args env else selectCall src.config.surroundings f args env

end Deduction
