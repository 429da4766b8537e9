import Deduction.Bindings.Unify
import Deduction.Builtin.Library
import Deduction.Search.Sources

/-!
# Values of expressions

A symbol is its own value and a variable has none. `map`, `setofall`, `countofall`, `choose` and `if` have meanings
of their own. Of any other compound the arguments are evaluated, and the functor is applied to their values: as a
builtin, a math function or a list operator, or through the definitions among the rules. A functor without any
definition leaves the term as it is.
-/

namespace Deduction

/-- The value of a call by the first definition that gives one; `isDefined` tells whether one for the functor has
been met. -/
def applyDefinitions (ask : Answerer) (f : String) (call : Term) : List Term → Bool → OptionT Metered Term
  | [], isDefined => if isDefined then failure else return call
  | sentence :: rest, isDefined =>
    match sentence.asDefinition with
    | none => applyDefinitions ask f call rest isDefined
    | some (head, body) =>
      let isDefined := isDefined || head.operator? = some f
      match Bindings.unifier head call with
      | none => applyDefinitions ask f call rest isDefined
      | some b => do
        Meter.infer
        match ← ask (.value (b.plug body)) with
        | value :: _ => return value
        | [] => applyDefinitions ask f call rest isDefined

/-- The value of a functor applied to values. -/
def applyFunctor (src : Sources) (ask : Answerer) (f : String) (values : List Term) : OptionT Metered Term :=
  if isBuiltin f then (callBuiltin f values src.config.surroundings).getM
  else if isMath f then (callMath f values src.config.surroundings).getM
  else if isListOperator f then (values.head?.bind (callListOperator f)).getM
  else applyDefinitions ask f (.apply f values) (src.rules.lookup (.pattern "definition" 2)) false

mutual
/-- The value of an expression. -/
def valueOf (src : Sources) (ask : Answerer) : Term → OptionT Metered Term
  | .var _ => failure
  | .sym s => return .sym s
  | .compound f args => do
    if ← Meter.isSpent src.config then failure
    else
      match f, args with
      | "map", function :: args => do
        let f ← (← valueOf src ask function).asSymbol.getM
        match args with
        | list :: _ => do
          let items ← (← valueOf src ask list).items?.getM
          return .list (← items.mapM fun item => applyFunctor src ask f [item])
        | [] => failure
      | "setofall", template :: goal :: _ => return .list (← ask.findAll src.config template goal)
      | "countofall", template :: goal :: _ => ask.count template goal
      | "choose", template :: goal :: _ => OptionT.mk (ask.findFirst? template goal)
      | "if", branches => valueOfBranch src ask branches
      | f, args =>
        if f = "map" || isAggregate f || f = "choose" then failure
        else applyFunctor src ask f (← valuesOf src ask args)

/-- The values of expressions, if every one has a value. -/
def valuesOf (src : Sources) (ask : Answerer) : List Term → OptionT Metered (List Term)
  | [] => return []
  | t :: ts => return (← valueOf src ask t) :: (← valuesOf src ask ts)

/-- The value that follows the first condition that holds; conditions and values take turns. -/
def valueOfBranch (src : Sources) (ask : Answerer) : List Term → OptionT Metered Term
  | condition :: value :: rest => do
    if ← ask.holds condition then valueOf src ask value else valueOfBranch src ask rest
  | _ => failure
end

end Deduction
