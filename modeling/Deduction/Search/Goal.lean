import Deduction.Builtin.Library
import Deduction.Theory.Lookup

/-!
# Goals

What kind of goal a term is. Goals with a meaning of their own are known by their functor; every other goal is
answered by rules if its relation has any, and by facts if not. A goal that lacks arguments fails.
-/

namespace Deduction

inductive Goal where
  | holds
  | fails
  /-- The terms can be made equal. -/
  | same (x y : Term)
  /-- The terms cannot be made equal. -/
  | distinct (x y : Term)
  /-- The terms are pairwise different. -/
  | mutex (terms : List Term)
  /-- The item is an element of the list. -/
  | member (item list : Term)
  | negation (goal : Term)
  | conjunction (goals : List Term)
  | disjunction (goals : List Term)
  /-- The goal is a fact of the named dataset. -/
  | dataset (goal name : Term)
  | computed (functor : String) (args : List Term)
  /-- A goal that rules answer. -/
  | view
  /-- A goal that facts answer. -/
  | base

namespace Goal

/-- Functors of goals that compute a value, besides the builtins. -/
def isComputation (f : String) : Bool :=
  f = "evaluate" || f = "map" || isAggregate f || isComputed f

/-- A goal on a relation that may have rules. -/
def ofRelation (rules : Theory) (relation : String) : Goal := if rules.defines relation then view else base

/-- What kind of goal a term is. A variable says nothing that could hold. -/
def ofTerm (rules : Theory) : Term → Goal
  | .var _ => fails
  | .sym "true" => holds
  | .sym "false" => fails
  | .sym s => ofRelation rules s
  | .compound "same" args =>
    match args with
    | x :: y :: _ => same x y
    | _ => fails
  | .compound "distinct" args =>
    match args with
    | x :: y :: _ => distinct x y
    | _ => fails
  | .compound "mutex" args => mutex args
  | .compound "member" args =>
    match args with
    | item :: list :: _ => member item list
    | _ => fails
  | .compound "not" args =>
    match args with
    | goal :: _ => negation goal
    | [] => fails
  | .compound "and" args => conjunction args
  | .compound "or" args => disjunction args
  | .compound "true" [goal, name] => dataset goal name
  | .compound f args => if isComputation f then computed f args else ofRelation rules f

end Goal

end Deduction
