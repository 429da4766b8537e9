import Deduction.Builtin.Library
import Deduction.Term.Sentence

/-!
# Safety

A rule is safe when running its body from left to right has bound every variable of its head. An ordinary goal
binds all its variables. Tests bind nothing and need their variables bound. Computed goals need all arguments but
the last, and bind that. An aggregate needs its template bound by its own goal, and binds its result. Facts are safe
when they are ground.
-/

namespace Deduction.Term

/-- Goals that only test: they need all their variables bound. -/
def isTest (f : String) : Bool := f = "not" || f = "same" || f = "distinct" || f = "mutex"

/-- Goals that compute their last argument from the others. -/
def isComputation (f : String) : Bool := f = "evaluate" || f = "map" || isComputed f

/-- Are all variables of the term among the given ones? -/
def isCovered (t : Term) (bound : List String) : Bool := t.vars.all bound.contains

def areCovered (terms : List Term) (bound : List String) : Bool := terms.all (·.isCovered bound)

/-- The variables of some terms added to the given ones. -/
def bindAll (terms : List Term) (bound : List String) : List String := addVarsList terms bound

/-- The variables bound after some inputs were used and some outputs bound, if the inputs were bound. -/
def bindOutputs (inputs outputs : List Term) (bound : List String) : Option (List String) :=
  if areCovered inputs bound then some (bindAll outputs bound) else none

mutual
/-- The variables that are bound after a goal, if those that it needs were bound before. -/
def bindGoal : Term → List String → Option (List String)
  | compound f args, bound =>
    if isTest f then bindOutputs args [] bound
    else if f = "and" then bindGoals args bound
    else if isAggregate f then
      match args with
      | template :: goal :: result :: _ =>
        if template.isCovered goal.vars && (bindGoal goal []).isSome then some (bindAll [result] bound) else none
      | _ => none
    else if f = "matches" then bindOutputs (args.take 2) (args.drop 2) bound
    else if f = "member" then
      match args with
      | item :: list :: _ => bindOutputs [list] [item] bound
      | _ => none
    else if isComputation f then bindOutputs args.dropLast args.getLast?.toList bound
    else some (bindAll args bound)
  | _, bound => some bound

/-- The variables that are bound after goals were run from left to right. -/
def bindGoals : List Term → List String → Option (List String)
  | [], bound => some bound
  | goal :: goals, bound => (bindGoal goal bound).bind (bindGoals goals)
end

/-- Does running the goals bind every variable of the head? -/
def isSafeRule (head : Term) (body : List Term) : Bool :=
  match bindGoals body [] with
  | some bound => head.isCovered bound
  | none => false

/-- A sentence that only speaks of what it has bound. -/
def isSafe (t : Term) : Bool :=
  match t.asRule, t.asTransition, t.asHandler, t.asDefinition with
  | some (head, body), _, _, _ => isSafeRule head body
  | _, some (condition, action), _, _ => isSafeRule action [condition]
  | _, _, some (pattern, replacement), _ => replacement.isCovered pattern.vars
  | _, _, _, some (head, value) => value.isCovered head.vars
  | none, none, none, none => t.isGround

end Deduction.Term
