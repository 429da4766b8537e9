import Deduction.Builtin.Library
import Deduction.Term.Sentence

/-!
# Relations of a program

The relations that sentences mention: the functors of the atoms in heads and bodies. Connectives, aggregates and
marks of updates are looked through. Goals with a computed meaning, and those that a search answers without looking
at sentences, are no relations.
-/

namespace Deduction

/-- Functors of goals that a search answers itself, without looking at facts or rules of that name. -/
def isSelfContained (f : String) : Bool :=
  f = "same" || f = "distinct" || f = "mutex" || f = "evaluate" || f = "member" || f = "map" || f = "true"

namespace Term

mutual
/-- The relations that a sentence or a goal mentions, in order, repeats included. -/
def mentions : Term → List String
  | var _ => []
  | sym s => if s = "true" || s = "false" then [] else [s]
  | compound f args =>
    if f = "not" || isUpdateMarker f then
      match args with
      | goal :: _ => mentions goal
      | [] => []
    else if f = "rule" || f = "and" || f = "or" then mentionsList args
    else if isAggregate f then
      match args with
      | _ :: goal :: _ => mentions goal
      | _ => []
    else if isSelfContained f || isComputed f then []
    else [f]

def mentionsList : List Term → List String
  | [] => []
  | t :: ts => mentions t ++ mentionsList ts
end

mutual
/-- The relations that a sentence or a goal uses, in order, each time with the number of arguments. -/
def uses : Term → List (String × Nat)
  | var _ => []
  | sym s => [(s, 0)]
  | compound f args =>
    if isAggregate f then
      match args with
      | _ :: goal :: _ => uses goal
      | _ => []
    else if f = "not" then
      match args with
      | goal :: _ => uses goal
      | [] => []
    else if f = "and" || f = "or" || f = "rule" then usesList args
    else [(f, args.length)]

def usesList : List Term → List (String × Nat)
  | [] => []
  | t :: ts => uses t ++ usesList ts
end

end Term

/-- The relations that some sentences mention, in order of first appearance. -/
def relationsOf (sentences : List Term) : List String := (sentences.flatMap Term.mentions).eraseDups

/-- The relations that are used with different numbers of arguments, in order of first appearance. -/
def mixedArities (sentences : List Term) : List String :=
  let uses := sentences.flatMap Term.uses
  (uses.map Prod.fst).eraseDups.filter fun r =>
    uses.any fun use => use.1 = r && uses.lookup r ≠ some use.2

end Deduction
