import Deduction.Term.Basic

/-!
# Sentences

The shapes of sentence that a program is made of, as constructors and as views: rules, handlers, transitions and
definitions, and the goals made of other goals: negations, conjunctions, disjunctions.
-/

namespace Deduction.Term

/-! ### Constructors -/

/-- A head that holds whenever all goals of the body hold. -/
def rule (head : Term) (body : List Term) : Term := compound "rule" (head :: body)

/-- An update that fits the pattern stands for the replacement. -/
def handler (pattern replacement : Term) : Term := compound "handler" [pattern, replacement]

/-- When the condition holds, the action is carried out. -/
def transition (condition action : Term) : Term := compound "transition" [condition, action]

/-- Expressions that fit the head have the given value. -/
def definition (head value : Term) : Term := compound "definition" [head, value]

def negation (goal : Term) : Term := compound "not" [goal]

/-- All goals hold; a single goal stands for itself. -/
def conjunction : List Term → Term
  | [goal] => goal
  | goals => compound "and" goals

/-- Some goal holds; a single goal stands for itself. -/
def disjunction : List Term → Term
  | [goal] => goal
  | goals => compound "or" goals

/-- A relation applied to the variables `X1`, `X2`, and so on. -/
def pattern (relation : String) (arity : Nat) : Term :=
  apply relation ((List.range arity).map fun i => var s!"X{i + 1}")

/-! ### Views -/

/-- Head and body of a rule. -/
def asRule : Term → Option (Term × List Term)
  | compound f (head :: body) => if f = "rule" then some (head, body) else none
  | _ => none

/-- The two arguments of a compound with this functor and no others. -/
def asPair (functor : String) : Term → Option (Term × Term)
  | compound f [x, y] => if f = functor then some (x, y) else none
  | _ => none

/-- Pattern and replacement of a handler. -/
def asHandler : Term → Option (Term × Term) := asPair "handler"

/-- Condition and action of a transition. -/
def asTransition : Term → Option (Term × Term) := asPair "transition"

/-- Head and value of a definition. -/
def asDefinition : Term → Option (Term × Term) := asPair "definition"

/-- The goal under a negation. -/
def asNegation : Term → Option Term
  | compound f [goal] => if f = "not" then some goal else none
  | _ => none

def isRule (t : Term) : Bool := t.asRule.isSome

/-- Sentences that are kept among the rules: rules, handlers, transitions and definitions. -/
def isRuleSentence (t : Term) : Bool :=
  t.isRule || t.asHandler.isSome || t.asTransition.isSome || t.asDefinition.isSome

/-- The relation whose rules a sentence adds to, if it is a rule. -/
def ruleRelation? (t : Term) : Option String :=
  t.asRule.bind fun (head, _) => head.functor?

end Deduction.Term

namespace Deduction

/-! ### Classes of functors -/

/-- Functors around the sentence that they are about, which is their first argument. -/
def isWrapper (f : String) : Bool := f = "not" || f = "rule" || f = "definition" || f = "handler"

/-- Marks of added and removed facts. They take no part in dependencies. -/
def isUpdateMarker (f : String) : Bool := f = "pos" || f = "neg"

/-- Functors whose goals collect the answers of another goal. -/
def isAggregate (f : String) : Bool := f = "setofall" || f = "countofall"

end Deduction

namespace Deduction.Term

/-- The atom that a sentence is about: the first argument of a wrapper, again and again. -/
def subject : Term → Term
  | compound f (t :: ts) => if isWrapper f then subject t else compound f (t :: ts)
  | t => t

/-- The relation that a sentence talks about. -/
def operator? (t : Term) : Option String := t.subject.functor?

/-- The arguments of the atom that a sentence is about. -/
def operands (t : Term) : List Term := t.subject.args

end Deduction.Term
