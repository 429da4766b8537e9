import Deduction.Analysis.Safety
import Deduction.Analysis.Stratification
import Deduction.Syntax.Printer

/-!
# Diagnostics

What can be wrong with a program: a relation with more than one arity, an unsafe sentence, a recursive rule whose
recursive goals have variables of their own, and a rule that negates or collects what depends on its head. None of
these keeps a program from being queried.
-/

namespace Deduction

inductive Diagnostic where
  | mixedArity (relation : String)
  | unsafeRule (sentence : Term)
  | unstratifiedRecursion (rule : Term)
  | unstratifiedNegation (rule : Term)
  deriving DecidableEq

namespace Diagnostic

/-- The sentence at fault, if it is one sentence. -/
def sentence? : Diagnostic → Option Term
  | mixedArity _ => none
  | unsafeRule t => some t
  | unstratifiedRecursion t => some t
  | unstratifiedNegation t => some t

def message : Diagnostic → String
  | mixedArity relation => s!"Mixed arity: {relation}"
  | unsafeRule t => s!"Unsafe rule: {t.print}"
  | unstratifiedRecursion t => s!"Unstratified Recursion: {t.print}"
  | unstratifiedNegation t => s!"Unstratified Negation: {t.print}"

end Diagnostic

namespace Strata

/-- Is the relation in the given stratum or above? What is no relation never is. -/
def isAtOrAbove (strata : Strata) (stratum : Nat) (r : String) : Bool :=
  match strata.stratum? r with
  | some n => stratum ≤ n
  | none => false

/-- Is the relation of the goal in the given stratum or above? -/
def isGoalAtOrAbove (strata : Strata) (stratum : Nat) (goal : Term) : Bool :=
  match goal.operator? with
  | some r => strata.isAtOrAbove stratum r
  | none => false

/-- The stratum of the relation of a head. -/
def headStratum? (strata : Strata) (head : Term) : Option Nat := head.operator?.bind strata.stratum?

/-- A goal that neither negates nor collects. -/
def isPositive : Term → Bool
  | .compound f _ => f ≠ "not" && !isAggregate f
  | _ => true

/-- Is what the goal negates or collects below the stratum? -/
def isGoalStratified (strata : Strata) (stratum : Nat) (goal : Term) : Bool :=
  match goal with
  | .compound f args =>
    if f = "not" then !(args.take 1).any (strata.isGoalAtOrAbove stratum)
    else if isAggregate f then !(relationsOf [goal]).any (strata.isAtOrAbove stratum)
    else true
  | _ => true

/-- What a rule negates or collects is below its head. -/
def isNegationStratified (strata : Strata) (sentence : Term) : Bool :=
  match sentence.asRule with
  | some (head, body) =>
    match strata.headStratum? head with
    | some stratum => body.all (strata.isGoalStratified stratum)
    | none => true
  | none => true

/-- Every variable of a recursive goal is also in a goal that is not recursive. -/
def isRecursionStratified (strata : Strata) (sentence : Term) : Bool :=
  match sentence.asRule with
  | some (head, body) =>
    match strata.headStratum? head with
    | some stratum =>
      let (recursive, grounding) := (body.filter isPositive).partition (strata.isGoalAtOrAbove stratum)
      Term.areCovered recursive (Term.bindAll grounding [])
    | none => true
  | none => true

end Strata

/-- Everything that is wrong with a program: arities first, then safety, recursion and negation. -/
def diagnose (sentences : List Term) : List Diagnostic :=
  let strata := Strata.ofSentences sentences
  (mixedArities sentences).map .mixedArity ++
    (sentences.filter fun t => !t.isSafe).map .unsafeRule ++
    (sentences.filter fun t => !strata.isRecursionStratified t).map .unstratifiedRecursion ++
    (sentences.filter fun t => !strata.isNegationStratified t).map .unstratifiedNegation

end Deduction
