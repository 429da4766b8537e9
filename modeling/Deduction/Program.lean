import Deduction.Search.Sources
import Deduction.Theory.Edit

/-!
# Programs

The sentences of a program are kept in two theories. Rules, handlers, transitions and definitions are on the side of
the rules, facts on the side of the facts. A relation that has rules is answered by the side of the rules alone, so
the facts of such a relation are kept there too.
-/

namespace Deduction

/-! ### Views and bases -/

/-- Has the relation rules? -/
def Theory.isView (rules : Theory) (relation : String) : Bool :=
  (rules.sentences relation).any fun t => t.ruleRelation? = some relation

/-- The relations that have rules, in order of first appearance. -/
def Theory.views (rules : Theory) : List String := (rules.toList.filterMap Term.ruleRelation?).eraseDups

/-- Does the fact belong to the side of the rules? -/
def Theory.takesFact (rules : Theory) (fact : Term) : Bool := fact.functor?.any rules.isView

/-- Facts and rules among sentences, with the facts of relations that have rules at the end of the rules. -/
def splitProgram (sentences : List Term) : List Term × List Term :=
  let (rules, facts) := sentences.partition Term.isRuleSentence
  let views := rules.filterMap Term.ruleRelation?
  let (moved, facts) := facts.partition fun t => t.functor?.any views.contains
  (facts, rules ++ moved)

namespace Sources

/-- The relations that have facts and no rules, in order of first appearance. -/
def bases (src : Sources) : List String :=
  let facts := (src.facts.toList ++ src.rules.toList).filter fun t => !t.isRuleSentence
  (facts.filterMap Term.functor?).eraseDups.filter fun r => !src.rules.isView r

/-! ### Editing -/

/-- Adds a fact to the side where it belongs, unless it is there; whether it was added is the first result. -/
def addFact (src : Sources) (fact : Term) : Bool × Sources :=
  if src.rules.takesFact fact then
    let (isNew, rules) := src.rules.save fact
    (isNew, { src with rules })
  else
    let (isNew, facts) := src.facts.save fact
    (isNew, { src with facts })

/-- Removes a fact from the facts, or else from the side of the rules; whether it was there is the first result. -/
def removeFact (src : Sources) (fact : Term) : Bool × Sources :=
  match src.facts.removeLast fact with
  | (some _, facts) => (true, { src with facts })
  | (none, _) =>
    let (removed, rules) := src.rules.removeLast fact
    (removed.isSome, { src with rules })

/-- Moves a fact to the side of the rules. -/
def moveFact (src : Sources) (fact : Term) : Sources :=
  { src with facts := (src.facts.removeFirst fact).2, rules := (src.rules.save fact).2 }

/-- The facts of a relation. -/
def factsOf (src : Sources) (relation : String) : List Term :=
  (src.facts.sentences relation).filter fun t => t.functor? = some relation

/-- Adds a rule sentence, unless it is there; whether it was added is the first result. The facts of the relation
that it is a rule for move to the side of the rules. -/
def addRule (src : Sources) (rule : Term) : Bool × Sources :=
  let src := (rule.ruleRelation?.elim [] src.factsOf).foldl moveFact src
  let (isNew, rules) := src.rules.save rule
  (isNew, { src with rules })

/-- Removes a rule sentence; whether it was there is the first result. -/
def removeRule (src : Sources) (rule : Term) : Bool × Sources :=
  let (removed, rules) := src.rules.removeLast rule
  (removed.isSome, { src with rules })

/-- Adds a sentence to the side where it belongs. -/
def addSentence (src : Sources) (t : Term) : Bool × Sources :=
  if t.isRuleSentence then src.addRule t else src.addFact t

/-- The sentences of a program, facts first. -/
def sentences (src : Sources) : List Term := src.facts.toList ++ src.rules.toList

end Sources

end Deduction
