import Deduction.Analysis.Relations

/-!
# Stratification

The relations of a program are put into strata. A rule makes the relation of its head depend on the relations that
its body mentions. Relations that depend on each other share a stratum, and a relation is in no lower stratum than
one that it depends on.

The strata are the strongly connected components of the dependencies, found by Tarjan's algorithm. A component is put
down once the search is done with the relation of it that it came to first, so of two components the one that is put
down later comes first.
-/

namespace Deduction

/-! ### Dependencies -/

/-- Relations, each with those that depend on it directly. -/
abbrev Dependencies := List (String × List String)

namespace Dependencies

/-- The relations that depend on a relation directly. -/
def dependents (deps : Dependencies) (r : String) : List String := (deps.lookup r).getD []

/-- A relation mentioned in a rule, paired with the relation of the rule's head. -/
def edges (sentence : Term) : List (String × String) :=
  match sentence.asRule with
  | some (head, body) =>
    match head.operator? with
    | some r => (relationsOf body).map fun b => (b, r)
    | none => []
  | none => []

/-- The dependencies among the relations of some sentences. Marks of updates take no part in them. -/
def ofSentences (sentences : List Term) : Dependencies :=
  let relations := relationsOf sentences
  let all := sentences.flatMap edges
  relations.map fun r =>
    (r, ((all.filter (·.1 = r)).map Prod.snd).eraseDups.filter fun s => !isUpdateMarker s && relations.contains s)

/-! ### Components -/

/-- How far the search for components has come. -/
structure Search where
  /-- The number of the relation that the search comes to next. -/
  nextIndex : Nat := 0
  /-- The relations that the search has come to, each with its number. -/
  index : List (String × Nat) := []
  /-- For each of them the lowest number on the stack that is known to depend on it. An entry stands for later ones of
  the same relation. -/
  low : List (String × Nat) := []
  /-- The relations that have no component yet, the last one first. -/
  stack : List String := []
  /-- Whether a relation is on the stack. An entry stands for later ones of the same relation. -/
  onStack : List (String × Bool) := []
  /-- The components that were put down, the last one first. -/
  components : List (List String) := []

namespace Search

/-- The number of a relation that the search has come to. -/
def indexOf (s : Search) (r : String) : Nat := (s.index.lookup r).getD 0

/-- The lowest number on the stack that is known to depend on a relation. -/
def lowOf (s : Search) (r : String) : Nat := (s.low.lookup r).getD 0

/-- The search comes to a relation. -/
def enter (s : Search) (r : String) : Search :=
  { s with
    nextIndex := s.nextIndex + 1
    index := (r, s.nextIndex) :: s.index
    low := (r, s.nextIndex) :: s.low
    stack := r :: s.stack
    onStack := (r, true) :: s.onStack }

/-- A number on the stack is known to depend on a relation. -/
def lower (s : Search) (r : String) (n : Nat) : Search := { s with low := (r, min (s.lowOf r) n) :: s.low }

/-- Follows a dependency: visits the relation that it leads to, unless the search has come to it before. -/
def follow (visit : Search → String → Search) (r : String) (s : Search) (x : String) : Search :=
  if (s.index.lookup x).isNone then
    let s := visit s x
    s.lower r (s.lowOf x)
  else if s.onStack.lookup x = some true then s.lower r (s.indexOf x)
  else s

/-- Takes the relations from the top of a stack down to one of them. -/
def popTo (r : String) : List String → List String × List String
  | [] => ([], [])
  | x :: stack =>
    if x = r then ([x], stack)
    else
      let (component, rest) := popTo r stack
      (x :: component, rest)

/-- The search is done with a relation. Unless something below it on the stack depends on it, it and what lies above it
are a component. -/
def leave (s : Search) (r : String) : Search :=
  if s.lowOf r = s.indexOf r then
    let (component, stack) := popTo r s.stack
    { s with
      stack
      onStack := component.map (·, false) ++ s.onStack
      components := component :: s.components }
  else s

end Search

/-- Searches on from a relation, through what depends on it. The search is at most so many relations deep. -/
def visit (deps : Dependencies) : Nat → Search → String → Search
  | 0, s, _ => s
  | n + 1, s, r => ((deps.dependents r).foldl (Search.follow (visit deps n) r) (s.enter r)).leave r

/-- Visits a relation unless the search has come to it before. The search is never deeper than there are relations. -/
def visitNew (deps : Dependencies) (s : Search) (r : String) : Search :=
  if (s.index.lookup r).isNone then visit deps deps.length s r else s

/-- The search that starts from each relation in turn. -/
def search (deps : Dependencies) : Search := (deps.map Prod.fst).foldl (visitNew deps) {}

end Dependencies

/-! ### Strata -/

/-- The strata of a program, the lowest first. -/
abbrev Strata := List (List String)

namespace Strata

/-- The strata of some sentences. Only rules make a relation depend on others. -/
def ofSentences (sentences : List Term) : Strata := (Dependencies.ofSentences sentences).search.components

/-- The number of the stratum of a relation. -/
def stratum? (strata : Strata) (r : String) : Option Nat := strata.findIdx? (·.contains r)

end Strata

end Deduction
