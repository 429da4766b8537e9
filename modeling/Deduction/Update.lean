import Deduction.Search.Query
import Deduction.Theory.Edit

/-!
# Updates

An update is expanded to changes, and these are applied: first what is removed, then what is added. A change that a
handler fits is replaced by what the handler has in its place; every handler that fits takes part. A transition
stands for its action, once for every answer of its condition. All conditions are answered by the sources as they
were before any change.
-/

namespace Deduction

/-! ### Expansion -/

/-- What the handlers that fit a change put in its place. -/
def handledChanges (rules : Theory) (change : Term) : List Term :=
  (rules.lookup (.pattern "handler" 2)).filterMap fun sentence => do
    let (pattern, replacement) ← sentence.asHandler
    let b ← Bindings.matcher pattern change
    return b.plug replacement

/-- The changes that an update stands for, after so many handlers were passed. Expansions within expansions are
followed to a depth that no update comes to. -/
def expandAt (src : Sources) : Nat → Nat → Term → Metered (List Term)
  | 0, _, _ => throw .stepBound
  | _ + 1, _, .var _ => return []
  | n + 1, passed, seed =>
    match seed with
    | .compound "not" _ => return [seed]
    | .compound "and" parts => parts.flatMapM (expandAt src n passed)
    | .compound "transition" [condition, action] => do
      (← src.findAll action condition).flatMapM (expandAt src n passed)
    | _ =>
      if src.config.expandDepth < passed then return []
      else
        match handledChanges src.rules seed with
        | [] => return [seed]
        | changes => changes.flatMapM (expandAt src n (passed + 1))

namespace Sources

/-- The changes that an update stands for. -/
def expand (src : Sources) (seed : Term) : Metered (List Term) := do
  return src.config.dedup.apply (← expandAt src stepBound 0 seed)

/-- The changes that the transitions among the rules stand for. -/
def transitionChanges (src : Sources) : Metered (List Term) :=
  ((src.rules.lookup (.pattern "transition" 2)).filter fun t => t.asTransition.isSome).flatMapM src.expand

end Sources

/-! ### Changes -/

inductive Change where
  | add (target : Term)
  | remove (target : Term)
  /-- Something is put out and nothing is changed. -/
  | output (t : Term)
  | nothing

namespace Change

/-- What a term says about its first argument, if it has one. -/
def onFirst (f : Term → Change) : List Term → Change
  | t :: _ => f t
  | [] => nothing

/-- The change that a term stands for. A term without a mark is added. -/
def ofTerm : Term → Change
  | .var _ => nothing
  | .compound "delete" args => onFirst remove args
  | .compound "not" args => onFirst remove args
  | .compound "enqueue" args => onFirst output args
  | .compound "insert" args => onFirst add args
  | t => add t

def added? : Change → Option Term
  | add t => some t
  | _ => none

def removed? : Change → Option Term
  | remove t => some t
  | _ => none

def output? : Change → Option Term
  | output t => some t
  | _ => none

end Change

/-- A fact of a dataset, and the name of the dataset. -/
def Term.asDatasetFact : Term → Option (Term × String)
  | .compound "true" [fact, .sym name] => some (fact, name)
  | _ => none

namespace Sources

/-- Edits the theory that a target belongs to: the facts, or a dataset, which is made if it does not exist. -/
def edit (f : Theory → Term → Theory) (src : Sources) (target : Term) : Sources :=
  match target.asDatasetFact with
  | some (fact, name) => src.addDataset name (f ((src.dataset? name).getD .facts) fact)
  | none => { src with facts := f src.facts target }

/-- Removes a target from where it belongs. -/
def removeTarget : Sources → Term → Sources := edit fun th t => (th.removeFirst t).2

/-- Adds a target to where it belongs, unless it is there. -/
def addTarget : Sources → Term → Sources := edit fun th t => (th.save t).2

/-- Applies changes, first those that remove and then those that add; what they put out is the first result. -/
def applyChanges (src : Sources) (changes : List Term) : List Term × Sources :=
  let changes := changes.map Change.ofTerm
  let src := (changes.filterMap Change.removed?).foldl removeTarget src
  let src := (changes.filterMap Change.added?).foldl addTarget src
  (changes.filterMap Change.output?, src)

/-- Carries out an update. -/
def execute (src : Sources) (seed : Term) : Metered (List Term × Sources) := do
  return src.applyChanges (← src.expand seed)

/-- Carries out the transitions among the rules, all at once. -/
def update (src : Sources) : Metered (List Term × Sources) := do
  return src.applyChanges (← src.transitionChanges)

/-- Carries out the action for every answer of the condition. -/
def transform (src : Sources) (condition action : Term) : Metered (List Term × Sources) :=
  src.execute (.transition condition action)

end Sources

end Deduction
