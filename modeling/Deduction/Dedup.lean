import Deduction.Term.Order

/-!
# Removing repeated answers

Answers are kept in the order in which they were found, each once. Short lists compare every answer with those
before it; long ones are sorted, cleared of neighbours that are equal, and put back into their order. Counting only
needs the distinct answers in the order of terms.
-/

namespace Deduction

/-- How repeated answers are removed. -/
inductive DedupPolicy where
  /-- By comparison up to `small` answers, by sorting above that. -/
  | adaptive (small : Nat)
  | adjoin
  | sorted
  /-- Repeated answers are kept. -/
  | keep
  deriving DecidableEq, Inhabited

namespace Dedup

/-- Adds a term at the end of a list unless it is there. -/
def adjoin (terms : List Term) (t : Term) : List Term :=
  if terms.contains t then terms else terms ++ [t]

/-- First occurrences in their order, found by comparison. -/
def byComparison (terms : List Term) : List Term := terms.foldl adjoin []

/-- Drops each element that `same` relates to the one before it that was kept, which is `x` at first. -/
def dropRepeatsOf {α : Type} (same : α → α → Bool) (x : α) : List α → List α
  | [] => []
  | y :: rest => if same x y then dropRepeatsOf same x rest else y :: dropRepeatsOf same y rest

/-- Drops each element that `same` relates to the one before it that was kept. -/
def dropRepeats {α : Type} (same : α → α → Bool) : List α → List α
  | [] => []
  | x :: rest => x :: dropRepeatsOf same x rest

/-- The order of terms, and of their places where terms are equal. -/
def leWithPlace (x y : Term × Nat) : Bool := ((x.1.cmp y.1).then (compare x.2 y.2)).isLE

/-- First occurrences in their order, found by sorting. -/
def bySorting (terms : List Term) : List Term :=
  let placed := terms.zipIdx.mergeSort leWithPlace
  let firsts := dropRepeats (fun x y => x.1 = y.1) placed
  (firsts.mergeSort fun x y => x.2 ≤ y.2).map Prod.fst

/-- The distinct terms in the order of terms. -/
def distinct (terms : List Term) : List Term :=
  dropRepeats (fun x y => x = y) (terms.mergeSort Term.le)

end Dedup

/-- Removes repeated answers. -/
def DedupPolicy.apply : DedupPolicy → List Term → List Term
  | adaptive small, terms =>
    if terms.length ≤ small then Dedup.byComparison terms else Dedup.bySorting terms
  | adjoin, terms => Dedup.byComparison terms
  | sorted, terms => Dedup.bySorting terms
  | keep, terms => terms

end Deduction
