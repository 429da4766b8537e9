import Deduction.Term.Basic

/-!
# Lists as cells

A list is a chain of cells `cons(head, tail)` that ends in the symbol `nil`.
-/

namespace Deduction.Term

/-- The empty list. -/
def nil : Term := sym "nil"

/-- A cell: the first element and the rest. -/
def cons (head tail : Term) : Term := compound "cons" [head, tail]

/-- A chain of cells over the items that ends in `tail`. -/
def chain (items : List Term) (tail : Term) : Term := items.foldr cons tail

/-- The proper list of the items. -/
def list (items : List Term) : Term := chain items nil

def isNil : Term → Bool
  | sym s => s == "nil"
  | _ => false

/-- Head and tail of a cell. -/
def asCons : Term → Option (Term × Term)
  | compound f [head, tail] => if f = "cons" then some (head, tail) else none
  | _ => none

/-- The elements of a chain of cells, in order, and the term that the chain ends in. -/
def uncons : Term → List Term × Term
  | compound f [head, tail] =>
    if f = "cons" then
      let (items, last) := uncons tail
      (head :: items, last)
    else ([], compound f [head, tail])
  | t => ([], t)

/-- The elements of a chain of cells, whatever it ends in. -/
def cells (t : Term) : List Term := t.uncons.1

/-- The elements of a proper list. -/
def items? (t : Term) : Option (List Term) :=
  let (items, last) := t.uncons
  if last.isNil then some items else none

/-- A chain of cells that ends in `nil`. -/
def isList (t : Term) : Bool := t.uncons.2.isNil

theorem uncons_cons (h t : Term) : (cons h t).uncons = (h :: t.uncons.1, t.uncons.2) := by
  simp [cons, uncons]

theorem uncons_chain (items : List Term) (last : Term) :
    (chain items last).uncons = (items ++ last.uncons.1, last.uncons.2) := by
  induction items with
  | nil => rfl
  | cons h ts ih => rw [chain, List.foldr_cons, ← chain, uncons_cons, ih]; rfl

@[simp] theorem items?_list (items : List Term) : (list items).items? = some items := by
  simp [list, items?, uncons_chain, nil, uncons, isNil]

end Deduction.Term
