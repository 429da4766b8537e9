import Deduction.Term.Basic

/-!
# Order of terms

Variables come before symbols and symbols before compounds. Names are ordered by code points; compounds by functor
and then by their arguments from left to right, a list of arguments before its proper extensions.
-/

namespace Deduction.Term

mutual
/-- Three-way comparison of terms. -/
def cmp : Term → Term → Ordering
  | var a, var b => compare a b
  | var _, _ => .lt
  | sym _, var _ => .gt
  | sym a, sym b => compare a b
  | sym _, compound _ _ => .lt
  | compound f xs, compound g ys => (compare f g).then (cmpList xs ys)
  | compound _ _, _ => .gt

/-- Lexicographic comparison of lists of terms. -/
def cmpList : List Term → List Term → Ordering
  | [], [] => .eq
  | [], _ :: _ => .lt
  | _ :: _, [] => .gt
  | x :: xs, y :: ys => (cmp x y).then (cmpList xs ys)
end

/-- Not greater in the order of terms. -/
def le (x y : Term) : Bool := (cmp x y).isLE

instance : Ord Term := ⟨cmp⟩

end Deduction.Term
