import Deduction.Term.Basic

/-!
# Bindings

An association list from variables to terms, the last binding first. An extended list shares its tail with the one
it was made from, so a match that fails has nothing to undo. Bindings are used where one pattern meets one term:
handlers of updates and definitions of expressions.
-/

namespace Deduction

/-- Variables with their values, the last binding first. -/
abbrev Bindings := List (String × Term)

/-- How many levels a traversal may descend: it stops below `depthLimit` levels. -/
def allowance : Nat := depthLimit + 1

namespace Bindings

/-- The value bound to a variable last. -/
def get? (b : Bindings) (v : String) : Option Term := b.lookup v

/-- Binds a variable; an older binding of it is hidden. -/
def bind (b : Bindings) (v : String) (value : Term) : Bindings := (v, value) :: b

/-- Replaces bound variables by their values, and again in the values, within an allowance. -/
def plugAt (b : Bindings) : Nat → Term → Term
  | 0, t => t
  | n + 1, .var v =>
    match b.get? v with
    | some value => b.plugAt n value
    | none => .var v
  | _ + 1, .sym s => .sym s
  | n + 1, .compound f args => .compound f (args.map (b.plugAt n))

/-- Replaces bound variables by their values, and again in the values. -/
def plug (b : Bindings) (t : Term) : Term := b.plugAt allowance t

/-- The bound variables, each once, with their values after plugging. -/
def plugged (b : Bindings) : List (String × Term) :=
  (b.map Prod.fst).eraseDups.filterMap fun v => (b.get? v).map fun value => (v, b.plug value)

end Bindings

end Deduction
