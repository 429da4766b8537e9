import Deduction.Term.Basic

/-!
# Fresh names

Names are issued by one counter. Everything that invents names is given a supply and returns the supply that is
left, so two runs from the same supply invent the same names. The counter has no end; a counter of 64 bits goes the
same way as long as it stays below `UInt64.size`.
-/

namespace Deduction

/-- How many names were issued so far. -/
structure NameSupply where
  issued : Nat := 0
  deriving DecidableEq, Inhabited

namespace NameSupply

/-- The number of the next name, and the supply after it. -/
def next (names : NameSupply) : Nat × NameSupply :=
  (names.issued + 1, ⟨names.issued + 1⟩)

/-- A new variable name: `V1`, `V2`, and so on. -/
def freshName (names : NameSupply) : String × NameSupply :=
  let (n, names) := names.next
  (s!"V{n}", names)

/-- A new variable. -/
def freshVar (names : NameSupply) : Term × NameSupply :=
  let (name, names) := names.freshName
  (.var name, names)

/-- A variable for an anonymous one: `_1`, `_2`, and so on. -/
def freshAnonymous (names : NameSupply) : Term × NameSupply :=
  let (n, names) := names.next
  (.var s!"_{n}", names)

/-- A new constant: `c1`, `c2`, and so on. -/
def freshSymbol (names : NameSupply) : Term × NameSupply :=
  let (n, names) := names.next
  (.sym s!"c{n}", names)

end NameSupply

end Deduction
