import Deduction.Theory.Lookup

/-!
# Editing by term

Terms are added unless they are there, and removed by what they are instead of where they are. Removing by term may
close up holes and so change the places of entries.
-/

namespace Deduction.Theory

/-- The entries that are equal to a term, in order. -/
def idsOf (th : Theory) (t : Term) : List EntryId :=
  (th.lookupIds t).filter fun id => th.get? id = some t

/-- Removes the entry at a place, if there is one, and closes up holes. -/
def removeCompact (th : Theory) : Option EntryId → Option Term × Theory
  | some id =>
    let (removed, th) := th.remove id
    (removed, th.compact)
  | none => (none, th)

/-- Removes the first entry that is equal to the term. -/
def removeFirst (th : Theory) (t : Term) : Option Term × Theory := th.removeCompact (th.idsOf t).head?

/-- Removes the last entry that is equal to the term. -/
def removeLast (th : Theory) (t : Term) : Option Term × Theory := th.removeCompact (th.idsOf t).getLast?

/-- Adds the term unless it is there; whether it was added is the first result. -/
def save (th : Theory) (t : Term) : Bool × Theory :=
  if th.contains t then (false, th) else (true, (th.insert t).2)

/-- Removes the entry at a place if its first argument is the constant, and counts it. -/
def removeAbout (object : String) (state : Nat × Theory) (id : EntryId) : Nat × Theory :=
  let (count, th) := state
  if (th.get? id).bind (·.arg? 0) = some (.sym object) then (count + 1, (th.remove id).2) else (count, th)

/-- Removes the entries whose first argument is the constant; their number is the first result. -/
def eliminate (th : Theory) (object : String) : Nat × Theory :=
  let (count, th) := (th.keyIds object).foldl (removeAbout object) (0, th)
  (count, th.compact)

end Deduction.Theory
