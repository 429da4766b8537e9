import Deduction.Names

/-!
# Renaming apart

A term is renamed apart by giving each of its variables a fresh name. A table of the names given so far is carried
through the term, so that every occurrence of a variable gets the same name.
-/

namespace Deduction

/-- The new names of the variables seen so far, the last one first, and the names that are left. -/
structure Renaming where
  table : List (String × String) := []
  names : NameSupply

/-- The new name of a variable, a fresh one at its first occurrence. -/
def Renaming.rename (r : Renaming) (v : String) : String × Renaming :=
  match r.table.lookup v with
  | some w => (w, r)
  | none =>
    let (w, names) := r.names.freshName
    (w, ⟨(v, w) :: r.table, names⟩)

namespace Term

mutual
/-- Renames every variable of a term. -/
def renameWith : Term → Renaming → Term × Renaming
  | var v, r =>
    let (w, r) := r.rename v
    (var w, r)
  | sym s, r => (sym s, r)
  | compound f args, r =>
    let (args, r) := renameList args r
    (compound f args, r)

def renameList : List Term → Renaming → List Term × Renaming
  | [], r => ([], r)
  | t :: ts, r =>
    let (t, r) := renameWith t r
    let (ts, r) := renameList ts r
    (t :: ts, r)
end

/-- The term with fresh variables, and the names that are left. -/
def standardize (t : Term) (names : NameSupply) : Term × NameSupply :=
  let (t, r) := t.renameWith { names }
  (t, r.names)

end Term

end Deduction
