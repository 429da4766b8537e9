import Mathlib.Data.List.Induction
import Deduction.Term.Rename
import Deduction.Proofs.Bindings.Matching
import Deduction.Proofs.Search.FreshNames
import Deduction.Proofs.Variants.Rules

/-!
# Renaming apart gives a fresh variant

The table that is carried through a term is told by the variables seen so far: they have the next names of the supply, in
the order in which they were first seen (`Renaming.after`). The term that is left of them is renamed as by any
permutation of names that agrees with the table in the end (`Term.renameWith_after`), so a term that is renamed apart is a
variant whose variables are the next names, one for each variable of the term (`Term.standardize_fresh`).
-/

namespace Deduction

variable {names : NameSupply} {seen vars : List String} {v w : String} {π : Equiv.Perm String}

namespace Renaming

/-- The renaming that has given the next names of the supply to some variables. -/
def after (names : NameSupply) (seen : List String) : Renaming where
  table := ((seen.zipIdx (names.issued + 1)).map fun (v, n) => (v, s!"V{n}")).reverse
  names := ⟨names.issued + seen.length⟩

/-- The new name of one of the variables. -/
def newName (names : NameSupply) (vars : List String) (v : String) : String := s!"V{names.issued + 1 + vars.idxOf v}"

theorem newName_of_prefix (h : seen <+: vars) (hv : v ∈ seen) : newName names vars v = newName names seen v := by
  obtain ⟨more, rfl⟩ := h
  unfold newName
  rw [List.idxOf_append, if_pos hv]

theorem newName_append_singleton (hv : v ∉ seen) :
    newName names (seen ++ [v]) v = s!"V{names.issued + 1 + seen.length}" := by
  have hplace : (seen ++ [v]).idxOf v = seen.length := by simp [List.idxOf_append, hv]
  rw [newName, hplace]

theorem newName_inj (hv : v ∈ vars) (h : newName names vars v = newName names vars w) : v = w := by
  have hplace := freshName_injective h
  exact (List.idxOf_inj hv).1 (by omega)

/-- The new names of the variables in their order are the next ones of the supply. -/
theorem map_newName (h : vars.Nodup) :
    vars.map (newName names vars) = (List.range' (names.issued + 1) vars.length).map fun n => s!"V{n}" := by
  refine List.ext_getElem (by simp) fun i hi hi' => ?_
  rw [List.length_map] at hi
  simp [newName, h.idxOf_getElem i hi]

theorem after_append_singleton : after names (seen ++ [v]) =
    ⟨(v, s!"V{names.issued + 1 + seen.length}") :: (after names seen).table, ⟨names.issued + seen.length + 1⟩⟩ := by
  unfold after
  rw [List.zipIdx_append, List.map_append, List.reverse_append, List.length_append, List.length_singleton, Nat.add_assoc]
  rfl

theorem lookup_after_append_of_ne (h : v ≠ w) :
    (after names (seen ++ [w])).table.lookup v = (after names seen).table.lookup v := by
  rw [after_append_singleton, List.lookup_cons, beq_eq_false_iff_ne.2 h]

theorem lookup_after (hv : v ∈ seen) (h : seen.Nodup) :
    (after names seen).table.lookup v = some (newName names seen v) := by
  induction seen using List.reverseRecOn with
  | nil => cases hv
  | append_singleton seen w ih =>
    rw [List.nodup_append_comm, List.singleton_append, List.nodup_cons] at h
    by_cases hvw : v = w
    · subst hvw
      rw [after_append_singleton, List.lookup_cons_self, newName_append_singleton h.1]
    · have hv : v ∈ seen := by simpa [hvw] using hv
      rw [lookup_after_append_of_ne hvw, ih hv h.2, newName_of_prefix (List.prefix_append seen [w]) hv]

theorem lookup_after_eq_none (hv : v ∉ seen) : (after names seen).table.lookup v = none := by
  induction seen using List.reverseRecOn with
  | nil => rfl
  | append_singleton seen w ih =>
    rw [List.mem_append, List.mem_singleton, not_or] at hv
    rw [lookup_after_append_of_ne hv.2, ih hv.1]

/-- A variable has the name of its place among the variables seen, itself included. -/
theorem rename_after (h : seen.Nodup) (v : String) : (after names seen).rename v =
    (newName names ((Term.var v).addVars seen) v, after names ((Term.var v).addVars seen)) := by
  unfold rename
  by_cases hv : v ∈ seen
  · have hseen : (Term.var v).addVars seen = seen := if_pos (List.contains_iff_mem.2 hv)
    rw [lookup_after hv h, hseen]
  · have hseen : (Term.var v).addVars seen = seen ++ [v] := if_neg fun hc => hv (List.contains_iff_mem.1 hc)
    rw [lookup_after_eq_none hv, hseen, after_append_singleton, newName_append_singleton hv]
    simp [after, NameSupply.freshName, NameSupply.next, Nat.add_right_comm]

end Renaming

namespace Term

open Renaming (after newName)

mutual
theorem prefix_addVars : (t : Term) → (seen : List String) → seen <+: t.addVars seen
  | var v, seen => by
    rw [addVars]
    split
    · exact List.prefix_refl seen
    · exact List.prefix_append seen [v]
  | sym _, seen => List.prefix_refl seen
  | compound _ args, seen => prefix_addVarsList args seen

theorem prefix_addVarsList : (ts : List Term) → (seen : List String) → seen <+: addVarsList ts seen
  | [], seen => List.prefix_refl seen
  | t :: ts, seen => (prefix_addVars t seen).trans (prefix_addVarsList ts (t.addVars seen))
end

mutual
/-- A table that is filled already goes on with the variables that are new, and the term is renamed as by a permutation
that agrees with the table in the end. -/
theorem renameWith_after : (t : Term) → {seen : List String} → seen.Nodup →
    (∀ v ∈ t.addVars seen, π v = newName names (t.addVars seen) v) →
      t.renameWith (after names seen) = (t.relabel π, after names (t.addVars seen))
  | var v, seen, h, hπ => by
    have hv : v ∈ (var v).addVars seen := (mem_addVars (var v) seen).2 (Or.inr (mem_vars_var.2 rfl))
    rw [renameWith, Renaming.rename_after h, relabel_var, hπ v hv]
  | sym _, _, _, _ => rfl
  | compound f args, seen, h, hπ => by
    rw [addVars] at hπ ⊢
    rw [renameWith, renameList_after args h hπ, relabel_compound]

theorem renameList_after : (ts : List Term) → {seen : List String} → seen.Nodup →
    (∀ v ∈ addVarsList ts seen, π v = newName names (addVarsList ts seen) v) →
      renameList ts (after names seen) = (ts.map (relabel π), after names (addVarsList ts seen))
  | [], _, _, _ => rfl
  | t :: ts, seen, h, hπ => by
    rw [addVarsList] at hπ ⊢
    -- The variables of the terms that follow come after those of the first one, whose names stay.
    have hfront := prefix_addVarsList ts (t.addVars seen)
    have ht (v : String) (hv : v ∈ t.addVars seen) : π v = newName names (t.addVars seen) v := by
      rw [hπ v (hfront.mem hv), Renaming.newName_of_prefix hfront hv]
    simp only [renameList, renameWith_after t h ht, renameList_after ts (nodup_addVars t h) hπ, List.map_cons]
end

/-- A term that is renamed apart takes as many names as it has variables. Its variables are then just these names, in the
order in which the variables first occur, and it is the term after a permutation of all names: the symbols are the same,
and so are the places where a variable comes again, whatever the variables of the term were called. With a counter of 64
bits this is so if `names.issued + t.vars.length < UInt64.size`. -/
theorem standardize_fresh (t : Term) (names : NameSupply) :
    (t.standardize names).2.issued = names.issued + t.vars.length ∧
    (t.standardize names).1.vars = (List.range' (names.issued + 1) t.vars.length).map (fun n => s!"V{n}") ∧
    (t.standardize names).1.symbols = t.symbols ∧
    ∃ π : Equiv.Perm String, (t.standardize names).1 = t.relabel π := by
  obtain ⟨π, -, hπ⟩ : ∃ π, Spares (fun _ => False) π ∧ ∀ v ∈ t.vars, π v = newName names t.vars v :=
    exists_permutation (fun v hv w _ => Renaming.newName_inj hv) fun v _ => by simp
  have hrename : t.renameWith { names } = (t.relabel π, after names t.vars) := renameWith_after t List.nodup_nil hπ
  have hterm : (t.standardize names).1 = t.relabel π := by rw [standardize, hrename]
  refine ⟨by rw [standardize, hrename]; rfl, ?_, by rw [hterm, symbols_relabel], π, hterm⟩
  rw [hterm, vars_relabel, List.map_congr_left hπ, Renaming.map_newName t.nodup_vars]

/-- Variables that are spelled like fresh ones are not taken for them. -/
example : (compound "p" [var "V2", var "V1", var "V2"]).standardize {} =
    (compound "p" [var "V1", var "V2", var "V1"], ⟨2⟩) := by decide

end Term

end Deduction
