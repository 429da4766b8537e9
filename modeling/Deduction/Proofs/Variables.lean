import Deduction.Term.Cells

/-!
# Variables of terms

The variables of a compound are those of its arguments (`Term.mem_vars_compound`). Ground terms are those without
variables (`Term.isGround_iff`).
-/

namespace Deduction.Term

variable {v w : String} {f : String} {args ts : List Term}

mutual
theorem mem_addVars : (t : Term) → (seen : List String) → (v ∈ t.addVars seen ↔ v ∈ seen ∨ v ∈ t.vars)
  | var w, seen => by
    have hvars : (var w).vars = [w] := rfl
    rw [hvars, List.mem_singleton, addVars]
    split
    · rename_i hseen
      exact ⟨Or.inl, fun h => h.elim id fun heq => by simpa [heq] using hseen⟩
    · rw [List.mem_append, List.mem_singleton]
  | sym a, seen => by simp [vars, addVars]
  | compound f args, seen => by
    have hvars : (compound f args).vars = addVarsList args [] := rfl
    rw [hvars, addVars, mem_addVarsList args seen, mem_addVarsList args []]
    simp

theorem mem_addVarsList : (ts : List Term) → (seen : List String) →
    (v ∈ addVarsList ts seen ↔ v ∈ seen ∨ ∃ t ∈ ts, v ∈ t.vars)
  | [], seen => by simp [addVarsList]
  | t :: ts, seen => by
    rw [addVarsList, mem_addVarsList ts, mem_addVars t seen, or_assoc]
    simp
end

@[simp] theorem mem_vars_var : v ∈ (var w).vars ↔ v = w := by
  have hvars : (var w).vars = [w] := rfl
  rw [hvars, List.mem_singleton]

theorem mem_vars_compound : v ∈ (compound f args).vars ↔ ∃ t ∈ args, v ∈ t.vars := by
  have hvars : (compound f args).vars = addVarsList args [] := rfl
  rw [hvars, mem_addVarsList]
  simp

/-! ### Ground terms -/

mutual
theorem isGround_iff : (t : Term) → (t.isGround = true ↔ ∀ v, v ∉ t.vars)
  | var v => by simp [isGround]
  | sym a => by simp [isGround, vars, addVars]
  | compound f args => by
    rw [isGround, allGround_iff args]
    simp only [mem_vars_compound, not_exists, not_and]
    exact ⟨fun h v t ht => h t ht v, fun h t ht v => h v t ht⟩

theorem allGround_iff : (ts : List Term) → (allGround ts = true ↔ ∀ t ∈ ts, ∀ v, v ∉ t.vars)
  | [] => by simp [allGround]
  | t :: ts => by rw [allGround, Bool.and_eq_true, isGround_iff t, allGround_iff ts, List.forall_mem_cons]
end

theorem isGround_list (hts : ∀ t ∈ ts, t.isGround = true) : (list ts).isGround = true := by
  induction ts with
  | nil => rfl
  | cons t ts ih =>
    rw [List.forall_mem_cons] at hts
    have hcons : list (t :: ts) = cons t (list ts) := rfl
    rw [hcons, cons, isGround, allGround_eq]
    simp [hts.1, ih hts.2]

end Deduction.Term
