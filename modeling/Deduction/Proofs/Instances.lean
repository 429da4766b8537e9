import Deduction.Proofs.Variables

/-!
# Instances of terms

An instance of a term has values for its variables. Its variables are those of the values.
-/

namespace Deduction.Term

mutual
/-- The term with values for its variables. -/
def instantiate (σ : String → Term) : Term → Term
  | var v => σ v
  | sym a => sym a
  | compound f args => compound f (instantiateList σ args)

def instantiateList (σ : String → Term) : List Term → List Term
  | [] => []
  | t :: ts => instantiate σ t :: instantiateList σ ts
end

variable {v : String} {σ : String → Term}

theorem instantiate_compound (σ : String → Term) (f : String) (args : List Term) :
    (compound f args).instantiate σ = compound f (instantiateList σ args) := by rw [instantiate]

theorem instantiateList_eq_map (σ : String → Term) (ts : List Term) : instantiateList σ ts = ts.map (instantiate σ) := by
  induction ts with
  | nil => rfl
  | cons t ts ih => rw [instantiateList, ih, List.map_cons]

theorem instantiate_compound_eq (σ : String → Term) (f : String) (args : List Term) :
    (compound f args).instantiate σ = compound f (args.map (instantiate σ)) := by
  rw [instantiate_compound, instantiateList_eq_map]

mutual
theorem mem_vars_instantiate : (t : Term) → (v ∈ (t.instantiate σ).vars ↔ ∃ w ∈ t.vars, v ∈ (σ w).vars)
  | var w => by
    rw [instantiate]
    simp
  | sym a => by
    constructor
    · intro h
      cases h
    · rintro ⟨w, hw, -⟩
      cases hw
  | compound f args => by
    rw [instantiate_compound_eq, mem_vars_compound]
    constructor
    · rintro ⟨u, hu, hv⟩
      obtain ⟨t, ht, rfl⟩ := List.mem_map.1 hu
      obtain ⟨w, hw, hvw⟩ := (mem_vars_instantiate_of_mem args t ht).1 hv
      exact ⟨w, mem_vars_compound.2 ⟨t, ht, hw⟩, hvw⟩
    · rintro ⟨w, hw, hvw⟩
      obtain ⟨t, ht, hwt⟩ := mem_vars_compound.1 hw
      exact ⟨_, List.mem_map_of_mem ht, (mem_vars_instantiate_of_mem args t ht).2 ⟨w, hwt, hvw⟩⟩

theorem mem_vars_instantiate_of_mem :
    (ts : List Term) → ∀ t ∈ ts, (v ∈ (t.instantiate σ).vars ↔ ∃ w ∈ t.vars, v ∈ (σ w).vars)
  | [] => by simp
  | t :: ts => List.forall_mem_cons.2 ⟨mem_vars_instantiate t, mem_vars_instantiate_of_mem ts⟩
end

/-! ### Instances of ground terms -/

mutual
theorem instantiate_of_isGround (σ : String → Term) : (t : Term) → t.isGround = true → t.instantiate σ = t
  | var _, h => by cases h
  | sym _, _ => rfl
  | compound f args, h => by rw [instantiate, instantiateList_of_allGround σ args h]

theorem instantiateList_of_allGround (σ : String → Term) :
    (ts : List Term) → allGround ts = true → instantiateList σ ts = ts
  | [], _ => rfl
  | t :: ts, h => by
    rw [allGround, Bool.and_eq_true] at h
    rw [instantiateList, instantiate_of_isGround σ t h.1, instantiateList_of_allGround σ ts h.2]
end

end Deduction.Term
