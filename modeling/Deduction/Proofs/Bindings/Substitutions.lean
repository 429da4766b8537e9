import Mathlib.Logic.Relation
import Mathlib.Order.RelClasses
import Deduction.Bindings.Unify
import Deduction.Proofs.Instances
import Deduction.Proofs.Pointwise

/-!
# Bindings as substitutions

The values of bindings are kept as they came: a value may hold variables that are bound themselves. If the bindings do
not go round, every term comes to an end under them, and giving each variable its plugged value is a solution of the
bindings (`IsTriangular.exists_solution`). No solution tells a term from what plugging makes of it
(`SolvedBy.instantiate_plugAt`).
-/

namespace Deduction.Bindings

open Relation (ReflTransGen TransGen)

variable {σ : String → Term} {b : Bindings} {v w : String} {t u : Term} {ts us : List Term} {n m : Nat}

/-! ### Solutions -/

/-- Every bound variable has the value of the term that it is bound to. -/
def SolvedBy (b : Bindings) (σ : String → Term) : Prop := ∀ v t, b.get? v = some t → σ v = t.instantiate σ

theorem get?_bind (b : Bindings) (v : String) (t : Term) (w : String) :
    (b.bind v t).get? w = if w = v then some t else b.get? w := by
  unfold get? bind
  rw [List.lookup_cons]
  by_cases hw : w = v
  · simp [hw]
  · rw [if_neg hw, beq_eq_false_iff_ne.2 hw]

theorem solvedBy_nil (σ : String → Term) : SolvedBy [] σ := fun v t h => by cases h

theorem solvedBy_bind (hv : b.get? v = none) :
    (b.bind v t).SolvedBy σ ↔ b.SolvedBy σ ∧ σ v = t.instantiate σ := by
  constructor
  · intro h
    refine ⟨fun w u hw => h w u ?_, h v t ?_⟩
    · rw [get?_bind, if_neg, hw]
      rintro rfl
      rw [hv] at hw
      cases hw
    · rw [get?_bind, if_pos rfl]
  · rintro ⟨h, hvt⟩ w u hw
    rw [get?_bind] at hw
    split at hw
    · rename_i hwv
      cases hw
      rw [hwv, hvt]
    · exact h w u hw

/-- A solution does not tell a term from what plugging makes of it. -/
theorem SolvedBy.instantiate_plugAt (h : b.SolvedBy σ) (n : Nat) (t : Term) :
    (b.plugAt n t).instantiate σ = t.instantiate σ := by
  induction n generalizing t with
  | zero => rfl
  | succ n ih =>
    cases t with
    | var v =>
      unfold plugAt
      split
      · rename_i value hvalue
        rw [ih, ← h v value hvalue]
        rfl
      · rfl
    | sym a => rfl
    | compound f args =>
      rw [plugAt, Term.instantiate_compound_eq, Term.instantiate_compound_eq, List.map_map]
      exact congrArg _ (List.map_congr_left fun a _ => ih a)

theorem SolvedBy.instantiate_plug (h : b.SolvedBy σ) (t : Term) : (b.plug t).instantiate σ = t.instantiate σ :=
  h.instantiate_plugAt allowance t

/-! ### Bindings that do not go round -/

/-- A bound variable leads to the variables of its value. -/
def Leads (b : Bindings) (v w : String) : Prop := ∃ t, b.get? v = some t ∧ w ∈ t.vars

/-- Going from variable to variable comes to an end. -/
def IsTriangular (b : Bindings) : Prop := WellFounded fun w v => b.Leads v w

theorem isTriangular_nil : IsTriangular [] := ⟨fun v => ⟨v, fun w ⟨t, ht, _⟩ => by cases ht⟩⟩

theorem IsTriangular.acyclic (h : b.IsTriangular) (v : String) : ¬ TransGen b.Leads v v := by
  intro hv
  have hswap : TransGen (Function.swap b.Leads) v v := Relation.transGen_swap.2 hv
  exact h.transGen.asymmetric v v hswap hswap

/-- A variable may be bound to a term whose variables do not lead to it. -/
theorem IsTriangular.bind (h : b.IsTriangular) (ht : ∀ w ∈ t.vars, ¬ ReflTransGen b.Leads w v) :
    (b.bind v t).IsTriangular := by
  have hcases {x y : String} (hxy : (b.bind v t).Leads x y) : x = v ∧ y ∈ t.vars ∨ x ≠ v ∧ b.Leads x y := by
    obtain ⟨u, hu, hy⟩ := hxy
    rw [get?_bind] at hu
    by_cases hx : x = v
    · rw [if_pos hx, Option.some.injEq] at hu
      exact Or.inl ⟨hx, hu ▸ hy⟩
    · rw [if_neg hx] at hu
      exact Or.inr ⟨hx, u, hu, hy⟩
  -- From a variable that does not lead to `v` the new binding is not gone along.
  have hapart (w : String) : ¬ ReflTransGen b.Leads w v → Acc (fun y x => (b.bind v t).Leads x y) w := by
    induction w using h.induction with
    | _ w ih =>
      intro hw
      refine ⟨w, fun y hy => ?_⟩
      rcases hcases hy with ⟨rfl, -⟩ | ⟨-, hwy⟩
      · exact absurd .refl hw
      · exact ih y hwy fun hyv => hw (.head hwy hyv)
  have hself : Acc (fun y x => (b.bind v t).Leads x y) v := by
    refine ⟨v, fun y hy => ?_⟩
    rcases hcases hy with ⟨-, hyt⟩ | ⟨hne, -⟩
    · exact hapart y (ht y hyt)
    · exact absurd rfl hne
  refine ⟨fun w => ?_⟩
  induction w using h.induction with
  | _ w ih =>
    by_cases hw : w = v
    · exact hw ▸ hself
    · refine ⟨w, fun y hy => ?_⟩
      rcases hcases hy with ⟨hwv, -⟩ | ⟨-, hwy⟩
      · exact absurd hwv hw
      · exact ih y hwy

/-- A variable that the occurs check does not find is not led to. -/
theorem not_reaches_of_not_occursAt (h : b.occursAt v n t = false) : ∀ w ∈ t.vars, ¬ ReflTransGen b.Leads w v := by
  induction n generalizing t with
  | zero => cases h
  | succ n ih =>
    intro w hw
    cases t with
    | var u =>
      rw [Term.mem_vars_var] at hw
      subst hw
      unfold occursAt at h
      rw [Bool.or_eq_false_iff] at h
      intro hreach
      rcases hreach.cases_head with heq | ⟨y, ⟨value, hvalue, hy⟩, hyv⟩
      · simp [heq] at h
      · simp only [hvalue] at h
        exact ih h.2 y hy hyv
    | sym a => cases hw
    | compound f args =>
      unfold occursAt at h
      rw [List.any_eq_false] at h
      obtain ⟨a, ha, hwa⟩ := Term.mem_vars_compound.1 hw
      exact ih (by simpa using h a ha) w hwa

/-! ### Plugging to the end -/

/-- The term with bindings applied, if that does not come to the end of the allowance. -/
def plugWithin (b : Bindings) : Nat → Term → Option Term
  | 0, _ => none
  | n + 1, .var v =>
    match b.get? v with
    | some value => b.plugWithin n value
    | none => some (.var v)
  | _ + 1, .sym a => some (.sym a)
  | n + 1, .compound f args => (args.mapM (b.plugWithin n)).map (.compound f)

theorem plugWithin_compound {f : String} :
    b.plugWithin (n + 1) (.compound f ts) = some u ↔
      ∃ us, List.Forall₂ (fun t u => b.plugWithin n t = some u) ts us ∧ .compound f us = u := by
  rw [plugWithin, Option.map_eq_some_iff]
  simp only [mapM_eq_some_iff]

theorem plugWithin_succ (h : b.plugWithin n t = some u) : b.plugWithin (n + 1) t = some u := by
  induction n generalizing t u with
  | zero => cases h
  | succ n ih =>
    cases t with
    | var v =>
      cases hv : b.get? v with
      | some value =>
        simp only [plugWithin, hv] at h ⊢
        exact ih h
      | none =>
        simp only [plugWithin, hv] at h ⊢
        exact h
    | sym a => exact h
    | compound f args =>
      obtain ⟨us, hus, rfl⟩ := plugWithin_compound.1 h
      exact plugWithin_compound.2 ⟨us, hus.imp fun _ _ => ih, rfl⟩

theorem plugWithin_mono (h : b.plugWithin n t = some u) (hnm : n ≤ m) : b.plugWithin m t = some u := by
  induction hnm with
  | refl => exact h
  | step _ ih => exact plugWithin_succ ih

theorem plugWithin_unique {u' : Term} (h : b.plugWithin n t = some u) (h' : b.plugWithin m t = some u') : u = u' := by
  have hmax := plugWithin_mono h (Nat.le_max_left n m)
  rw [plugWithin_mono h' (Nat.le_max_right n m)] at hmax
  exact (Option.some.inj hmax).symm

theorem plugAt_of_within (h : b.plugWithin n t = some u) : b.plugAt n t = u := by
  induction n generalizing t u with
  | zero => cases h
  | succ n ih =>
    cases t with
    | var v =>
      cases hv : b.get? v with
      | some value =>
        simp only [plugWithin, plugAt, hv] at h ⊢
        exact ih h
      | none =>
        simp only [plugWithin, plugAt, hv] at h ⊢
        exact Option.some.inj h
    | sym a => exact Option.some.inj h
    | compound f args =>
      obtain ⟨us, hus, rfl⟩ := plugWithin_compound.1 h
      have hmap : args.map (b.plugAt n) = us := by
        rw [← List.forall₂_eq_eq_eq, List.forall₂_map_left_iff]
        exact hus.imp fun _ _ => ih
      rw [plugAt, hmap]

/-- What is left after plugging to the end is not bound. -/
theorem unbound_of_plugWithin (h : b.plugWithin n t = some u) : ∀ w ∈ u.vars, b.get? w = none := by
  induction n generalizing t u with
  | zero => cases h
  | succ n ih =>
    cases t with
    | var v =>
      cases hv : b.get? v with
      | some value =>
        simp only [plugWithin, hv] at h
        exact ih h
      | none =>
        simp only [plugWithin, hv, Option.some.injEq] at h
        intro w hw
        rw [← h, Term.mem_vars_var] at hw
        rw [hw, hv]
    | sym a =>
      cases h
      intro w hw
      cases hw
    | compound f args =>
      obtain ⟨us, hus, rfl⟩ := plugWithin_compound.1 h
      intro w hw
      obtain ⟨u, hu, hwu⟩ := Term.mem_vars_compound.1 hw
      obtain ⟨a, -, ha⟩ := exists_left_of_forall₂ hus hu
      exact ih ha w hwu

/-- Where no variable is bound, plugging changes nothing. -/
theorem plugAt_of_unbound (h : ∀ w ∈ t.vars, b.get? w = none) : b.plugAt n t = t := by
  induction n generalizing t with
  | zero => rfl
  | succ n ih =>
    cases t with
    | var v =>
      unfold plugAt
      rw [h v (Term.mem_vars_var.2 rfl)]
    | sym a => rfl
    | compound f args =>
      rw [plugAt]
      congr 1
      conv_rhs => rw [← List.map_id' args]
      apply List.map_congr_left
      intro a ha
      exact ih fun w hw => h w (Term.mem_vars_compound.2 ⟨a, ha, hw⟩)

/-! ### The solution by plugging -/

mutual
/-- A term comes to an end if its variables do. -/
theorem exists_plugWithin : (t : Term) → (∀ v ∈ t.vars, ∃ n u, b.plugWithin n (.var v) = some u) →
    ∃ n u, b.plugWithin n t = some u
  | .var v, h => h v (Term.mem_vars_var.2 rfl)
  | .sym a, _ => ⟨1, .sym a, rfl⟩
  | .compound f args, h => by
    obtain ⟨n, us, hus⟩ := exists_forall₂_plugWithin args fun t ht v hv => h v (Term.mem_vars_compound.2 ⟨t, ht, hv⟩)
    exact ⟨n + 1, _, plugWithin_compound.2 ⟨us, hus, rfl⟩⟩

theorem exists_forall₂_plugWithin : (ts : List Term) →
    (∀ t ∈ ts, ∀ v ∈ t.vars, ∃ n u, b.plugWithin n (.var v) = some u) →
    ∃ n us, List.Forall₂ (fun t u => b.plugWithin n t = some u) ts us
  | [], _ => ⟨0, [], .nil⟩
  | t :: ts, h => by
    rw [List.forall_mem_cons] at h
    obtain ⟨n, u, hu⟩ := exists_plugWithin t h.1
    obtain ⟨m, us, hus⟩ := exists_forall₂_plugWithin ts h.2
    refine ⟨max n m, u :: us, .cons (plugWithin_mono hu (Nat.le_max_left n m)) ?_⟩
    exact hus.imp fun _ _ hu => plugWithin_mono hu (Nat.le_max_right n m)
end

/-- Where bindings do not go round, every term comes to an end. -/
theorem IsTriangular.exists_plugWithin (h : b.IsTriangular) (t : Term) : ∃ n u, b.plugWithin n t = some u := by
  suffices hvar : ∀ v, ∃ n u, b.plugWithin n (.var v) = some u from Bindings.exists_plugWithin t fun v _ => hvar v
  intro v
  induction v using h.induction with
  | _ v ih =>
    cases hv : b.get? v with
    | none => exact ⟨1, .var v, by simp only [plugWithin, hv]⟩
    | some value =>
      obtain ⟨n, u, hu⟩ := Bindings.exists_plugWithin value fun w hw => ih w ⟨value, hv, hw⟩
      exact ⟨n + 1, u, by simpa only [plugWithin, hv] using hu⟩

mutual
/-- A term is plugged to its instance by the plugged variables. -/
theorem eq_instantiate_of_plugWithin (hσ : ∀ {n v u}, b.plugWithin n (.var v) = some u → u = σ v) {n : Nat} :
    (t : Term) → {u : Term} → b.plugWithin n t = some u → u = t.instantiate σ
  | .var v, u, h => hσ h
  | .sym a, u, h => by
    cases n with
    | zero => cases h
    | succ n => exact (Option.some.inj h).symm
  | .compound f args, u, h => by
    cases n with
    | zero => cases h
    | succ n =>
      obtain ⟨us, hus, rfl⟩ := plugWithin_compound.1 h
      rw [Term.instantiate_compound, eq_instantiateList_of_plugWithin hσ args hus]

theorem eq_instantiateList_of_plugWithin (hσ : ∀ {n v u}, b.plugWithin n (.var v) = some u → u = σ v) {n : Nat} :
    (ts : List Term) → {us : List Term} → List.Forall₂ (fun t u => b.plugWithin n t = some u) ts us →
      us = Term.instantiateList σ ts
  | [], _, .nil => rfl
  | t :: ts, _, .cons hu hus => by
    rw [Term.instantiateList, eq_instantiate_of_plugWithin hσ t hu, eq_instantiateList_of_plugWithin hσ ts hus]
end

/-- Bindings that do not go round are solved by giving every variable its plugged value. -/
theorem IsTriangular.exists_solution (h : b.IsTriangular) :
    ∃ σ, b.SolvedBy σ ∧ ∀ n t u, b.plugWithin n t = some u → u = t.instantiate σ := by
  -- What a variable comes to does not depend on the levels that were chosen for it.
  choose levels value hvalue using h.exists_plugWithin
  have hvar {n : Nat} {v : String} {u : Term} (hu : b.plugWithin n (.var v) = some u) : u = value (.var v) :=
    plugWithin_unique hu (hvalue (.var v))
  have hterm (n : Nat) (t u : Term) (hu : b.plugWithin n t = some u) : u = t.instantiate fun v => value (.var v) :=
    eq_instantiate_of_plugWithin hvar t hu
  refine ⟨fun v => value (.var v), fun v t hv => ?_, hterm⟩
  have hbound : b.plugWithin (levels t + 1) (.var v) = some (value t) := by
    simp only [plugWithin, hv]
    exact hvalue t
  calc value (.var v) = value t := (hvar hbound).symm
    _ = t.instantiate fun v => value (.var v) := hterm _ _ _ (hvalue t)

end Deduction.Bindings
