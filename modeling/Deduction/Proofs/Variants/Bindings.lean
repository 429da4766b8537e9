import Deduction.Bindings.Unify
import Deduction.Proofs.Variants.Terms

/-!
# Bindings of other variables

Unification with bindings, and plugging with them, commute with a permutation of the variables
(`Bindings.unifier_relabel`, `Bindings.plug_relabel`).
-/

namespace Deduction.Bindings

variable {π : Equiv.Perm String} {b : Bindings} {v : String} {x y t : Term} {n : Nat}

/-- The bindings with other variables. -/
def relabel (π : Equiv.Perm String) (b : Bindings) : Bindings := b.map fun p => (π p.1, p.2.relabel π)

theorem get?_relabel (b : Bindings) (v : String) : (b.relabel π).get? (π v) = (b.get? v).map (Term.relabel π) := by
  induction b with
  | nil => rfl
  | cons p b ih =>
    obtain ⟨w, t⟩ := p
    change List.lookup (π v) ((π w, t.relabel π) :: relabel π b) = (List.lookup v ((w, t) :: b)).map (Term.relabel π)
    rw [List.lookup_cons, List.lookup_cons]
    have hsame : (π v == π w) = (v == w) := by
      rw [Bool.eq_iff_iff, beq_iff_eq, beq_iff_eq]
      exact π.injective.eq_iff
    rw [hsame]
    cases v == w with
    | true => rfl
    | false => exact ih

theorem plugAt_relabel (b : Bindings) (n : Nat) (t : Term) :
    (b.relabel π).plugAt n (t.relabel π) = (b.plugAt n t).relabel π := by
  induction n generalizing t with
  | zero => rfl
  | succ n ih =>
    cases t with
    | var v =>
      rw [Term.relabel_var, plugAt, plugAt, get?_relabel]
      cases b.get? v with
      | none => rfl
      | some value => exact ih value
    | sym a => rfl
    | compound f args =>
      rw [Term.relabel_compound, plugAt, plugAt, Term.relabel_compound, List.map_map, List.map_map]
      exact congrArg _ (List.map_congr_left fun t _ => ih t)

theorem plug_relabel (b : Bindings) (t : Term) : (b.relabel π).plug (t.relabel π) = (b.plug t).relabel π :=
  plugAt_relabel b allowance t

theorem occursAt_relabel (b : Bindings) (v : String) (n : Nat) (t : Term) :
    (b.relabel π).occursAt (π v) n (t.relabel π) = b.occursAt v n t := by
  induction n generalizing t with
  | zero => rfl
  | succ n ih =>
    cases t with
    | var w =>
      have hsame : decide (π w = π v) = decide (w = v) := by simp
      rw [Term.relabel_var, occursAt, occursAt, get?_relabel, hsame]
      cases b.get? w with
      | none => rfl
      | some value => exact congrArg (_ || ·) (ih value)
    | sym a => rfl
    | compound f args =>
      rw [Term.relabel_compound, occursAt, occursAt, List.any_map]
      exact congrArg (args.any ·) (funext ih)

theorem foldPairs_relabel {extend extend' : Term → Term → Bindings → Option Bindings}
    (h : ∀ x y b, extend' (x.relabel π) (y.relabel π) (b.relabel π) = (extend x y b).map (relabel π))
    (xs ys : List Term) (b : Bindings) :
    foldPairs extend' (xs.map (Term.relabel π)) (ys.map (Term.relabel π)) (b.relabel π) =
      (foldPairs extend xs ys b).map (relabel π) := by
  induction xs generalizing ys b with
  | nil => cases ys <;> rfl
  | cons x xs ih =>
    cases ys with
    | nil => rfl
    | cons y ys =>
      rw [List.map_cons, List.map_cons, foldPairs, foldPairs, h]
      cases extend x y b with
      | none => rfl
      | some b' => exact ih ys b'

theorem unifyVar_relabel {unify unify' : Term → Term → Bindings → Option Bindings}
    (h : ∀ x y b, unify' (x.relabel π) (y.relabel π) (b.relabel π) = (unify x y b).map (relabel π))
    (v : String) (t : Term) (b : Bindings) :
    unifyVar unify' (π v) (t.relabel π) (b.relabel π) = (unifyVar unify v t b).map (relabel π) := by
  unfold unifyVar
  rw [get?_relabel]
  cases b.get? v with
  | some value => exact h value t b
  | none =>
    have hoccurs : (b.relabel π).occurs (π v) (t.relabel π) = b.occurs v t := occursAt_relabel b v allowance t
    rw [Option.map_none]
    dsimp only
    rw [hoccurs]
    split <;> rfl

theorem unifyAt_relabel (n : Nat) (x y : Term) (b : Bindings) :
    unifyAt n (x.relabel π) (y.relabel π) (b.relabel π) = (unifyAt n x y b).map (relabel π) := by
  induction n generalizing x y b with
  | zero => rfl
  | succ n ih =>
    unfold unifyAt
    by_cases hxy : x = y
    · rw [if_pos hxy, if_pos (congrArg _ hxy)]
      rfl
    · rw [if_neg hxy, if_neg fun h => hxy (Term.relabel_inj.1 h)]
      cases x with
      | var v => exact unifyVar_relabel ih v y b
      | sym a =>
        cases y with
        | var w => exact unifyVar_relabel ih w (.sym a) b
        | sym c => rfl
        | compound g ys => simp
      | compound f xs =>
        cases y with
        | var w => exact unifyVar_relabel ih w (.compound f xs) b
        | sym c => simp
        | compound g ys =>
          rw [Term.relabel_compound, Term.relabel_compound]
          dsimp only
          split
          · exact foldPairs_relabel ih xs ys b
          · rfl

theorem unifier_relabel (x y : Term) : unifier (x.relabel π) (y.relabel π) = (unifier x y).map (relabel π) :=
  unifyAt_relabel allowance x y []

end Deduction.Bindings
