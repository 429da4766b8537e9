import Deduction.Proofs.Store.Readings

/-!
# Valuations

A valuation gives a term to every variable of every environment: it is a reading of closures as terms. It respects a
store if each bound variable has the value of the closure that it is bound to. When unification succeeds, the valuations
that respect the store and make the two terms equal are those that respect the new store, and when it fails without
coming to the end of the allowance, there are none (`unifyWithin_valuations`). This needs neither an occurs check nor that
the store is free of cycles.
-/

namespace Deduction

/-- Terms are values. -/
instance : Values Term where
  of t := t
  compound := .compound
  of_compound f args := by rw [List.map_id']
  of_injective _ _ h := h
  compound_inj h := by
    cases h
    exact ⟨rfl, rfl⟩
  eq_of_compound h := ⟨_, h.symm⟩

theorem Values.isWellFounded_term : Values.IsWellFounded Term := by
  refine ⟨sizeOf, fun f xs x hx => ?_⟩
  have hlt := List.sizeOf_lt_of_mem hx
  change sizeOf x < sizeOf (Term.compound f xs)
  rw [Term.compound.sizeOf_spec]
  omega

/-- Terms for the variables of all environments. -/
abbrev Valuation := String → EnvId → Term

namespace Valuation

mutual
/-- The value of a term whose variables are read in an environment. -/
def read (θ : Valuation) (env : EnvId) : Term → Term
  | .var v => θ v env
  | .sym a => .sym a
  | .compound f args => .compound f (readList θ env args)

def readList (θ : Valuation) (env : EnvId) : List Term → List Term
  | [] => []
  | t :: ts => read θ env t :: readList θ env ts
end

theorem readList_eq (θ : Valuation) (env : EnvId) (ts : List Term) : θ.readList env ts = ts.map (θ.read env) := by
  induction ts with
  | nil => rfl
  | cons t ts ih => rw [readList, ih, List.map_cons]

@[simp] theorem read_compound (θ : Valuation) (env : EnvId) (f : String) (args : List Term) :
    θ.read env (.compound f args) = .compound f (args.map (θ.read env)) := by
  rw [read, readList_eq]

/-- Every bound variable has the value of its closure. -/
def Respects (θ : Valuation) (s : Store) : Prop :=
  ∀ v env c, s.lookup v env = some c → θ v env = θ.read c.env c.term

variable {θ : Valuation} {s s' : Store} {v : String} {env : EnvId} {c d : Closure}

mutual
/-- A valuation reads terms as readings do. -/
theorem read_eq (θ : Valuation) (env : EnvId) : (t : Term) → θ.read env t = Reading.read θ env t
  | .var _ => rfl
  | .sym _ => rfl
  | .compound f args => by
    rw [read, Reading.read, readList_eq_reading θ env args]
    rfl

theorem readList_eq_reading (θ : Valuation) (env : EnvId) : (ts : List Term) → θ.readList env ts = Reading.readList θ env ts
  | [] => rfl
  | t :: ts => by rw [readList, Reading.readList, read_eq θ env t, readList_eq_reading θ env ts]
end

/-- Only the variables of the environment matter. -/
theorem read_congr {θ η : Valuation} {env : EnvId} (h : ∀ v, θ v env = η v env) (t : Term) :
    θ.read env t = η.read env t := by
  rw [read_eq, read_eq]
  exact Reading.read_congr t fun v _ => h v

theorem respects_iff_solves : θ.Respects s ↔ Reading.Solves θ s := by
  unfold Respects Reading.Solves
  simp only [read_eq]

theorem Respects.of_extends (h : θ.Respects s') (hext : s.Extends s') : θ.Respects s :=
  fun v env c hc => h v env c (hext.lookup hc)

theorem Respects.leads (h : θ.Respects s) (hlead : s.Leads c d) : θ.read c.env c.term = θ.read d.env d.term := by
  rw [read_eq, read_eq]
  exact (respects_iff_solves.1 h).leads hlead

theorem respects_bind (hv : s.lookup v env = none) (henv : env < s.envs.size) :
    θ.Respects (s.bind v env c) ↔ θ.Respects s ∧ θ v env = θ.read c.env c.term := by
  rw [respects_iff_solves, respects_iff_solves, read_eq]
  exact Reading.solves_bind hv henv

theorem respects_newEnv : θ.Respects s.newEnv.2 ↔ θ.Respects s := by
  unfold Respects
  simp only [Store.lookup_newEnv]

end Valuation

/-! ### What unification finds -/

namespace Store

variable {s s' : Store} {ex ey : EnvId} {x y : Term} {n : Nat}

/-- The outcome says for which valuations that respect the store the two values are equal. -/
def Decides (θ : Valuation) (a b : Term) : Option Store → Prop
  | some s' => a = b ↔ θ.Respects s'
  | none => a ≠ b

/-- Unification within the allowance finds the valuations that make both terms equal. -/
theorem unifyWithin_valuations {θ : Valuation} (hs : s.WellFormed) (hθ : θ.Respects s) (hx : ex < s.envs.size)
    (hy : ey < s.envs.size) {r : Option Store} (hr : unifyWithin n x ex y ey s = some r) :
    Decides θ (θ.read ex x) (θ.read ey y) r := by
  have hfinds := unifyWithin_finds hs (Valuation.respects_iff_solves.1 hθ) (fun _ => Values.isWellFounded_term) hx hy hr
  rw [Valuation.read_eq, Valuation.read_eq]
  cases r with
  | some s' => exact hfinds.trans Valuation.respects_iff_solves.symm
  | none => exact hfinds

/-- When two terms were made equal, the valuations that respect the new store are those that respected the old one and
make the terms equal. -/
theorem WellFormed.respects_unify {θ : Valuation} (hs : s.WellFormed) (hx : ex < s.envs.size) (hy : ey < s.envs.size)
    (h : s.unify x ex y ey = (true, s')) : θ.Respects s' ↔ θ.Respects s ∧ θ.read ex x = θ.read ey y := by
  have hdecides (hθ : θ.Respects s) : θ.read ex x = θ.read ey y ↔ θ.Respects s' :=
    unifyWithin_valuations hs hθ hx hy (unifyWithin_of_unify h)
  constructor
  · intro hθ'
    have hθ := hθ'.of_extends (unify_extends h)
    exact ⟨hθ, (hdecides hθ).2 hθ'⟩
  · rintro ⟨hθ, heq⟩
    exact (hdecides hθ).1 heq

end Store

end Deduction
