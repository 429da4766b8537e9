import Deduction.Proofs.Store.Resolvable

/-!
# Flat stores

A store is flat if its variables are bound to variables and symbols only. Bindings do not go round in a flat store even
without the occurs check, so that every choice of values for the unbound variables extends to all variables
(`Flat.exists_valuation`). Unifying atoms keeps a store flat (`Flat.unify`).

One environment, the target, has variables from a given set only, so that all other variables can be invented for it.
-/

namespace Deduction.Store

variable {U : Term → Prop} {Q Q' : String → Prop} {target : EnvId} {s s' : Store} {v w : String} {env ex ey : EnvId}
  {c : Closure} {t x y : Term}

/-! ### Arguments -/

/-- A symbol of the universe, or a variable; in the target environment, one from the set. -/
def IsArgument (U : Term → Prop) (Q : String → Prop) (target : EnvId) : Term → EnvId → Prop
  | .var v, env => env = target → Q v
  | .sym a, _ => U (.sym a)
  | .compound _ _, _ => False

theorem IsArgument.mono (h : IsArgument U Q target t env) (hQ : ∀ v, Q v → Q' v) : IsArgument U Q' target t env := by
  cases t with
  | var v => exact fun henv => hQ v (h henv)
  | sym a => exact h
  | compound f args => exact h

/-- A symbol or a compound of arguments. -/
structure IsFlatGoal (U : Term → Prop) (Q : String → Prop) (target : EnvId) (t : Term) (env : EnvId) : Prop where
  not_var : t.isVariable = false
  arg : ∀ a ∈ t.args, IsArgument U Q target a env

/-- The value of a goal depends on the values of its arguments alone. -/
theorem IsFlatGoal.read_eq {θ η : Valuation} (ht : IsFlatGoal U Q target t env)
    (h : ∀ v env, (env = target → Q v) → η v env = θ v env) : η.read env t = θ.read env t := by
  cases t with
  | var v => cases ht.not_var
  | sym a => rfl
  | compound f args =>
    rw [Valuation.read_compound, Valuation.read_compound]
    congr 1
    apply List.map_congr_left
    intro a ha
    have harg := ht.arg a ha
    cases a with
    | var v => exact h v env harg
    | sym b => rfl
    | compound g ts => cases harg

/-- Well-formed stores without cycles in which all values are arguments. -/
structure Flat (U : Term → Prop) (Q : String → Prop) (target : EnvId) (s : Store) : Prop where
  wellFormed : s.WellFormed
  resolvable : s.Resolvable
  value : ∀ {v env c}, s.lookup v env = some c → IsArgument U Q target c.term c.env
  bound : ∀ {v c}, s.lookup v target = some c → Q v

namespace Flat

theorem mono (hs : s.Flat U Q target) (hQ : ∀ v, Q v → Q' v) : s.Flat U Q' target where
  wellFormed := hs.wellFormed
  resolvable := hs.resolvable
  value h := (hs.value h).mono hQ
  bound h := hQ _ (hs.bound h)

theorem of_empty (U : Term → Prop) (Q : String → Prop) (target : EnvId) (occursCheck : Bool) :
    Flat U Q target { occursCheck } where
  wellFormed := wellFormed_empty occursCheck
  resolvable := Reachable.empty.resolvable.of_below fun _ _ _ h => by simp [lookup] at h
  value h := by simp [lookup] at h
  bound h := by simp [lookup] at h

theorem newEnv (hs : s.Flat U Q target) : s.newEnv.2.Flat U Q target where
  wellFormed := hs.wellFormed.newEnv
  resolvable := hs.resolvable.of_below fun _ _ _ h => lookup_newEnv s ▸ h
  value h := hs.value (lookup_newEnv s ▸ h)
  bound h := hs.bound (lookup_newEnv s ▸ h)

/-- A term that does not lead to a variable keeps its form when the variable is bound. -/
theorem hasForm_bind (hs : s.Flat U Q target) {u : Term} {eu : EnvId} {T : Form} (hu : IsArgument U Q target u eu)
    (hlead : ¬ s.Leads ⟨u, eu⟩ ⟨.var v, env⟩) (hform : s.HasForm u eu T) : (s.bind v env c).HasForm u eu T := by
  have hkept {w : String} {e : EnvId} (hlead : ¬ s.Leads ⟨.var w, e⟩ ⟨.var v, env⟩) :
      (s.bind v env c).lookup w e = s.lookup w e := by
    have hne : ¬ (w = v ∧ e = env) := by
      rintro ⟨rfl, rfl⟩
      exact hlead ⟨0, .refl _⟩
    by_cases henv : env < s.envs.size
    · rw [lookup_bind henv, if_neg hne]
    · rw [bind_of_not_lt henv]
  induction hform using HasForm.induction with
  | bound hw _ ih =>
    refine (HasForm.of_bound ((hkept hlead).trans hw)).2 (ih (hs.value hw) ?_)
    rintro ⟨m, hm⟩
    exact hlead ⟨m + 1, .step hw hm⟩
  | free hw => exact (HasForm.of_unbound ((hkept hlead).trans hw)).2 rfl
  | sym a e => exact HasForm.of_sym.2 rfl
  | compound f _ _ => cases hu

theorem bind (hs : s.Flat U Q target) (hv : s.lookup v env = none) (hQ : env = target → Q v)
    (hc : IsArgument U Q target c.term c.env) (hcenv : c.env < s.envs.size)
    (hlead : s.leadsTo c.term c.env v env = false) : (s.bind v env c).Flat U Q target := by
  by_cases henv : env < s.envs.size
  · constructor
    · exact hs.wellFormed.bind hcenv
    · refine hs.resolvable.bind hv fun _ => ?_
      obtain ⟨T, hT⟩ := hs.resolvable c.term c.env
      refine ⟨T, hs.hasForm_bind hc (fun h => ?_) hT⟩
      rw [(leadsTo_iff hs.wellFormed hv _ _).2 h] at hlead
      cases hlead
    · intro w env' d hd
      rw [lookup_bind henv] at hd
      split at hd
      · cases hd
        exact hc
      · exact hs.value hd
    · intro w d hd
      rw [lookup_bind henv] at hd
      split at hd
      · rename_i hw
        exact hw.1 ▸ hQ hw.2.symm
      · exact hs.bound hd
  · rwa [bind_of_not_lt henv]

theorem keeps (U : Term → Prop) (Q : String → Prop) (target : EnvId) (k : Nat) :
    Keeps (fun t env => IsArgument U Q target t env ∧ env < k) fun s => s.Flat U Q target ∧ s.envs.size = k where
  arg h _ := h.1.elim
  value h _ hv := ⟨h.1.value hv, h.2 ▸ h.1.wellFormed.closed hv⟩
  bind h hv hc hnone hlead _ :=
    ⟨h.1.bind hnone hv.1 hc.1 (h.2.symm ▸ hc.2) hlead, by rw [size_envs_bind, h.2]⟩

/-- Making atoms equal keeps a store flat. -/
theorem unify (hs : s.Flat U Q target) (hx : IsFlatGoal U Q target x ex) (hy : IsFlatGoal U Q target y ey)
    (hex : ex < s.envs.size) (hey : ey < s.envs.size) (h : s.unify x ex y ey = (true, s')) : s'.Flat U Q target := by
  rw [unify_eq_true_iff] at h
  cases x with
  | var v => cases hx.not_var
  | sym a =>
    cases y with
    | var w => cases hy.not_var
    | sym b => exact (Prod.mk.inj h).2 ▸ hs
    | compound g ys => cases h
  | compound f xs =>
    cases y with
    | var w => cases hy.not_var
    | sym b => cases h
    | compound g ys =>
      unfold allowance unifyAt at h
      split at h
      · have hkept := allPairs_keeps (P := fun t => t.Flat U Q target ∧ t.envs.size = s.envs.size) xs ys
          (fun x hxs y hys t ht =>
            unifyAt_keeps (keeps U Q target s.envs.size) depthLimit ht ⟨hx.arg x hxs, hex⟩ ⟨hy.arg y hys, hey⟩)
          ⟨hs, rfl⟩
        rw [h] at hkept
        exact hkept.1
      · cases h

/-! ### Valuations -/

/-- The form of an argument has a value of the universe, if the unbound variables have. -/
theorem eval_mem (hs : s.Flat U Q target) {η : Valuation} (hη : ∀ v env, U (η v env)) {T : Form}
    (ht : IsArgument U Q target t env) (h : s.HasForm t env T) : U (T.eval η) := by
  induction h using HasForm.induction with
  | bound hw _ ih => exact ih (hs.value hw)
  | @free w env _ => exact hη w env
  | sym a env => exact ht
  | compound f _ _ => cases ht

/-- Values for the unbound variables extend to all variables. -/
theorem exists_valuation (hs : s.Flat U Q target) {η : Valuation} (hη : ∀ v env, U (η v env)) :
    ∃ θ : Valuation, θ.Respects s ∧ (∀ v env, U (θ v env)) ∧ ∀ v env, s.lookup v env = none → θ v env = η v env := by
  obtain ⟨θ, hθ, hform⟩ := hs.resolvable.exists_respects η
  refine ⟨θ, hθ, fun v env => ?_, fun v env hv => hform v env _ ((HasForm.of_unbound hv).2 rfl)⟩
  obtain ⟨T, hT⟩ := hs.resolvable (.var v) env
  rw [hform v env T hT]
  cases hv : s.lookup v env with
  | none =>
    rw [(HasForm.of_unbound hv).1 hT]
    exact hη v env
  | some d => exact hs.eval_mem hη (hs.value hv) ((HasForm.of_bound hv).1 hT)

end Flat

end Deduction.Store
