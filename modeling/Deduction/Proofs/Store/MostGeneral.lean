import Deduction.Proofs.Store.OpenVariables

/-!
# Most general unifiers

In a store that came about with the occurs check on and has no cycle of bindings, unification finds a most general
unifier, and it makes the same bindings without the occurs check if there is one (`unify_mostGeneral`). Unification closes
no cycle itself, and neither does plugging with names that are free in the target (`Reachable.resolvable`). But where a
variable of the target has the name that plugging invents next, plugging may close one.
-/

namespace Deduction.Store

variable {s s' : Store} {ex ey : EnvId} {x y : Term} {b : Bool}

/-! ### Stores that come about by unification and plugging -/

/-- The operation makes an environment, unifies or plugs within the environments of the store, or goes back. -/
def Unifies (s : Store) : Operation → Prop
  | .unify _ ex _ ey => ex < s.envs.size ∧ ey < s.envs.size
  | .plug _ env target _ => env < s.envs.size ∧ target < s.envs.size
  | .matchInto .. => False
  | .bind .. => False
  | _ => True

theorem Run.wellFormed_of_unifies (h : Run Unifies { occursCheck := b } s) : s.WellFormed ∧ s.occursCheck = b := by
  induction h with
  | refl => exact ⟨wellFormed_empty b, rfl⟩
  | @step s _ op hop ih =>
    cases op with
    | newEnv => exact ⟨ih.1.newEnv, ih.2⟩
    | unify x ex y ey => exact ⟨ih.1.unify x y hop.1 hop.2, (s.extends_unify x ex y ey).occursCheck.trans ih.2⟩
    | matchInto pattern ep t et => exact hop.elim
    | plug t env target names =>
      exact ⟨ih.1.plug t names hop.1 hop.2, (s.plug_extends t env target names).occursCheck.trans ih.2⟩
    | bind v env c => exact hop.elim
    | rollback cp => exact ⟨ih.1.rollback cp, ih.2⟩

/-! ### Most general unifiers -/

/-- In a store that came about with the occurs check on and has no cycle of bindings, unification that stays within the
allowance finds a most general unifier of two terms under the bindings, if they have one: it makes their fully resolved
forms the same, changes no binding, and binds as all unifiers that respect the bindings do already. Without the occurs
check it then makes the same bindings. -/
theorem unify_mostGeneral (hs : Run Unifies { occursCheck := true } s) (hac : s.Acyclic Closure.Holds)
    (hx : ex < s.envs.size) (hy : ey < s.envs.size) (hwithin : (unifyWithin allowance x ex y ey s).isSome) :
    ((s.unify x ex y ey).1 = true ↔ ∃ θ : Valuation, θ.Respects s ∧ θ.read ex x = θ.read ey y) ∧
      ∀ s', s.unify x ex y ey = (true, s') →
        (∃ T, s'.HasForm x ex T ∧ s'.HasForm y ey T) ∧
        s.Below s' ∧
        (∀ θ : Valuation, θ.Respects s → θ.read ex x = θ.read ey y → θ.Respects s') ∧
        s.withoutCheck.unify x ex y ey = (true, s'.withoutCheck) := by
  obtain ⟨hwf, hcheck⟩ := hs.wellFormed_of_unifies
  have hresolvable := hwf.isTrailed.resolvable hac
  obtain ⟨r, hr⟩ := Option.isSome_iff_exists.1 hwithin
  have hdecides (θ : Valuation) (hθ : θ.Respects s) : Decides θ (θ.read ex x) (θ.read ey y) r :=
    unifyWithin_valuations hwf hθ hx hy hr
  have hunify := unify_of_within hr
  cases r with
  | none =>
    constructor
    · refine ⟨fun h => ?_, fun ⟨θ, hθ, he⟩ => absurd he (hdecides θ hθ)⟩
      rw [hunify] at h
      cases h
    · intro s' h
      rw [hunify] at h
      cases h
  | some s₁ =>
    have hresolvable₁ : s₁.Resolvable := by
      have hkept := (unify_keeps (Resolvable.keeps s.envs.size) (x := x) (y := y) ⟨hresolvable, hwf, rfl, hcheck⟩ hx hy).1
      rwa [hunify] at hkept
    constructor
    · refine ⟨fun _ => ?_, fun _ => by rw [hunify]⟩
      -- A valuation that respects the new bindings respects the old ones and is a unifier.
      obtain ⟨θ, hθ, -⟩ := hresolvable₁.exists_respects fun _ _ => .sym "nil"
      have hθ' : θ.Respects s := hθ.of_extends (unify_extends hunify)
      exact ⟨θ, hθ', (hdecides θ hθ').2 hθ⟩
    · intro s' h
      rw [hunify] at h
      cases h
      refine ⟨?_, (unify_extends hunify).isBelow, fun θ hθ he => (hdecides θ hθ).1 he, ?_⟩
      · obtain ⟨X, hX⟩ := hresolvable x ex
        obtain ⟨Y, hY⟩ := hresolvable y ey
        have hforms : Unified s X Y s₁ := unifyWithin_forms hwf hcheck hx hy hX hY hr
        obtain ⟨σ, href, heq, -⟩ := hforms
        exact ⟨X.subst σ, href _ _ _ hX, heq ▸ href _ _ _ hY⟩
      · exact unify_eq_true_iff.2 (unifyAt_withoutCheck (unify_eq_true_iff.1 hunify))

/-- The store `linked`, with `Z` of the first environment renamed to a fresh variable of the second one. -/
def relinked : Store := linked.perform (.plug (.compound "g" [.var "Z"]) 0 1 {})

/-- There, `p(X,Z)` of the first environment is made equal to `p(f(a),g(Y))` of the second one. -/
theorem unify_linked_mostGeneral :
    ∃ s', relinked.unify (.compound "p" [.var "X", .var "Z"]) 0
        (.compound "p" [.compound "f" [.sym "a"], .compound "g" [.var "Y"]]) 1 = (true, s') ∧
      ∃ T, s'.HasForm (.compound "p" [.var "X", .var "Z"]) 0 T ∧
        s'.HasForm (.compound "p" [.compound "f" [.sym "a"], .compound "g" [.var "Y"]]) 1 T := by
  have hrun : Run Unifies { occursCheck := true } relinked :=
    .step (.step (.step (.step .refl .newEnv trivial) .newEnv trivial)
      (.unify (.var "X") 0 (.compound "f" [.var "Y"]) 1) ⟨by decide, by decide⟩)
      (.plug (.compound "g" [.var "Z"]) 0 1 {}) ⟨by decide, by decide⟩
  have hchecked : CheckedRun relinked ∅ :=
    .step (.step (.step (.step .empty .newEnv trivial) .newEnv trivial)
      (.unify (.var "X") 0 (.compound "f" [.var "Y"]) 1) trivial) (.plug (.compound "g" [.var "Z"]) 0 1 {}) fun _ _ => rfl
  obtain ⟨hexact, -, honly⟩ := hchecked.closedOnlyAt
  have hac : relinked.Acyclic Closure.Holds := hexact.acyclic_iff.2 fun k hk => honly k hk
  have hsome : (unifyWithin allowance (.compound "p" [.var "X", .var "Z"]) 0
      (.compound "p" [.compound "f" [.sym "a"], .compound "g" [.var "Y"]]) 1 relinked).isSome := by decide
  have hafter := (unify_mostGeneral hrun hac (by decide) (by decide) hsome).2
  have hok : (relinked.unify (.compound "p" [.var "X", .var "Z"]) 0
      (.compound "p" [.compound "f" [.sym "a"], .compound "g" [.var "Y"]]) 1).1 = true := by decide
  have hpair := Prod.ext hok (Eq.refl (Prod.snd _))
  exact ⟨_, hpair, (hafter _ hpair).1⟩

end Deduction.Store
