import Deduction.Proofs.Search.Language

/-!
# Computations that follow others

A computation follows another one if, whenever that one has a result, it has a related one after as many inferences and
instantiations. What the two report may differ. Computations follow each other if they are put together from parts that
do (`Follows.bind`), even if they look at the meter on the way (`Follows.isSpent`).
-/

namespace Deduction

variable {α β γ δ : Type} {R R' : α → β → Prop} {S : γ → δ → Prop}

/-- Whenever the first computation has a result, the second one has a related one with the same count, from a meter with
the same count. -/
def Follows (R : α → β → Prop) (x : Metered α) (y : Metered β) : Prop :=
  ∀ ⦃m a m₁ m'⦄, x.run m = .ok (a, m₁) → m'.spent = m.spent →
    ∃ b m₁', y.run m' = .ok (b, m₁') ∧ R a b ∧ m₁'.spent = m₁.spent

section

variable {x : Metered α} {y : Metered β} {f : α → Metered γ} {g : β → Metered δ}

theorem follows_pure {a : α} {b : β} (h : R a b) : Follows R (pure a) (pure b) := by
  intro m a' m₁ m' hx hm
  obtain ⟨rfl, rfl⟩ := Metered.run_pure_eq_ok.1 hx
  exact ⟨b, m', rfl, h, hm⟩

theorem follows_throw (e : Interruption) (y : Metered β) : Follows R (throw e) y := by
  intro m a m₁ m' hx
  cases hx

namespace Follows

theorem imp (h : Follows R x y) (hR : ∀ a b, R a b → R' a b) : Follows R' x y := by
  intro m a m₁ m' hx hm
  obtain ⟨b, m₁', hy, hab, hm₁⟩ := h hx hm
  exact ⟨b, m₁', hy, hR a b hab, hm₁⟩

/-- What is known of the results of the first computation. -/
theorem and {Q : α → Prop} (h : Follows R x y) (hx : Ensures x Q) : Follows (fun a b => R a b ∧ Q a) x y := by
  intro m a m₁ m' hrun hm
  obtain ⟨b, m₁', hy, hab, hm₁⟩ := h hrun hm
  exact ⟨b, m₁', hy, ⟨hab, hx hrun⟩, hm₁⟩

theorem bind (h : Follows R x y) (hfg : ∀ a b, R a b → Follows S (f a) (g b)) : Follows S (x >>= f) (y >>= g) := by
  intro m c m₂ m' hrun hm
  obtain ⟨a, m₁, hx, hfa⟩ := Metered.run_bind_eq_ok.1 hrun
  obtain ⟨b, m₁', hy, hab, hm₁⟩ := h hx hm
  obtain ⟨d, m₂', hgb, hcd, hm₂⟩ := hfg a b hab hfa hm₁
  exact ⟨d, m₂', Metered.run_bind_eq_ok.2 ⟨b, m₁', hy, hgb⟩, hcd, hm₂⟩

/-- Both computations do something that counts the same and has no result. -/
theorem tick {x y : Metered Unit} {f : Metered γ} {g : Metered δ} (h : Follows (fun _ _ => True) x y)
    (hfg : Follows S f g) : Follows S (x >>= fun _ => f) (y >>= fun _ => g) := h.bind fun _ _ _ => hfg

theorem infer : Follows (fun _ _ => True) Meter.infer Meter.infer := by
  intro m a m₁ m' hx hm
  cases hx
  refine ⟨_, _, rfl, trivial, ?_⟩
  unfold Meter.spent at hm ⊢
  dsimp only
  omega

theorem instantiate : Follows (fun _ _ => True) Meter.instantiate Meter.instantiate := by
  intro m a m₁ m' hx hm
  cases hx
  refine ⟨_, _, rfl, trivial, ?_⟩
  unfold Meter.spent at hm ⊢
  dsimp only
  omega

/-- A meter with the same count is spent at the same time. -/
theorem isSpent (config : Config) : Follows (fun a b => b = a) (Meter.isSpent config) (Meter.isSpent config) := by
  intro m a m₁ m' hx hm
  cases hx
  refine ⟨_, _, rfl, ?_, hm⟩
  rw [hm]

end Follows

end

/-! ### Reports -/

/-- A computation that may report, but counts nothing. -/
def Reports (x : Metered Unit) : Prop := ∀ m, ∃ m₁, x.run m = .ok ((), m₁) ∧ m₁.spent = m.spent

theorem reports_pure : Reports (pure ()) := fun m => ⟨m, rfl, rfl⟩

theorem reports_report (line : String) : Reports (Meter.report line) := fun _ => ⟨_, rfl, rfl⟩

theorem reports_reportGoal (config : Config) (event : String) (s : Store) (goal : Term) (env : EnvId) :
    Reports (reportGoal config event s goal env) := by
  unfold reportGoal
  split
  · split
    · exact reports_report _
    · exact reports_pure
  · exact reports_pure

theorem Cursor.reports (config : Config) (event : String) (s : Store) (c : Cursor) :
    Reports (c.report config event s) := by
  unfold Cursor.report
  split
  · exact reports_reportGoal config event s c.target c.env
  · exact reports_pure

theorem Reports.follows {x y : Metered Unit} (hx : Reports x) (hy : Reports y) : Follows (fun _ _ => True) x y := by
  intro m a m₁ m' hrun hm
  obtain ⟨m₂, hm₂, hspent⟩ := hx m
  obtain ⟨m₂', hm₂', hspent'⟩ := hy m'
  rw [hm₂] at hrun
  cases hrun
  exact ⟨(), m₂', hm₂', trivial, by rw [hspent', hspent, hm]⟩

/-! ### Computations that may have no result -/

/-- The second computation follows the first one, or both have no result. -/
def FollowsOption (R : α → β → Prop) (x : OptionT Metered α) (y : OptionT Metered β) : Prop :=
  Follows (Option.Rel R) x.run y.run

namespace FollowsOption

theorem pure {a : α} {b : β} (h : R a b) : FollowsOption R (Pure.pure a) (Pure.pure b) := follows_pure (.some h)

theorem failure : FollowsOption R (failure : OptionT Metered α) (failure : OptionT Metered β) := follows_pure .none

theorem getM {a : Option α} {b : Option β} (h : Option.Rel R a b) :
    FollowsOption R (a.getM : OptionT Metered α) (b.getM : OptionT Metered β) := by
  cases h with
  | none => exact failure
  | some h => exact pure h

theorem lift {x : Metered α} {y : Metered β} (h : Follows R x y) :
    FollowsOption R (liftM x : OptionT Metered α) (liftM y : OptionT Metered β) :=
  Follows.bind (f := fun a => Pure.pure (some a)) (g := fun b => Pure.pure (some b)) h fun _ _ hab =>
    follows_pure (.some hab)

theorem bind {x : OptionT Metered α} {y : OptionT Metered β} {f : α → OptionT Metered γ} {g : β → OptionT Metered δ}
    (h : FollowsOption R x y) (hfg : ∀ a b, R a b → FollowsOption S (f a) (g b)) :
    FollowsOption S (x >>= f) (y >>= g) := by
  unfold FollowsOption
  rw [OptionT.run_bind, OptionT.run_bind]
  refine Follows.bind h fun a b hab => ?_
  cases hab with
  | none => exact failure
  | some hab => exact hfg _ _ hab

/-- What is done unless the limit is reached. -/
theorem unlessSpent {config : Config} {x : OptionT Metered α} {y : OptionT Metered β} (h : FollowsOption R x y) :
    FollowsOption R
      ((liftM (Meter.isSpent config) : OptionT Metered Bool) >>= fun spent => if spent = true then Alternative.failure else x)
      ((liftM (Meter.isSpent config) : OptionT Metered Bool) >>= fun spent => if spent = true then Alternative.failure else y) := by
  refine (FollowsOption.lift (Follows.isSpent config)).bind fun spent spent' hspent => ?_
  subst hspent
  split
  · exact failure
  · exact h

theorem mapM {f : α → OptionT Metered γ} {g : β → OptionT Metered δ} {as : List α} {bs : List β}
    (h : List.Forall₂ (fun a b => FollowsOption S (f a) (g b)) as bs) :
    FollowsOption (List.Forall₂ S) (as.mapM f) (bs.mapM g) := by
  induction h with
  | nil =>
    rw [List.mapM_nil, List.mapM_nil]
    exact pure .nil
  | cons hab _ ih =>
    rw [List.mapM_cons, List.mapM_cons]
    exact hab.bind fun c d hcd => ih.bind fun cs ds hcds => pure (.cons hcd hcds)

end FollowsOption

end Deduction
