import Deduction.Proofs.Store.Unification

/-!
# Fully resolved forms

With the occurs check on, unification makes no binding that goes round in a cycle, and neither does plugging with names
that are free in the target, so that every term has a fully resolved form (`Reachable.resolvable`). Where unification
succeeds with the occurs check, it makes the same bindings without it (`unifyAt_withoutCheck`).
-/

namespace Deduction.Store

variable {s s' : Store} {v w : String} {env ev ex ey : EnvId} {t x y : Term} {n : Nat} {xs ys : List Term}

/-! ### Without the occurs check -/

/-- The store with unification that does not look for variables in their values. -/
def withoutCheck (s : Store) : Store := { s with occursCheck := false }

theorem resolveAt_withoutCheck (s : Store) (n : Nat) (t : Term) (env : EnvId) :
    s.withoutCheck.resolveAt n t env = s.resolveAt n t env := by
  induction n generalizing t env with
  | zero => cases t <;> rfl
  | succ n ih =>
    cases t with
    | var v =>
      have hlookup : s.withoutCheck.lookup v env = s.lookup v env := rfl
      unfold resolveAt
      rw [hlookup]
      cases s.lookup v env with
      | some c => exact ih c.term c.env
      | none => rfl
    | sym a => rfl
    | compound f args => rfl

theorem bind_withoutCheck (s : Store) (v : String) (env : EnvId) (c : Closure) :
    s.withoutCheck.bind v env c = (s.bind v env c).withoutCheck := by
  unfold bind withoutCheck
  split <;> rfl

theorem unifyVar_withoutCheck {unify : Term → EnvId → Term → EnvId → Store → Bool × Store}
    (h : ∀ x ex y ey s', unify x ex y ey s = (true, s') → unify x ex y ey s.withoutCheck = (true, s'.withoutCheck))
    (hr : unifyVar unify v ev t env s = (true, s')) :
    unifyVar unify v ev t env s.withoutCheck = (true, s'.withoutCheck) := by
  have hlookup : s.withoutCheck.lookup v ev = s.lookup v ev := rfl
  have hlead : s.withoutCheck.leadsTo t env v ev = s.leadsTo t env v ev := by
    unfold leadsTo resolve
    rw [resolveAt_withoutCheck]
    rfl
  have hcheck : s.withoutCheck.occursCheck = false := rfl
  unfold unifyVar at hr ⊢
  rw [hlookup, hlead, hcheck, Bool.false_and]
  split at hr
  · rename_i hsame
    rw [if_pos hsame, ← (Prod.mk.inj hr).2]
  · rename_i hsame
    rw [if_neg hsame]
    cases hv : s.lookup v ev with
    | some c =>
      simp only [hv] at hr ⊢
      exact h _ _ _ _ _ hr
    | none =>
      simp only [hv] at hr ⊢
      split at hr
      · rename_i hl
        rw [if_pos hl, ← (Prod.mk.inj hr).2]
      · rename_i hl
        rw [if_neg hl, if_neg Bool.false_ne_true, bind_withoutCheck]
        split at hr
        · cases hr
        · rw [← (Prod.mk.inj hr).2]

theorem allPairs_withoutCheck {attempt : Term → Term → Store → Bool × Store}
    (h : ∀ x y s s', attempt x y s = (true, s') → attempt x y s.withoutCheck = (true, s'.withoutCheck))
    (hr : allPairs attempt xs ys s = (true, s')) :
    allPairs attempt xs ys s.withoutCheck = (true, s'.withoutCheck) := by
  induction xs generalizing ys s with
  | nil =>
    cases ys with
    | nil =>
      rw [allPairs, ← (Prod.mk.inj hr).2]
    | cons y ys => cases hr
  | cons x xs ih =>
    cases ys with
    | nil => cases hr
    | cons y ys =>
      unfold allPairs at hr ⊢
      split at hr
      · rename_i t ht
        rw [h x y s t ht]
        exact ih hr
      · rename_i hne
        exact absurd hr (hne s')

/-- Where unification with the occurs check succeeds, it makes the same bindings without it. -/
theorem unifyAt_withoutCheck (h : unifyAt n x ex y ey s = (true, s')) :
    unifyAt n x ex y ey s.withoutCheck = (true, s'.withoutCheck) := by
  induction n generalizing x ex y ey s s' with
  | zero => cases h
  | succ n ih =>
    have ih' (x ex y ey s') (h : unifyAt n x ex y ey s = (true, s')) := ih h
    cases x with
    | var v => exact unifyVar_withoutCheck ih' h
    | sym a =>
      cases y with
      | var w => exact unifyVar_withoutCheck ih' h
      | sym b =>
        unfold unifyAt at h ⊢
        rw [(Prod.mk.inj h).1, ← (Prod.mk.inj h).2]
      | compound g ys => cases h
    | compound f xs =>
      cases y with
      | var w => exact unifyVar_withoutCheck ih' h
      | sym b => cases h
      | compound g ys =>
        unfold unifyAt at h ⊢
        split at h
        · rename_i hfg
          rw [if_pos hfg]
          exact allPairs_withoutCheck (fun x y s s' h => ih h) h
        · cases h

/-! ### Stores without cycles -/

/-- Every term has a fully resolved form: no bindings go round in a cycle. -/
def Resolvable (s : Store) : Prop := ∀ t env, ∃ T, s.HasForm t env T

mutual
/-- A term is read as the value of its form, if its variables are. -/
theorem HasForm.read_eq {θ η : Valuation} (hθ : ∀ v T, s.HasForm (.var v) env T → θ v env = T.eval η) :
    (t : Term) → {T : Form} → s.HasForm t env T → θ.read env t = T.eval η
  | .var v, T, h => hθ v T h
  | .sym _, T, h => by rw [HasForm.of_sym.1 h]; rfl
  | .compound f args, T, h => by
    obtain ⟨Ts, rfl, hTs⟩ := h.of_compound
    rw [Valuation.read_compound, Form.eval, Form.evalList_eq, HasForm.map_read_eq hθ args hTs]

theorem HasForm.map_read_eq {θ η : Valuation} (hθ : ∀ v T, s.HasForm (.var v) env T → θ v env = T.eval η) :
    (ts : List Term) → {Ts : List Form} → List.Forall₂ (s.HasForm · env ·) ts Ts →
      ts.map (θ.read env) = Ts.map (Form.eval η)
  | [], _, .nil => rfl
  | t :: ts, _, .cons ht hts => by
    rw [List.map_cons, List.map_cons, HasForm.read_eq hθ t ht, HasForm.map_read_eq hθ ts hts]
end

mutual
theorem form_of_vars : (t : Term) → (∀ v ∈ t.vars, ∃ T, s.HasForm (.var v) env T) → ∃ T, s.HasForm t env T
  | .var v, h => h v (Term.mem_vars_var.2 rfl)
  | .sym _, _ => ⟨_, HasForm.of_sym.2 rfl⟩
  | .compound _ args, h => by
    obtain ⟨Ts, hTs⟩ := forms_of_vars args fun t ht v hv => h v (Term.mem_vars_compound.2 ⟨t, ht, hv⟩)
    exact ⟨_, HasForm.compound hTs⟩

theorem forms_of_vars : (ts : List Term) → (∀ t ∈ ts, ∀ v ∈ t.vars, ∃ T, s.HasForm (.var v) env T) →
    ∃ Ts, List.Forall₂ (s.HasForm · env ·) ts Ts
  | [], _ => ⟨[], .nil⟩
  | t :: ts, h => by
    rw [List.forall_mem_cons] at h
    obtain ⟨T, hT⟩ := form_of_vars t h.1
    obtain ⟨Ts, hTs⟩ := forms_of_vars ts h.2
    exact ⟨T :: Ts, .cons hT hTs⟩
end

theorem resolvable_of_vars (h : ∀ v env, ∃ T, s.HasForm (.var v) env T) : s.Resolvable :=
  fun t env => form_of_vars t fun v _ => h v env

namespace Resolvable

/-- Forms do not get lost when bindings are taken away. -/
theorem of_below (hs : s'.Resolvable) (h : s.Below s') : s.Resolvable := by
  intro t env
  obtain ⟨T, n, hn⟩ := hs t env
  obtain ⟨U, hU⟩ := exists_formAt_of_below h ⟨T, hn⟩
  exact ⟨U, n, hU⟩

/-- Whatever the values of the unbound variables are to be, some valuation gives all variables the values of their
forms. -/
theorem exists_respects (hs : s.Resolvable) (η : Valuation) :
    ∃ θ : Valuation, θ.Respects s ∧ ∀ v env T, s.HasForm (.var v) env T → θ v env = T.eval η := by
  choose form hform using hs
  refine ⟨fun v env => (form (.var v) env).eval η, ?_, fun v env T hT => ?_⟩
  case refine_2 => exact congrArg (Form.eval η) ((hform (.var v) env).unique hT)
  intro v env c hc
  have hvar : form (.var v) env = form c.term c.env :=
    (hform (.var v) env).unique ((HasForm.of_bound hc).2 (hform _ _))
  have hread : Valuation.read (fun v env => (form (.var v) env).eval η) c.env c.term = (form c.term c.env).eval η :=
    HasForm.read_eq (fun w T hT => by rw [(hform (.var w) c.env).unique hT]) c.term (hform c.term c.env)
  exact (congrArg (Form.eval η) hvar).trans hread.symm

theorem bind (hs : s.Resolvable) (hfree : s.lookup v ev = none)
    (ht : ev < s.envs.size → ∃ T, (s.bind v ev ⟨t, env⟩).HasForm t env T) : (s.bind v ev ⟨t, env⟩).Resolvable := by
  by_cases hv : ev < s.envs.size
  · obtain ⟨T, hT⟩ := ht hv
    intro u env'
    obtain ⟨U, hU⟩ := hs u env'
    exact ⟨_, HasForm.bind hfree hv hT hU⟩
  · rwa [bind_of_not_lt hv]

/-- The occurs check keeps bindings from going round. -/
theorem keeps (k : Nat) :
    Keeps (fun _ env => env < k) fun s => s.Resolvable ∧ s.WellFormed ∧ s.envs.size = k ∧ s.occursCheck = true where
  arg h _ := h
  value h _ hv := h.2.2.1 ▸ h.2.1.closed hv
  bind {s v env c} h _ hc hv _ hocc := by
    obtain ⟨hs, hwf, hk, hcheck⟩ := h
    refine ⟨hs.bind hv fun henv => ?_, hwf.bind (hk.symm ▸ hc), by rw [size_envs_bind, hk], by
      rw [occursCheck_bind, hcheck]⟩
    obtain ⟨T, n, hn⟩ := hs c.term c.env
    exact ⟨T, n, formAt_bind_of_not_occurs henv (occursWithin_of_not_occursAt (hocc hcheck)) hn⟩

end Resolvable

/-! ### Stores that come about -/

/-- None of the variables that the supply has yet to issue is bound in the environment. -/
def FreshIn (names : NameSupply) (s : Store) (env : EnvId) : Prop :=
  ∀ n, names.issued < n → s.lookup s!"V{n}" env = none

theorem lookup_bind_of_ne {target : EnvId} {c : Closure} (hne : env ≠ target) (w : String) :
    (s.bind v env c).lookup w target = s.lookup w target := by
  by_cases henv : env < s.envs.size
  · rw [lookup_bind henv, if_neg fun hc => hne hc.2.symm]
  · rw [bind_of_not_lt henv]

/-- What is yet to be issued stays free when a variable of another environment is renamed. -/
theorem FreshIn.bind {names : NameSupply} {target : EnvId} {c : Closure} (h : FreshIn names s target)
    (hne : env ≠ target) : FreshIn names.freshVar.2 (s.bind v env c) target := by
  intro n hn
  rw [lookup_bind_of_ne hne]
  exact h n (Nat.lt_of_succ_lt hn)

/-- Renaming to fresh variables does not make bindings go round either. -/
theorem Resolvable.keepsRenaming (target : EnvId) :
    KeepsRenaming (fun _ => True) target fun st => st.1.Resolvable ∧ FreshIn st.2 st.1 target where
  value _ _ _ := trivial
  bind {s names v env} h _ hne hv := by
    obtain ⟨hs, hfresh⟩ := h
    refine ⟨hs.bind hv fun _ => ⟨_, (HasForm.of_unbound ?_).2 rfl⟩, hfresh.bind hne⟩
    rw [lookup_bind_of_ne hne]
    exact hfresh _ (Nat.lt_succ_self _)

/-- The stores that come about from an empty one by new environments, unification, plugging and going back. -/
inductive Reachable (occursCheck : Bool) : Store → Prop
  | empty : Reachable occursCheck { occursCheck }
  | newEnv {s : Store} (h : Reachable occursCheck s) : Reachable occursCheck s.newEnv.2
  | unify {s : Store} (h : Reachable occursCheck s) (x : Term) {ex : EnvId} (y : Term) {ey : EnvId}
      (hx : ex < s.envs.size) (hy : ey < s.envs.size) : Reachable occursCheck (s.unify x ex y ey).2
  | plug {s : Store} (h : Reachable occursCheck s) (t : Term) {env target : EnvId} {names : NameSupply}
      (henv : env < s.envs.size) (htarget : target < s.envs.size) (hnames : FreshIn names s target) :
      Reachable occursCheck (s.plug t env target names).2.1
  | rollback {s : Store} (h : Reachable occursCheck s) (cp : Checkpoint) : Reachable occursCheck (s.rollback cp)

namespace Reachable

theorem wellFormed {b : Bool} (h : Reachable b s) : s.WellFormed ∧ s.occursCheck = b := by
  induction h with
  | empty => exact ⟨wellFormed_empty b, rfl⟩
  | newEnv _ ih => exact ⟨ih.1.newEnv, ih.2⟩
  | unify _ x y hx hy ih => exact ⟨ih.1.unify x y hx hy, (extends_unify ..).occursCheck.trans ih.2⟩
  | plug _ t henv htarget _ ih =>
    exact ⟨ih.1.plug t _ henv htarget, (plug_extends ..).occursCheck.trans ih.2⟩
  | rollback _ cp ih => exact ⟨ih.1.rollback cp, ih.2⟩

/-- With the occurs check on, no bindings go round in a cycle. -/
theorem resolvable (h : Reachable true s) : s.Resolvable := by
  induction h with
  | empty =>
    apply resolvable_of_vars
    intro v env
    exact ⟨_, (HasForm.of_unbound (by simp [lookup])).2 rfl⟩
  | newEnv _ ih =>
    refine ih.of_below fun v env c hc => ?_
    rwa [lookup_newEnv] at hc
  | @unify s h x ex y ey hx hy ih =>
    exact (unify_keeps (Resolvable.keeps s.envs.size) ⟨ih, h.wellFormed.1, rfl, h.wellFormed.2⟩ hx hy).1
  | @plug s _ t env target names _ _ hnames ih =>
    exact (plug_keeps (Resolvable.keepsRenaming target) t ⟨ih, hnames⟩ trivial).1
  | @rollback s _ cp ih => exact ih.of_below (rollback_below s cp)

end Reachable

/-- Two environments with the occurs check on; `X` of the first one is bound to `f(Y)` of the second one. -/
def linked : Store :=
  (unify (newEnv (newEnv { occursCheck := true }).2).2 (.var "X") 0 (.compound "f" [.var "Y"]) 1).2

end Deduction.Store
