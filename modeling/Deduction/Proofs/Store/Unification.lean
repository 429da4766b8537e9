import Deduction.Proofs.Store.Forms

/-!
# Unification of forms

With the occurs check, unification within the allowance succeeds exactly if the fully resolved forms of the two terms
have a unifier. The new store then replaces open variables in all forms, so that the forms of both terms become the
same, and every unifier of the forms absorbs that replacement (`unifyWithin_forms`).
-/

namespace Deduction.Store

variable {s s' : Store} {v w : String} {env ev ex ey : EnvId} {t x y : Term} {n : Nat} {X Y T : Form}
  {xs ys : List Term} {Xs Ys : List Form}

/-! ### Replacements of open variables -/

/-- Going over to the second store replaces open variables in all forms. -/
def Refines (s s' : Store) (σ : String → EnvId → Form) : Prop :=
  ∀ t env T, s.HasForm t env T → s'.HasForm t env (T.subst σ)

/-- Forms become the same in the store, by a replacement that their unifiers absorb. -/
def Unified (s : Store) (X Y : Form) (s' : Store) : Prop :=
  ∃ σ, Refines s s' σ ∧ X.subst σ = Y.subst σ ∧ ∀ θ : Valuation, X.eval θ = Y.eval θ → Form.Absorbs θ σ

/-- The outcome says whether the forms have a unifier. -/
def DecidesForms (s : Store) (X Y : Form) : Option Store → Prop
  | some s' => Unified s X Y s'
  | none => ∀ θ : Valuation, X.eval θ ≠ Y.eval θ

theorem refines_cell (s : Store) : Refines s s Form.cell := by
  intro t env T h
  rwa [Form.subst_cell]

theorem unified_of_eq (h : X = Y) : Unified s X Y s :=
  ⟨Form.cell, refines_cell s, by rw [h], fun θ _ => Form.absorbs_cell θ⟩

theorem DecidesForms.symm {r : Option Store} (h : DecidesForms s X Y r) : DecidesForms s Y X r := by
  cases r with
  | some s' =>
    obtain ⟨σ, href, heq, habs⟩ := h
    exact ⟨σ, href, heq.symm, fun θ he => habs θ he.symm⟩
  | none => exact fun θ he => h θ he.symm

/-- A variable is bound to a term in which it was not found. -/
theorem unified_bind (hfree : s.lookup v ev = none) (hv : ev < s.envs.size) (hY : s.HasForm t env Y)
    (hocc : s.occursWithin v ev n t env = some false) :
    Unified s (.cell v ev) Y (s.bind v ev ⟨t, env⟩) := by
  have hkept : (s.bind v ev ⟨t, env⟩).HasForm t env Y := by
    obtain ⟨m, hm⟩ := hY
    exact ⟨m, formAt_bind_of_not_occurs hv hocc hm⟩
  refine ⟨Form.single v ev Y, fun u env' U hU => HasForm.bind hfree hv hkept hU, ?_, ?_⟩
  · have hcell : (Form.cell v ev).subst (Form.single v ev Y) = Y := by
      rw [Form.subst, Form.single, if_pos ⟨rfl, rfl⟩]
    rw [hcell]
    exact hkept.unique (HasForm.bind hfree hv hkept hY)
  · intro θ he
    exact Form.absorbs_single he

/-- A unifier that absorbs a replacement makes no difference between forms before and after it. -/
theorem map_eval_subst {θ : Valuation} {σ : String → EnvId → Form} (h : Form.Absorbs θ σ) (Zs : List Form) :
    (Zs.map (Form.subst σ)).map (Form.eval θ) = Zs.map (Form.eval θ) := by
  rw [List.map_map]
  apply List.map_congr_left
  intro Z _
  exact h.eval_subst Z

/-- The first arguments have become the same; what follows decides about the others, after the replacement that was
made. -/
theorem DecidesForms.cons {t : Store} {f : String} {r : Option Store} (h : Unified s X Y t)
    (hrest : ∀ σ : String → EnvId → Form, Refines s t σ →
      DecidesForms t (.compound f (Xs.map (Form.subst σ))) (.compound f (Ys.map (Form.subst σ))) r) :
    DecidesForms s (.compound f (X :: Xs)) (.compound f (Y :: Ys)) r := by
  obtain ⟨σ, href, heq, habs⟩ := h
  cases r with
  | none =>
    intro θ he
    simp only [Form.eval, Form.evalList_eq, List.map_cons, Term.compound.injEq, List.cons.injEq, true_and] at he
    apply hrest σ href θ
    simp only [Form.eval, Form.evalList_eq, map_eval_subst (habs θ he.1), he.2]
  | some t' =>
    obtain ⟨τ, href', heq', habs'⟩ := hrest σ href
    refine ⟨fun v env => (σ v env).subst τ, ?_, ?_, ?_⟩
    · intro u env U hU
      have := href' _ _ _ (href _ _ _ hU)
      rwa [Form.subst_subst] at this
    · have hcomp : (Form.subst fun v env => (σ v env).subst τ) = Form.subst τ ∘ Form.subst σ := by
        funext T
        exact (Form.subst_subst σ τ T).symm
      simp only [Form.subst, Form.substList_eq, Form.compound.injEq, true_and, List.map_map] at heq'
      simp only [Form.subst, Form.substList_eq, Form.compound.injEq, true_and, List.map_cons, List.cons.injEq, hcomp]
      exact ⟨by rw [Function.comp_apply, Function.comp_apply, heq], heq'⟩
    · intro θ he
      simp only [Form.eval, Form.evalList_eq, List.map_cons, Term.compound.injEq, List.cons.injEq, true_and] at he
      have hσ := habs θ he.1
      have hτ : Form.Absorbs θ τ := by
        apply habs'
        simp only [Form.eval, Form.evalList_eq, map_eval_subst hσ, he.2]
      intro v env
      rw [hτ.eval_subst, hσ]

/-! ### Unification and forms -/

theorem unifyVarWithin_forms {within : Term → EnvId → Term → EnvId → Store → Option (Option Store)}
    (hs : s.WellFormed) (hcheck : s.occursCheck = true)
    (h : ∀ x ex y ey X Y r, ex < s.envs.size → ey < s.envs.size → s.HasForm x ex X → s.HasForm y ey Y →
      within x ex y ey s = some r → DecidesForms s X Y r)
    (hv : ev < s.envs.size) (ht : env < s.envs.size) (hX : s.HasForm (.var v) ev X) (hY : s.HasForm t env Y)
    {r : Option Store} (hr : unifyVarWithin within v ev t env s = some r) : DecidesForms s X Y r := by
  unfold unifyVarWithin at hr
  split at hr
  · rename_i hsame
    obtain ⟨rfl, rfl⟩ := hsame
    cases hr
    exact unified_of_eq (hX.unique hY)
  · split at hr
    · rename_i c hc
      exact h _ _ _ _ _ _ _ (hs.closed hc) ht ((HasForm.of_bound hc).1 hX) hY hr
    · rename_i hfree
      have hcell := (HasForm.of_unbound hfree).1 hX
      subst hcell
      split at hr
      · rename_i hlead
        cases hr
        have hY' := (HasForm.leads ((leadsTo_iff hs hfree t env).1 hlead)).1 hY
        exact unified_of_eq (hX.unique hY')
      · rename_i hlead
        obtain ⟨b, hb, rfl⟩ := Option.map_eq_some_iff.1 hr
        cases b with
        | false => exact unified_bind hfree hv hY hb
        | true =>
          intro θ he
          rcases hY.leads_or_lt θ hfree hb with hlead' | hlt
          · exact hlead ((leadsTo_iff hs hfree t env).2 hlead')
          · rw [← he] at hlt
            exact Nat.lt_irrefl _ hlt

theorem forall₂_refines {σ : String → EnvId → Form} (href : Refines s s' σ)
    (h : List.Forall₂ (s.HasForm · env ·) xs Xs) :
    List.Forall₂ (s'.HasForm · env ·) xs (Xs.map (Form.subst σ)) := by
  induction h with
  | nil => exact .nil
  | cons hx _ ih => exact .cons (href _ _ _ hx) ih

theorem allPairsWithin_forms (f : String)
    (h : ∀ s x y X Y r, s.WellFormed → s.occursCheck = true → ex < s.envs.size → ey < s.envs.size →
      s.HasForm x ex X → s.HasForm y ey Y → unifyWithin n x ex y ey s = some r → DecidesForms s X Y r)
    (hs : s.WellFormed) (hcheck : s.occursCheck = true) (hx : ex < s.envs.size) (hy : ey < s.envs.size)
    (hlen : xs.length = ys.length) (hXs : List.Forall₂ (s.HasForm · ex ·) xs Xs)
    (hYs : List.Forall₂ (s.HasForm · ey ·) ys Ys) {r : Option Store}
    (hr : allPairsWithin (fun x y => unifyWithin n x ex y ey) xs ys s = some r) :
    DecidesForms s (.compound f Xs) (.compound f Ys) r := by
  induction xs generalizing ys Xs Ys s with
  | nil =>
    cases ys with
    | nil =>
      cases hXs
      cases hYs
      cases hr
      exact unified_of_eq rfl
    | cons y ys => cases hlen
  | cons x xs ih =>
    cases ys with
    | nil => cases hlen
    | cons y ys =>
      cases hXs with
      | @cons _ X _ Xs hX hXs =>
        cases hYs with
        | @cons _ Y _ Ys hY hYs =>
          unfold allPairsWithin at hr
          split at hr
          · rename_i s' hs'
            have hhead : Unified s X Y s' := h s x y X Y _ hs hcheck hx hy hX hY hs'
            obtain ⟨hwf, hsize, hext⟩ := hs.unifyWithin hx hy hs'
            have hrest (σ : String → EnvId → Form) (href : Refines s s' σ) :
                DecidesForms s' (.compound f (Xs.map (Form.subst σ))) (.compound f (Ys.map (Form.subst σ))) r :=
              ih hwf (hext.occursCheck.trans hcheck) (hsize ▸ hx) (hsize ▸ hy) (Nat.succ.inj hlen)
                (forall₂_refines href hXs) (forall₂_refines href hYs) hr
            exact DecidesForms.cons hhead hrest
          · rename_i hne
            cases r with
            | some s' => exact absurd hr (hne s')
            | none =>
              have hhead : ∀ θ : Valuation, X.eval θ ≠ Y.eval θ := h s x y X Y none hs hcheck hx hy hX hY hr
              intro θ he
              simp only [Form.eval, Form.evalList_eq, List.map_cons, Term.compound.injEq, List.cons.injEq, true_and]
                at he
              exact hhead θ he.1

/-- Unification within the allowance decides whether the fully resolved forms have a unifier. -/
theorem unifyWithin_forms (hs : s.WellFormed) (hcheck : s.occursCheck = true) (hx : ex < s.envs.size)
    (hy : ey < s.envs.size) (hX : s.HasForm x ex X) (hY : s.HasForm y ey Y) {r : Option Store}
    (hr : unifyWithin n x ex y ey s = some r) : DecidesForms s X Y r := by
  induction n generalizing x ex y ey s X Y r with
  | zero => cases hr
  | succ n ih =>
    have ih' (x ex y ey X Y r) (hx : ex < s.envs.size) (hy : ey < s.envs.size) (hX : s.HasForm x ex X)
        (hY : s.HasForm y ey Y) (hr : unifyWithin n x ex y ey s = some r) := ih hs hcheck hx hy hX hY hr
    cases x with
    | var v => exact unifyVarWithin_forms hs hcheck ih' hx hy hX hY hr
    | sym a =>
      cases y with
      | var w => exact (unifyVarWithin_forms hs hcheck ih' hy hx hY hX hr).symm
      | sym b =>
        have hX' := HasForm.of_sym.1 hX
        have hY' := HasForm.of_sym.1 hY
        subst hX' hY'
        unfold unifyWithin at hr
        by_cases hab : a = b
        · rw [if_pos hab] at hr
          cases hr
          exact unified_of_eq (by rw [hab])
        · rw [if_neg hab] at hr
          cases hr
          intro θ he
          exact hab (Term.sym.inj he)
      | compound g ys =>
        have hX' := HasForm.of_sym.1 hX
        obtain ⟨Ys, rfl, -⟩ := hY.of_compound
        subst hX'
        cases hr
        intro θ he
        cases he
    | compound f xs =>
      obtain ⟨Xs, rfl, hXs⟩ := hX.of_compound
      cases y with
      | var w => exact (unifyVarWithin_forms hs hcheck ih' hy hx hY hX hr).symm
      | sym b =>
        have hY' := HasForm.of_sym.1 hY
        subst hY'
        cases hr
        intro θ he
        cases he
      | compound g ys =>
        obtain ⟨Ys, rfl, hYs⟩ := hY.of_compound
        unfold unifyWithin at hr
        by_cases hfg : f = g ∧ xs.length = ys.length
        · rw [if_pos hfg] at hr
          obtain ⟨rfl, hlen⟩ := hfg
          exact allPairsWithin_forms f (fun s x y X Y r hs hc hx hy hX hY hr => ih hs hc hx hy hX hY hr) hs hcheck hx hy
            hlen hXs hYs hr
        · rw [if_neg hfg] at hr
          cases hr
          intro θ he
          simp only [Form.eval, Form.evalList_eq, Term.compound.injEq] at he
          apply hfg
          refine ⟨he.1, ?_⟩
          rw [hXs.length_eq, hYs.length_eq]
          simpa using congrArg List.length he.2

end Deduction.Store
