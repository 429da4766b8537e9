import Deduction.Proofs.Groundness.Safety
import Deduction.Proofs.Search.FreshNames
import Deduction.Proofs.Store.Resolvable
import Deduction.Proofs.Store.Renaming

/-!
# Groundings

A grounding says which variables of which environments have ground values. It solves a store if it agrees with the
bindings there: a bound variable has a ground value if, and only if, the variables of the term that it is bound to do.
Terms that were made equal are ground in the same solutions (`Grounding.Solves.grounds_iff`). The least solution has the
variables that the bindings settle (`Store.Settles`): what all solutions make ground is settled.

A term that is plugged in a store gives an instance of it, and the same instance for all terms of its environment
(`Store.plugs_instances`), provided that no variable of the environment is taken for an invented one.
-/

namespace Deduction

/-- Which variables of which environments are taken to have ground values. -/
abbrev Grounding := String → EnvId → Prop

namespace Grounding

variable {γ : Grounding} {s s' : Store} {v : String} {env ev ex ey : EnvId} {t x y : Term} {c d : Closure} {n : Nat}
  {f : String} {args : List Term}

/-- All variables of the term have ground values. -/
def Grounds (γ : Grounding) (t : Term) (env : EnvId) : Prop := ∀ v ∈ t.vars, γ v env

theorem grounds_var : γ.Grounds (.var v) env ↔ γ v env := by
  unfold Grounds
  simp

theorem grounds_sym {a : String} : γ.Grounds (.sym a) env := fun v hv => by cases hv

theorem grounds_compound : γ.Grounds (.compound f args) env ↔ ∀ t ∈ args, γ.Grounds t env := by
  unfold Grounds
  simp only [Term.mem_vars_compound]
  constructor
  · intro h t ht v hv
    exact h v ⟨t, ht, hv⟩
  · rintro h v ⟨t, ht, hv⟩
    exact h t ht v hv

theorem grounds_of_isGround (h : t.isGround = true) : γ.Grounds t env :=
  fun v hv => absurd hv ((Term.isGround_iff t).1 h v)

/-- The grounding agrees with the bindings of the store. -/
def Solves (γ : Grounding) (s : Store) : Prop :=
  ∀ v env c, s.lookup v env = some c → (γ v env ↔ γ.Grounds c.term c.env)

namespace Solves

theorem of_below (h : γ.Solves s') (hs : s.Below s') : γ.Solves s := fun v env c hc => h v env c (hs v env c hc)

theorem leads (h : γ.Solves s) (hlead : s.Leads c d) : γ.Grounds c.term c.env ↔ γ.Grounds d.term d.env := by
  obtain ⟨n, hn⟩ := hlead
  induction hn with
  | refl => rfl
  | step hv _ ih => rw [grounds_var, h _ _ _ hv, ih]

end Solves

theorem solves_newEnv : γ.Solves s.newEnv.2 ↔ γ.Solves s := by
  unfold Solves
  simp only [Store.lookup_newEnv]

/-! ### Terms that were made equal -/

section Unification

open Store (unifyVarWithin unifyWithin allPairsWithin)

theorem grounds_iff_of_unifyVarWithin {within : Term → EnvId → Term → EnvId → Store → Option (Option Store)}
    (hγ : γ.Solves s') (hsolves : γ.Solves s)
    (h : ∀ x ex y ey, ex < s.envs.size → ey < s.envs.size → within x ex y ey s = some (some s') →
      (γ.Grounds x ex ↔ γ.Grounds y ey))
    (hs : s.WellFormed) (hv : ev < s.envs.size) (ht : env < s.envs.size)
    (hr : unifyVarWithin within v ev t env s = some (some s')) : γ.Grounds (.var v) ev ↔ γ.Grounds t env := by
  unfold unifyVarWithin at hr
  split at hr
  · rename_i hsame
    obtain ⟨rfl, rfl⟩ := hsame
    rfl
  · split at hr
    · rename_i c hc
      rw [grounds_var, hsolves v ev c hc]
      exact h _ _ _ _ (hs.closed hc) ht hr
    · rename_i hnone
      have hbind (hs' : s' = s.bind v ev ⟨t, env⟩) : γ.Grounds (.var v) ev ↔ γ.Grounds t env := by
        rw [grounds_var]
        refine hγ v ev ⟨t, env⟩ ?_
        rw [hs', Store.lookup_bind hv, if_pos ⟨rfl, rfl⟩]
      split at hr
      · rename_i hlead
        have hleads := s.leads_resolve t env
        rw [of_decide_eq_true hlead] at hleads
        exact (hsolves.leads hleads).symm
      · split at hr
        · obtain ⟨occurs, -, hocc⟩ := Option.map_eq_some_iff.1 hr
          cases occurs with
          | true => cases hocc
          | false => exact hbind (Option.some.inj hocc).symm
        · exact hbind (Option.some.inj (Option.some.inj hr)).symm

theorem grounds_iff_of_allPairsWithin {xs ys : List Term} (hγ : γ.Solves s')
    (h : ∀ s s' x y, s.WellFormed → ex < s.envs.size → ey < s.envs.size → γ.Solves s' →
      unifyWithin n x ex y ey s = some (some s') → (γ.Grounds x ex ↔ γ.Grounds y ey))
    (hs : s.WellFormed) (hx : ex < s.envs.size) (hy : ey < s.envs.size) (hlen : xs.length = ys.length)
    (hr : allPairsWithin (fun x y => unifyWithin n x ex y ey) xs ys s = some (some s')) :
    (∀ x ∈ xs, γ.Grounds x ex) ↔ ∀ y ∈ ys, γ.Grounds y ey := by
  induction xs generalizing ys s with
  | nil =>
    cases ys with
    | nil => simp
    | cons y ys => cases hlen
  | cons x xs ih =>
    cases ys with
    | nil => cases hlen
    | cons y ys =>
      have hlen' : xs.length = ys.length := Nat.succ.inj hlen
      unfold allPairsWithin at hr
      split at hr
      · rename_i s₁ hs₁
        obtain ⟨hwf, hsize, -⟩ := hs.unifyWithin hx hy hs₁
        have hγ₁ := hγ.of_below (Store.allPairsWithin_extends hlen' hr).isBelow
        rw [List.forall_mem_cons, List.forall_mem_cons, h s s₁ x y hs hx hy hγ₁ hs₁,
          ih hwf (hsize ▸ hx) (hsize ▸ hy) hlen' hr]
      · rename_i hne
        exact absurd hr (hne s')

theorem grounds_iff_of_unifyWithin (hγ : γ.Solves s') (hs : s.WellFormed) (hx : ex < s.envs.size) (hy : ey < s.envs.size)
    (hr : unifyWithin n x ex y ey s = some (some s')) : γ.Grounds x ex ↔ γ.Grounds y ey := by
  induction n generalizing x ex y ey s s' with
  | zero => cases hr
  | succ n ih =>
    have hsolves : γ.Solves s := hγ.of_below (hs.unifyWithin hx hy hr).2.2.isBelow
    have ih' (x ex y ey) (hx : ex < s.envs.size) (hy : ey < s.envs.size)
        (hr : unifyWithin n x ex y ey s = some (some s')) := ih hγ hs hx hy hr
    cases x with
    | var v => exact grounds_iff_of_unifyVarWithin hγ hsolves ih' hs hx hy hr
    | sym a =>
      cases y with
      | var w => exact (grounds_iff_of_unifyVarWithin hγ hsolves ih' hs hy hx hr).symm
      | sym b => exact iff_of_true grounds_sym grounds_sym
      | compound g ys => cases hr
    | compound f xs =>
      cases y with
      | var w => exact (grounds_iff_of_unifyVarWithin hγ hsolves ih' hs hy hx hr).symm
      | sym b => cases hr
      | compound g ys =>
        unfold unifyWithin at hr
        split at hr
        · rename_i hfg
          rw [grounds_compound, grounds_compound]
          exact grounds_iff_of_allPairsWithin hγ (fun s s' x y hs hx hy hγ hr => ih hγ hs hx hy hr) hs hx hy hfg.2 hr
        · cases hr

/-- Terms that were made equal are ground in the same solutions. -/
theorem Solves.grounds_iff (hγ : γ.Solves s') (hs : s.WellFormed) (hx : ex < s.envs.size) (hy : ey < s.envs.size)
    (h : s.unify x ex y ey = (true, s')) : γ.Grounds x ex ↔ γ.Grounds y ey :=
  grounds_iff_of_unifyWithin hγ hs hx hy (Store.unifyWithin_of_unify h)

end Unification

end Grounding

/-! ### Variables that are settled -/

namespace Store

variable {s s' final : Store} {v : String} {env target : EnvId} {t u : Term} {n : Nat} {F : Form}
  {names names' : NameSupply}   {st st' : Store × NameSupply}

/-- The variable has a ground value: the term that it is bound to has settled variables only. -/
inductive Settles (s : Store) : String → EnvId → Prop
  | intro {v : String} {env : EnvId} {c : Closure} (hc : s.lookup v env = some c)
    (h : ∀ w ∈ c.term.vars, Settles s w c.env) : Settles s v env

theorem solves_settles (s : Store) : Grounding.Solves s.Settles s := by
  intro v env c hc
  constructor
  · rintro ⟨hd, h⟩
    rw [hc] at hd
    cases hd
    exact h
  · exact fun h => .intro hc h

theorem Settles.mono (h : s.Settles v env) (hs : s.Below s') : s'.Settles v env := by
  induction h with
  | intro hc _ ih => exact .intro (hs _ _ _ hc) ih

/-! ### Plugging -/

/-- The term, read in the environment, becomes this term when bindings are applied; open variables keep their names. -/
def Shows (s : Store) (t : Term) (env : EnvId) (u : Term) : Prop :=
  ∃ F, s.HasForm t env F ∧ F.eval (fun v _ => .var v) = u

theorem shows_var_of_bound {c : Closure} (hc : s.lookup v env = some c) :
    s.Shows (.var v) env u ↔ s.Shows c.term c.env u := by
  unfold Shows
  simp only [HasForm.of_bound hc]

theorem shows_var_of_unbound (hv : s.lookup v env = none) : s.Shows (.var v) env (.var v) :=
  ⟨_, (HasForm.of_unbound hv).2 rfl, rfl⟩

theorem shows_compound {f : String} {ts us : List Term} (h : List.Forall₂ (s.Shows · env ·) ts us) :
    s.Shows (.compound f ts) env (.compound f us) := by
  have hforms : ∃ Fs, List.Forall₂ (s.HasForm · env ·) ts Fs ∧ Fs.map (Form.eval fun v _ => .var v) = us := by
    induction h with
    | nil => exact ⟨[], .nil, rfl⟩
    | cons ht _ ih =>
      obtain ⟨F, hF, rfl⟩ := ht
      obtain ⟨Fs, hFs, rfl⟩ := ih
      exact ⟨F :: Fs, .cons hF hFs, rfl⟩
  obtain ⟨Fs, hFs, rfl⟩ := hforms
  exact ⟨_, HasForm.compound hFs, by rw [Form.eval, Form.evalList_eq]⟩

/-- What the terms of an environment become are instances of them, by the same values for their variables. -/
theorem shows_instances (s : Store) (env : EnvId) :
    ∃ σ : String → Term, ∀ t u, s.Shows t env u → u = t.instantiate σ := by
  -- A variable has a form or it has none, and that is not decided by the store.
  classical
  let η : Valuation := fun v _ => .var v
  let θ : Valuation := fun v e => if h : ∃ F, s.HasForm (.var v) e F then h.choose.eval η else .var v
  refine ⟨fun v => θ v env, fun t u ⟨F, hF, hu⟩ => ?_⟩
  have hθ (v : String) (G : Form) (hG : s.HasForm (.var v) env G) : θ v env = G.eval η := by
    have hsome : ∃ F, s.HasForm (.var v) env F := ⟨G, hG⟩
    have hchoice : θ v env = hsome.choose.eval η := dif_pos hsome
    rw [hchoice, hsome.choose_spec.unique hG]
  rw [← Valuation.read_eq_instantiate, HasForm.read_eq hθ t hF, ← hu]

/-- No invented name is bound in the environment. -/
def Spares (s : Store) (env : EnvId) : Prop := ∀ n : Nat, s.lookup s!"V{n}" env = none

/-- The variables are settled or open in the target environment, or else no name that is invented there is bound. -/
def PlugsApart (s : Store) (target env : EnvId) (t : Term) : Prop :=
  s.Spares target ∨ ∀ v ∈ t.vars, s.Settles v env ∨ env = target ∧ s.lookup v env = none

theorem PlugsApart.renames (h : s.PlugsApart target env t) (hren : Renames target (s, names) (s', names')) :
    s'.PlugsApart target env t := by
  refine h.imp (fun hs n => (hren.kept _).trans (hs n)) fun ht v hv => ?_
  refine (ht v hv).imp (fun hsettles => hsettles.mono hren.isExtension.isBelow) ?_
  rintro ⟨rfl, hfree⟩
  exact ⟨rfl, (hren.kept v).trans hfree⟩

theorem WellFormed.of_plugWithin (hs : s.WellFormed) (htarget : target < s.envs.size) (henv : env < s.envs.size)
    (h : plugWithin target n env t (s, names) = some (u, st)) : st.1.WellFormed ∧ st.1.envs.size = s.envs.size := by
  have hst : (s, names).1.WellFormed ∧ (s, names).1.envs.size = s.envs.size := ⟨hs, rfl⟩
  have hkept := plugAt_keeps (WellFormed.keepsRenaming htarget) n t hst henv
  rwa [plugAt_of_within h] at hkept

theorem shows_of_plugAll {k : Nat} {ts us : List Term} (htarget : target < k) (henv : env < k)
    (h : ∀ {t u s names s' names'}, s.WellFormed → s.envs.size = k → s.PlugsApart target env t →
      plugWithin target n env t (s, names) = some (u, (s', names')) → s'.Extends final →
      (∀ v, final.lookup v target = s'.lookup v target) → final.Shows t env u)
    (hs : s.WellFormed) (hk : s.envs.size = k) (hts : ∀ t ∈ ts, s.PlugsApart target env t)
    (hus : threadMapWithin (plugWithin target n env) ts (s, names) = some (us, (s', names'))) (hext : s'.Extends final)
    (hkept : ∀ v, final.lookup v target = s'.lookup v target) : List.Forall₂ (final.Shows · env ·) ts us := by
  induction ts generalizing s names us with
  | nil =>
    cases hus
    exact .nil
  | cons t ts ih =>
    simp only [threadMapWithin, Option.bind_eq_bind, Option.bind_eq_some_iff, Option.pure_def, Option.some.injEq] at hus
    obtain ⟨⟨u, s₁, names₁⟩, hu, ⟨us', s₂, names₂⟩, hus', heq⟩ := hus
    cases heq
    rw [List.forall_mem_cons] at hts
    have hren := Renames.of_plugWithin hu
    have hren' := Renames.of_threadMapWithin hus'
    obtain ⟨hwf, hsize⟩ := hs.of_plugWithin (hk ▸ htarget) (hk ▸ henv) hu
    refine .cons ?_ (ih hwf (hsize.trans hk) (fun t ht => (hts.2 t ht).renames hren) hus')
    exact h hs hk hts.1 hu (hren'.isExtension.trans hext) fun v => (hkept v).trans (hren'.kept v)

/-- Plugging makes a term what it becomes by the bindings that there are afterwards, renamed variables included. -/
theorem shows_of_plugWithin (hs : s.WellFormed) (htarget : target < s.envs.size) (henv : env < s.envs.size)
    (ht : s.PlugsApart target env t) (h : plugWithin target n env t (s, names) = some (u, (s', names')))
    (hext : s'.Extends final) (hkept : ∀ v, final.lookup v target = s'.lookup v target) : final.Shows t env u := by
  induction n generalizing env t u s names s' names' with
  | zero => cases h
  | succ n ih =>
    cases t with
    | sym a =>
      cases h
      exact ⟨_, HasForm.of_sym.2 rfl, rfl⟩
    | var v =>
      have hren := Renames.of_plugWithin h
      unfold plugWithin at h
      cases hv : s.lookup v env with
      | some c =>
        simp only [hv] at h
        rw [shows_var_of_bound (hext.lookup (hren.isExtension.lookup hv))]
        refine ih hs htarget (hs.closed hv) ?_ h hext hkept
        -- The value of a settled variable is settled, whichever environment it stands in.
        refine ht.imp_right fun ht w hw => .inl ?_
        rcases ht v (Term.mem_vars_var.2 rfl) with ⟨hc, hsettles⟩ | ⟨-, hnone⟩
        · rw [hv] at hc
          cases hc
          exact hsettles w hw
        · rw [hv] at hnone
          cases hnone
      | none =>
        simp only [hv] at h
        by_cases hne : env = target
        · rw [if_pos hne] at h
          cases h
          subst hne
          exact shows_var_of_unbound ((hkept v).trans hv)
        · -- The variable is bound to an invented one, which must not be bound in the target environment.
          rw [if_neg hne] at h
          cases h
          have hspares : s.Spares target := by
            refine ht.resolve_right fun ht => ?_
            rcases ht v (Term.mem_vars_var.2 rfl) with ⟨hc, -⟩ | ⟨heq, -⟩
            · rw [hv] at hc
              cases hc
            · exact hne heq
          have hbound : (s.bind v env ⟨names.freshVar.1, target⟩).lookup v env = some ⟨names.freshVar.1, target⟩ := by
            rw [lookup_bind henv, if_pos ⟨rfl, rfl⟩]
          rw [shows_var_of_bound (hext.lookup hbound)]
          exact shows_var_of_unbound ((hkept _).trans ((hren.kept _).trans (hspares _)))
    | compound f args =>
      simp only [plugWithin, Option.bind_eq_bind, Option.bind_eq_some_iff, Option.pure_def, Option.some.injEq] at h
      obtain ⟨⟨us, st₁⟩, hus, heq⟩ := h
      cases heq
      refine shows_compound (shows_of_plugAll (k := s.envs.size) htarget henv ?_ hs rfl (fun a ha => ?_) hus hext hkept)
      · intro t u s₁ names s' names' hs₁ hk ht h hext hkept
        exact ih hs₁ (hk ▸ htarget) (hk ▸ henv) ht h hext hkept
      · exact ht.imp_right fun ht v hv => ht v (Term.mem_vars_compound.2 ⟨a, ha, hv⟩)

theorem plugAll_of_settles {ts us : List Term}
    (hus : threadMapWithin (plugWithin target n env) ts (s, names) = some (us, st))
    (h : ∀ {t u}, (∀ v ∈ t.vars, s.Settles v env) → ∀ {st}, plugWithin target n env t (s, names) = some (u, st) →
      st = (s, names) ∧ u.isGround = true)
    (hts : ∀ t ∈ ts, ∀ v ∈ t.vars, s.Settles v env) : st = (s, names) ∧ ∀ u ∈ us, u.isGround = true := by
  induction ts generalizing us st with
  | nil =>
    cases hus
    exact ⟨rfl, fun _ hu => by cases hu⟩
  | cons t ts ih =>
    simp only [threadMapWithin, Option.bind_eq_bind, Option.bind_eq_some_iff, Option.pure_def, Option.some.injEq] at hus
    obtain ⟨⟨u, st₁⟩, hu, ⟨us', st₂⟩, hus', heq⟩ := hus
    cases heq
    rw [List.forall_mem_cons] at hts
    obtain ⟨rfl, hground⟩ := h hts.1 hu
    obtain ⟨rfl, hall⟩ := ih hus' hts.2
    exact ⟨rfl, List.forall_mem_cons.2 ⟨hground, hall⟩⟩

/-- What is settled becomes ground, and no names are invented for that. -/
theorem plugWithin_of_settles (h : plugWithin target n env t (s, names) = some (u, st))
    (ht : ∀ v ∈ t.vars, s.Settles v env) : st = (s, names) ∧ u.isGround = true := by
  induction n generalizing env t u st with
  | zero => cases h
  | succ n ih =>
    cases t with
    | sym a =>
      cases h
      exact ⟨rfl, rfl⟩
    | var v =>
      obtain ⟨hc, hsettles⟩ := ht v (Term.mem_vars_var.2 rfl)
      simp only [plugWithin, hc] at h
      exact ih h hsettles
    | compound f args =>
      simp only [plugWithin, Option.bind_eq_bind, Option.bind_eq_some_iff, Option.pure_def, Option.some.injEq] at h
      obtain ⟨⟨us, st₁⟩, hus, heq⟩ := h
      cases heq
      obtain ⟨rfl, hground⟩ := plugAll_of_settles hus (fun ht _ hu => ih hu ht) fun t ht' v hv =>
        ht v (Term.mem_vars_compound.2 ⟨t, ht', hv⟩)
      rw [Term.isGround, Term.allGround_eq, List.all_eq_true]
      exact ⟨rfl, hground⟩

/-! ### Variables that may be bound -/

/-- May the variable be bound, or stand in a value? Of the variables of the query these are the given ones, of the others
all that are not spelled like invented ones, or just all if there are no aggregates. -/
def Admits (agg : Bool) (A : List String) (env : EnvId) (v : String) : Prop :=
  (env = Search.queryEnv → v ∈ A) ∧ (agg = true → env ≠ Search.queryEnv → ∀ n : Nat, v ≠ s!"V{n}")

/-- Only variables that may be bound stand in the term. -/
def AdmitsTerm (agg : Bool) (A : List String) (t : Term) (env : EnvId) : Prop := ∀ v ∈ t.vars, Admits agg A env v

/-- Only variables that may be bound are bound, or stand in values. -/
structure KeepsTo (agg : Bool) (A : List String) (s : Store) : Prop where
  wellFormed : s.WellFormed
  bound : ∀ {v env c}, s.lookup v env = some c → Admits agg A env v
  value : ∀ {v env c}, s.lookup v env = some c → AdmitsTerm agg A c.term c.env

variable {agg : Bool} {A B : List String}

theorem Admits.mono (h : Admits agg A env v) (hA : ∀ w ∈ A, w ∈ B) : Admits agg B env v :=
  ⟨fun henv => hA v (h.1 henv), h.2⟩

theorem admitsTerm_of_isGround (h : t.isGround = true) : AdmitsTerm agg A t env :=
  fun v hv => absurd hv ((Term.isGround_iff t).1 h v)

theorem admitsTerm_of_query (h : ∀ v ∈ t.vars, v ∈ A) : AdmitsTerm agg A t Search.queryEnv :=
  fun v hv => ⟨fun _ => h v hv, fun _ hne => absurd rfl hne⟩

theorem admitsTerm_of_ne (henv : env ≠ Search.queryEnv) (h : agg = true → ∀ v ∈ t.vars, ∀ n : Nat, v ≠ s!"V{n}") :
    AdmitsTerm agg A t env :=
  fun v hv => ⟨fun heq => absurd heq henv, fun hagg _ => h hagg v hv⟩

namespace KeepsTo

theorem of_empty (agg : Bool) (A : List String) (occursCheck : Bool) : KeepsTo agg A { occursCheck } where
  wellFormed := wellFormed_empty occursCheck
  bound h := by simp [lookup] at h
  value h := by simp [lookup] at h

theorem newEnv (h : s.KeepsTo agg A) : s.newEnv.2.KeepsTo agg A where
  wellFormed := h.wellFormed.newEnv
  bound hc := h.bound (lookup_newEnv s ▸ hc)
  value hc := h.value (lookup_newEnv s ▸ hc)

theorem mono (h : s.KeepsTo agg A) (hA : ∀ w ∈ A, w ∈ B) : s.KeepsTo agg B where
  wellFormed := h.wellFormed
  bound hc := (h.bound hc).mono hA
  value hc v hv := (h.value hc v hv).mono hA

/-- Unification keeps to the variables that may be bound. -/
theorem keeps (agg : Bool) (A : List String) (k : Nat) :
    Keeps (fun t env => AdmitsTerm agg A t env ∧ env < k) fun s => s.KeepsTo agg A ∧ s.envs.size = k where
  arg h ht := ⟨fun v hv => h.1 v (Term.mem_vars_compound.2 ⟨_, ht, hv⟩), h.2⟩
  value h _ hc := ⟨h.1.value hc, h.2 ▸ h.1.wellFormed.closed hc⟩
  bind {s v env c} h hv hc hnone _ _ := by
    obtain ⟨hs, hk⟩ := h
    refine ⟨⟨hs.wellFormed.bind (hk.symm ▸ hc.2), fun {w e d} hd => ?_, fun {w e d} hd => ?_⟩, by rw [size_envs_bind, hk]⟩
    all_goals
      rw [lookup_bind (hk.symm ▸ hv.2)] at hd
      split at hd
    · rename_i hw
      obtain ⟨rfl, rfl⟩ := hw
      exact hv.1 w (Term.mem_vars_var.2 rfl)
    · exact hs.bound hd
    · cases hd
      exact hc.1
    · exact hs.value hd

theorem unify {x y : Term} {ex ey : EnvId} (h : s.KeepsTo agg A) (hx : AdmitsTerm agg A x ex)
    (hy : AdmitsTerm agg A y ey) (hex : ex < s.envs.size) (hey : ey < s.envs.size) (hr : s.unify x ex y ey = (true, s')) :
    s'.KeepsTo agg A := by
  have hkept := (unify_keeps (keeps agg A s.envs.size) ⟨h, rfl⟩ ⟨hx, hex⟩ ⟨hy, hey⟩).1
  rwa [hr] at hkept

/-- Elsewhere than in the query, no invented name is bound. -/
theorem spares (h : s.KeepsTo agg A) (hagg : agg = true) (henv : env ≠ Search.queryEnv) : s.Spares env := by
  intro n
  cases hc : s.lookup s!"V{n}" env with
  | none => rfl
  | some c => exact absurd rfl ((h.bound hc).2 hagg henv n)

/-- In the query, other variables are open. -/
theorem lookup_eq_none (h : s.KeepsTo agg A) (hv : v ∉ A) : s.lookup v Search.queryEnv = none := by
  cases hc : s.lookup v Search.queryEnv with
  | none => rfl
  | some c => exact absurd ((h.bound hc).1 rfl) hv

end KeepsTo

end Store

end Deduction
