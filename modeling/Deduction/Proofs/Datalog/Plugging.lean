import Deduction.Proofs.Datalog.Program
import Deduction.Proofs.Store.Flat
import Deduction.Proofs.Store.Renaming

/-!
# Plugging in flat stores

Plugging a goal in a flat store gives a term whose instances are the values of the goal: those that valuations which
respect the store give it (`Flat.plug_instances`). The variables that are invented for it must be new, and plugging
must not be cut off by the end of the allowance.
-/

namespace Deduction.Store

variable {U : Term → Prop} {Q : String → Prop} {target : EnvId} {s s' final : Store} {v w : String} {env : EnvId}
  {t u : Term} {n k bound : Nat} {names names' : NameSupply} {st st' : Store × NameSupply}

/-! ### Flat stores with invented variables -/

/-- A variable from the set, or one that was invented before the next one. -/
def IsKnown (Q : String → Prop) (names : NameSupply) (v : String) : Prop := Q v ∨ ∃ n, n ≤ names.issued ∧ v = s!"V{n}"

/-- No variable of the set will be invented. -/
def IsNew (Q : String → Prop) (names : NameSupply) : Prop :=
  ∀ n, names.issued < n → n < UInt64.size → ¬ Q s!"V{n}"

theorem not_isKnown {start : NameSupply} (hnew : IsNew Q start) (hstart : start.issued ≤ names.issued)
    (h : names.issued + 1 < UInt64.size) : ¬ IsKnown Q names s!"V{names.issued + 1}" := by
  rintro (hQ | ⟨n, hn, heq⟩)
  · exact hnew _ (Nat.lt_succ_of_le hstart) h hQ
  · have := freshName_injective heq
    omega

/-- What holds while a term is plugged, as long as the numbers of the invented variables fit into 64 bits: the store
is flat, and a valuation that respects it differs from the given one in invented variables only. -/
structure Plugging (U : Term → Prop) (Q : String → Prop) (target : EnvId) (start : NameSupply) (k : Nat) (θ : Valuation)
    (st : Store × NameSupply) : Prop where
  start_le : start.issued ≤ st.2.issued
  flat : st.1.Flat U (IsKnown Q st.2) target
  size : st.1.envs.size = k
  valuation : ∃ η : Valuation, η.Respects st.1 ∧ (∀ v env, U (η v env)) ∧
    ∀ v env, (env = target → Q v) → η v env = θ v env

variable {start : NameSupply} {θ η : Valuation}

namespace Plugging

theorem not_known (h : Plugging U Q target start k θ (s, names)) (hnew : IsNew Q start)
    (hsize : names.issued + 1 < UInt64.size) : ¬ IsKnown Q names s!"V{names.issued + 1}" :=
  not_isKnown hnew h.start_le hsize

/-- The next invented variable is not bound yet. -/
theorem lookup_fresh (h : Plugging U Q target start k θ (s, names)) (hnew : IsNew Q start)
    (hsize : names.issued + 1 < UInt64.size) : s.lookup s!"V{names.issued + 1}" target = none := by
  cases hv : s.lookup s!"V{names.issued + 1}" target with
  | none => rfl
  | some c => exact absurd (h.flat.bound hv) (h.not_known hnew hsize)

/-- The value of a variable becomes that of the variable invented for it. -/
theorem valuation_bind (h : Plugging U Q target start k θ (s, names)) (hnew : IsNew Q start)
    (hsize : names.issued + 1 < UInt64.size) (henv : env < k) (hne : env ≠ target) (hv : s.lookup v env = none) :
    ∃ η : Valuation, η.Respects (s.bind v env ⟨names.freshVar.1, target⟩) ∧ (∀ v env, U (η v env)) ∧
      ∀ v env, (env = target → Q v) → η v env = θ v env := by
  obtain ⟨η, hη, hU, heq⟩ := h.valuation
  have hfresh := h.not_known hnew hsize
  let η' : Valuation := fun w e => if w = s!"V{names.issued + 1}" ∧ e = target then η v env else η w e
  have hother (w : String) (e : EnvId) (hw : ¬ (w = s!"V{names.issued + 1}" ∧ e = target)) : η' w e = η w e := if_neg hw
  have hread {u : Term} {e : EnvId} (hu : IsArgument U (IsKnown Q names) target u e) : η'.read e u = η.read e u := by
    cases u with
    | var w =>
      refine hother w e fun hw => hfresh ?_
      exact hw.1 ▸ hu hw.2
    | sym a => rfl
    | compound f args => cases hu
  refine ⟨η', (Valuation.respects_bind hv (h.size.symm ▸ henv)).2 ⟨fun w e c hc => ?_, ?_⟩, fun w e => ?_,
    fun w e hw => ?_⟩
  · rw [hread (h.flat.value hc), ← hη w e c hc]
    refine hother w e ?_
    rintro ⟨rfl, rfl⟩
    exact hfresh (h.flat.bound hc)
  · rw [hother v env fun hc => hne hc.2]
    exact (if_pos ⟨rfl, rfl⟩ : η' s!"V{names.issued + 1}" target = η v env).symm
  · by_cases hw : w = s!"V{names.issued + 1}" ∧ e = target
    · have hval : η' w e = η v env := if_pos hw
      exact hval ▸ hU v env
    · exact hother w e hw ▸ hU w e
  · rw [← heq w e hw]
    refine hother w e ?_
    rintro ⟨rfl, rfl⟩
    exact hfresh (Or.inl (hw rfl))

theorem bind (h : Plugging U Q target start k θ (s, names)) (hnew : IsNew Q start)
    (hsize : names.issued + 1 < UInt64.size) (htarget : target < k) (henv : env < k) (hne : env ≠ target)
    (hv : s.lookup v env = none) :
    Plugging U Q target start k θ (s.bind v env ⟨names.freshVar.1, target⟩, names.freshVar.2) := by
  have hmono (w : String) (hw : IsKnown Q names w) : IsKnown Q names.freshVar.2 w := by
    rcases hw with hw | ⟨n, hn, rfl⟩
    · exact Or.inl hw
    · exact Or.inr ⟨n, Nat.le_succ_of_le hn, rfl⟩
  have hend : s.leadsTo names.freshVar.1 target v env = false := by
    have hfree : ¬ s.IsBound ⟨names.freshVar.1, target⟩ := by
      intro hb
      obtain ⟨d, hd⟩ := isBound_var.1 hb
      have hnone := h.lookup_fresh hnew hsize
      rw [hd] at hnone
      cases hnone
    have hself : s.Leads ⟨names.freshVar.1, target⟩ ⟨names.freshVar.1, target⟩ := ⟨0, .refl _⟩
    have hresolve := hself.resolve_eq h.flat.wellFormed hfree
    unfold leadsTo
    rw [decide_eq_false_iff_not]
    intro heq
    rw [hresolve] at heq
    exact hne (congrArg Closure.env heq).symm
  refine ⟨Nat.le_succ_of_le h.start_le, ?_, by rw [size_envs_bind, h.size],
    h.valuation_bind hnew hsize henv hne hv⟩
  exact (h.flat.mono hmono).bind hv (fun hc => absurd hc hne) (fun _ => Or.inr ⟨names.issued + 1, Nat.le_refl _, rfl⟩)
    (h.size.symm ▸ htarget) hend

theorem keepsRenaming (hnew : IsNew Q start) (htarget : target < k) :
    KeepsRenaming (· < k) target fun st => (st.1.WellFormed ∧ st.1.envs.size = k) ∧
      (st.2.issued < UInt64.size → Plugging U Q target start k θ st) where
  value h henv hv := (WellFormed.keepsRenaming htarget).value h.1 henv hv
  bind h henv hne hv := ⟨(WellFormed.keepsRenaming htarget).bind h.1 henv hne hv, fun hsize =>
    (h.2 (Nat.lt_of_succ_lt hsize)).bind hnew hsize htarget henv hne hv⟩

theorem of_plugWithin (h : Plugging U Q target start k θ st) (hnew : IsNew Q start) (htarget : target < k)
    (henv : env < k) (hplug : plugWithin target n env t st = some (u, st')) (hsize : st'.2.issued < UInt64.size) :
    Plugging U Q target start k θ st' := by
  have hst : (st.1.WellFormed ∧ st.1.envs.size = k) ∧ (st.2.issued < UInt64.size → Plugging U Q target start k θ st) :=
    ⟨⟨h.flat.wellFormed, h.size⟩, fun _ => h⟩
  have hkept := plugAt_keeps (keepsRenaming hnew htarget) n t hst henv
  rw [plugAt_of_within hplug] at hkept
  exact hkept.2 hsize

end Plugging

/-! ### Values and instances -/

/-- Valuations give the plugged term, read in the target environment, the value of the term; and they give it the same
value if they agree in its unbound variables. -/
structure Plugged (final : Store) (target env : EnvId) (t u : Term) : Prop where
  read_eq : ∀ θ : Valuation, θ.Respects final → θ.read env t = θ.read target u
  congr : ∀ θ η : Valuation, (∀ v, final.lookup v target = none → θ v target = η v target) →
    θ.read target u = η.read target u

theorem plugged_compound {f : String} {ts us : List Term} (h : List.Forall₂ (Plugged final target env) ts us) :
    Plugged final target env (.compound f ts) (.compound f us) := by
  constructor
  · intro θ hθ
    rw [Valuation.read_compound, Valuation.read_compound]
    congr 1
    induction h with
    | nil => rfl
    | cons hu _ ih => rw [List.map_cons, List.map_cons, hu.read_eq θ hθ, ih]
  · intro θ η heq
    rw [Valuation.read_compound, Valuation.read_compound]
    congr 1
    induction h with
    | nil => rfl
    | cons hu _ ih => rw [List.map_cons, List.map_cons, hu.congr θ η heq, ih]

theorem plugged_all (hnew : IsNew Q start) (htarget : target < k) (henv : env < k)
    (h : ∀ {t u st st'}, Plugging U Q target start k θ st → plugWithin target n env t st = some (u, st') →
      st'.2.issued < UInt64.size → Extends st'.1 final → (∀ v, final.lookup v target = st'.1.lookup v target) →
      Plugged final target env t u) {ts us : List Term} (hst : Plugging U Q target start k θ st)
    (hus : threadMapWithin (plugWithin target n env) ts st = some (us, st')) (hsize : st'.2.issued < UInt64.size)
    (hext : Extends st'.1 final) (hkept : ∀ v, final.lookup v target = st'.1.lookup v target) :
    List.Forall₂ (Plugged final target env) ts us := by
  induction ts generalizing st us with
  | nil =>
    cases hus
    exact .nil
  | cons t ts ih =>
    simp only [threadMapWithin, Option.bind_eq_bind, Option.bind_eq_some_iff, Option.pure_def, Option.some.injEq] at hus
    obtain ⟨⟨u, st₁⟩, hu, ⟨us', st₂⟩, hus', heq⟩ := hus
    cases heq
    have hren := Renames.of_threadMapWithin hus'
    have hsize₁ : st₁.2.issued < UInt64.size := Nat.lt_of_le_of_lt hren.issued_le hsize
    refine .cons ?_ (ih (hst.of_plugWithin hnew htarget henv hu hsize₁) hus')
    exact h hst hu hsize₁ (hren.isExtension.trans hext) fun v => (hkept v).trans (hren.kept v)

theorem plugged_of_within (hst : Plugging U Q target start k θ st) (hnew : IsNew Q start) (htarget : target < k)
    (henv : env < k) (h : plugWithin target n env t st = some (u, st')) (hsize : st'.2.issued < UInt64.size)
    (hext : Extends st'.1 final) (hkept : ∀ v, final.lookup v target = st'.1.lookup v target) :
    Plugged final target env t u := by
  induction n generalizing env t u st st' with
  | zero => cases h
  | succ n ih =>
    obtain ⟨s, names⟩ := st
    cases t with
    | sym a =>
      cases h
      exact ⟨fun _ _ => rfl, fun _ _ _ => rfl⟩
    | var v =>
      have hren := Renames.of_plugWithin h
      unfold plugWithin at h
      cases hv : s.lookup v env with
      | some c =>
        simp only [hv] at h
        have hc : c.env < k := hst.size ▸ hst.flat.wellFormed.closed hv
        have hplugged := ih hst hc h hsize hext hkept
        refine ⟨fun θ hθ => ?_, hplugged.congr⟩
        rw [← hplugged.read_eq θ hθ]
        exact hθ v env c (hext.lookup (hren.isExtension.lookup hv))
      | none =>
        simp only [hv] at h
        by_cases hne : env = target
        · rw [if_pos hne] at h
          cases h
          subst hne
          exact ⟨fun _ _ => rfl, fun _ _ heq => heq v ((hkept v).trans hv)⟩
        · rw [if_neg hne] at h
          cases h
          have hbound : (s.bind v env ⟨names.freshVar.1, target⟩).lookup v env = some ⟨names.freshVar.1, target⟩ := by
            rw [lookup_bind (hst.size.symm ▸ henv), if_pos ⟨rfl, rfl⟩]
          refine ⟨fun θ hθ => hθ v env _ (hext.lookup hbound), fun _ _ heq => heq _ ?_⟩
          rw [hkept, hren.kept]
          exact hst.lookup_fresh hnew hsize
    | compound f args =>
      simp only [plugWithin, Option.bind_eq_bind, Option.bind_eq_some_iff, Option.pure_def, Option.some.injEq] at h
      obtain ⟨⟨us, st₁⟩, hus, heq⟩ := h
      cases heq
      exact plugged_compound (plugged_all hnew htarget henv
        (fun hst hu hsize hext hkept => ih hst henv hu hsize hext hkept) hst hus hsize hext hkept)

/-- The instances of a plugged goal are the values of the goal. -/
theorem Flat.plug_instances (hs : s.Flat U Q target) (hnew : IsNew Q names) (ht : IsFlatGoal U Q target t target)
    (htarget : target < s.envs.size)
    (h : plugWithin target n target t (s, names) = some (u, (s', names'))) (hsize : names'.issued < UInt64.size)
    (a : Term) :
    (∃ σ : String → Term, (∀ v, U (σ v)) ∧ u.instantiate σ = a) ↔
      ∃ θ : Valuation, θ.Respects s ∧ (∀ v env, U (θ v env)) ∧ θ.read target t = a := by
  have hstart (θ : Valuation) (hθ : θ.Respects s) (hU : ∀ v env, U (θ v env)) :
      Plugging U Q target names s.envs.size θ (s, names) :=
    ⟨Nat.le_refl _, hs.mono fun v hv => Or.inl hv, rfl, θ, hθ, hU, fun _ _ _ => rfl⟩
  have hren := Renames.of_plugWithin h
  constructor
  · rintro ⟨σ, hσ, rfl⟩
    obtain ⟨θ₀, hθ₀, hU₀, -⟩ := hs.exists_valuation (η := fun v _ => σ v) fun v _ => hσ v
    have hend := (hstart θ₀ hθ₀ hU₀).of_plugWithin hnew htarget htarget h hsize
    obtain ⟨θ, hθ, hU, hfree⟩ := hend.flat.exists_valuation (η := fun v _ => σ v) fun v _ => hσ v
    have hplugged := plugged_of_within (hstart θ₀ hθ₀ hU₀) hnew htarget htarget h hsize .refl fun _ => rfl
    refine ⟨θ, hθ.of_extends hren.isExtension, hU, ?_⟩
    rw [hplugged.read_eq θ hθ, hplugged.congr θ (fun v _ => σ v) fun v hv => hfree v target hv,
      Valuation.read_eq_instantiate]
  · rintro ⟨θ, hθ, hU, rfl⟩
    have hend := (hstart θ hθ hU).of_plugWithin hnew htarget htarget h hsize
    obtain ⟨η, hη, hU', heq⟩ := hend.valuation
    have hplugged := plugged_of_within (hstart θ hθ hU) hnew htarget htarget h hsize .refl fun _ => rfl
    refine ⟨fun v => η v target, fun v => hU' v target, ?_⟩
    rw [← Valuation.read_eq_instantiate, ← hplugged.read_eq η hη]
    exact ht.read_eq heq

end Deduction.Store
