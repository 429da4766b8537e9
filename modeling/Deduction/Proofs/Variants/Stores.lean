import Deduction.Proofs.Store.Allowance
import Deduction.Proofs.Store.Chains
import Deduction.Proofs.Theory.Index
import Deduction.Proofs.Variants.Terms

/-!
# Stores with other variables

A naming gives every environment of a store a permutation of the names of its variables. What is done with a store
commutes with the naming: going back, following bindings, unification (`Store.unify_relabel`). Plugging does if it stays
within the allowance, and if the names that it invents are those of the target environment as well
(`Store.plug_relabel`): a term that is cut off there is put into the target environment with its own variables.

A store is in scope of the first environments if no other naming of the others makes a difference (`Store.Scoped`).
-/

namespace Deduction

/-- Other names for the variables of every environment. -/
abbrev Naming := EnvId → Equiv.Perm String

variable {ρ ρ' : Naming} {π : Equiv.Perm String} {v w : String} {t x y : Term} {e ex ey target : EnvId}

/-- The closure with other variables. -/
def Closure.relabel (ρ : Naming) (c : Closure) : Closure := ⟨c.term.relabel (ρ c.env), c.env⟩

theorem Closure.relabel_injective (ρ : Naming) : Function.Injective (relabel ρ) := by
  rintro ⟨t, e⟩ ⟨u, f⟩ h
  obtain ⟨hterm, henv⟩ := Closure.mk.inj h
  dsimp only at hterm henv
  subst henv
  rw [Term.relabel_injective _ hterm]

/-- The bindings of an environment with other variables. -/
def Env.relabel (ρ : Naming) (e : EnvId) (env : Env) : Env := env.map fun b => (ρ e b.1, b.2.relabel ρ)

namespace Env

theorem lookup_relabel (env : Env) (e : EnvId) (v : String) :
    List.lookup (ρ e v) (relabel ρ e env) = (List.lookup v env).map (Closure.relabel ρ) := by
  induction env with
  | nil => rfl
  | cons b env ih =>
    obtain ⟨w, c⟩ := b
    change List.lookup (ρ e v) ((ρ e w, c.relabel ρ) :: relabel ρ e env) = _
    have hsame : (ρ e v == ρ e w) = (v == w) := by
      rw [Bool.eq_iff_iff, beq_iff_eq, beq_iff_eq]
      exact (ρ e).injective.eq_iff
    rw [List.lookup_cons, List.lookup_cons, hsame]
    cases v == w with
    | true => rfl
    | false => exact ih

theorem erase_relabel (env : Env) (e : EnvId) (v : String) :
    (relabel ρ e env).erase (ρ e v) = relabel ρ e (env.erase v) := by
  have hkept (b : String × Closure) : decide (ρ e b.1 ≠ ρ e v) = decide (b.1 ≠ v) :=
    decide_eq_decide.2 (not_congr (ρ e).injective.eq_iff)
  unfold erase relabel
  rw [List.filter_map]
  exact congrArg (fun p => (env.filter p).map _) (funext hkept)

theorem insert_relabel (env : Env) (e : EnvId) (v : String) (c : Closure) :
    (relabel ρ e env).insert (ρ e v) (c.relabel ρ) = relabel ρ e (env.insert v c) :=
  congrArg ((ρ e v, c.relabel ρ) :: ·) (erase_relabel env e v)

end Env

namespace Store

variable {s s' : Store} {cp : Checkpoint} {b k : EnvId} {c : Closure} {names : NameSupply} {n : Nat}

/-- The store with other variables. -/
def relabel (ρ : Naming) (s : Store) : Store where
  envs := s.envs.mapIdx (Env.relabel ρ)
  trail := s.trail.map fun p => (p.1, ρ p.1 p.2)
  occursCheck := s.occursCheck

@[simp] theorem size_envs_relabel : (s.relabel ρ).envs.size = s.envs.size := Array.size_mapIdx

@[simp] theorem size_trail_relabel : (s.relabel ρ).trail.size = s.trail.size := Array.size_map

@[simp] theorem checkpoint_relabel : (s.relabel ρ).checkpoint = s.checkpoint := Array.size_map

@[simp] theorem occursCheck_relabel : (s.relabel ρ).occursCheck = s.occursCheck := rfl

theorem lookup_relabel (s : Store) (v : String) (e : EnvId) :
    (s.relabel ρ).lookup (ρ e v) e = (s.lookup v e).map (Closure.relabel ρ) := by
  rw [lookup_eq_bind, lookup_eq_bind]
  unfold relabel
  rw [Array.getElem?_mapIdx]
  cases s.envs[e]? with
  | none => rfl
  | some env => exact Env.lookup_relabel env e v

theorem modify_relabel {envs : Array Env} {f f' : Env → Env}
    (h : ∀ env, f' (Env.relabel ρ e env) = Env.relabel ρ e (f env)) :
    (envs.mapIdx (Env.relabel ρ)).modify e f' = (envs.modify e f).mapIdx (Env.relabel ρ) := by
  apply Array.ext_getElem?
  intro i
  rw [Array.getElem?_modify, Array.getElem?_mapIdx, Array.getElem?_mapIdx, Array.getElem?_modify]
  by_cases hi : e = i
  · subst hi
    rw [if_pos rfl, if_pos rfl]
    cases envs[e]? with
    | none => rfl
    | some env => exact congrArg some (h env)
  · rw [if_neg hi, if_neg hi]

theorem bind_relabel (s : Store) (v : String) (e : EnvId) (c : Closure) :
    (s.relabel ρ).bind (ρ e v) e (c.relabel ρ) = (s.bind v e c).relabel ρ := by
  unfold bind
  rw [size_envs_relabel]
  split
  · unfold relabel
    rw [modify_relabel fun env => Env.insert_relabel env e v c, Array.map_push]
  · rfl

theorem newEnv_relabel (s : Store) : (s.relabel ρ).newEnv = (s.newEnv.1, s.newEnv.2.relabel ρ) := by
  unfold newEnv
  rw [size_envs_relabel]
  unfold relabel
  rw [Array.mapIdx_push]
  rfl

@[simp] theorem relabel_empty (ρ : Naming) (occursCheck : Bool) : relabel ρ { occursCheck } = { occursCheck } := by
  simp [relabel]

/-! ### Going back -/

theorem unbind_relabel (envs : Array Env) (entry : EnvId × String) :
    unbind (envs.mapIdx (Env.relabel ρ)) (entry.1, ρ entry.1 entry.2) =
      (unbind envs entry).mapIdx (Env.relabel ρ) :=
  modify_relabel fun env => Env.erase_relabel env entry.1 entry.2

theorem rollback_relabel (s : Store) (cp : Checkpoint) : (s.relabel ρ).rollback cp = (s.rollback cp).relabel ρ := by
  have hfold (entries : List (EnvId × String)) (envs : Array Env) :
      (entries.map fun p => (p.1, ρ p.1 p.2)).foldl unbind (envs.mapIdx (Env.relabel ρ)) =
        (entries.foldl unbind envs).mapIdx (Env.relabel ρ) := by
    induction entries generalizing envs with
    | nil => rfl
    | cons entry entries ih => rw [List.map_cons, List.foldl_cons, List.foldl_cons, unbind_relabel, ih]
  rw [rollback_eq, rollback_eq]
  unfold relabel
  rw [Array.toList_map, ← List.map_drop, ← List.map_reverse, hfold]
  congr 1
  apply Array.toList_inj.1
  rw [Array.toList_shrink, Array.toList_map, Array.toList_map, Array.toList_shrink, List.map_take]

/-! ### Following bindings -/

theorem resolveAt_relabel (s : Store) (n : Nat) (t : Term) (e : EnvId) :
    (s.relabel ρ).resolveAt n (t.relabel (ρ e)) e = (s.resolveAt n t e).relabel ρ := by
  induction n generalizing t e with
  | zero => rfl
  | succ n ih =>
    cases t with
    | var v =>
      rw [Term.relabel_var, resolveAt, resolveAt, lookup_relabel]
      cases s.lookup v e with
      | none => rfl
      | some c => exact ih c.term c.env
    | sym a => rfl
    | compound f args => simp [resolveAt, Closure.relabel]

theorem resolve_relabel (s : Store) (t : Term) (e : EnvId) :
    (s.relabel ρ).resolve (t.relabel (ρ e)) e = (s.resolve t e).relabel ρ := by
  unfold resolve followBound
  rw [size_trail_relabel]
  exact s.resolveAt_relabel _ t e

theorem leadsTo_relabel (s : Store) (t : Term) (e : EnvId) (v : String) (f : EnvId) :
    (s.relabel ρ).leadsTo (t.relabel (ρ e)) e (ρ f v) f = s.leadsTo t e v f := by
  unfold leadsTo
  rw [resolve_relabel]
  exact decide_eq_decide.2 ((Closure.relabel_injective ρ).eq_iff (b := ⟨.var v, f⟩))

theorem occursAt_relabel (s : Store) (v : String) (f : EnvId) (n : Nat) (t : Term) (e : EnvId) :
    (s.relabel ρ).occursAt (ρ f v) f n (t.relabel (ρ e)) e = s.occursAt v f n t e := by
  induction n generalizing t e with
  | zero => rfl
  | succ n ih =>
    cases t with
    | var w =>
      have hsame : (ρ e w = ρ f v ∧ e = f) ↔ (w = v ∧ e = f) := by
        constructor
        · rintro ⟨hw, rfl⟩
          exact ⟨(ρ e).injective hw, rfl⟩
        · rintro ⟨rfl, rfl⟩
          exact ⟨rfl, rfl⟩
      rw [Term.relabel_var, occursAt, occursAt, lookup_relabel, ← Bool.decide_and, ← Bool.decide_and,
        decide_eq_decide.2 hsame]
      cases s.lookup w e with
      | none => rfl
      | some c => exact congrArg (_ || ·) (ih c.term c.env)
    | sym a => rfl
    | compound g args =>
      rw [Term.relabel_compound, occursAt, occursAt, List.any_map]
      exact congrArg (args.any ·) (funext fun t => ih t e)

/-! ### Unification -/

/-- The outcome of an attempt with other variables. -/
def relabelOutcome (ρ : Naming) (r : Bool × Store) : Bool × Store := (r.1, r.2.relabel ρ)

theorem allPairs_relabel {attempt attempt' : Term → Term → Store → Bool × Store}
    (h : ∀ x y s, attempt' (x.relabel (ρ ex)) (y.relabel (ρ ey)) (s.relabel ρ) = relabelOutcome ρ (attempt x y s))
    (xs ys : List Term) (s : Store) :
    allPairs attempt' (xs.map (Term.relabel (ρ ex))) (ys.map (Term.relabel (ρ ey))) (s.relabel ρ) =
      relabelOutcome ρ (allPairs attempt xs ys s) := by
  induction xs generalizing ys s with
  | nil => cases ys <;> rfl
  | cons x xs ih =>
    cases ys with
    | nil => rfl
    | cons y ys =>
      rw [List.map_cons, List.map_cons, allPairs, allPairs, h]
      cases hr : attempt x y s with
      | mk ok s' =>
        cases ok with
        | true => exact ih ys s'
        | false => rfl

theorem unifyVar_relabel {unify unify' : Term → EnvId → Term → EnvId → Store → Bool × Store}
    (h : ∀ x ex y ey s, unify' (x.relabel (ρ ex)) ex (y.relabel (ρ ey)) ey (s.relabel ρ) =
      relabelOutcome ρ (unify x ex y ey s)) (v : String) (f : EnvId) (t : Term) (e : EnvId) (s : Store) :
    unifyVar unify' (ρ f v) f (t.relabel (ρ e)) e (s.relabel ρ) = relabelOutcome ρ (unifyVar unify v f t e s) := by
  have hsame : (t.relabel (ρ e) = .var (ρ f v) ∧ e = f) ↔ (t = .var v ∧ e = f) := by
    constructor
    · rintro ⟨ht, rfl⟩
      exact ⟨Term.relabel_injective (ρ e) ht, rfl⟩
    · rintro ⟨rfl, rfl⟩
      exact ⟨rfl, rfl⟩
  have htest : decide (t.relabel (ρ e) = .var (ρ f v) ∧ e = f) = decide (t = .var v ∧ e = f) :=
    decide_eq_decide.2 hsame
  unfold unifyVar
  rw [← Bool.decide_and, ← Bool.decide_and, htest, lookup_relabel, leadsTo_relabel, occursCheck_relabel]
  have hoccurs : (s.relabel ρ).occurs (ρ f v) f (t.relabel (ρ e)) e = s.occurs v f t e := s.occursAt_relabel v f _ t e
  rw [hoccurs]
  split
  · rfl
  · cases s.lookup v f with
    | some c => exact h c.term c.env t e s
    | none =>
      simp only [Option.map_none]
      split
      · rfl
      · split
        · rfl
        · exact congrArg (Prod.mk true) (s.bind_relabel v f ⟨t, e⟩)

theorem unifyAt_relabel (n : Nat) (x : Term) (ex : EnvId) (y : Term) (ey : EnvId) (s : Store) :
    unifyAt n (x.relabel (ρ ex)) ex (y.relabel (ρ ey)) ey (s.relabel ρ) = relabelOutcome ρ (unifyAt n x ex y ey s) := by
  induction n generalizing x ex y ey s with
  | zero => rfl
  | succ n ih =>
    cases x with
    | var v => exact unifyVar_relabel ih v ex y ey s
    | sym a =>
      cases y with
      | var w => exact unifyVar_relabel ih w ey (.sym a) ex s
      | sym b => rfl
      | compound g ys => simp [unifyAt, relabelOutcome]
    | compound f xs =>
      cases y with
      | var w => exact unifyVar_relabel ih w ey (.compound f xs) ex s
      | sym b => simp [unifyAt, relabelOutcome]
      | compound g ys =>
        rw [Term.relabel_compound, Term.relabel_compound, unifyAt, unifyAt]
        split
        · exact allPairs_relabel (fun x y s => ih x ex y ey s) xs ys s
        · rfl

/-- Two terms can be made equal if they can with other variables, and the same bindings are made then. -/
theorem unify_relabel (s : Store) (x : Term) (ex : EnvId) (y : Term) (ey : EnvId) :
    (s.relabel ρ).unify (x.relabel (ρ ex)) ex (y.relabel (ρ ey)) ey =
      ((s.unify x ex y ey).1, (s.unify x ex y ey).2.relabel ρ) := by
  unfold unify
  rw [unifyAt_relabel, checkpoint_relabel]
  cases unifyAt allowance x ex y ey s with
  | mk ok s' =>
    cases ok with
    | true => rfl
    | false => exact congrArg (Prod.mk false) (s'.rollback_relabel _)

/-! ### Plugging -/

theorem threadMap_relabel {f' : Term → Store × NameSupply → Term × (Store × NameSupply)}
    {within : Term → Store × NameSupply → Option (Term × (Store × NameSupply))}
    (h : ∀ t st u st', within t st = some (u, st') →
      f' (t.relabel (ρ e)) (st.1.relabel ρ, st.2) = (u.relabel (ρ target), (st'.1.relabel ρ, st'.2)))
    {ts us : List Term} {st st' : Store × NameSupply} (hr : threadMapWithin within ts st = some (us, st')) :
    threadMap f' (ts.map (Term.relabel (ρ e))) (st.1.relabel ρ, st.2) =
      (us.map (Term.relabel (ρ target)), (st'.1.relabel ρ, st'.2)) := by
  induction ts generalizing us st with
  | nil =>
    cases hr
    rfl
  | cons t ts ih =>
    simp only [threadMapWithin, Option.bind_eq_bind, Option.bind_eq_some_iff, Option.pure_def, Option.some.injEq] at hr
    obtain ⟨⟨u, st₁⟩, hu, ⟨us', st₂⟩, hus, heq⟩ := hr
    cases heq
    rw [List.map_cons, threadMap, h t st u st₁ hu]
    dsimp only
    rw [ih hus]
    rfl

theorem plugAt_relabel (hfresh : ∀ n : Nat, ρ target s!"V{n}" = s!"V{n}") {u : Term} {st st' : Store × NameSupply}
    (h : plugWithin target n e t st = some (u, st')) :
    plugAt target n e (t.relabel (ρ e)) (st.1.relabel ρ, st.2) = (u.relabel (ρ target), (st'.1.relabel ρ, st'.2)) := by
  induction n generalizing t e u st st' with
  | zero => cases h
  | succ n ih =>
    obtain ⟨s, names⟩ := st
    cases t with
    | var v =>
      unfold plugWithin at h
      rw [Term.relabel_var, plugAt, lookup_relabel]
      cases hc : s.lookup v e with
      | some c =>
        simp only [hc] at h
        exact ih h
      | none =>
        simp only [hc] at h
        simp only [Option.map_none]
        by_cases he : e = target
        · subst he
          rw [if_pos rfl] at h ⊢
          cases h
          rfl
        · rw [if_neg he] at h ⊢
          cases h
          have hnew : names.freshVar.1.relabel (ρ target) = names.freshVar.1 := congrArg Term.var (hfresh _)
          refine Prod.ext hnew.symm (Prod.ext ?_ rfl)
          have hbind := s.bind_relabel (ρ := ρ) v e ⟨names.freshVar.1, target⟩
          rw [Closure.relabel, hnew] at hbind
          exact hbind
    | sym a =>
      cases h
      rfl
    | compound f args =>
      simp only [plugWithin, Option.bind_eq_bind, Option.bind_eq_some_iff, Option.pure_def, Option.some.injEq] at h
      obtain ⟨⟨us, st₁⟩, hus, heq⟩ := h
      cases heq
      rw [Term.relabel_compound, plugAt]
      dsimp only
      rw [threadMap_relabel (fun t st u st' h => ih h) hus, Term.relabel_compound]

/-- Plugging within the allowance gives the same term with other variables. -/
theorem plug_relabel (hfresh : ∀ n : Nat, ρ target s!"V{n}" = s!"V{n}") {u : Term} {st : Store × NameSupply}
    (h : plugWithin target allowance e t (s, names) = some (u, st)) :
    (s.relabel ρ).plug (t.relabel (ρ e)) e target names = (u.relabel (ρ target), (st.1.relabel ρ, st.2)) :=
  plugAt_relabel hfresh h

/-! ### Scopes -/

/-- Names for the variables of environments from the given one on make no difference. -/
def Scoped (b : EnvId) (s : Store) : Prop := ∀ ρ ρ' : Naming, (∀ e < b, ρ e = ρ' e) → s.relabel ρ = s.relabel ρ'

namespace Scoped

theorem mono (h : s.Scoped b) (hb : b ≤ k) : s.Scoped k := fun ρ ρ' heq => h ρ ρ' fun e he => heq e (Nat.lt_of_lt_of_le he hb)

theorem empty (b : EnvId) (occursCheck : Bool) : Scoped b { occursCheck } := by
  intro ρ ρ' _
  rw [relabel_empty, relabel_empty]

theorem newEnv (h : s.Scoped b) : s.newEnv.2.Scoped b := by
  intro ρ ρ' heq
  have hnew (ρ : Naming) : (s.relabel ρ).newEnv.2 = s.newEnv.2.relabel ρ := congrArg Prod.snd (newEnv_relabel s)
  rw [← hnew, ← hnew, h ρ ρ' heq]

theorem bind (h : s.Scoped b) (he : e < b) (hc : c.env < b) : (s.bind v e c).Scoped b := by
  intro ρ ρ' heq
  rw [← bind_relabel, ← bind_relabel, h ρ ρ' heq, heq e he]
  unfold Closure.relabel
  rw [heq c.env hc]

theorem rollback (h : s.Scoped b) (cp : Checkpoint) : (s.rollback cp).Scoped b := by
  intro ρ ρ' heq
  rw [← rollback_relabel, ← rollback_relabel, h ρ ρ' heq]

end Scoped

/-- All environments that come up in the store are its own. -/
structure Proper (s : Store) : Prop where
  wellFormed : s.WellFormed
  inScope : s.Scoped s.envs.size

namespace Proper

theorem newEnv (h : s.Proper) : s.newEnv.2.Proper := by
  refine ⟨h.wellFormed.newEnv, ?_⟩
  rw [size_envs_newEnv]
  exact h.inScope.newEnv.mono (Nat.le_succ _)

theorem rollback (h : s.Proper) (cp : Checkpoint) : (s.rollback cp).Proper := by
  refine ⟨h.wellFormed.rollback cp, ?_⟩
  rw [size_envs_rollback]
  exact h.inScope.rollback cp

theorem bind (h : s.Proper) (he : e < s.envs.size) (hc : c.env < s.envs.size) : (s.bind v e c).Proper := by
  refine ⟨h.wellFormed.bind hc, ?_⟩
  rw [size_envs_bind]
  exact h.inScope.bind he hc

theorem keeps (k : Nat) : Keeps (fun _ e => e < k) fun s => s.Proper ∧ s.envs.size = k where
  arg h _ := h
  value h _ hv := h.2 ▸ h.1.wellFormed.closed hv
  bind h he hc _ _ _ := ⟨h.1.bind (h.2.symm ▸ he) (h.2.symm ▸ hc), by rw [size_envs_bind, h.2]⟩

theorem keepsRenaming {k : Nat} (htarget : target < k) :
    KeepsRenaming (· < k) target fun st => st.1.Proper ∧ st.1.envs.size = k where
  value h _ hv := h.2 ▸ h.1.wellFormed.closed hv
  bind h he _ _ := ⟨h.1.bind (h.2.symm ▸ he) (h.2.symm ▸ htarget), by rw [size_envs_bind, h.2]⟩

theorem unify (h : s.Proper) (hx : ex < s.envs.size) (hy : ey < s.envs.size)
    (hr : s.unify x ex y ey = (true, s')) : s'.Proper := by
  have hkept := (unify_keeps (keeps s.envs.size) (x := x) (y := y) ⟨h, rfl⟩ hx hy).1
  rwa [hr] at hkept

theorem plug (h : s.Proper) (t : Term) (names : NameSupply) (he : e < s.envs.size) (htarget : target < s.envs.size) :
    (s.plug t e target names).2.1.Proper := by
  exact (plug_keeps (keepsRenaming htarget) t ⟨h, rfl⟩ he).1

theorem env_resolve_lt (h : s.Proper) (t : Term) (he : e < s.envs.size) : (s.resolve t e).env < s.envs.size :=
  h.wellFormed.env_resolve_lt t he

end Proper

/-- Going back from the second store comes to what going back from the first one comes to, except for environments that
were added. -/
structure Onward (s s' : Store) : Prop where
  size_envs : s.envs.size ≤ s'.envs.size
  size_trail : s.trail.size ≤ s'.trail.size
  inScope : ∀ cp, cp ≤ s.trail.size → ∀ b, (s.rollback cp).Scoped b → (s'.rollback cp).Scoped b

namespace Onward

variable {s'' : Store}

theorem refl (s : Store) : s.Onward s := ⟨Nat.le_refl _, Nat.le_refl _, fun _ _ _ h => h⟩

theorem trans (h : s.Onward s') (h' : s'.Onward s'') : s.Onward s'' where
  size_envs := Nat.le_trans h.size_envs h'.size_envs
  size_trail := Nat.le_trans h.size_trail h'.size_trail
  inScope cp hcp b hb := h'.inScope cp (Nat.le_trans hcp h.size_trail) b (h.inScope cp hcp b hb)

theorem of_extends (h : s.Extends s') : s.Onward s' where
  size_envs := Nat.le_of_eq h.size_envs.symm
  size_trail := h.size_trail
  inScope cp hcp b hb := by rwa [h.rollback hcp]

theorem newEnv (s : Store) : s.Onward s.newEnv.2 where
  size_envs := by
    rw [size_envs_newEnv]
    exact Nat.le_succ _
  size_trail := Nat.le_refl _
  inScope cp _ b hb := by
    rw [rollback_newEnv]
    exact hb.newEnv

end Onward

/-! ### Lookups -/

theorem boundSymbolsAt_relabel (s : Store) (n : Nat) (t : Term) (e : EnvId) (rest : List String) :
    Theory.boundSymbolsAt (s.relabel ρ) n (t.relabel (ρ e)) e rest = Theory.boundSymbolsAt s n t e rest := by
  induction n generalizing t e rest with
  | zero => rfl
  | succ n ih =>
    unfold Theory.boundSymbolsAt
    rw [resolve_relabel]
    cases s.resolve t e with
    | mk u f =>
      unfold Closure.relabel
      cases u with
      | var v => rfl
      | sym a => rfl
      | compound g args =>
        simp only [Term.relabel_compound]
        refine congrArg (g :: ·) ?_
        rw [List.foldr_map]
        exact congrArg (List.foldr · rest args) (funext fun t => funext fun rest => ih t f rest)

end Store

namespace Theory

variable {th : Theory} {s : Store}

/-- The same terms could fit a goal with other variables. -/
theorem lookupIn_relabel (th : Theory) (s : Store) (t : Term) (e : EnvId) :
    th.lookupIn (s.relabel ρ) (t.relabel (ρ e)) e = th.lookupIn s t e := by
  have hids : th.lookupIds (s.resolve t e |>.relabel ρ).term = th.lookupIds (s.resolve t e).term := by
    unfold lookupIds Closure.relabel
    rw [Term.symbols_relabel, Term.headOrSelf_relabel, Term.functor?_relabel, Term.functor?_relabel]
  unfold lookupIn lookupIdsIn
  rw [Store.boundSymbolsAt_relabel, Store.resolve_relabel, hids]

end Theory

theorem Sources.factsFor_relabel (src : Sources) (s : Store) (t : Term) (e : EnvId) :
    src.factsFor (s.relabel ρ) (t.relabel (ρ e)) e = src.factsFor s t e := by
  unfold factsFor
  rw [Theory.lookupIn_relabel]
  cases src.overlay with
  | none => rfl
  | some overlay =>
    dsimp only
    rw [Theory.lookupIn_relabel]

theorem Sources.datasetFactsFor_relabel (src : Sources) (name : String) (s : Store) (t : Term) (e : EnvId) :
    src.datasetFactsFor name (s.relabel ρ) (t.relabel (ρ e)) e = src.datasetFactsFor name s t e := by
  unfold datasetFactsFor
  cases src.dataset? name with
  | none => rfl
  | some dataset => exact Theory.lookupIn_relabel dataset s t e

end Deduction
