import Deduction.Proofs.Search.FreshNames
import Deduction.Proofs.Store.Allowance

/-!
# Plugging as naming

Plugging a term applies the bindings to it and names its unbound variables. The names are bindings, so they are read off
the store that plugging leaves; nothing else is changed there (`Renames`).
-/

namespace Deduction.Store

variable {target env : EnvId} {s base final : Store} {v w : String} {t u : Term} {n : Nat} {c : Closure}
  {st st' : Store × NameSupply} {first names : NameSupply}

/-! ### What plugging leaves as it is -/

/-- Further variables are bound, but none of the target environment. -/
structure Renames (target : EnvId) (st st' : Store × NameSupply) : Prop where
  isExtension : Extends st.1 st'.1
  kept : ∀ v, st'.1.lookup v target = st.1.lookup v target
  issued_le : st.2.issued ≤ st'.2.issued

namespace Renames

theorem refl (target : EnvId) (st : Store × NameSupply) : Renames target st st :=
  ⟨.refl, fun _ => rfl, Nat.le_refl _⟩

theorem trans {st'' : Store × NameSupply} (h : Renames target st st') (h' : Renames target st' st'') :
    Renames target st st'' where
  isExtension := h.isExtension.trans h'.isExtension
  kept v := (h'.kept v).trans (h.kept v)
  issued_le := Nat.le_trans h.issued_le h'.issued_le

theorem bind (h : Renames target st (s, names)) (hne : env ≠ target) (hv : s.lookup v env = none) :
    Renames target st (s.bind v env ⟨names.freshVar.1, target⟩, names.freshVar.2) := by
  refine ⟨h.isExtension.bind _ _ _ hv, fun w => ?_, Nat.le_succ_of_le h.issued_le⟩
  rw [← h.kept w]
  by_cases henv : env < s.envs.size
  · rw [lookup_bind henv, if_neg fun hc => hne hc.2.symm]
  · rw [bind_of_not_lt henv]

theorem keepsRenaming (target : EnvId) (st : Store × NameSupply) :
    KeepsRenaming (fun _ => True) target (Renames target st) where
  value _ _ _ := trivial
  bind h _ hne hv := h.bind hne hv

theorem of_plugAt (target : EnvId) (n : Nat) (env : EnvId) (t : Term) (st : Store × NameSupply) :
    Renames target st (plugAt target n env t st).2 :=
  plugAt_keeps (keepsRenaming target st) n t (refl target st) trivial

theorem of_threadMap (target : EnvId) (n : Nat) (env : EnvId) (ts : List Term) (st : Store × NameSupply) :
    Renames target st (threadMap (plugAt target n env) ts st).2 :=
  threadMap_keeps ts (fun t _ st' h => h.trans (of_plugAt target n env t st')) (refl target st)

theorem of_plugWithin (h : plugWithin target n env t st = some (u, st')) : Renames target st st' := by
  have hkept := of_plugAt target n env t st
  rwa [plugAt_of_within h] at hkept

theorem of_threadMapWithin {ts us : List Term}
    (h : threadMapWithin (plugWithin target n env) ts st = some (us, st')) : Renames target st st' := by
  have hkept := of_threadMap target n env ts st
  rwa [threadMap_of_within (fun _ _ _ hr => plugAt_of_within hr) h] at hkept

end Renames

/-! ### Applying bindings and naming variables -/

/-- The term with bindings applied within an allowance, and with names for its unbound variables. -/
def applyAt (s : Store) (name : String → EnvId → String) : Nat → Term → EnvId → Term
  | 0, t, _ => t
  | n + 1, .var v, env =>
    match s.lookup v env with
    | some c => s.applyAt name n c.term c.env
    | none => .var (name v env)
  | _ + 1, .sym a, _ => .sym a
  | n + 1, .compound f args, env => .compound f (args.map (s.applyAt name n · env))

/-- The unbound variables that a term leads to within an allowance. -/
def unboundAt (s : Store) : Nat → Term → EnvId → List (String × EnvId)
  | 0, _, _ => []
  | n + 1, .var v, env =>
    match s.lookup v env with
    | some c => s.unboundAt n c.term c.env
    | none => [(v, env)]
  | _ + 1, .sym _, _ => []
  | n + 1, .compound _ args, env => args.flatMap (s.unboundAt n · env)

end Deduction.Store
