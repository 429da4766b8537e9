import Deduction.Names
import Deduction.Store.Basic

/-!
# Plugging

Plugging applies the bindings of a store to a term and so makes a term that can be read in a target environment.
Unbound variables of other environments become fresh variables of the target. That renaming is a binding like any
other: it is on the trail, and later occurrences of the variable follow it.
-/

namespace Deduction.Store

/-- Applies a function to the terms of a list in turn, each with the state that the one before left. -/
def threadMap {σ : Type} (f : Term → σ → Term × σ) : List Term → σ → List Term × σ
  | [], st => ([], st)
  | t :: ts, st =>
    let (u, st) := f t st
    let (us, st) := threadMap f ts st
    (u :: us, st)

/-- Applies the bindings to a term within an allowance. -/
def plugAt (target : EnvId) : Nat → EnvId → Term → Store × NameSupply → Term × (Store × NameSupply)
  | 0, _, t, st => (t, st)
  | n + 1, env, .var v, (s, names) =>
    match s.lookup v env with
    | some c => plugAt target n c.env c.term (s, names)
    | none =>
      if env = target then (.var v, (s, names))
      else
        let (fresh, names) := names.freshVar
        (fresh, (s.bind v env ⟨fresh, target⟩, names))
  | _ + 1, _, .sym a, st => (.sym a, st)
  | n + 1, env, .compound f args, st =>
    let (args, st) := threadMap (plugAt target n env) args st
    (.compound f args, st)

/-- The term with bindings applied, its variables being those of the target environment. -/
def plug (s : Store) (t : Term) (env target : EnvId) (names : NameSupply) : Term × (Store × NameSupply) :=
  plugAt target allowance env t (s, names)

end Deduction.Store
