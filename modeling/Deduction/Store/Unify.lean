import Deduction.Store.Basic

/-!
# Unification in a store

Unification binds variables of both terms, matching only those of a pattern. Both read each term in an environment
of its own, follow bindings that are there, and take back what they bound when they fail.
-/

namespace Deduction.Store

/-- Runs an attempt over two lists of terms, pair by pair, as long as it succeeds; lists of different lengths do
not fit. -/
def allPairs (attempt : Term → Term → Store → Bool × Store) : List Term → List Term → Store → Bool × Store
  | [], [], s => (true, s)
  | x :: xs, y :: ys, s =>
    match attempt x y s with
    | (true, s) => allPairs attempt xs ys s
    | failed => failed
  | _, _, s => (false, s)

/-- The outcome of an attempt; if it failed, with the store as it was. -/
def orRollback (cp : Checkpoint) : Bool × Store → Bool × Store
  | (true, s) => (true, s)
  | (false, s) => (false, s.rollback cp)

/-! ### Unification -/

/-- Does the term lead to the variable? -/
def leadsTo (s : Store) (t : Term) (env : EnvId) (v : String) (ev : EnvId) : Bool :=
  s.resolve t env = ⟨.var v, ev⟩

/-- Does the variable occur in the term once bindings are applied? -/
def occursAt (s : Store) (v : String) (ev : EnvId) : Nat → Term → EnvId → Bool
  | 0, _, _ => true
  | n + 1, .var w, env =>
    (w = v && env = ev) ||
      match s.lookup w env with
      | some c => s.occursAt v ev n c.term c.env
      | none => false
  | _ + 1, .sym _, _ => false
  | n + 1, .compound _ args, env => args.any (s.occursAt v ev n · env)

def occurs (s : Store) (v : String) (ev : EnvId) (t : Term) (env : EnvId) : Bool :=
  s.occursAt v ev allowance t env

/-- Makes a variable equal to a term: by `unify` on its value if it has one, else by binding it, unless the term
leads back to it. -/
def unifyVar (unify : Term → EnvId → Term → EnvId → Store → Bool × Store)
    (v : String) (ev : EnvId) (t : Term) (env : EnvId) (s : Store) : Bool × Store :=
  if t = .var v && env = ev then (true, s)
  else
    match s.lookup v ev with
    | some c => unify c.term c.env t env s
    | none =>
      if s.leadsTo t env v ev then (true, s)
      else if s.occursCheck && s.occurs v ev t env then (false, s)
      else (true, s.bind v ev ⟨t, env⟩)

/-- Binds variables so that two terms, each read in its environment, become equal. -/
def unifyAt : Nat → Term → EnvId → Term → EnvId → Store → Bool × Store
  | 0, _, _, _, _, s => (false, s)
  | n + 1, .var v, ev, t, env, s => unifyVar (unifyAt n) v ev t env s
  | n + 1, t, env, .var v, ev, s => unifyVar (unifyAt n) v ev t env s
  | _ + 1, .sym a, _, .sym b, _, s => (a == b, s)
  | n + 1, .compound f xs, ex, .compound g ys, ey, s =>
    if f = g then allPairs (fun x y => unifyAt n x ex y ey) xs ys s else (false, s)
  | _ + 1, _, _, _, _, s => (false, s)

/-- Makes two terms equal by binding variables of both; whether that is possible, and the store after it. -/
def unify (s : Store) (x : Term) (ex : EnvId) (y : Term) (ey : EnvId) : Bool × Store :=
  let cp := s.checkpoint
  orRollback cp (unifyAt allowance x ex y ey s)

/-! ### Matching -/

/-- Binds variables of the pattern so that it becomes the term. -/
def matchAt : Nat → Term → EnvId → Term → EnvId → Store → Bool × Store
  | 0, _, _, _, _, s => (false, s)
  | n + 1, .var v, ep, t, et, s =>
    match s.lookup v ep with
    | some c => matchAt n c.term c.env t et s
    | none => (true, s.bind v ep ⟨t, et⟩)
  | _ + 1, .sym a, _, t, _, s => (t = .sym a, s)
  | n + 1, .compound f ps, ep, .compound g ts, et, s =>
    if f = g then allPairs (fun p t => matchAt n p ep t et) ps ts s else (false, s)
  | _ + 1, .compound _ _, _, _, _, s => (false, s)

/-- Makes a pattern equal to a term by binding variables of the pattern; the term is taken literally. -/
def matchInto (s : Store) (pattern : Term) (ep : EnvId) (t : Term) (et : EnvId) : Bool × Store :=
  let cp := s.checkpoint
  orRollback cp (matchAt allowance pattern ep t et s)

end Deduction.Store
