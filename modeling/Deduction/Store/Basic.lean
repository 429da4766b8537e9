import Deduction.Bindings.Basic

/-!
# Stores

A store holds environments, one for every use of a rule, each with the bindings of its own variables. A value is a
closure: a term with the environment that its variables are read in. Every binding is written on a trail, so that
going back to a checkpoint takes away the bindings made since.
-/

namespace Deduction

/-- An environment, by its place in the store. -/
abbrev EnvId := Nat

/-- A term and the environment that its variables are read in. -/
structure Closure where
  term : Term
  env : EnvId
  deriving DecidableEq

/-- The bindings of the variables of one environment, each variable once. -/
abbrev Env := List (String × Closure)

/-- The environment without a binding of the variable. -/
def Env.erase (e : Env) (v : String) : Env := e.filter fun b => b.1 ≠ v

/-- The environment with a binding of the variable, in place of an older one. -/
def Env.insert (e : Env) (v : String) (c : Closure) : Env := (v, c) :: Env.erase e v

/-! ### Trails -/

/-- The bindings made so far, by environment and variable, the last one last. -/
abbrev Trail := Array (EnvId × String)

/-- A place on the trail: how many bindings had been made. -/
abbrev Checkpoint := Nat

/-- Takes away the entries made after a checkpoint; they are returned with the last one first. -/
def Trail.unwind (trail : Trail) (cp : Checkpoint) : List (EnvId × String) × Trail :=
  ((trail.extract cp trail.size).toList.reverse, trail.shrink cp)

/-! ### Stores -/

structure Store where
  envs : Array Env := #[]
  trail : Trail := #[]
  /-- Whether a variable is kept from being bound to a term that holds it. -/
  occursCheck : Bool := false

namespace Store

/-- A fresh environment without bindings. -/
def newEnv (s : Store) : EnvId × Store := (s.envs.size, { s with envs := s.envs.push [] })

def checkpoint (s : Store) : Checkpoint := s.trail.size

/-- How many variables are bound, over all environments. -/
def bindingCount (s : Store) : Nat := s.envs.foldl (fun n e => n + e.length) 0

/-- The closure that a variable of an environment is bound to. -/
def lookup (s : Store) (v : String) (env : EnvId) : Option Closure :=
  match s.envs[env]? with
  | some e => e.lookup v
  | none => none

/-- Binds a variable of an environment. An environment that the store does not have takes no bindings. -/
def bind (s : Store) (v : String) (env : EnvId) (c : Closure) : Store :=
  if env < s.envs.size then
    { s with envs := s.envs.modify env (Env.insert · v c), trail := s.trail.push (env, v) }
  else s

/-- Takes away one binding. -/
def unbind (envs : Array Env) (entry : EnvId × String) : Array Env :=
  envs.modify entry.1 (Env.erase · entry.2)

/-- Takes away the bindings made after a checkpoint. -/
def rollback (s : Store) (cp : Checkpoint) : Store :=
  let (undone, trail) := s.trail.unwind cp
  { s with envs := undone.foldl unbind s.envs, trail }

/-- Follows the bindings of variables, at most so many. -/
def resolveAt (s : Store) : Nat → Term → EnvId → Closure
  | n + 1, .var v, env =>
    match s.lookup v env with
    | some c => s.resolveAt n c.term c.env
    | none => ⟨.var v, env⟩
  | _, t, env => ⟨t, env⟩

/-- More bindings than are followed one after the other where that comes to an end: every bound variable is on the
trail, so a longer chain has come round to where it was. Such a chain is followed on and on, for more steps than any run
takes. -/
def followBound (s : Store) : Nat := stepBound + s.trail.size

/-- Follows the bindings of variables up to a term that is not a bound variable. -/
def resolve (s : Store) (t : Term) (env : EnvId) : Closure := s.resolveAt s.followBound t env

/-- Is the term ground once bindings are applied? -/
def isGroundAt (s : Store) : Nat → Term → EnvId → Bool
  | 0, _, _ => false
  | n + 1, t, env =>
    match s.resolve t env with
    | ⟨.var _, _⟩ => false
    | ⟨.sym _, _⟩ => true
    | ⟨.compound _ args, env⟩ => args.all (s.isGroundAt n · env)

def isGround (s : Store) (t : Term) (env : EnvId) : Bool := s.isGroundAt allowance t env

/-- The term with bindings applied, to be shown; unbound variables keep their names. -/
def showAt (s : Store) : Nat → Term → EnvId → Term
  | 0, t, _ => t
  | n + 1, t, env =>
    match s.resolve t env with
    | ⟨.compound f args, env⟩ => .compound f (args.map (s.showAt n · env))
    | ⟨t, _⟩ => t

def display (s : Store) (t : Term) (env : EnvId) : Term := s.showAt allowance t env

end Store

end Deduction
