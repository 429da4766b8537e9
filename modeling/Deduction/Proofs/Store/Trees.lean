import Deduction.Proofs.Store.Resolvable

/-!
# Trees

Without the occurs check a variable may come to be bound to a term that holds it. No term solves such a binding, but a
tree without end does. A tree is given by what stands at each of its places. In a store without endless chains of
variables, the unbound variables may have any trees as values, and the bound ones have values that fit
(`Store.exists_solves_tree`); with the occurs check, the same goes for terms (`Store.exists_solves_term`).
-/

namespace Deduction

/-- What stands at a place of a tree. -/
inductive Mark where
  | var (v : String)
  | sym (a : String)
  | functor (f : String) (arity : Nat)

/-- A tree by its places: the way to a place is given by the numbers of the arguments that lead there. -/
abbrev Tree := List Nat → Option Mark

namespace Tree

/-- The tree of a functor over trees. -/
def compound (f : String) (ts : List Tree) : Tree
  | [] => some (.functor f ts.length)
  | i :: path => ts[i]?.bind fun t => t path

/-- What stands at a place of a term. -/
def markOf : List Nat → Term → Option Mark
  | [], .var v => some (.var v)
  | [], .sym a => some (.sym a)
  | [], .compound f args => some (.functor f args.length)
  | i :: path, .compound _ args => args[i]?.bind (markOf path)
  | _ :: _, _ => none

/-- The tree of a term. -/
def of (t : Term) : Tree := fun path => markOf path t

theorem of_compound (f : String) (args : List Term) : of (.compound f args) = compound f (args.map of) := by
  funext path
  cases path with
  | nil => simp [of, markOf, compound]
  | cons i path =>
    change args[i]?.bind (markOf path) = (args.map of)[i]?.bind fun t => t path
    rw [List.getElem?_map, Option.bind_map]
    rfl

theorem compound_inj {f g : String} {xs ys : List Tree} (h : compound f xs = compound g ys) : f = g ∧ xs = ys := by
  have hroot := congrFun h []
  simp only [compound, Option.some.injEq, Mark.functor.injEq] at hroot
  refine ⟨hroot.1, List.ext_getElem hroot.2 fun i hx hy => ?_⟩
  funext path
  have hplace := congrFun h (i :: path)
  simpa [compound, hx, hy] using hplace

theorem eq_of_compound {f : String} {xs : List Tree} {t : Term} (h : compound f xs = of t) :
    ∃ args, t = .compound f args := by
  have hroot := congrFun h []
  cases t with
  | var v => simp [compound, of, markOf] at hroot
  | sym a => simp [compound, of, markOf] at hroot
  | compound g args =>
    simp only [compound, of, markOf, Option.some.injEq, Mark.functor.injEq] at hroot
    exact ⟨args, by rw [hroot.1]⟩

mutual
theorem eq_of_of : (t u : Term) → of t = of u → t = u
  | .var v, u, h => by
    have hroot := congrFun h []
    cases u <;> simp_all [of, markOf]
  | .sym a, u, h => by
    have hroot := congrFun h []
    cases u <;> simp_all [of, markOf]
  | .compound f args, u, h => by
    obtain ⟨us, rfl⟩ := eq_of_compound ((of_compound f args).symm.trans h)
    rw [of_compound, of_compound] at h
    rw [eq_of_map_of args us (compound_inj h).2]

theorem eq_of_map_of : (ts us : List Term) → ts.map of = us.map of → ts = us
  | [], [], _ => rfl
  | [], _ :: _, h => by cases h
  | _ :: _, [], h => by cases h
  | t :: ts, u :: us, h => by
    rw [List.map_cons, List.map_cons, List.cons.injEq] at h
    rw [eq_of_of t u h.1, eq_of_map_of ts us h.2]
end

end Tree

/-- Trees are values. -/
instance : Values Tree where
  of := Tree.of
  compound := Tree.compound
  of_compound := Tree.of_compound
  of_injective t u h := Tree.eq_of_of t u h
  compound_inj := Tree.compound_inj
  eq_of_compound := Tree.eq_of_compound

namespace Store

variable {s s' : Store} {v : String} {env : EnvId} {t : Term}

/-! ### Trees that solve a store -/

/-- What stands at a place of a closure, where the unbound variables have the given trees. -/
def markAt (s : Store) (φ : Reading Tree) : List Nat → Term → EnvId → Option Mark
  | [], t, env =>
    match s.resolve t env with
    | ⟨.var v, env⟩ => φ v env []
    | ⟨.sym a, _⟩ => some (.sym a)
    | ⟨.compound f args, _⟩ => some (.functor f args.length)
  | i :: path, t, env =>
    match s.resolve t env with
    | ⟨.var v, env⟩ => φ v env (i :: path)
    | ⟨.sym _, _⟩ => none
    | ⟨.compound _ args, env⟩ => args[i]?.bind fun a => s.markAt φ path a env

theorem markAt_of_resolve {φ : Reading Tree} {u : Term} {env' : EnvId}
    (h : s.resolve t env = s.resolve u env') (path : List Nat) : s.markAt φ path t env = s.markAt φ path u env' := by
  cases path <;> simp only [markAt, h]

/-- The trees of closures are the values of a reading. -/
theorem read_markAt (s : Store) (φ : Reading Tree) (path : List Nat) (t : Term) (env : EnvId) :
    Reading.read (fun v env path => s.markAt φ path (.var v) env) env t path = s.markAt φ path t env := by
  induction path generalizing t env with
  | nil =>
    cases t with
    | var v => rfl
    | sym a =>
      simp only [markAt, resolve_sym]
      rfl
    | compound f args =>
      rw [Reading.read_compound]
      simp only [markAt, resolve_compound]
      exact congrArg (fun n => some (Mark.functor f n)) (List.length_map ..)
  | cons i path ih =>
    cases t with
    | var v => rfl
    | sym a =>
      simp only [markAt, resolve_sym]
      rfl
    | compound f args =>
      rw [Reading.read_compound]
      simp only [markAt, resolve_compound]
      change (args.map _)[i]?.bind (fun t : Tree => t path) = _
      rw [List.getElem?_map, Option.bind_map]
      cases args[i]? with
      | none => rfl
      | some a => exact ih a env

/-- The unbound variables may have any trees. -/
theorem exists_solves_tree (hs : s.ChainsEnd) (hwf : s.WellFormed) (φ : Reading Tree) :
    ∃ θ : Reading Tree, θ.Solves s ∧ ∀ v env, s.lookup v env = none → θ v env = φ v env := by
  refine ⟨fun v env path => s.markAt φ path (.var v) env, fun v env c hc => ?_, fun v env hv => ?_⟩
  · funext path
    rw [read_markAt]
    exact markAt_of_resolve (hs.resolve_of_lookup hwf hc) path
  · funext path
    cases path <;> simp only [markAt, resolve_of_unbound hv]

/-- Where bindings do not go round, the unbound variables may have any terms. -/
theorem exists_solves_term (hs : s.Resolvable) (φ : Reading Term) :
    ∃ θ : Reading Term, θ.Solves s ∧ ∀ v env, s.lookup v env = none → θ v env = φ v env := by
  obtain ⟨θ, hθ, hforms⟩ := hs.exists_respects φ
  exact ⟨θ, Valuation.respects_iff_solves.1 hθ, fun v env hv => hforms v env _ ((HasForm.of_unbound hv).2 rfl)⟩

/-! ### Sound stores -/

/-- Values are read in environments of the store, chains of variables come to an end, and where that is checked, no
bindings go round. -/
structure Sound (s : Store) : Prop where
  wellFormed : s.WellFormed
  chainsEnd : s.ChainsEnd
  resolvable : s.occursCheck = true → s.Resolvable

/-- The second store has further environments without bindings. -/
structure Widens (s s' : Store) : Prop where
  lookup_eq : ∀ v env, s'.lookup v env = s.lookup v env
  size_envs : s.envs.size ≤ s'.envs.size
  trail_eq : s'.trail = s.trail
  occursCheck_eq : s'.occursCheck = s.occursCheck

namespace Widens

theorem refl (s : Store) : s.Widens s := ⟨fun _ _ => rfl, Nat.le_refl _, rfl, rfl⟩

theorem trans {s'' : Store} (h : s.Widens s') (h' : s'.Widens s'') : s.Widens s'' where
  lookup_eq v env := (h'.lookup_eq v env).trans (h.lookup_eq v env)
  size_envs := Nat.le_trans h.size_envs h'.size_envs
  trail_eq := h'.trail_eq.trans h.trail_eq
  occursCheck_eq := h'.occursCheck_eq.trans h.occursCheck_eq

theorem newEnv (s : Store) : s.Widens s.newEnv.2 where
  lookup_eq v env := lookup_newEnv s
  size_envs := by
    rw [size_envs_newEnv]
    exact Nat.le_succ _
  trail_eq := rfl
  occursCheck_eq := rfl

theorem rollback (h : s.Widens s') (cp : Checkpoint) : (s.rollback cp).Widens (s'.rollback cp) where
  lookup_eq v env := by rw [lookup_rollback, lookup_rollback, h.lookup_eq, h.trail_eq]
  size_envs := by
    rw [size_envs_rollback, size_envs_rollback]
    exact h.size_envs
  trail_eq := Array.toList_inj.1 (by rw [toList_trail_rollback, toList_trail_rollback, h.trail_eq])
  occursCheck_eq := h.occursCheck_eq

theorem resolveAt_eq (h : s.Widens s') (n : Nat) (t : Term) (env : EnvId) : s'.resolveAt n t env = s.resolveAt n t env := by
  induction n generalizing t env with
  | zero => cases t <;> rfl
  | succ n ih =>
    cases t with
    | var v =>
      unfold resolveAt
      rw [h.lookup_eq]
      split
      · exact ih _ _
      · rfl
    | sym a => rfl
    | compound f args => rfl

theorem resolve_eq (h : s.Widens s') (t : Term) (env : EnvId) : s'.resolve t env = s.resolve t env := by
  unfold resolve followBound
  rw [h.trail_eq, h.resolveAt_eq]

theorem solves_iff {D : Type} [Values D] {θ : Reading D} (h : s.Widens s') : θ.Solves s' ↔ θ.Solves s := by
  unfold Reading.Solves
  simp only [h.lookup_eq]

theorem sound (h : s.Widens s') (hs : s.Sound) : s'.Sound where
  wellFormed :=
    ⟨fun hc => h.trail_eq ▸ hs.wellFormed.trailed (h.lookup_eq _ _ ▸ hc),
      fun hc => Nat.lt_of_lt_of_le (hs.wellFormed.closed (h.lookup_eq _ _ ▸ hc)) h.size_envs⟩
  chainsEnd t env := by
    rw [h.resolve_eq]
    rintro ⟨v, d, hv, hd⟩
    exact hs.chainsEnd t env ⟨v, d, hv, h.lookup_eq _ _ ▸ hd⟩
  resolvable hcheck := (hs.resolvable (h.occursCheck_eq ▸ hcheck)).of_below fun v env c hc => h.lookup_eq v env ▸ hc

end Widens

namespace Sound

theorem of_empty (occursCheck : Bool) : Sound { occursCheck } where
  wellFormed := wellFormed_empty occursCheck
  chainsEnd := .of_empty occursCheck
  resolvable _ := resolvable_of_vars fun v env => ⟨_, (HasForm.of_unbound (by simp [lookup])).2 rfl⟩

theorem newEnv (hs : s.Sound) : s.newEnv.2.Sound := (Widens.newEnv s).sound hs

/-- A variable may be bound to a term that does not lead to it, and where that is checked, does not hold it. -/
theorem bind {c : Closure} (hs : s.Sound) (hv : s.lookup v env = none) (hc : c.env < s.envs.size)
    (hlead : s.leadsTo c.term c.env v env = false)
    (hoccurs : s.occursCheck = true → s.occurs v env c.term c.env = false) : (s.bind v env c).Sound where
  wellFormed := hs.wellFormed.bind hc
  chainsEnd := hs.chainsEnd.bind hs.wellFormed.isTrailed hv hlead
  resolvable hcheck := by
    rw [occursCheck_bind] at hcheck
    have hresolvable := hs.resolvable hcheck
    refine hresolvable.bind hv fun henv => ?_
    obtain ⟨T, n, hn⟩ := hresolvable c.term c.env
    exact ⟨T, n, formAt_bind_of_not_occurs henv (occursWithin_of_not_occursAt (hoccurs hcheck)) hn⟩

theorem keeps (k : Nat) : Keeps (fun _ env => env < k) fun s => s.Sound ∧ s.envs.size = k where
  arg h _ := h
  value h _ hv := h.2 ▸ h.1.wellFormed.closed hv
  bind h _ hc hv hlead hoccurs := ⟨h.1.bind hv (h.2.symm ▸ hc) hlead hoccurs, by rw [size_envs_bind, h.2]⟩

theorem unify {x y : Term} {ex ey : EnvId} (hs : s.Sound) (hx : ex < s.envs.size) (hy : ey < s.envs.size)
    (h : s.unify x ex y ey = (true, s')) : s'.Sound := by
  have hkept := (unify_keeps (keeps s.envs.size) (x := x) (y := y) ⟨hs, rfl⟩ hx hy).1
  rwa [h] at hkept

end Sound

end Store

/-- The values suit stores with the occurs check, or those without: sound stores are solved whatever the values of the
unbound variables are to be, and where bindings are checked for occurrences, no value is a part of itself. -/
structure Values.Suits (D : Type) [Values D] (occursCheck : Bool) : Prop where
  wellFounded : occursCheck = true → Values.IsWellFounded D
  exists_solves : ∀ s : Store, s.Sound → s.occursCheck = occursCheck → ∀ φ : Reading D,
    ∃ θ : Reading D, θ.Solves s ∧ ∀ v env, s.lookup v env = none → θ v env = φ v env

theorem Values.suits_tree : Values.Suits Tree false where
  wellFounded h := by cases h
  exists_solves _ hs _ φ := Store.exists_solves_tree hs.chainsEnd hs.wellFormed φ

theorem Values.suits_term : Values.Suits Term true where
  wellFounded _ := Values.isWellFounded_term
  exists_solves _ hs hcheck φ := Store.exists_solves_term (hs.resolvable hcheck) φ

end Deduction
