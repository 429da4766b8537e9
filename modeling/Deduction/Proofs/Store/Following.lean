import Mathlib.Order.WellFoundedSet
import Deduction.Proofs.Store.Cycles

/-!
# Following variables to their end

Variables that are bound to variables are followed without a bound. Unification does not bind a variable to one that it
leads to, and plugging binds variables to fresh ones, so that the way never comes back to a variable
(`Run.searched_acyclic`). As only finitely many variables are bound, it comes to an end (`Acyclic.exists_end`). None of
this needs the occurs check, or that the environments are those of the store.
-/

namespace Deduction

open Relation (ReflTransGen TransGen)

/-- The closure is the variable. -/
def Closure.Is (c : Closure) (x : EnvId × String) : Prop := c = ⟨.var x.2, x.1⟩

namespace Store

variable {s s' : Store} {v w : String} {env env' : EnvId} {c d : Closure} {x y : EnvId × String} {b : Bool}

/-! ### Ways from variable to variable -/

theorem meets_is_iff : s.Meets Closure.Is c x ↔ s.Leads c ⟨.var x.2, x.1⟩ := by
  constructor
  · rintro ⟨y, rfl, hyx⟩
    induction hyx using ReflTransGen.head_induction_on with
    | refl => exact ⟨0, .refl _⟩
    | head hyz _ ih =>
      obtain ⟨c, hc, rfl⟩ := hyz
      obtain ⟨n, hn⟩ := ih
      exact ⟨n + 1, .step hc hn⟩
  · rintro ⟨n, hn⟩
    generalize hd : (⟨.var x.2, x.1⟩ : Closure) = d at hn
    induction hn with
    | refl c => exact ⟨x, hd.symm, .refl⟩
    | @step n v env c d hv _ ih =>
      obtain ⟨y, hy, hyx⟩ := ih hd
      exact ⟨(env, v), rfl, .head ⟨c, hv, hy⟩ hyx⟩

theorem isBound_iff : s.IsBound c ↔ ∃ x d, c.Is x ∧ s.lookup x.2 x.1 = some d := by
  constructor
  · rintro ⟨v, d, hv, hd⟩
    exact ⟨(c.env, v), d, congrArg (Closure.mk · c.env) hv, hd⟩
  · rintro ⟨x, d, rfl, hd⟩
    exact isBound_var.2 ⟨d, hd⟩

namespace Acyclic

/-- Only finitely many variables are bound, so that going along bindings comes to an end. -/
theorem wellFoundedOn_trail {link : Closure → EnvId × String → Prop} (hac : s.Acyclic link) :
    {x | x ∈ s.trail.toList}.WellFoundedOn fun y x => TransGen (s.Edge link) x y := by
  have hstrict : IsStrictOrder (EnvId × String) fun y x => TransGen (s.Edge link) x y :=
    { irrefl := hac, trans := fun _ _ _ hyx hzy => hzy.trans hyx }
  have hfinite : {x | x ∈ s.trail.toList}.Finite := List.finite_toSet s.trail.toList
  exact hfinite.wellFoundedOn

/-- Following variables never comes back to one that was visited. -/
theorem not_leadsIn_succ (hs : s.Acyclic Closure.Is) (n : Nat) (c : Closure) : ¬ s.LeadsIn (n + 1) c c := by
  intro h
  cases h with
  | @step _ v env d _ hv h =>
    obtain ⟨y, hy, hyx⟩ := (meets_is_iff (x := (env, v))).2 ⟨n, h⟩
    exact hs (env, v) (.head' ⟨d, hv, hy⟩ hyx)

/-- Following variables comes to an end. -/
theorem exists_end (hac : s.Acyclic Closure.Is) (hs : s.Exact) (c : Closure) : ∃ d, s.Leads c d ∧ ¬ s.IsBound d := by
  have hvar (x : EnvId × String) (hx : x ∈ s.trail.toList) : ∃ d, s.Leads ⟨.var x.2, x.1⟩ d ∧ ¬ s.IsBound d := by
    refine hac.wellFoundedOn_trail.induction (P := fun x => ∃ d, s.Leads ⟨.var x.2, x.1⟩ d ∧ ¬ s.IsBound d) hx
      fun y hy ih => ?_
    obtain ⟨c, hv⟩ := (hs.mem_trail_iff y.2 y.1).1 hy
    by_cases hc : s.IsBound c
    · obtain ⟨z, d, rfl, hd⟩ := isBound_iff.1 hc
      have hz : z ∈ s.trail.toList := hs.isTrailed _ _ _ hd
      obtain ⟨e, ⟨n, hn⟩, hfree⟩ := ih z hz (.single ⟨_, hv, rfl⟩)
      exact ⟨e, ⟨n + 1, .step hv hn⟩, hfree⟩
    · exact ⟨c, ⟨1, .step hv (.refl c)⟩, hc⟩
  by_cases hc : s.IsBound c
  · obtain ⟨x, d, rfl, hd⟩ := isBound_iff.1 hc
    exact hvar x (hs.isTrailed _ _ _ hd)
  · exact ⟨c, ⟨0, .refl c⟩, hc⟩

/-- Unification does not bind a variable to one that leads to it. -/
theorem keeps : Keeps (fun _ _ => True) fun s => s.Exact ∧ s.Acyclic Closure.Is where
  arg _ _ := trivial
  value _ _ _ := trivial
  bind {s v env c} h _ _ hv hlead _ := by
    refine ⟨h.1.bind hv, h.2.bind hv fun hmeets => ?_⟩
    rw [(h.1.isTrailed.leadsTo_iff hv c.term c.env).2 (meets_is_iff.1 hmeets)] at hlead
    cases hlead

/-- Plugging binds variables to fresh ones. -/
theorem keepsRenaming (target : EnvId) :
    KeepsRenaming (fun _ => True) target
      fun st => st.1.Exact ∧ FreshIn st.2 st.1 target ∧ st.1.Acyclic Closure.Is where
  value _ _ _ := trivial
  bind {s names v env} h _ hne hv := by
    obtain ⟨hs, hfresh, hac⟩ := h
    refine ⟨hs.bind hv, hfresh.bind hne, hac.bind hv ?_⟩
    refine not_meets_of_free (z := (target, names.freshName.1)) (fun y hy => ?_) (hfresh _ (Nat.lt_succ_self _))
      fun hz => hne (Prod.mk.inj hz).1.symm
    obtain ⟨hname, htarget⟩ := Closure.mk.inj hy
    exact Prod.ext htarget.symm (Term.var.inj hname).symm

end Acyclic

/-! ### Stores of a search -/

/-- The operation matches. -/
def Operation.IsMatching : Operation → Prop
  | .matchInto .. => True
  | _ => False

/-- A search only makes environments, unifies, plugs with names that are free in the target, and goes back. -/
def Searches (s : Store) (op : Operation) : Prop := s.Mediated op ∧ ¬ op.IsMatching

theorem Run.searched_acyclic (h : Run Searches { occursCheck := b } s) : s.Exact ∧ s.Acyclic Closure.Is := by
  induction h with
  | refl => exact ⟨.of_empty b, acyclic_of_unbound fun v env => by simp [lookup]⟩
  | @step s _ op hop ih =>
    obtain ⟨hs, hac⟩ := ih
    cases op with
    | newEnv => exact ⟨hs.newEnv, hac.of_below fun v env c hc => by rwa [perform, lookup_newEnv] at hc⟩
    | unify x ex y ey => exact unify_keeps Acyclic.keeps ⟨hs, hac⟩ trivial trivial
    | matchInto pattern ep t et => exact absurd trivial hop.2
    | plug t env target names =>
      have hkept : (s.plug t env target names).2.1.Exact ∧ _ ∧ (s.plug t env target names).2.1.Acyclic Closure.Is :=
        plug_keeps (Acyclic.keepsRenaming target) t ⟨hs, hop.1, hac⟩ trivial
      exact ⟨hkept.1, hkept.2.2⟩
    | bind v env c => exact hop.1.elim
    | rollback cp => exact ⟨hs.rollback cp, hac.of_below (rollback_below s cp)⟩

/-- In the stores of a search, with or without the occurs check, following the bindings of variables never comes back to
a variable that was visited. So it comes to an end for every term and environment, and that end is what the term is
resolved to. -/
theorem Run.following_ends (h : Run Searches { occursCheck := b } s) :
    (∀ n c, ¬ s.LeadsIn (n + 1) c c) ∧
      ∀ t env, ∃ d, s.Leads ⟨t, env⟩ d ∧ ¬ s.IsBound d ∧ s.resolve t env = d := by
  obtain ⟨hs, hac⟩ := Run.searched_acyclic h
  refine ⟨hac.not_leadsIn_succ, fun t env => ?_⟩
  obtain ⟨d, hlead, hfree⟩ := hac.exists_end hs ⟨t, env⟩
  exact ⟨d, hlead, hfree, hs.isTrailed.resolve_eq hlead hfree⟩

/-- Three environments without the occurs check: `X` of the first one is bound to `Y` of the second one, which is renamed
to a fresh variable of the third one, and that is bound to `f(X)` of the first one. -/
def knotted : Store :=
  (((((({} : Store).perform .newEnv).perform .newEnv).perform .newEnv).perform (.unify (.var "X") 0 (.var "Y") 1)).perform
    (.plug (.compound "p" [.var "Y"]) 1 2 {})).perform (.unify (.var "V1") 2 (.compound "f" [.var "X"]) 0)

/-- The bindings go round, but the variables lead to `f(X)` and not back to `X`. -/
theorem following_ends_knotted :
    (∀ n c, ¬ knotted.LeadsIn (n + 1) c c) ∧
      ∃ d, knotted.Leads ⟨.var "X", 0⟩ d ∧ ¬ knotted.IsBound d ∧ d = ⟨.compound "f" [.var "X"], 0⟩ := by
  have hrun : Run Searches { occursCheck := false } knotted :=
    .step (.step (.step (.step (.step (.step .refl .newEnv ⟨trivial, id⟩) .newEnv ⟨trivial, id⟩) .newEnv ⟨trivial, id⟩)
      (.unify (.var "X") 0 (.var "Y") 1) ⟨trivial, id⟩)
      (.plug (.compound "p" [.var "Y"]) 1 2 {}) ⟨fun _ _ => rfl, id⟩)
      (.unify (.var "V1") 2 (.compound "f" [.var "X"]) 0) ⟨trivial, id⟩
  obtain ⟨hnever, hends⟩ := Run.following_ends hrun
  obtain ⟨d, hlead, hfree, hd⟩ := hends (.var "X") 0
  exact ⟨hnever, d, hlead, hfree, hd.symm.trans (by decide)⟩

end Store

end Deduction
