import Mathlib.Logic.Basic
import Deduction.Proofs.Store.Chains

/-!
# Straight stores

A store is straight if following its variables comes to an end. As many steps as there are entries on the trail are
enough to tell (`Trailed.isStraight_iff`), and in a store that is not straight some variable leads to bound variables only
(`Trailed.exists_endless`), so that it is followed on and on (`exists_leadsIn_of_endless`). New environments, unification
and going back keep stores straight. Plugging does so only if the names that it invents are free in the target. A name
that is bound there may lead to the very variable that is renamed to it, and these two then lead round to one another
(`leadsIn_of_plug`).
-/

namespace Deduction.Store

variable {s s' : Store} {v : String} {env target : EnvId} {c d : Closure} {n : Nat}

instance decidableIsBound (s : Store) : (c : Closure) → Decidable (s.IsBound c)
  | ⟨.var _, _⟩ => decidable_of_iff _ (Option.isSome_iff_exists.trans isBound_var.symm)
  | ⟨.sym _, _⟩ => isFalse fun ⟨_, _, h, _⟩ => Term.noConfusion h
  | ⟨.compound _ _, _⟩ => isFalse fun ⟨_, _, h, _⟩ => Term.noConfusion h

/-- Does following the bindings of variables come to an end, whatever variable it starts from? -/
def isStraight (s : Store) : Bool :=
  s.trail.toList.all fun x => !decide (s.IsBound (s.resolveAt s.trail.size (.var x.2) x.1))

namespace Trailed

theorem chainsEnd_iff (hs : s.Trailed) : s.ChainsEnd ↔ ∀ c, ∃ d, s.Leads c d ∧ ¬ s.IsBound d := by
  constructor
  · intro hend c
    exact ⟨_, s.leads_resolve c.term c.env, hend c.term c.env⟩
  · intro hend t env
    obtain ⟨d, hlead, hfree⟩ := hend ⟨t, env⟩
    rwa [hs.resolve_eq hlead hfree]

/-- Whether a store is straight is found out exactly. -/
theorem isStraight_iff (hs : s.Trailed) : s.isStraight = true ↔ ∀ c, ∃ d, s.Leads c d ∧ ¬ s.IsBound d := by
  unfold isStraight
  simp only [List.all_eq_true, Bool.not_eq_true', decide_eq_false_iff_not]
  constructor
  · intro hend c
    by_cases hc : s.IsBound c
    · obtain ⟨t, env⟩ := c
      obtain ⟨v, d, rfl, hd⟩ := hc
      exact ⟨_, s.leads_resolveAt _ _ _, hend (env, v) (hs v env d hd)⟩
    · exact ⟨c, ⟨0, .refl c⟩, hc⟩
  · intro hend x _
    obtain ⟨d, ⟨n, hn⟩, hfree⟩ := hend ⟨.var x.2, x.1⟩
    rwa [hn.resolveAt_eq hfree (hn.le_size_trail hs hfree)]

theorem isStraight_iff_chainsEnd (hs : s.Trailed) : s.isStraight = true ↔ s.ChainsEnd :=
  hs.isStraight_iff.trans hs.chainsEnd_iff.symm

end Trailed

/-! ### Following on and on -/

/-- What leads to bound variables only is followed for any number of steps. -/
theorem exists_leadsIn_of_endless (hc : ∀ d, s.Leads c d → s.IsBound d) (n : Nat) : ∃ d, s.LeadsIn n c d ∧ s.IsBound d := by
  induction n with
  | zero => exact ⟨c, .refl c, hc c ⟨0, .refl c⟩⟩
  | succ n ih =>
    obtain ⟨⟨t, env⟩, hlead, v, d, rfl, hd⟩ := ih
    exact ⟨d, hlead.snoc hd, hc d ⟨n + 1, hlead.snoc hd⟩⟩

/-- In a store that is not straight some variable leads to bound variables only. -/
theorem Trailed.exists_endless (hs : s.Trailed) (h : s.isStraight = false) : ∃ c, ∀ d, s.Leads c d → s.IsBound d := by
  have hne : ¬ ∀ c, ∃ d, s.Leads c d ∧ ¬ s.IsBound d := by
    rw [← hs.isStraight_iff, h]
    exact Bool.false_ne_true
  simpa only [not_forall, not_exists, not_and, not_not] using hne

/-! ### What keeps a store straight -/

namespace ChainsEnd

/-- Unification does not bind a variable to one that leads to it. -/
theorem keeps : Keeps (fun _ _ => True) fun s => s.Trailed ∧ s.ChainsEnd where
  arg _ _ := trivial
  value _ _ _ := trivial
  bind {_ v env c} h _ _ hv hlead _ := ⟨h.1.bind v env c, h.2.bind h.1 hv hlead⟩

theorem unify (hs : s.ChainsEnd) (htrail : s.Trailed) (x : Term) (ex : EnvId) (y : Term) (ey : EnvId) :
    (s.unify x ex y ey).2.ChainsEnd := (unify_keeps keeps ⟨htrail, hs⟩ trivial trivial).2

/-- Where bindings are taken away, following comes to an end earlier. -/
theorem of_below (hs : s'.ChainsEnd) (htrail : s.Trailed) (h : s.Below s') : s.ChainsEnd := by
  have hearlier {n : Nat} {c d : Closure} (hlead : s'.LeadsIn n c d) (hfree : ¬ s'.IsBound d) :
      ∃ e, s.Leads c e ∧ ¬ s.IsBound e := by
    induction hlead with
    | refl c => exact ⟨c, ⟨0, .refl c⟩, fun ⟨v, d, hc, hd⟩ => hfree ⟨v, d, hc, h _ _ _ hd⟩⟩
    | @step n v env c d hv _ ih =>
      cases hlookup : s.lookup v env with
      | none => exact ⟨⟨.var v, env⟩, ⟨0, .refl _⟩, by rw [isBound_var, hlookup]; simp⟩
      | some c' =>
        obtain rfl : c' = c := Option.some.inj ((h _ _ _ hlookup).symm.trans hv)
        obtain ⟨e, hlead, hend⟩ := ih hfree
        exact ⟨e, Leads.trans ⟨1, .step hlookup (.refl _)⟩ hlead, hend⟩
  rw [htrail.chainsEnd_iff]
  intro c
  obtain ⟨n, hn⟩ := s'.leads_resolve c.term c.env
  exact hearlier hn (hs c.term c.env)

theorem rollback (hs : s.ChainsEnd) (htrail : s.Trailed) (cp : Checkpoint) : (s.rollback cp).ChainsEnd :=
  hs.of_below (htrail.rollback cp) (rollback_below s cp)

end ChainsEnd

/-- A variable that is renamed to a name which leads to it already leads round to itself then. -/
theorem leadsIn_of_plug {names : NameSupply} (hv : s.lookup v env = none) (henv : env < s.envs.size) (hne : env ≠ target)
    (hlead : s.LeadsIn n ⟨names.freshVar.1, target⟩ ⟨.var v, env⟩) :
    (s.plug (.var v) env target names).2.1.LeadsIn (n + 1) ⟨.var v, env⟩ ⟨.var v, env⟩ := by
  have hplug : (s.plug (.var v) env target names).2.1 = s.bind v env ⟨names.freshVar.1, target⟩ := by
    unfold plug allowance plugAt
    simp only [hv, if_neg hne]
  have hbelow : s.Below (s.bind v env ⟨names.freshVar.1, target⟩) := (Extends.refl.bind v env _ hv).isBelow
  rw [hplug]
  exact .step (by rw [lookup_bind henv, if_pos ⟨rfl, rfl⟩]) (hlead.of_below hbelow)

/-- A variable called `V1` is bound to `X` of another environment, which is then renamed to it. -/
example :
    let s : Store := (({} : Store).newEnv.2.newEnv.2.unify (.var "V1") 1 (.var "X") 0).2
    (s.isStraight, (s.plug (.var "X") 0 1 {}).2.1.isStraight) = (true, false) := by decide +kernel

end Deduction.Store
