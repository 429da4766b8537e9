import Deduction.Proofs.Store.Rollback

/-!
# Chains of variables

A variable may be bound to a variable that is bound in turn. A chain that comes to an end visits every bound variable at
most once, and every bound variable is on the trail, so that the bound on following (`Store.followBound`) takes nothing
away from it (`Leads.resolve_eq`). What is not followed to an end within that bound goes round, and has no end at all.
-/

namespace Deduction.Store

variable {s s' : Store} {v w : String} {env env' : EnvId} {a b c d : Closure}

/-! ### Looking up after going back -/

theorem lookup_unbind (envs : Array Env) (entry : EnvId × String) :
    ((unbind envs entry)[env]?).bind (List.lookup v ·) =
      if (env, v) = entry then none else (envs[env]?).bind (List.lookup v ·) := by
  obtain ⟨env', w⟩ := entry
  unfold unbind
  rw [Array.getElem?_modify]
  by_cases he : env' = env
  · subst he
    rw [if_pos rfl]
    cases envs[env']? with
    | none => simp
    | some e =>
      simp only [Option.map_some, Option.bind_some, Env.lookup_erase, Prod.mk.injEq, true_and]
  · rw [if_neg he, if_neg]
    intro h
    exact he (Prod.mk.inj h).1.symm

/-- Going back takes away the bindings that were made since, and no others. -/
theorem lookup_rollback (s : Store) (cp : Checkpoint) (v : String) (env : EnvId) :
    (s.rollback cp).lookup v env = if (env, v) ∈ s.trail.toList.drop cp then none else s.lookup v env := by
  have hfold (entries : List (EnvId × String)) (envs : Array Env) :
      ((entries.foldl unbind envs)[env]?).bind (List.lookup v ·) =
        if (env, v) ∈ entries then none else (envs[env]?).bind (List.lookup v ·) := by
    induction entries generalizing envs with
    | nil => simp
    | cons entry entries ih =>
      rw [List.foldl_cons, ih, lookup_unbind]
      by_cases h : (env, v) = entry
      · simp [h]
      · simp [h]
  rw [lookup_eq_bind, rollback_eq, lookup_eq_bind]
  simp only [hfold, List.mem_reverse]

/-- Going back only takes bindings away. -/
theorem rollback_below (s : Store) (cp : Checkpoint) : (s.rollback cp).Below s := by
  intro v env c h
  rw [lookup_rollback] at h
  split at h
  · cases h
  · exact h

/-! ### Bindings on the trail -/

/-- All bindings are on the trail. -/
def Trailed (s : Store) : Prop := ∀ v env c, s.lookup v env = some c → (env, v) ∈ s.trail.toList

theorem trailed_empty (occursCheck : Bool) : Trailed { occursCheck } := by
  intro v env c h
  simp [lookup] at h

namespace Trailed

theorem newEnv (h : s.Trailed) : s.newEnv.2.Trailed := by
  intro v env c hc
  rw [lookup_newEnv] at hc
  exact h v env c hc

theorem bind (h : s.Trailed) (v : String) (env : EnvId) (c : Closure) : (s.bind v env c).Trailed := by
  by_cases henv : env < s.envs.size
  · intro w env' d hd
    rw [lookup_bind henv] at hd
    rw [trail_bind henv, Array.toList_push, List.mem_append]
    by_cases hw : w = v ∧ env' = env
    · obtain ⟨rfl, rfl⟩ := hw
      exact Or.inr List.mem_cons_self
    · rw [if_neg hw] at hd
      exact Or.inl (h w env' d hd)
  · rw [bind_of_not_lt henv]
    exact h

theorem of_extends (h : s.Trailed) (hext : s.Extends s') : s'.Trailed := by
  induction hext with
  | refl => exact h
  | bind _ v env c _ ih => exact ih.bind v env c

theorem rollback (h : s.Trailed) (cp : Checkpoint) : (s.rollback cp).Trailed := by
  intro v env c hc
  rw [lookup_rollback] at hc
  split at hc
  · cases hc
  · rename_i hdrop
    have hmem := h v env c hc
    rw [← List.take_append_drop cp s.trail.toList, List.mem_append] at hmem
    rw [toList_trail_rollback]
    exact hmem.resolve_right hdrop

/-- Where the trail is empty nothing is bound. -/
theorem lookup_eq_none (h : s.Trailed) (hempty : s.trail.size = 0) (v : String) (env : EnvId) :
    s.lookup v env = none := by
  cases hc : s.lookup v env with
  | none => rfl
  | some c =>
    have hmem := h v env c hc
    rw [Array.eq_empty_of_size_eq_zero hempty] at hmem
    cases hmem

end Trailed

/-! ### Well-formed stores -/

/-- Bound variables are on the trail, and values are read in environments of the store. -/
structure WellFormed (s : Store) : Prop where
  trailed : ∀ {v env c}, s.lookup v env = some c → (env, v) ∈ s.trail.toList
  closed : ∀ {v env c}, s.lookup v env = some c → c.env < s.envs.size

theorem wellFormed_empty (occursCheck : Bool) : WellFormed { occursCheck } where
  trailed h := trailed_empty occursCheck _ _ _ h
  closed h := by simp [lookup] at h

namespace WellFormed

theorem isTrailed (hs : s.WellFormed) : s.Trailed := fun _ _ _ h => hs.trailed h

theorem newEnv (hs : s.WellFormed) : s.newEnv.2.WellFormed where
  trailed h := hs.isTrailed.newEnv _ _ _ h
  closed h := by
    rw [lookup_newEnv] at h
    rw [size_envs_newEnv]
    exact Nat.lt_succ_of_lt (hs.closed h)

theorem bind (hs : s.WellFormed) (hc : c.env < s.envs.size) : (s.bind v env c).WellFormed where
  trailed h := hs.isTrailed.bind v env c _ _ _ h
  closed {w env' d} hd := by
    rw [size_envs_bind]
    by_cases he : env < s.envs.size
    · rw [lookup_bind he] at hd
      by_cases hw : w = v ∧ env' = env
      · rw [if_pos hw] at hd
        cases hd
        exact hc
      · rw [if_neg hw] at hd
        exact hs.closed hd
    · rw [bind_of_not_lt he] at hd
      exact hs.closed hd

theorem rollback (hs : s.WellFormed) (cp : Checkpoint) : (s.rollback cp).WellFormed where
  trailed h := hs.isTrailed.rollback cp _ _ _ h
  closed {v env c} h := by
    rw [size_envs_rollback]
    exact hs.closed (rollback_below s cp v env c h)

/-- Well-formedness is kept by binding variables within environments of the store. -/
theorem keeps (k : Nat) : Keeps (fun _ env => env < k) fun s => s.WellFormed ∧ s.envs.size = k where
  arg h _ := h
  value h _ hv := h.2 ▸ h.1.closed hv
  bind h _ hc _ _ _ := ⟨h.1.bind (h.2.symm ▸ hc), by rw [size_envs_bind, h.2]⟩

theorem keepsRenaming {target : EnvId} {k : Nat} (htarget : target < k) :
    KeepsRenaming (· < k) target fun st => st.1.WellFormed ∧ st.1.envs.size = k where
  value h _ hv := h.2 ▸ h.1.closed hv
  bind h _ _ _ := ⟨h.1.bind (h.2.symm ▸ htarget), by rw [size_envs_bind, h.2]⟩

theorem unify (hs : s.WellFormed) (x : Term) {ex : EnvId} (y : Term) {ey : EnvId} (hx : ex < s.envs.size)
    (hy : ey < s.envs.size) : (s.unify x ex y ey).2.WellFormed :=
  (unify_keeps (keeps s.envs.size) ⟨hs, rfl⟩ hx hy).1

theorem plug (hs : s.WellFormed) (t : Term) {target : EnvId} (names : NameSupply) (henv : env < s.envs.size)
    (htarget : target < s.envs.size) : (s.plug t env target names).2.1.WellFormed :=
  (plug_keeps (keepsRenaming htarget) t ⟨hs, rfl⟩ henv).1

end WellFormed

/-! ### Following bindings -/

/-- Is the closure a bound variable? -/
def IsBound (s : Store) (c : Closure) : Prop := ∃ v d, c.term = .var v ∧ s.lookup v c.env = some d

/-- Following so many bindings of variables leads from the first closure to the second one. -/
inductive LeadsIn (s : Store) : Nat → Closure → Closure → Prop
  | refl (c : Closure) : LeadsIn s 0 c c
  | step {n : Nat} {v : String} {env : EnvId} {c d : Closure} (hv : s.lookup v env = some c) (h : LeadsIn s n c d) :
      LeadsIn s (n + 1) ⟨.var v, env⟩ d

/-- Following bindings of variables leads from the first closure to the second one. -/
def Leads (s : Store) (c d : Closure) : Prop := ∃ n, LeadsIn s n c d

namespace LeadsIn

variable {n m : Nat}

theorem eq_zero_of_not_isBound (h : LeadsIn s n c d) (hc : ¬ s.IsBound c) : n = 0 ∧ c = d := by
  cases h with
  | refl => exact ⟨rfl, rfl⟩
  | step hv _ => exact absurd ⟨_, _, rfl, hv⟩ hc

/-- Chains with an end are not branched: their length and their end are determined. -/
theorem unique (h : LeadsIn s n c d) (h' : LeadsIn s m c b) (hd : ¬ s.IsBound d) (hb : ¬ s.IsBound b) :
    n = m ∧ d = b := by
  induction h generalizing m with
  | refl c =>
    obtain ⟨rfl, rfl⟩ := h'.eq_zero_of_not_isBound hd
    exact ⟨rfl, rfl⟩
  | @step n v env c d hv h ih =>
    cases h' with
    | refl => exact absurd ⟨_, _, rfl, hv⟩ hb
    | step hv' h' =>
      rw [hv] at hv'
      cases hv'
      obtain ⟨rfl, rfl⟩ := ih h' hd
      exact ⟨rfl, rfl⟩

/-- A chain with an end visits different variables, all of them bound. -/
theorem visited (h : LeadsIn s n c d) (hd : ¬ s.IsBound d) :
    ∃ cells : List (EnvId × String), cells.length = n ∧ cells.Nodup ∧
      ∀ p ∈ cells, (∃ e, s.lookup p.2 p.1 = some e) ∧ ∃ m ≤ n, 0 < m ∧ LeadsIn s m ⟨.var p.2, p.1⟩ d := by
  induction h with
  | refl => exact ⟨[], rfl, .nil, by simp⟩
  | @step n v env c d hv h ih =>
    obtain ⟨cells, hlen, hnodup, hcells⟩ := ih hd
    refine ⟨(env, v) :: cells, by rw [List.length_cons, hlen], ?_, ?_⟩
    · rw [List.nodup_cons]
      refine ⟨?_, hnodup⟩
      intro hmem
      obtain ⟨m, hm, _, hlead⟩ := (hcells _ hmem).2
      have := ((LeadsIn.step hv h).unique hlead hd hd).1
      omega
    · intro p hp
      rw [List.mem_cons] at hp
      rcases hp with rfl | hp
      · exact ⟨⟨c, hv⟩, n + 1, Nat.le_refl _, by omega, .step hv h⟩
      · obtain ⟨hbound, m, hm, hpos, hlead⟩ := hcells p hp
        exact ⟨hbound, m, by omega, hpos, hlead⟩

theorem le_size_trail (hs : s.Trailed) (h : LeadsIn s n c d) (hd : ¬ s.IsBound d) : n ≤ s.trail.size := by
  obtain ⟨cells, hlen, hnodup, hcells⟩ := h.visited hd
  rw [← hlen, ← Array.length_toList]
  apply hnodup.length_le_of_subset
  intro p hp
  obtain ⟨⟨e, he⟩, -⟩ := hcells p hp
  exact hs _ _ _ he

theorem resolveAt_eq (h : LeadsIn s n c d) (hd : ¬ s.IsBound d) (hm : n ≤ m) : s.resolveAt m c.term c.env = d := by
  induction h generalizing m with
  | refl c =>
    cases m with
    | zero => rfl
    | succ m =>
      obtain ⟨t, env⟩ := c
      cases t with
      | var v =>
        have hv : s.lookup v env = none := by
          cases hv : s.lookup v env with
          | none => rfl
          | some e => exact absurd ⟨v, e, rfl, hv⟩ hd
        simp only [resolveAt, hv]
      | sym a => rfl
      | compound f args => rfl
  | step hv h ih =>
    cases m with
    | zero => omega
    | succ m =>
      simp only [resolveAt, hv]
      exact ih hd (by omega)

theorem snoc (h : LeadsIn s n c ⟨.var v, env⟩) (hv : s.lookup v env = some d) : LeadsIn s (n + 1) c d := by
  generalize he : (⟨.var v, env⟩ : Closure) = e at h
  induction h with
  | refl c =>
    subst he
    exact .step hv (.refl d)
  | step hw _ ih => exact .step hw (ih he)

end LeadsIn

theorem leads_resolveAt (s : Store) (n : Nat) (t : Term) (env : EnvId) : Leads s ⟨t, env⟩ (s.resolveAt n t env) := by
  induction n generalizing t env with
  | zero => exact ⟨0, .refl _⟩
  | succ n ih =>
    cases t with
    | var v =>
      unfold resolveAt
      split
      · rename_i c hv
        obtain ⟨m, hm⟩ := ih c.term c.env
        exact ⟨m + 1, .step hv hm⟩
      · exact ⟨0, .refl _⟩
    | sym a => exact ⟨0, .refl _⟩
    | compound f args => exact ⟨0, .refl _⟩

theorem leads_resolve (s : Store) (t : Term) (env : EnvId) : Leads s ⟨t, env⟩ (s.resolve t env) :=
  leads_resolveAt s s.followBound t env

theorem WellFormed.env_resolveAt_lt (hs : s.WellFormed) (n : Nat) (t : Term) (henv : env < s.envs.size) :
    (s.resolveAt n t env).env < s.envs.size := by
  induction n generalizing t env with
  | zero => exact henv
  | succ n ih =>
    cases t with
    | var v =>
      unfold resolveAt
      split
      · rename_i c hc
        exact ih c.term (hs.closed hc)
      · exact henv
    | sym a => exact henv
    | compound f args => exact henv

theorem WellFormed.env_resolve_lt (hs : s.WellFormed) (t : Term) (henv : env < s.envs.size) :
    (s.resolve t env).env < s.envs.size := hs.env_resolveAt_lt _ t henv

/-- A chain that comes to an end is followed to its end. -/
theorem Trailed.resolve_eq (hs : s.Trailed) (h : Leads s c d) (hd : ¬ s.IsBound d) : s.resolve c.term c.env = d := by
  obtain ⟨n, hn⟩ := h
  exact hn.resolveAt_eq hd (Nat.le_add_left_of_le (hn.le_size_trail hs hd))

theorem Leads.resolve_eq (hs : s.WellFormed) (h : Leads s c d) (hd : ¬ s.IsBound d) : s.resolve c.term c.env = d :=
  hs.isTrailed.resolve_eq h hd

theorem isBound_var : s.IsBound ⟨.var v, env⟩ ↔ ∃ d, s.lookup v env = some d := by
  constructor
  · rintro ⟨w, d, hw, hd⟩
    cases hw
    exact ⟨d, hd⟩
  · rintro ⟨d, hd⟩
    exact ⟨v, d, rfl, hd⟩

/-- Whether a term leads to an unbound variable is found out exactly. -/
theorem Trailed.leadsTo_iff (hs : s.Trailed) (hv : s.lookup v env = none) (t : Term) (env' : EnvId) :
    s.leadsTo t env' v env = true ↔ Leads s ⟨t, env'⟩ ⟨.var v, env⟩ := by
  have hfree : ¬ s.IsBound ⟨.var v, env⟩ := by
    rw [isBound_var, hv]
    simp
  unfold leadsTo
  rw [decide_eq_true_iff]
  constructor
  · intro h
    exact h ▸ leads_resolve s t env'
  · intro h
    exact hs.resolve_eq h hfree

theorem leadsTo_iff (hs : s.WellFormed) (hv : s.lookup v env = none) (t : Term) (env' : EnvId) :
    s.leadsTo t env' v env = true ↔ Leads s ⟨t, env'⟩ ⟨.var v, env⟩ := hs.isTrailed.leadsTo_iff hv t env'

theorem resolve_compound (s : Store) (f : String) (args : List Term) (env : EnvId) :
    s.resolve (.compound f args) env = ⟨.compound f args, env⟩ := by
  unfold resolve
  cases s.followBound <;> rfl

theorem resolve_sym (s : Store) (a : String) (env : EnvId) : s.resolve (.sym a) env = ⟨.sym a, env⟩ := by
  unfold resolve
  cases s.followBound <;> rfl

theorem resolve_of_unbound (hv : s.lookup v env = none) : s.resolve (.var v) env = ⟨.var v, env⟩ := by
  unfold resolve
  cases s.followBound with
  | zero => rfl
  | succ n => simp only [resolveAt, hv]

/-! ### Chains that come to an end -/

theorem LeadsIn.of_below {n : Nat} (h : LeadsIn s n c d) (hs : s.Below s') : LeadsIn s' n c d := by
  induction h with
  | refl c => exact .refl c
  | step hv _ ih => exact .step (hs _ _ _ hv) ih

theorem Leads.of_below (h : Leads s c d) (hs : s.Below s') : Leads s' c d := h.imp fun _ hn => hn.of_below hs

theorem Leads.trans (h : Leads s a b) (h' : Leads s b c) : Leads s a c := by
  obtain ⟨n, hn⟩ := h
  induction hn with
  | refl => exact h'
  | step hv _ ih =>
    obtain ⟨m, hm⟩ := ih h'
    exact ⟨m + 1, .step hv hm⟩

/-- No chain of variables goes on without end. -/
def ChainsEnd (s : Store) : Prop := ∀ t env, ¬ s.IsBound (s.resolve t env)

theorem not_isBound_bind (hd : ¬ s.IsBound d) (hne : d ≠ ⟨.var v, env⟩) : ¬ (s.bind v env c).IsBound d := by
  by_cases henv : env < s.envs.size
  · rintro ⟨w, b, hw, hb⟩
    rw [lookup_bind henv] at hb
    split at hb
    · rename_i hcell
      obtain ⟨rfl, rfl⟩ := hcell
      exact hne (congrArg (Closure.mk · d.env) hw)
    · exact hd ⟨w, b, hw, hb⟩
  · rwa [bind_of_not_lt henv]

namespace ChainsEnd

/-- A bound variable leads to where its value leads. -/
theorem resolve_of_lookup (hs : s.ChainsEnd) (hwf : s.WellFormed) (hc : s.lookup v env = some c) :
    s.resolve (.var v) env = s.resolve c.term c.env := by
  have hlead : s.Leads ⟨.var v, env⟩ (s.resolve c.term c.env) :=
    Leads.trans ⟨1, .step hc (.refl c)⟩ (s.leads_resolve c.term c.env)
  exact hlead.resolve_eq hwf (hs c.term c.env)

theorem of_empty (occursCheck : Bool) : ChainsEnd { occursCheck } := by
  rintro t env ⟨v, d, -, hd⟩
  simp [lookup] at hd

theorem newEnv (hs : s.ChainsEnd) (htrail : s.Trailed) : s.newEnv.2.ChainsEnd := by
  have hbound (d : Closure) : s.newEnv.2.IsBound d ↔ s.IsBound d := by
    simp only [IsBound, lookup_newEnv]
  intro t env
  have hfree := mt (hbound _).1 (hs t env)
  have hlead := (s.leads_resolve t env).of_below s.below_newEnv
  rw [htrail.newEnv.resolve_eq hlead hfree]
  exact hfree

/-- A variable may be bound to a term that does not lead to it. -/
theorem bind (hs : s.ChainsEnd) (htrail : s.Trailed) (hv : s.lookup v env = none)
    (hlead : s.leadsTo c.term c.env v env = false) : (s.bind v env c).ChainsEnd := by
  by_cases henv : env < s.envs.size
  · have hbelow : s.Below (s.bind v env c) := (Extends.refl.bind v env c hv).isBelow
    intro t env'
    -- The end of the chain is as before, unless it was the variable; then it is the end of the chain of its value.
    have hend : ∃ d, (s.bind v env c).Leads ⟨t, env'⟩ d ∧ ¬ (s.bind v env c).IsBound d := by
      have hlead' := (s.leads_resolve t env').of_below hbelow
      by_cases hcell : s.resolve t env' = ⟨.var v, env⟩
      · refine ⟨s.resolve c.term c.env, ?_, not_isBound_bind (hs c.term c.env) ?_⟩
        · refine (hcell ▸ hlead').trans (.trans ⟨1, .step ?_ (.refl c)⟩ ((s.leads_resolve c.term c.env).of_below hbelow))
          rw [lookup_bind henv, if_pos ⟨rfl, rfl⟩]
        · simpa [leadsTo] using hlead
      · exact ⟨_, hlead', not_isBound_bind (hs t env') hcell⟩
    obtain ⟨d, hd, hfree⟩ := hend
    have hresolve : (s.bind v env c).resolve t env' = d := (htrail.bind v env c).resolve_eq hd hfree
    rwa [hresolve]
  · rwa [bind_of_not_lt henv]

end ChainsEnd

end Deduction.Store
