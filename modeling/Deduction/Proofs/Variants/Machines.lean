import Deduction.Proofs.Search.Within
import Deduction.Proofs.Variants.Values

/-!
# Machines with other variables

Two machines search in stores that differ in their variables. What they are to do differs in its variables as well, and
where rules are left to try, the rules of the one are variants of those of the other. A rule is read in an environment of
its own, so that environment is named anew whenever a rule is tried: everything else that is left lives in environments
below it (`Machine.follows_tryRules`). One step of the first machine is followed by a step of the second one
(`Machine.follows_step`), as long as it is shallow.
-/

namespace Deduction

variable {P : String → Prop} {π : Equiv.Perm String} {ρ ρ' : Naming} {s s' : Store} {b b' : EnvId}
  {cp cp' : Checkpoint}

/-! ### What is left to prove and to try -/

mutual
/-- What is left to prove, with other variables. It lives in environments below the bound, and the bindings up to the
checkpoint are those that were there when it came up. -/
inductive Agenda.Renamed (P : String → Prop) (ρ : Naming) (s : Store) : EnvId → Checkpoint → Agenda → Agenda → Prop
  | done {b : EnvId} {cp : Checkpoint} : Agenda.Renamed P ρ s b cp .done .done
  | goals {b env : EnvId} {cp : Checkpoint} {rest rest' : List Term} {next next' : Agenda} (henv : env < b)
    (hrest : rest' = rest.map (Term.relabel (ρ env))) (hn : Agenda.Renamed P ρ s b cp next next') :
    Agenda.Renamed P ρ s b cp (.goals env rest next) (.goals env rest' next')
  | leave {b env : EnvId} {cp : Checkpoint} {goal goal' : Term} {next next' : Agenda} (henv : env < b)
    (hgoal : goal' = goal.relabel (ρ env)) (hn : Agenda.Renamed P ρ s b cp next next') :
    Agenda.Renamed P ρ s b cp (.leave goal env next) (.leave goal' env next')
  | refuted {b : EnvId} {cp cp' : Checkpoint} {o o' : Alternatives} (hcp : cp' ≤ cp)
    (ho : Alternatives.Renamed P ρ s b cp' o o') : Agenda.Renamed P ρ s b cp (.refuted cp' o) (.refuted cp' o')

/-- What is left to try, with other variables. The environment that rules are read in is above all that is left
otherwise. -/
inductive Alternatives.Renamed (P : String → Prop) (ρ : Naming) (s : Store) :
    EnvId → Checkpoint → Alternatives → Alternatives → Prop
  | none {b : EnvId} {cp : Checkpoint} : Alternatives.Renamed P ρ s b cp .none .none
  | undo {b : EnvId} {cp cp' : Checkpoint} {o o' : Alternatives} (hcp : cp' ≤ cp)
    (ho : Alternatives.Renamed P ρ s b cp' o o') : Alternatives.Renamed P ρ s b cp (.undo cp' o) (.undo cp' o')
  | reenter {b env : EnvId} {cp : Checkpoint} {goal goal' : Term} {o o' : Alternatives} (henv : env < b)
    (hgoal : goal' = goal.relabel (ρ env)) (ho : Alternatives.Renamed P ρ s b cp o o') :
    Alternatives.Renamed P ρ s b cp (.reenter goal env o) (.reenter goal' env o')
  | absent {b : EnvId} {cp : Checkpoint} {next next' : Agenda} {o o' : Alternatives}
    (hn : Agenda.Renamed P ρ s b cp next next') (ho : Alternatives.Renamed P ρ s b cp o o') :
    Alternatives.Renamed P ρ s b cp (.absent next o) (.absent next' o')
  | disjuncts {b env : EnvId} {cp : Checkpoint} {goals goals' : List Term} {next next' : Agenda} {o o' : Alternatives}
    (henv : env < b) (hgoals : goals' = goals.map (Term.relabel (ρ env)))
    (hn : Agenda.Renamed P ρ s b cp next next') (ho : Alternatives.Renamed P ρ s b cp o o') :
    Alternatives.Renamed P ρ s b cp (.disjuncts env goals next o) (.disjuncts env goals' next' o')
  | candidates {b : EnvId} {cp : Checkpoint} {c : Cursor} {target : Term} {candidates : List Term} {next next' : Agenda}
    {o o' : Alternatives} (hcp : c.checkpoint ≤ cp) (henv : c.env < b) (hcandidateEnv : c.candidateEnv < b)
    (htarget : target = c.target.relabel (ρ c.env))
    (hcandidates : candidates = c.candidates.map (Term.relabel (ρ c.candidateEnv)))
    (hn : Agenda.Renamed P ρ s b c.checkpoint next next') (ho : Alternatives.Renamed P ρ s b c.checkpoint o o') :
    Alternatives.Renamed P ρ s b cp (.candidates c next o) (.candidates { c with target, candidates } next' o')
  | rules {b : EnvId} {cp : Checkpoint} {x : Expansion} {goal : Term} {rules : List Term} {next next' : Agenda}
    {o o' : Alternatives} (hcp : x.checkpoint ≤ cp) (henv : x.env < x.ruleEnv) (hruleEnv : x.ruleEnv < b)
    (hscoped : (s.rollback x.checkpoint).Scoped x.ruleEnv) (hgoal : goal = x.goal.relabel (ρ x.env))
    (hrules : List.Forall₂ (Term.Permuted P) x.rules rules)
    (hn : Agenda.Renamed P ρ s x.ruleEnv x.checkpoint next next')
    (ho : Alternatives.Renamed P ρ s x.ruleEnv x.checkpoint o o') :
    Alternatives.Renamed P ρ s b cp (.rules x next o) (.rules { x with goal, rules } next' o')
end

mutual
/-- Nothing changes as long as the environments keep their names and the bindings up to the checkpoint are still there. -/
theorem Agenda.Renamed.transfer : {b b' : EnvId} → {cp cp' : Checkpoint} → {next next' : Agenda} →
    (∀ e, e < b → ρ e = ρ' e) → (∀ k, k ≤ cp → ∀ e, (s.rollback k).Scoped e → (s'.rollback k).Scoped e) →
      b ≤ b' → cp ≤ cp' → Agenda.Renamed P ρ s b cp next next' → Agenda.Renamed P ρ' s' b' cp' next next'
  | _, _, _, _, _, _, _, _, _, _, .done => .done
  | _, _, _, _, _, _, hρ, hs, hb, hcp, .goals henv hrest hn =>
    .goals (Nat.lt_of_lt_of_le henv hb) (hρ _ henv ▸ hrest) (hn.transfer hρ hs hb hcp)
  | _, _, _, _, _, _, hρ, hs, hb, hcp, .leave henv hgoal hn =>
    .leave (Nat.lt_of_lt_of_le henv hb) (hρ _ henv ▸ hgoal) (hn.transfer hρ hs hb hcp)
  | _, _, _, _, _, _, hρ, hs, hb, hcp, .refuted hk ho =>
    .refuted (Nat.le_trans hk hcp) (ho.transfer hρ (fun k hk' => hs k (Nat.le_trans hk' hk)) hb (Nat.le_refl _))

theorem Alternatives.Renamed.transfer : {b b' : EnvId} → {cp cp' : Checkpoint} → {o o' : Alternatives} →
    (∀ e, e < b → ρ e = ρ' e) → (∀ k, k ≤ cp → ∀ e, (s.rollback k).Scoped e → (s'.rollback k).Scoped e) →
      b ≤ b' → cp ≤ cp' → Alternatives.Renamed P ρ s b cp o o' → Alternatives.Renamed P ρ' s' b' cp' o o'
  | _, _, _, _, _, _, _, _, _, _, .none => .none
  | _, _, _, _, _, _, hρ, hs, hb, hcp, .undo hk ho =>
    .undo (Nat.le_trans hk hcp) (ho.transfer hρ (fun k hk' => hs k (Nat.le_trans hk' hk)) hb (Nat.le_refl _))
  | _, _, _, _, _, _, hρ, hs, hb, hcp, .reenter henv hgoal ho =>
    .reenter (Nat.lt_of_lt_of_le henv hb) (hρ _ henv ▸ hgoal) (ho.transfer hρ hs hb hcp)
  | _, _, _, _, _, _, hρ, hs, hb, hcp, .absent hn ho => .absent (hn.transfer hρ hs hb hcp) (ho.transfer hρ hs hb hcp)
  | _, _, _, _, _, _, hρ, hs, hb, hcp, .disjuncts henv hgoals hn ho =>
    .disjuncts (Nat.lt_of_lt_of_le henv hb) (hρ _ henv ▸ hgoals) (hn.transfer hρ hs hb hcp) (ho.transfer hρ hs hb hcp)
  | _, _, _, _, _, _, hρ, hs, hb, hcp, .candidates hk henv hcandidateEnv htarget hcandidates hn ho =>
    have hs' := fun k hk' => hs k (Nat.le_trans hk' hk)
    .candidates (Nat.le_trans hk hcp) (Nat.lt_of_lt_of_le henv hb) (Nat.lt_of_lt_of_le hcandidateEnv hb)
      (hρ _ henv ▸ htarget) (hρ _ hcandidateEnv ▸ hcandidates) (hn.transfer hρ hs' hb (Nat.le_refl _))
      (ho.transfer hρ hs' hb (Nat.le_refl _))
  | _, _, _, _, _, _, hρ, hs, hb, hcp, .rules hk henv hruleEnv hscoped hgoal hrules hn ho =>
    have hs' := fun k hk' => hs k (Nat.le_trans hk' hk)
    have hρ' := fun e he => hρ e (Nat.lt_trans he hruleEnv)
    .rules (Nat.le_trans hk hcp) henv (Nat.lt_of_lt_of_le hruleEnv hb) (hs _ hk _ hscoped)
      (hρ _ (Nat.lt_trans henv hruleEnv) ▸ hgoal) hrules (hn.transfer hρ' hs' (Nat.le_refl _) (Nat.le_refl _))
      (ho.transfer hρ' hs' (Nat.le_refl _) (Nat.le_refl _))
end

section

variable {next next' : Agenda} {o o' : Alternatives}

theorem Agenda.Renamed.onward (hn : next.Renamed P ρ s b cp next') (hs : s.Onward s') (hcp : cp ≤ s.trail.size) (hb : b ≤ b')
    (hcp' : cp ≤ cp') : next.Renamed P ρ s' b' cp' next' :=
  hn.transfer (fun _ _ => rfl) (fun k hk => hs.inScope k (Nat.le_trans hk hcp)) hb hcp'

theorem Alternatives.Renamed.onward (ho : o.Renamed P ρ s b cp o') (hs : s.Onward s') (hcp : cp ≤ s.trail.size)
    (hb : b ≤ b') (hcp' : cp ≤ cp') : o.Renamed P ρ s' b' cp' o' :=
  ho.transfer (fun _ _ => rfl) (fun k hk => hs.inScope k (Nat.le_trans hk hcp)) hb hcp'

theorem Agenda.Renamed.rollback (hn : next.Renamed P ρ s b cp next') : next.Renamed P ρ (s.rollback cp) b cp next' :=
  hn.transfer (fun _ _ => rfl) (fun k hk e he => by rwa [Store.rollback_rollback hk]) (Nat.le_refl _) (Nat.le_refl _)

theorem Alternatives.Renamed.rollback (ho : o.Renamed P ρ s b cp o') : o.Renamed P ρ (s.rollback cp) b cp o' :=
  ho.transfer (fun _ _ => rfl) (fun k hk e he => by rwa [Store.rollback_rollback hk]) (Nat.le_refl _) (Nat.le_refl _)

end

/-! ### Machines -/

/-- What is left to prove where the store is now, with other variables. -/
def Agenda.RenamedIn (P : String → Prop) (ρ : Naming) (s : Store) (next next' : Agenda) : Prop :=
  next.Renamed P ρ s s.envs.size s.checkpoint next'

/-- What is left to try where the store is now, with other variables. -/
def Alternatives.RenamedIn (P : String → Prop) (ρ : Naming) (s : Store) (o o' : Alternatives) : Prop :=
  o.Renamed P ρ s s.envs.size s.checkpoint o'

/-- Going back to a checkpoint comes to where the bindings are those that were there then. -/
theorem Agenda.Renamed.back {next next' : Agenda} (hn : next.Renamed P ρ s s.envs.size cp next') (hcp : cp ≤ s.checkpoint) :
    next.RenamedIn P ρ (s.rollback cp) next' := by
  unfold RenamedIn Store.checkpoint
  rw [Store.size_envs_rollback, Store.size_trail_rollback hcp]
  exact hn.rollback

theorem Alternatives.Renamed.back {o o' : Alternatives} (ho : o.Renamed P ρ s s.envs.size cp o') (hcp : cp ≤ s.checkpoint) :
    o.RenamedIn P ρ (s.rollback cp) o' := by
  unfold RenamedIn Store.checkpoint
  rw [Store.size_envs_rollback, Store.size_trail_rollback hcp]
  exact ho.rollback

/-- What the machine is about to do, with other variables. -/
inductive Control.Renamed (P : String → Prop) (ρ : Naming) (s : Store) : Control → Control → Prop
  | prove {goal goal' : Term} {env : EnvId} {next next' : Agenda} {o o' : Alternatives} (henv : env < s.envs.size)
    (hgoal : goal' = goal.relabel (ρ env)) (hn : next.RenamedIn P ρ s next') (ho : o.RenamedIn P ρ s o') :
    Control.Renamed P ρ s (.prove goal env next o) (.prove goal' env next' o')
  | proved {next next' : Agenda} {o o' : Alternatives} (hn : next.RenamedIn P ρ s next') (ho : o.RenamedIn P ρ s o') :
    Control.Renamed P ρ s (.proved next o) (.proved next' o')
  | failed {o o' : Alternatives} (ho : o.RenamedIn P ρ s o') : Control.Renamed P ρ s (.failed o) (.failed o')

/-- The naming names the environments of the store. It spares the names of the set, and gives the variables of the query
the names that they are to have. -/
structure Naming.Fits (P : String → Prop) (π : Equiv.Perm String) (ρ : Naming) (s : Store) : Prop where
  proper : s.Proper
  eq_one : ∀ e, s.envs.size ≤ e → ρ e = 1
  spares : ∀ e, Spares P (ρ e)
  query : ρ Search.queryEnv = π
  lt_size : Search.queryEnv < s.envs.size

/-- The machines differ in their variables. -/
def Machine.Renamed (P : String → Prop) (π : Equiv.Perm String) (m m' : Machine) : Prop :=
  ∃ ρ, Naming.Fits P π ρ m.work.store ∧ m'.work = m.work.relabel ρ ∧ m.control.Renamed P ρ m.work.store m'.control

namespace Naming.Fits

variable {x y : Term} {ex ey : EnvId}

theorem of_extends (h : ρ.Fits P π s) (hs : s'.Proper) (hext : s.Extends s') : ρ.Fits P π s' where
  proper := hs
  eq_one e he := h.eq_one e (hext.size_envs ▸ he)
  spares := h.spares
  query := h.query
  lt_size := hext.size_envs.symm ▸ h.lt_size

theorem unify (h : ρ.Fits P π s) (hx : ex < s.envs.size) (hy : ey < s.envs.size) (hr : s.unify x ex y ey = (true, s')) :
    ρ.Fits P π s' :=
  h.of_extends (h.proper.unify hx hy hr) (Store.unify_extends hr)

theorem rollback (h : ρ.Fits P π s) (cp : Checkpoint) : ρ.Fits P π (s.rollback cp) where
  proper := h.proper.rollback cp
  eq_one e he := h.eq_one e (Store.size_envs_rollback ▸ he)
  spares := h.spares
  query := h.query
  lt_size := Store.size_envs_rollback.symm ▸ h.lt_size

theorem newEnv (h : ρ.Fits P π s) : ρ.Fits P π s.newEnv.2 where
  proper := h.proper.newEnv
  eq_one e he := by
    rw [Store.size_envs_newEnv] at he
    exact h.eq_one e (Nat.le_of_succ_le he)
  spares := h.spares
  query := h.query
  lt_size := by
    rw [Store.size_envs_newEnv]
    exact Nat.lt_succ_of_lt h.lt_size

/-- An environment other than that of the query is named anew. -/
theorem update (h : ρ.Fits P π s) {e : EnvId} {π' : Equiv.Perm String} (he : e < s.envs.size) (hne : Search.queryEnv < e)
    (hπ' : Spares P π') : Naming.Fits P π (Function.update ρ e π') s where
  proper := h.proper
  eq_one f hf := by
    rw [Function.update_of_ne (Nat.ne_of_gt (Nat.lt_of_lt_of_le he hf))]
    exact h.eq_one f hf
  spares f := by
    by_cases hf : f = e
    · subst hf
      rwa [Function.update_self]
    · rw [Function.update_of_ne hf]
      exact h.spares f
  query := by
    rw [Function.update_of_ne (Nat.ne_of_lt hne)]
    exact h.query
  lt_size := h.lt_size

end Naming.Fits

namespace Machine

variable {src src' : Sources} {ask ask' : Answerer} {next next' : Agenda} {o o' : Alternatives} {names : NameSupply}
  {w : Workspace}

theorem renamed_proved (hw : ρ.Fits P π w.store) (hn : next.RenamedIn P ρ w.store next')
    (ho : o.RenamedIn P ρ w.store o') : Renamed P π ⟨.proved next o, w⟩ ⟨.proved next' o', w.relabel ρ⟩ :=
  ⟨ρ, hw, rfl, .proved hn ho⟩

theorem renamed_failed (hw : ρ.Fits P π w.store) (ho : o.RenamedIn P ρ w.store o') :
    Renamed P π ⟨.failed o, w⟩ ⟨.failed o', w.relabel ρ⟩ :=
  ⟨ρ, hw, rfl, .failed ho⟩

/-! ### Candidates and rules -/

theorem renamed_others {c : Cursor} {target : Term} {l k : List Term} (hcp : c.checkpoint = s.checkpoint)
    (hext : s.Extends s') (henv : c.env < s.envs.size) (hcandidateEnv : c.candidateEnv < s.envs.size)
    (htarget : target = c.target.relabel (ρ c.env)) (hn : next.RenamedIn P ρ s next') (ho : o.RenamedIn P ρ s o') :
    (c.others l next o).RenamedIn P ρ s'
      ({ c with target, candidates := k }.others (l.map (Term.relabel (ρ c.candidateEnv))) next' o') := by
  have hsize := hext.size_envs
  have honward := Store.Onward.of_extends hext
  have hn' : next.Renamed P ρ s' s'.envs.size s.checkpoint next' :=
    hn.onward honward (Nat.le_refl _) honward.size_envs (Nat.le_refl _)
  have ho' : o.Renamed P ρ s' s'.envs.size s.checkpoint o' :=
    ho.onward honward (Nat.le_refl _) honward.size_envs (Nat.le_refl _)
  have hrest : Alternatives.RenamedIn P ρ s' (.candidates { c with candidates := l } next o)
      (.candidates { c with target, candidates := l.map (Term.relabel (ρ c.candidateEnv)) } next' o') := by
    rw [← hcp] at hn' ho'
    exact .candidates (hcp ▸ hext.size_trail) (hsize.symm ▸ henv) (hsize.symm ▸ hcandidateEnv) htarget rfl hn' ho'
  unfold Cursor.others
  dsimp only
  split
  · exact .reenter (hsize.symm ▸ henv) htarget hrest
  · exact hrest

theorem follows_tryCandidates {c : Cursor} {target : Term} (hw : ρ.Fits P π s) (hcp : c.checkpoint = s.checkpoint)
    (henv : c.env < s.envs.size) (hcandidateEnv : c.candidateEnv < s.envs.size)
    (htarget : target = c.target.relabel (ρ c.env)) (hn : next.RenamedIn P ρ s next') (ho : o.RenamedIn P ρ s o')
    (l k : List Term) :
    Deduction.Follows (Renamed P π) (tryCandidates src c next o l ⟨s, names⟩)
      (tryCandidates src' { c with target, candidates := k } next' o' (l.map (Term.relabel (ρ c.candidateEnv)))
        ⟨s.relabel ρ, names⟩) := by
  have hcount : Deduction.Follows (fun _ _ => True) c.count c.count := by
    unfold Cursor.count
    split
    · exact follows_pure trivial
    · exact Deduction.Follows.instantiate
  have hreport (event : String) (s s' : Store) (c c' : Cursor) :
      Deduction.Follows (fun _ _ => True) (c.report src.config event s) (c'.report src'.config event s') :=
    (c.reports _ event s).follows (c'.reports _ event s')
  induction l with
  | nil =>
    rw [List.map_nil, tryCandidates_nil, tryCandidates_nil]
    exact .tick (hreport _ _ _ _ _) (follows_pure (renamed_failed (w := ⟨s, names⟩) hw ho))
  | cons t rest ih =>
    have hunify := s.unify_relabel (ρ := ρ) c.target c.env t c.candidateEnv
    rw [← htarget] at hunify
    rw [List.map_cons]
    generalize h : s.unify c.target c.env t c.candidateEnv = r at hunify
    obtain ⟨ok, s'⟩ := r
    cases ok with
    | true =>
      have hext := Store.unify_extends h
      have honward := Store.Onward.of_extends hext
      rw [tryCandidates_of_unify h, tryCandidates_of_unify (c := { c with target, candidates := k }) hunify]
      refine .tick hcount (.tick (hreport _ _ _ _ _) (follows_pure ?_))
      refine renamed_proved (w := ⟨s', names⟩) (hw.unify henv hcandidateEnv h) ?_ ?_
      · exact hn.onward honward (Nat.le_refl _) honward.size_envs honward.size_trail
      · exact renamed_others hcp hext henv hcandidateEnv htarget hn ho
    | false =>
      rw [tryCandidates_of_not_unify (congrArg Prod.fst h),
        tryCandidates_of_not_unify (c := { c with target, candidates := k }) (congrArg Prod.fst hunify)]
      exact .tick hcount ih

theorem follows_reportGoal {event : String} {goal goal' : Term} {env : EnvId} :
    Deduction.Follows (fun _ _ => True) (reportGoal src.config event s goal env) (reportGoal src'.config event s' goal' env) :=
  (reports_reportGoal _ event s goal env).follows (reports_reportGoal _ event s' goal' env)

/-- A rule is tried in an environment that is named after its variant. -/
theorem follows_tryRules {x : Expansion} {goal : Term} (hw : ρ.Fits P π s) (hcp : x.checkpoint = s.checkpoint)
    (henv : x.env < x.ruleEnv) (hruleEnv : x.ruleEnv < s.envs.size) (hscoped : s.Scoped x.ruleEnv)
    (hgoal : goal = x.goal.relabel (ρ x.env)) (hn : next.Renamed P ρ s x.ruleEnv s.checkpoint next')
    (ho : o.Renamed P ρ s x.ruleEnv s.checkpoint o') {l l' : List Term} (hl : List.Forall₂ (Term.Permuted P) l l')
    (k : List Term) :
    Deduction.Follows (Renamed P π) (tryRules src x next o l ⟨s, names⟩)
      (tryRules src' { x with goal, rules := k } next' o' l' ⟨s.relabel ρ, names⟩) := by
  induction hl with
  | nil =>
    rw [tryRules_nil, tryRules_nil]
    refine .tick follows_reportGoal (follows_pure (renamed_failed (w := ⟨s, names⟩) hw ?_))
    exact ho.onward (.refl s) (Nat.le_refl _) (Nat.le_of_lt hruleEnv) (Nat.le_refl _)
  | @cons t t' rest rest' ht hrest ih =>
    obtain ⟨σ, hσ, rfl⟩ := ht
    -- The environment of the rules is named by the permutation that makes the variant.
    let ρ₁ : Naming := Function.update ρ x.ruleEnv σ
    have hagree (e : EnvId) (he : e < x.ruleEnv) : ρ e = ρ₁ e := (Function.update_of_ne (Nat.ne_of_lt he) σ ρ).symm
    have hself : ρ₁ x.ruleEnv = σ := Function.update_self x.ruleEnv σ ρ
    have hstore : s.relabel ρ = s.relabel ρ₁ := hscoped ρ ρ₁ hagree
    have hgoal₁ : goal = x.goal.relabel (ρ₁ x.env) := hagree x.env henv ▸ hgoal
    have hw₁ : ρ₁.Fits P π s := hw.update hruleEnv (Nat.lt_of_le_of_lt (Nat.zero_le _) henv) hσ
    have hnext (s' : Store) (hext : s.Extends s') {b : EnvId} (hb : x.ruleEnv ≤ b) {k : Checkpoint} (hk : s.checkpoint ≤ k) :
        next.Renamed P ρ₁ s' b k next' :=
      hn.transfer hagree (fun k hk => (Store.Onward.of_extends hext).inScope k hk) hb hk
    have hothers (s' : Store) (hext : s.Extends s') {b : EnvId} (hb : x.ruleEnv ≤ b) {k : Checkpoint} (hk : s.checkpoint ≤ k) :
        o.Renamed P ρ₁ s' b k o' :=
      ho.transfer hagree (fun k hk => (Store.Onward.of_extends hext).inScope k hk) hb hk
    have hrules (s' : Store) (hext : s.Extends s') : Alternatives.RenamedIn P ρ₁ s'
        (.rules { x with rules := rest } next o) (.rules { x with goal, rules := rest' } next' o') := by
      refine .rules (hcp ▸ hext.size_trail) henv (hext.size_envs.symm ▸ hruleEnv) ?_ hgoal₁ hrest ?_ ?_
      · dsimp only
        rwa [hcp, hext.rollback_eq]
      · exact hnext s' hext (Nat.le_refl _) (Nat.le_of_eq hcp.symm)
      · exact hothers s' hext (Nat.le_refl _) (Nat.le_of_eq hcp.symm)
    cases hrule : t.asRule with
    | some rule =>
      obtain ⟨head, body⟩ := rule
      have hrule' : (t.relabel σ).asRule = some (head.relabel σ, body.map (Term.relabel σ)) := by
        rw [Term.asRule_relabel, hrule, Option.map_some]
      have hunify := s.unify_relabel (ρ := ρ₁) head x.ruleEnv x.goal x.env
      rw [← hgoal₁, hself, ← hstore] at hunify
      generalize h : s.unify head x.ruleEnv x.goal x.env = r at hunify
      obtain ⟨ok, s'⟩ := r
      cases ok with
      | true =>
        have hext := Store.unify_extends h
        have hle : x.ruleEnv ≤ s'.envs.size := Nat.le_of_lt (hext.size_envs.symm ▸ hruleEnv)
        rw [tryRules_of_head hrule h, tryRules_of_head (x := { x with goal, rules := k }) hrule' hunify]
        refine .tick Deduction.Follows.infer (follows_pure ?_)
        refine renamed_proved (w := ⟨s', names⟩) (hw₁.unify hruleEnv (Nat.lt_trans henv hruleEnv) h) ?_ (hrules s' hext)
        refine .goals (hext.size_envs.symm ▸ hruleEnv) (hself ▸ rfl) (.leave ?_ hgoal₁ (hnext s' hext hle hext.size_trail))
        exact hext.size_envs.symm ▸ Nat.lt_trans henv hruleEnv
      | false =>
        rw [tryRules_of_not_head hrule (congrArg Prod.fst h),
          tryRules_of_not_head (x := { x with goal, rules := k }) hrule' (congrArg Prod.fst hunify)]
        exact .tick Deduction.Follows.infer ih
    | none =>
      have hrule' : (t.relabel σ).asRule = none := by rw [Term.asRule_relabel, hrule, Option.map_none]
      have hunify := s.unify_relabel (ρ := ρ₁) x.goal x.env t x.ruleEnv
      rw [← hgoal₁, hself, ← hstore] at hunify
      generalize h : s.unify x.goal x.env t x.ruleEnv = r at hunify
      obtain ⟨ok, s'⟩ := r
      cases ok with
      | true =>
        have hext := Store.unify_extends h
        have hle : x.ruleEnv ≤ s'.envs.size := Nat.le_of_lt (hext.size_envs.symm ▸ hruleEnv)
        rw [tryRules_of_sentence hrule h, tryRules_of_sentence (x := { x with goal, rules := k }) hrule' hunify]
        refine .tick Deduction.Follows.infer (.tick follows_reportGoal (follows_pure ?_))
        refine renamed_proved (w := ⟨s', names⟩) (hw₁.unify (Nat.lt_trans henv hruleEnv) hruleEnv h)
          (hnext s' hext hle hext.size_trail) (.reenter ?_ hgoal₁ (hrules s' hext))
        exact hext.size_envs.symm ▸ Nat.lt_trans henv hruleEnv
      | false =>
        rw [tryRules_of_not_sentence hrule (congrArg Prod.fst h),
          tryRules_of_not_sentence (x := { x with goal, rules := k }) hrule' (congrArg Prod.fst hunify)]
        exact .tick Deduction.Follows.infer ih

theorem follows_expand (hsrc : src.Variants P src') (hw : ρ.Fits P π w.store) {goal : Term} {env : EnvId}
    (henv : env < w.store.envs.size) (hn : next.RenamedIn P ρ w.store next') (ho : o.RenamedIn P ρ w.store o') :
    Deduction.Follows (Renamed P π) (expand src goal env next o w)
      (expand src' (goal.relabel (ρ env)) env next' o' (w.relabel ρ)) := by
  have hrules := hsrc.rules.lookupIn w.store goal env
  have hlookup : src'.rules.lookupIn (w.store.relabel ρ) (goal.relabel (ρ env)) env = src'.rules.lookupIn w.store goal env :=
    Theory.lookupIn_relabel _ _ _ _
  have hfresh : w.store.newEnv.2.Scoped w.store.newEnv.1 := hw.proper.inScope.newEnv
  have honward := Store.Onward.newEnv w.store
  unfold expand Workspace.relabel
  dsimp only
  rw [hlookup, Store.newEnv_relabel, Store.checkpoint_relabel]
  refine .tick follows_reportGoal ?_
  refine follows_tryRules (x := ⟨goal, env, _, w.store.newEnv.1, w.store.checkpoint⟩) hw.newEnv rfl henv ?_ hfresh rfl ?_ ?_
    hrules _
  · rw [Store.size_envs_newEnv]
    exact Nat.lt_succ_self _
  · exact hn.onward honward (Nat.le_refl _) (Nat.le_refl _) (Nat.le_refl _)
  · exact ho.onward honward (Nat.le_refl _) (Nat.le_refl _) (Nat.le_refl _)

theorem follows_select {x y : Selecting Selection} {ts : List Term} {env : EnvId} (origin : Cursor.Origin)
    (h : FollowsIn textMakers ρ env ts [] (Selection.Renamed ρ env) x y) (hts : w.plugsWithin env ts = true)
    (hw : ρ.Fits P π w.store) (havoids : w.store.Avoids textMakers) (henv : env < w.store.envs.size)
    (hn : next.RenamedIn P ρ w.store next') (ho : o.RenamedIn P ρ w.store o') :
    Deduction.Follows (Renamed P π) (select src origin env x next o w) (select src' origin env y next' o' (w.relabel ρ)) := by
  have hready : w.Ready textMakers ρ := ⟨havoids, hw.proper, hw.eq_one⟩
  unfold select
  refine (h w hready henv hts).bind fun r r' hr => ?_
  obtain ⟨selection, ⟨store, names⟩⟩ := r
  obtain ⟨selection', w'⟩ := r'
  obtain ⟨hwork, honward, hready', hresult, -⟩ := hr
  dsimp only at hwork honward hready' hresult
  subst hwork
  have hfits : ρ.Fits P π store :=
    ⟨hready'.proper, hready'.eq_one, hw.spares, hw.query, Nat.lt_of_lt_of_le hw.lt_size honward.size_envs⟩
  cases hresult with
  | none =>
    refine follows_pure (renamed_failed (w := ⟨store, names⟩) hfits ?_)
    exact ho.onward honward (Nat.le_refl _) honward.size_envs honward.size_trail
  | @some selection selection' hselection =>
    obtain ⟨hlt, rfl⟩ := hselection
    have hcp : (store.rollback w.store.checkpoint).checkpoint = w.store.checkpoint :=
      Store.size_trail_rollback honward.size_trail
    have hsize : (store.rollback w.store.checkpoint).envs.size = store.envs.size := Store.size_envs_rollback
    have hn' : next.Renamed P ρ store store.envs.size w.store.checkpoint next' :=
      hn.onward honward (Nat.le_refl _) honward.size_envs (Nat.le_refl _)
    have ho' : o.Renamed P ρ store store.envs.size w.store.checkpoint o' :=
      ho.onward honward (Nat.le_refl _) honward.size_envs (Nat.le_refl _)
    unfold Workspace.relabel
    dsimp only
    rw [Store.checkpoint_relabel, Store.rollback_relabel]
    refine follows_tryCandidates (c := ⟨origin, selection.target, env, selection.candidates, selection.env,
      w.store.checkpoint⟩) (hfits.rollback _) hcp.symm ?_ ?_ rfl (hn'.back honward.size_trail)
      (ho'.back honward.size_trail) _ _
    · exact hsize.symm ▸ Nat.lt_of_lt_of_le henv honward.size_envs
    · exact hsize.symm ▸ hlt

/-! ### Steps -/

theorem follows_proveResolved (hL : textless.Closed src) (hP : Reserves P src) (hsrc : src.Variants P src')
    (hask : ask.Followed P ask') {goal : Term} {env : EnvId} (hgoal : goal.Avoids textMakers)
    (hts : w.plugsWithin env (Goal.ofTerm src.rules goal).inputs = true) (hw : ρ.Fits P π w.store)
    (havoids : w.store.Avoids textMakers) (henv : env < w.store.envs.size) (hn : next.RenamedIn P ρ w.store next')
    (ho : o.RenamedIn P ρ w.store o') :
    Deduction.Follows (Renamed P π) (proveResolved src ask goal env next o w)
      (proveResolved src' ask' (goal.relabel (ρ env)) env next' o' (w.relabel ρ)) := by
  have hfresh (n : Nat) : ρ env s!"V{n}" = s!"V{n}" := hw.spares env _ (hP.invented n)
  have hkind : Goal.ofTerm src'.rules (goal.relabel (ρ env)) = (Goal.ofTerm src.rules goal).relabel (ρ env) := by
    rw [Goal.ofTerm_congr hsrc.rules.defines_eq, Goal.ofTerm_relabel]
  have hcp : (w.relabel ρ).store.checkpoint = w.store.checkpoint := Store.checkpoint_relabel
  unfold proveResolved
  rw [hkind]
  cases hof : Goal.ofTerm src.rules goal with
  | fails => exact follows_pure (renamed_failed hw ho)
  | holds =>
    dsimp only [Goal.relabel]
    rw [hcp]
    exact follows_pure (renamed_proved hw hn (.undo (Nat.le_refl _) ho))
  | same x y =>
    have hunify := w.store.unify_relabel (ρ := ρ) x env y env
    dsimp only [Goal.relabel]
    unfold Workspace.relabel
    dsimp only
    rw [hunify, Store.checkpoint_relabel]
    generalize h : w.store.unify x env y env = r
    obtain ⟨ok, s⟩ := r
    cases ok with
    | true =>
      have hext := Store.unify_extends h
      have honward := Store.Onward.of_extends hext
      refine follows_pure (renamed_proved (w := ⟨s, w.names⟩) (hw.unify henv henv h) ?_ (.undo hext.size_trail ?_))
      · exact hn.onward honward (Nat.le_refl _) honward.size_envs honward.size_trail
      · exact ho.onward honward (Nat.le_refl _) honward.size_envs (Nat.le_refl _)
    | false =>
      rw [Store.unify_eq_of_fails h]
      exact follows_pure (renamed_failed hw ho)
  | distinct x y =>
    have hunify := w.store.unify_relabel (ρ := ρ) x env y env
    dsimp only [Goal.relabel]
    unfold Workspace.relabel
    dsimp only
    rw [hunify, Store.checkpoint_relabel]
    generalize h : w.store.unify x env y env = r
    obtain ⟨ok, s⟩ := r
    cases ok with
    | true =>
      dsimp only
      rw [Store.rollback_relabel, (Store.unify_extends h).rollback_eq]
      exact follows_pure (renamed_failed hw ho)
    | false =>
      rw [Store.unify_eq_of_fails h]
      exact follows_pure (renamed_proved hw hn ho)
  | mutex terms =>
    have hterms : ∀ t ∈ terms, t.Avoids textMakers := by
      have hadmits := hL.goal_admits goal hgoal
      rwa [hof] at hadmits
    rw [hof] at hts
    refine (FollowsIn.inputs hfresh hterms w ⟨havoids, hw.proper, hw.eq_one⟩ henv hts).bind fun r r' hr => ?_
    obtain ⟨values, w₁⟩ := r
    obtain ⟨values', w'⟩ := r'
    obtain ⟨hwork, honward, hready, hresult, -⟩ := hr
    dsimp only at hwork honward hready hresult
    subst hwork
    have hfits : ρ.Fits P π w₁.store :=
      ⟨hready.proper, hready.eq_one, hw.spares, hw.query, Nat.lt_of_lt_of_le hw.lt_size honward.size_envs⟩
    have hn' : next.RenamedIn P ρ w₁.store next' :=
      hn.onward honward (Nat.le_refl _) honward.size_envs honward.size_trail
    have ho' : o.RenamedIn P ρ w₁.store o' :=
      ho.onward honward (Nat.le_refl _) honward.size_envs honward.size_trail
    cases hresult with
    | none => exact follows_pure (renamed_failed hfits ho')
    | @some values values' hvalues =>
      obtain ⟨rfl, -⟩ := hvalues
      dsimp only
      rw [pairwiseDistinct_relabel]
      split
      · exact follows_pure (renamed_proved hfits hn' ho')
      · exact follows_pure (renamed_failed hfits ho')
  | negation g =>
    dsimp only [Goal.relabel]
    rw [hcp]
    exact follows_pure ⟨ρ, hw, rfl, .prove henv rfl (.refuted (Nat.le_refl _) ho) (.absent hn ho)⟩
  | conjunction goals => exact follows_pure (renamed_proved hw (.goals henv rfl hn) ho)
  | disjunction goals => exact follows_pure (renamed_failed hw (.disjuncts henv rfl hn ho))
  | member item list =>
    rw [hof] at hts
    exact follows_select _ (followsIn_selectMembers hfresh item list) hts hw havoids henv hn ho
  | dataset g name =>
    rw [hof] at hts
    exact follows_select _ (followsIn_selectDataset hfresh hsrc g name) hts hw havoids henv hn ho
  | computed f args =>
    rw [hof] at hts
    obtain rfl : goal = .compound f args := Goal.eq_of_computed hof
    obtain ⟨hf, hargs⟩ := Term.avoids_compound.1 hgoal
    have hselect := followsIn_selectComputed hfresh hask (hw.spares env) hsrc hf hargs
    exact follows_select _ hselect hts hw havoids henv hn ho
  | view => exact follows_expand hsrc hw henv hn ho
  | base =>
    refine .tick follows_reportGoal ?_
    have hnone : w.plugsWithin env [] = true := rfl
    exact follows_select _ (followsIn_selectFacts hsrc goal) hnone hw havoids henv hn ho

theorem follows_advance (hw : ρ.Fits P π w.store) (hn : next.RenamedIn P ρ w.store next')
    (ho : o.RenamedIn P ρ w.store o') :
    Deduction.Follows (Renamed P π) (advance src next o w) (advance src' next' o' (w.relabel ρ)) := by
  cases hn with
  | done => exact follows_pure (renamed_proved hw .done ho)
  | @goals _ env _ rest rest' _ _ henv hrest hn =>
    subst hrest
    cases rest with
    | nil => exact follows_pure (renamed_proved hw hn ho)
    | cons goal rest => exact follows_pure ⟨ρ, hw, rfl, .prove henv rfl (.goals henv rfl hn) ho⟩
  | leave henv hgoal hn =>
    exact .tick follows_reportGoal (follows_pure (renamed_proved hw hn (.reenter henv hgoal ho)))
  | @refuted _ _ k _ _ hk ho =>
    unfold advance Workspace.relabel
    dsimp only
    rw [Store.rollback_relabel]
    exact follows_pure (renamed_failed (w := ⟨w.store.rollback k, w.names⟩) (hw.rollback k) (ho.back hk))

theorem follows_retreat (hw : ρ.Fits P π w.store) (ho : o.RenamedIn P ρ w.store o') :
    Deduction.Follows (Renamed P π) (retreat src o w) (retreat src' o' (w.relabel ρ)) := by
  have hsize (k : Checkpoint) : (w.store.rollback k).envs.size = w.store.envs.size := Store.size_envs_rollback
  have htrail (k : Checkpoint) (hk : k ≤ w.store.checkpoint) : (w.store.rollback k).checkpoint = k :=
    Store.size_trail_rollback hk
  cases ho with
  | none => exact follows_pure (renamed_failed hw .none)
  | @undo _ _ k _ _ hk ho =>
    unfold retreat Workspace.relabel
    dsimp only
    rw [Store.rollback_relabel]
    exact follows_pure (renamed_failed (w := ⟨w.store.rollback k, w.names⟩) (hw.rollback k) (ho.back hk))
  | reenter henv hgoal ho => exact .tick follows_reportGoal (follows_pure (renamed_failed hw ho))
  | absent hn ho => exact follows_pure (renamed_proved hw hn ho)
  | @disjuncts _ env _ goals goals' _ _ _ _ henv hgoals hn ho =>
    subst hgoals
    cases goals with
    | nil => exact follows_pure (renamed_failed hw ho)
    | cons goal rest => exact follows_pure ⟨ρ, hw, rfl, .prove henv rfl hn (.disjuncts henv rfl hn ho)⟩
  | @candidates _ _ c target candidates next next' o o' hcp henv hcandidateEnv htarget hcandidates hn ho =>
    subst hcandidates
    unfold retreat Workspace.relabel
    dsimp only
    rw [Store.rollback_relabel]
    refine follows_tryCandidates (hw.rollback _) (htrail _ hcp).symm ?_ ?_ htarget (hn.back hcp) (ho.back hcp) _ _
    · rwa [hsize]
    · rwa [hsize]
  | @rules _ _ x goal rules next next' o o' hcp henv hruleEnv hscoped hgoal hrules hn ho =>
    unfold retreat Workspace.relabel
    dsimp only
    rw [Store.rollback_relabel]
    refine follows_tryRules (hw.rollback _) (htrail _ hcp).symm henv ?_ hscoped hgoal ?_ ?_ hrules _
    · rwa [hsize]
    · rw [htrail _ hcp]
      exact hn.rollback
    · rw [htrail _ hcp]
      exact ho.rollback

/-- One step of a machine that plugs within the allowance is followed by a step of the other machine. -/
theorem follows_step (hL : textless.Closed src) (hP : Reserves P src) (hsrc : src.Variants P src')
    (hask : ask.Followed P ask') {template : Term} {m m' : Machine} (h : m.Renamed P π m') (hm : m.Within textless)
    (hshallow : m.isShallow src template = true) :
    Deduction.Follows (Renamed P π) (m.step src ask) (m'.step src' ask') := by
  obtain ⟨control, w⟩ := m
  obtain ⟨control', w'⟩ := m'
  obtain ⟨ρ, hw, hwork, hcontrol⟩ := h
  dsimp only at hw hwork hcontrol
  subst hwork
  cases hcontrol with
  | @prove goal _ env next next' o o' henv hgoal hn ho =>
    subst hgoal
    have hresolve : (w.store.relabel ρ).resolve (goal.relabel (ρ env)) env = (w.store.resolve goal env).relabel ρ :=
      w.store.resolve_relabel goal env
    have hlt := hw.proper.env_resolve_lt goal henv
    have havoids : (w.store.resolve goal env).term.Avoids textMakers := by
      cases hm.control with
      | prove hgoal _ _ => exact goal_resolve hL hm.store hgoal env
    unfold step
    dsimp only
    change Deduction.Follows _ _ (proveResolved src' ask' ((w.store.relabel ρ).resolve (goal.relabel (ρ env)) env).term
      ((w.store.relabel ρ).resolve (goal.relabel (ρ env)) env).env next' o' (w.relabel ρ))
    rw [hresolve]
    exact follows_proveResolved hL hP hsrc hask havoids hshallow hw hm.store hlt hn ho
  | proved hn ho => exact follows_advance hw hn ho
  | failed ho => exact follows_retreat hw ho

end Machine

end Deduction
