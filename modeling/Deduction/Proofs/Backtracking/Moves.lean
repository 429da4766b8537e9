import Deduction.Proofs.Backtracking.Machines
import Deduction.Proofs.Search.Language

/-!
# Moves and frontiers

A move of the machine leaves the frontier as it is, or it does what the recursion does at the first branch: the first
goal is replaced by the branches that it leads to, or a negation begins or ends (`Machine.Shows.move`).

A renamed variable takes up one more level of the allowance, so attempts to unify must stay within the allowance once
variables were renamed.
-/

namespace Deduction

open Store (InScope Placement Mirrors Agree)

variable {src : Sources} {Q : String → Prop} {start names : NameSupply} {p : Placement} {s s' s'' : Store}
  {next : Agenda} {otherwise : Alternatives} {goal : Closure} {goals : List Closure} {fresh env candidateEnv : EnvId}
  {target t : Term} {ts : List Term} {others : List Branch} {scopes : List Scope} {w : Workspace}

/-! ### The first candidate that fits and the first branch -/

/-- Candidates that are passed over lead to no branch. -/
theorem filterMap_of_passed {attempt : Term → Bool × Store} {within : Term → Option (Option Store)}
    {branch : Term → Option Branch} {P : Prop} (hends : ∀ t r, within t = some r → Store.Ends (attempt t) r)
    (hagree : ∀ t ∈ ts, P ∨ (within t).isSome = true → (attempt t).1 = (branch t).isSome)
    (hwithin : P ∨ triedWithin within ts = true) {passed rest : List Term} (hts : ts = passed ++ rest)
    (hpassed : ∀ u ∈ passed, (attempt u).1 = false) : ts.filterMap branch = rest.filterMap branch := by
  have hnone : ∀ u ∈ passed, branch u = none := by
    intro u hu
    rw [← Option.isNone_iff_eq_none, ← Option.not_isSome, ← hagree u (by simp [hts, hu]), hpassed u hu]
    · rfl
    · refine hwithin.imp id fun hwithin => ?_
      rw [hts] at hwithin
      rw [passed_of_triedWithin hends hwithin hpassed u hu]
      rfl
  rw [hts, List.filterMap_append, List.filterMap_eq_nil_iff.2 hnone, List.nil_append]

/-- What an attempt leaves in the store that is mirrored. -/
theorem made_of_agree {k : Nat} {r r' : Bool × Store} (h : Agree Q start names p k r r') :
    r'.1 = (made r).isSome ∧ ∀ s'', r' = (true, s'') → ∃ s₁, made r = some s₁ ∧ Mirrors Q start names p s₁ s'' ∧
      s₁.envs.size = k := by
  obtain ⟨ok, s₁⟩ := r
  obtain ⟨hok, hmirrors⟩ := h
  cases ok with
  | false =>
    refine ⟨hok, fun s'' hs'' => ?_⟩
    rw [hs''] at hok
    cases hok
  | true =>
    refine ⟨hok, fun s'' hs'' => ?_⟩
    rw [hs''] at hmirrors
    exact ⟨s₁, rfl, hmirrors rfl⟩

theorem Agenda.Reads.of_made (h : next.Reads Q start names p s s' goals) {s₁ : Store}
    (hm : Mirrors Q start names p s₁ s'') (hsize : s₁.envs.size = s.envs.size) :
    next.Reads Q start names p s₁ s'' goals :=
  ⟨hm, h.closures, fun g hg => ⟨(h.plain g hg).1, hsize ▸ (h.plain g hg).2⟩⟩

/-- The goal at hand is the first goal of the branch. -/
theorem Agenda.Reads.exists_goal (h : (Agenda.goals env [t] next).Reads Q start names p s s' goals) :
    ∃ e rest, goals = ⟨t, e⟩ :: rest ∧ p.env e = env ∧ t.isPlainGoal = true ∧ InScope Q s.envs.size ⟨t, e⟩ ∧
      next.Reads Q start names p s s' rest := by
  have hclosures := h.closures
  cases goals with
  | nil => cases hclosures
  | cons goal rest =>
    obtain ⟨hgoal, hrest⟩ := List.cons.inj hclosures
    obtain ⟨u, e⟩ := goal
    obtain ⟨rfl, rfl⟩ := Closure.mk.inj hgoal
    obtain ⟨hplain, hscope⟩ := h.plain _ List.mem_cons_self
    exact ⟨e, rest, rfl, rfl, hplain, hscope, h.mirrors, hrest, fun g hg => h.plain g (List.mem_cons_of_mem _ hg)⟩

/-- A plain goal is no variable. -/
theorem Store.resolve_of_isPlainGoal (s : Store) {t : Term} (h : t.isPlainGoal = true) (env : EnvId) :
    s.resolve t env = ⟨t, env⟩ := by
  cases t with
  | var v => cases h
  | sym a => exact s.resolve_sym a env
  | compound f args => exact s.resolve_compound f args env

theorem Store.InScope.of_mem_args {k : Nat} {e : EnvId} {a : Term} (h : InScope Q k ⟨t, e⟩) (ha : a ∈ t.args) :
    InScope Q k ⟨a, e⟩ := by
  cases t with
  | var v => cases ha
  | sym b => cases ha
  | compound f args => exact h.arg ha

namespace Trial

/-- The attempt at a candidate comes to the same in the store that is mirrored. -/
theorem unify_candidate (h : Trial Q start names p s s' goal fresh next goals target env candidateEnv) (t : Term)
    (hn : names = start ∨ (Store.unifyWithin allowance target env t candidateEnv s').isSome = true) :
    Agree Q start names p s.envs.size (s.unify goal.term goal.env t fresh) (s'.unify target env t candidateEnv) := by
  obtain ⟨rfl, rfl⟩ := Closure.mk.inj h.goal_eq
  obtain rfl := h.fresh_eq
  refine h.reads.mirrors.unify h.inScope (.of_ne h.fresh_lt h.fresh_ne t) (hn.imp (fun heq => ?_) id)
  subst heq
  exact h.reads.mirrors.isClean

/-- The attempt at the head of a rule comes to the same in the store that is mirrored. -/
theorem unify_head (h : Trial Q start names p s s' goal fresh next goals target env candidateEnv) (head : Term)
    (hn : names = start ∨ (Store.unifyWithin allowance head candidateEnv target env s').isSome = true) :
    Agree Q start names p s.envs.size (s.unify head fresh goal.term goal.env)
      (s'.unify head candidateEnv target env) := by
  obtain ⟨rfl, rfl⟩ := Closure.mk.inj h.goal_eq
  obtain rfl := h.fresh_eq
  refine h.reads.mirrors.unify (.of_ne h.fresh_lt h.fresh_ne head) h.inScope (hn.imp (fun heq => ?_) id)
  subst heq
  exact h.reads.mirrors.isClean

theorem attempt_fact {c : Cursor}
    (h : Trial Q start names p s s' goal fresh next goals c.target c.env c.candidateEnv) (t : Term)
    (hn : names = start ∨ (c.attemptWithin s' t).isSome = true) :
    (c.attempt s' t).1 = (Branch.ofFact goal fresh s t).isSome ∧ ∀ s'', c.attempt s' t = (true, s'') →
      ∃ b, Branch.ofFact goal fresh s t = some b ∧ next.Reads Q start names p b.store s'' (b.goals ++ goals) := by
  obtain ⟨hok, hmade⟩ := made_of_agree (h.unify_candidate t hn)
  unfold Branch.ofFact
  refine ⟨hok.trans Option.isSome_map.symm, fun s'' hs'' => ?_⟩
  obtain ⟨s₁, heq, hm, hsize⟩ := hmade s'' hs''
  rw [heq]
  exact ⟨_, rfl, h.reads.of_made hm hsize⟩

theorem attempt_sentence {x : Expansion}
    (h : Trial Q start names p s s' goal fresh next goals x.goal x.env x.ruleEnv) (hplain : t.hasPlainBody = true)
    (hn : names = start ∨ (x.attemptWithin s' t).isSome = true) :
    (x.attempt s' t).1 = (Branch.ofSentence goal fresh s t).isSome ∧ ∀ s'', x.attempt s' t = (true, s'') →
      ∃ b, Branch.ofSentence goal fresh s t = some b ∧
        (x.agenda t next).Reads Q start names p b.store s'' (b.goals ++ goals) := by
  unfold Expansion.attemptWithin at hn
  unfold Branch.ofSentence
  cases hrule : t.asRule with
  | none =>
    rw [Expansion.attempt_of_sentence hrule, Expansion.agenda_of_sentence hrule]
    simp only [hrule] at hn ⊢
    obtain ⟨hok, hmade⟩ := made_of_agree (h.unify_candidate t hn)
    refine ⟨hok.trans Option.isSome_map.symm, fun s'' hs'' => ?_⟩
    obtain ⟨s₁, heq, hm, hsize⟩ := hmade s'' hs''
    rw [heq]
    exact ⟨_, rfl, h.reads.of_made hm hsize⟩
  | some rule =>
    obtain ⟨head, body⟩ := rule
    rw [Expansion.attempt_of_rule hrule, Expansion.agenda_of_rule hrule]
    simp only [hrule] at hn ⊢
    obtain ⟨hok, hmade⟩ := made_of_agree (h.unify_head head hn)
    refine ⟨hok.trans Option.isSome_map.symm, fun s'' hs'' => ?_⟩
    obtain ⟨s₁, heq, hm, hsize⟩ := hmade s'' hs''
    rw [heq]
    refine ⟨_, rfl, hm, ?_, fun g hg => ?_⟩
    · simp only [Agenda.closures, h.reads.closures, List.map_append, List.map_map, Function.comp_def,
        Placement.closure, h.fresh_eq]
    · rcases List.mem_append.1 hg with hg | hg
      · obtain ⟨u, hu, rfl⟩ := List.mem_map.1 hg
        exact ⟨t.isPlainGoal_of_hasPlainBody hplain hrule hu, .of_ne (hsize ▸ h.fresh_lt) h.fresh_ne u⟩
      · exact ⟨(h.reads.plain g hg).1, hsize ▸ (h.reads.plain g hg).2⟩

end Trial

theorem Agenda.closes_agenda {x : Expansion} :
    (x.agenda t next).Closes Q start names s scopes ↔ next.Closes Q start names s scopes := by
  unfold Expansion.agenda
  split <;> rfl

theorem Alternatives.shows_others {c : Cursor} {rest : List Term} {bs : List Branch} :
    (c.others rest next otherwise).Shows Q start names s bs scopes ↔
      (Alternatives.candidates { c with candidates := rest } next otherwise).Shows Q start names s bs scopes := by
  unfold Cursor.others
  dsimp only
  split <;> rfl

theorem Alternatives.shows_others_rules {x : Expansion} {rest : List Term} {bs : List Branch} :
    (x.others t rest next otherwise).Shows Q start names s bs scopes ↔
      (Alternatives.rules { x with rules := rest } next otherwise).Shows Q start names s bs scopes := by
  unfold Expansion.others
  split <;> rfl

namespace Machine

/-! ### Trying candidates and rules -/

theorem isSome_attemptWithin {c : Cursor} (h : c.attempt s t = (true, s'')) : (c.attemptWithin s t).isSome = true := by
  have hwithin := Store.unifyWithin_of_unify h
  unfold Cursor.attemptWithin
  rw [hwithin]
  rfl

theorem isSome_attemptWithin_rule {x : Expansion} (h : x.attempt s t = (true, s'')) :
    (x.attemptWithin s t).isSome = true := by
  unfold Expansion.attemptWithin
  cases hrule : t.asRule with
  | none =>
    rw [Expansion.attempt_of_sentence hrule] at h
    dsimp only
    rw [Store.unifyWithin_of_unify h]
    rfl
  | some rule =>
    rw [Expansion.attempt_of_rule hrule] at h
    dsimp only
    rw [Store.unifyWithin_of_unify h]
    rfl

theorem ends_attempt (c : Cursor) (s : Store) (t : Term) (r : Option Store) (h : c.attemptWithin s t = some r) :
    Store.Ends (c.attempt s t) r := by
  unfold Cursor.attempt
  rw [Store.unify_of_within h]
  cases r <;> rfl

/-- The facts that are tried are the first branches. -/
theorem shows_moveCandidates {c : Cursor}
    (htrial : Trial Q start w.names p s w.store goal fresh next goals c.target c.env c.candidateEnv)
    (hcp : c.checkpoint = w.store.checkpoint) (hcloses : next.Closes Q start w.names w.store scopes)
    (hothers : otherwise.Shows Q start w.names w.store others scopes)
    (hwithin : w.names = start ∨ triedWithin (c.attemptWithin w.store) ts = true) :
    (moveCandidates c next otherwise ts w).Shows Q start
      ⟨(ts.filterMap (Branch.ofFact goal fresh s)).map (Branch.andThen goals) ++ others, scopes⟩ := by
  have hpass {passed rest : List Term} (hts : ts = passed ++ rest)
      (hpassed : ∀ u ∈ passed, (c.attempt w.store u).1 = false) :
      ts.filterMap (Branch.ofFact goal fresh s) = rest.filterMap (Branch.ofFact goal fresh s) :=
    filterMap_of_passed (ends_attempt c w.store) (fun t _ hn => (htrial.attempt_fact t hn).1) hwithin hts hpassed
  unfold moveCandidates
  cases hfit : firstFit (c.attempt w.store) ts with
  | none =>
    dsimp only
    rw [hpass (List.append_nil ts).symm (firstFit_eq_none hfit)]
    exact hothers
  | some found =>
    obtain ⟨t, rest, s''⟩ := found
    obtain ⟨passed, hts, hpassed, ht⟩ := firstFit_eq_some hfit
    obtain ⟨b, hb, hreads⟩ := (htrial.attempt_fact t (.inr (isSome_attemptWithin ht))).2 s'' ht
    have hext : w.store.Extends s'' := Store.unify_extends ht
    have hback : s''.rollback c.checkpoint = w.store := hcp ▸ hext.rollback_eq
    dsimp only
    rw [hpass hts hpassed, List.filterMap_cons_some hb]
    refine ⟨p, b.goals ++ goals, b.store, _, rfl, hreads, hcloses.of_extends hext, ?_⟩
    refine Alternatives.shows_others.2 ⟨?_, p, goals, s, goal, fresh, others, rfl, ?_⟩
    · rw [hcp]
      exact hext.size_trail
    · dsimp only
      rw [hback]
      exact ⟨htrial, hcloses, hothers⟩

/-- The rules that are tried are the first branches. -/
theorem shows_moveRules {x : Expansion}
    (htrial : Trial Q start w.names p s w.store goal fresh next goals x.goal x.env x.ruleEnv)
    (hcp : x.checkpoint = w.store.checkpoint) (hplain : ∀ t ∈ ts, t.hasPlainBody = true)
    (hcloses : next.Closes Q start w.names w.store scopes)
    (hothers : otherwise.Shows Q start w.names w.store others scopes)
    (hwithin : w.names = start ∨ triedWithin (x.attemptWithin w.store) ts = true) :
    (moveRules x next otherwise ts w).Shows Q start
      ⟨(ts.filterMap (Branch.ofSentence goal fresh s)).map (Branch.andThen goals) ++ others, scopes⟩ := by
  have hpass {passed rest : List Term} (hts : ts = passed ++ rest)
      (hpassed : ∀ u ∈ passed, (x.attempt w.store u).1 = false) :
      ts.filterMap (Branch.ofSentence goal fresh s) = rest.filterMap (Branch.ofSentence goal fresh s) :=
    filterMap_of_passed x.ends_attempt (fun t ht hn => (htrial.attempt_sentence (hplain t ht) hn).1) hwithin hts hpassed
  unfold moveRules
  cases hfit : firstFit (x.attempt w.store) ts with
  | none =>
    dsimp only
    rw [hpass (List.append_nil ts).symm (firstFit_eq_none hfit)]
    exact hothers
  | some found =>
    obtain ⟨t, rest, s''⟩ := found
    obtain ⟨passed, hts, hpassed, ht⟩ := firstFit_eq_some hfit
    have hmem : t ∈ ts := by simp [hts]
    have hrest (u : Term) (hu : u ∈ rest) : u.hasPlainBody = true := hplain u (by simp [hts, hu])
    obtain ⟨b, hb, hreads⟩ :=
      (htrial.attempt_sentence (hplain t hmem) (.inr (isSome_attemptWithin_rule ht))).2 s'' ht
    have hext : w.store.Extends s'' := by
      unfold Expansion.attempt at ht
      split at ht <;> exact Store.unify_extends ht
    have hback : s''.rollback x.checkpoint = w.store := hcp ▸ hext.rollback_eq
    dsimp only
    rw [hpass hts hpassed, List.filterMap_cons_some hb]
    refine ⟨p, b.goals ++ goals, b.store, _, rfl, hreads, Agenda.closes_agenda.2 (hcloses.of_extends hext), ?_⟩
    refine Alternatives.shows_others_rules.2 ⟨?_, p, goals, s, goal, fresh, others, rfl, ?_⟩
    · rw [hcp]
      exact hext.size_trail
    · dsimp only
      rw [hback]
      exact ⟨htrial, hrest, hcloses, hothers⟩

/-! ### Moves -/

variable {x : Frontier} {m : Machine}

/-- Going on with the agenda leaves the frontier as it is, unless a negation is refuted. -/
theorem shows_moveOn (h : w.Proves Q start next otherwise x) :
    ∃ y, x.Covers src y ∧ (moveOn next otherwise w).Shows Q start y := by
  cases next with
  | done => exact ⟨x, .refl x, h⟩
  | leave goal env next =>
    obtain ⟨p, goals, s, others, hbs, hreads, hcloses, hothers⟩ := h
    exact ⟨x, .refl x, p, goals, s, others, hbs, ⟨hreads.mirrors, hreads.closures, hreads.plain⟩, hcloses, hothers⟩
  | goals env rest next =>
    cases rest with
    | nil =>
      obtain ⟨p, goals, s, others, hbs, hreads, hcloses, hothers⟩ := h
      exact ⟨x, .refl x, p, goals, s, others, hbs, ⟨hreads.mirrors, hreads.closures, hreads.plain⟩, hcloses, hothers⟩
    | cons goal rest =>
      obtain ⟨p, goals, s, others, hbs, hreads, hcloses, hothers⟩ := h
      exact ⟨x, .refl x, p, goals, s, others, hbs, ⟨hreads.mirrors, hreads.closures, hreads.plain⟩, hcloses, hothers⟩
  | refuted cp otherwise =>
    obtain ⟨p, goals, s, others, hbs, hreads, ⟨scope, outer, hscopes, hcp, hback⟩, -⟩ := h
    obtain rfl : goals = [] := List.map_eq_nil_iff.1 hreads.closures.symm
    obtain ⟨bs, scopes⟩ := x
    obtain rfl : bs = _ := hbs
    obtain rfl : scopes = _ := hscopes
    exact ⟨⟨scope.others, outer⟩, Frontier.covers_refuted scope, hback⟩

/-- Going back leaves the frontier as it is, unless a negation turns out to hold. -/
theorem shows_moveBack (h : otherwise.Shows Q start w.names w.store x.branches x.scopes)
    (hwithin : w.names = start ∨ (⟨.failed otherwise, w⟩ : Machine).triesWithin src = true) :
    ∃ y, x.Covers src y ∧ (moveBack otherwise w).Shows Q start y := by
  cases otherwise with
  | none => exact ⟨x, .refl x, h⟩
  | undo cp otherwise => exact ⟨x, .refl x, h.2⟩
  | reenter goal env otherwise => exact ⟨x, .refl x, h⟩
  | absent next otherwise =>
    obtain ⟨hbs, p, goals, s, others, outer, hscopes, hreads, hcloses, hothers⟩ := h
    obtain ⟨bs, scopes⟩ := x
    obtain rfl : bs = _ := hbs
    obtain rfl : scopes = _ := hscopes
    exact ⟨_, Frontier.covers_absent _, p, goals, s, others, rfl, hreads, hcloses, hothers⟩
  | disjuncts env gs next otherwise =>
    obtain ⟨p, goals, s, e, others, hbs, hreads, he, hgs, hcloses, hothers⟩ := h
    cases gs with
    | nil => exact ⟨x, .refl x, show otherwise.Shows Q start w.names w.store x.branches x.scopes from hbs ▸ hothers⟩
    | cons g gs =>
      refine ⟨x, .refl x, p, ⟨g, e⟩ :: goals, s, _, hbs, ⟨hreads.mirrors, ?_, ?_⟩, hcloses, ?_⟩
      · simp only [Agenda.closures, hreads.closures, List.map_cons, List.map_nil, Placement.closure, he]
        rfl
      · exact List.forall_mem_cons.2 ⟨hgs g List.mem_cons_self, hreads.plain⟩
      · exact ⟨p, goals, s, e, others, rfl, hreads, he, fun g hg => hgs g (List.mem_cons_of_mem _ hg), hcloses, hothers⟩
  | candidates c next otherwise =>
    obtain ⟨hcp, p, goals, s, goal, fresh, others, hbs, htrial, hcloses, hothers⟩ := h
    obtain ⟨bs, scopes⟩ := x
    obtain rfl : bs = _ := hbs
    refine ⟨_, .refl _, ?_⟩
    exact shows_moveCandidates (w := ⟨w.store.rollback c.checkpoint, w.names⟩) htrial
      (Store.size_trail_rollback hcp).symm hcloses hothers hwithin
  | rules x next otherwise =>
    obtain ⟨hcp, p, goals, s, goal, fresh, others, hbs, htrial, hplain, hcloses, hothers⟩ := h
    rename_i y
    obtain ⟨bs, scopes⟩ := y
    obtain rfl : bs = _ := hbs
    refine ⟨_, .refl _, ?_⟩
    exact shows_moveRules (w := ⟨w.store.rollback x.checkpoint, w.names⟩) htrial
      (Store.size_trail_rollback hcp).symm hplain hcloses hothers hwithin

/-- A fresh environment is tried for a goal. -/
theorem trial_newEnv {e : EnvId} (hreads : next.Reads Q start names p s s' goals)
    (hscope : InScope Q s.envs.size ⟨t, e⟩) :
    Trial Q start names (p.addEnv s.envs.size s'.envs.size) s.newEnv.2 s'.newEnv.2 ⟨t, e⟩ s.newEnv.1 next goals t
      (p.env e) s'.newEnv.1 := by
  have hsize := Store.size_envs_newEnv s
  have hold {f : EnvId} (hf : f < s.envs.size) : (p.addEnv s.envs.size s'.envs.size).env f = p.env f :=
    Placement.env_addEnv_of_ne (Nat.ne_of_lt hf)
  refine ⟨⟨hreads.mirrors.newEnv, ?_, fun g hg => ?_⟩, ?_, hscope.mono (hsize ▸ Nat.le_succ _), if_pos rfl, ?_, ?_⟩
  · rw [hreads.closures]
    refine List.map_congr_left fun g hg => ?_
    rw [Placement.closure, Placement.closure, hold (hreads.plain g hg).2.env_lt]
  · exact ⟨(hreads.plain g hg).1, (hreads.plain g hg).2.mono (hsize ▸ Nat.le_succ _)⟩
  · rw [Placement.closure, hold hscope.env_lt]
  · rw [hsize]
    exact Nat.lt_succ_self _
  · exact Nat.ne_of_gt hreads.mirrors.query_lt

/-- Comes to a plain goal, the first one of the first branch. -/
theorem shows_moveGoal (hrules : ∀ t ∈ src.rules.toList, t.hasPlainBody = true)
    (h : w.Proves Q start (.goals env [t] next) otherwise x)
    (hwithin : w.names = start ∨ Goal.triedWithin src t env w.store = true) :
    ∃ y, x.Covers src y ∧ (moveGoal src t env next otherwise w).Shows Q start y := by
  obtain ⟨p, _, s, others, hbs, hreads, hcloses, hothers⟩ := h
  obtain ⟨e, goals, rfl, rfl, hplain, hscope, hreads⟩ := hreads.exists_goal
  obtain ⟨bs, scopes⟩ := x
  obtain rfl : bs = _ := hbs
  have hcloses : next.Closes Q start w.names w.store scopes := hcloses
  have hresolve : s.resolve t e = ⟨t, e⟩ := s.resolve_of_isPlainGoal hplain e
  have hparts := Goal.isPlainOf_ofTerm src.rules hplain
  have hexpand (hgoal : ∀ g, Goal.ofTerm src.rules t ≠ .negation g) :
      Frontier.Covers src ⟨⟨⟨t, e⟩ :: goals, s⟩ :: others, scopes⟩
        ⟨(Branch.expand src (s.resolve t e) s).map (Branch.andThen goals) ++ others, scopes⟩ :=
    Frontier.covers_expand (by rwa [hresolve])
  rw [hresolve] at hexpand
  unfold Branch.expand at hexpand
  unfold Goal.triedWithin at hwithin
  unfold moveGoal
  -- Two terms that are made equal, or are not, in both stores.
  have hunify {a b : Term} (ha : a ∈ t.args) (hb : b ∈ t.args)
      (hn : w.names = start ∨ (Store.unifyWithin allowance a (p.env e) b (p.env e) w.store).isSome = true) :
      Agree Q start w.names p s.envs.size (s.unify a e b e) (w.store.unify a (p.env e) b (p.env e)) := by
    refine hreads.mirrors.unify (hscope.of_mem_args ha) (hscope.of_mem_args hb) (hn.imp (fun heq => ?_) id)
    have hm := hreads.mirrors
    rw [heq] at hm
    exact hm.isClean
  cases hkind : Goal.ofTerm src.rules t with
  | holds =>
    simp only [hkind] at hexpand
    refine ⟨_, hexpand (by simp), p, goals, s, others, rfl, hreads, hcloses, Nat.le_refl _, ?_⟩
    rwa [Store.checkpoint, Store.rollback_size]
  | fails =>
    simp only [hkind] at hexpand
    exact ⟨_, hexpand (by simp), hothers⟩
  | same a b =>
    simp only [hkind] at hexpand hwithin hparts ⊢
    obtain ⟨hok, hmade⟩ := made_of_agree (hunify hparts.1 hparts.2 hwithin)
    refine ⟨_, hexpand (by simp), ?_⟩
    cases hr : w.store.unify a (p.env e) b (p.env e) with
    | mk ok s'' =>
      rw [hr] at hok hmade
      cases ok with
      | false =>
        have hnone : made (s.unify a e b e) = none := by simpa using hok.symm
        rw [hnone]
        exact hothers
      | true =>
        obtain ⟨s₁, heq, hm, hsize⟩ := hmade s'' rfl
        have hext := Store.unify_extends hr
        rw [heq]
        refine ⟨p, goals, s₁, others, rfl, hreads.of_made hm hsize, hcloses.of_extends hext, hext.size_trail, ?_⟩
        rwa [hext.rollback_eq]
  | distinct a b =>
    simp only [hkind] at hexpand hwithin hparts ⊢
    have hok := (hunify hparts.1 hparts.2 hwithin).1
    refine ⟨_, hexpand (by simp), ?_⟩
    cases hr : w.store.unify a (p.env e) b (p.env e) with
    | mk ok s'' =>
      rw [hr] at hok
      cases ok with
      | true =>
        rw [if_pos hok.symm]
        exact hothers
      | false =>
        rw [if_neg (by simp [← hok])]
        exact ⟨p, goals, s, others, rfl, hreads, hcloses, hothers⟩
  | negation g =>
    rw [hkind] at hparts
    obtain ⟨hg, hgplain⟩ := hparts
    refine ⟨_, Frontier.covers_negation (by rw [hresolve]; exact hkind), p, [⟨g, e⟩], s, [], by rw [hresolve], ?_, ?_, rfl,
      p, goals, s, others, scopes, rfl, hreads, hcloses, hothers⟩
    · exact ⟨hreads.mirrors, rfl, List.forall_mem_singleton.2 ⟨hgplain, hscope.of_mem_args hg⟩⟩
    · refine ⟨_, _, rfl, Nat.le_refl _, ?_⟩
      rwa [Store.checkpoint, Store.rollback_size]
  | conjunction gs =>
    simp only [hkind] at hexpand hparts
    obtain ⟨rfl, hgs⟩ := hparts
    refine ⟨_, hexpand (by simp), p, t.args.map (⟨·, e⟩) ++ goals, s, others, rfl, ⟨hreads.mirrors, ?_, fun g hg => ?_⟩,
      hcloses, hothers⟩
    · simp only [Agenda.closures, hreads.closures, List.map_append, List.map_map, Function.comp_def, Placement.closure]
    · rcases List.mem_append.1 hg with hg | hg
      · obtain ⟨u, hu, rfl⟩ := List.mem_map.1 hg
        exact ⟨hgs u hu, hscope.of_mem_args hu⟩
      · exact hreads.plain g hg
  | disjunction gs =>
    simp only [hkind] at hexpand hparts
    obtain ⟨rfl, hgs⟩ := hparts
    refine ⟨_, hexpand (by simp), p, goals, s, e, others, ?_, hreads, rfl,
      fun g hg => ⟨hgs g hg, hscope.of_mem_args hg⟩, hcloses, hothers⟩
    simp only [List.map_map]
    rfl
  | view =>
    simp only [hkind] at hexpand hwithin
    refine ⟨_, hexpand (by simp), ?_⟩
    have hadvances := Store.Advances.newEnv Q start w.names w.store
    rw [← hreads.mirrors.lookupIn_eq src.rules hscope]
    exact shows_moveRules (w := ⟨w.store.newEnv.2, w.names⟩) (x := ruleExpansion src t (p.env e) w.store)
      (trial_newEnv hreads hscope) rfl (fun u hu => hrules u (Theory.mem_of_mem_lookupIn hu))
      (hcloses.of_advances hadvances) (hothers.of_advances hadvances) hwithin
  | base =>
    simp only [hkind] at hexpand hwithin
    refine ⟨_, hexpand (by simp), ?_⟩
    have hadvances := Store.Advances.newEnv Q start w.names w.store
    rw [← hreads.mirrors.factsFor_eq src hscope]
    exact shows_moveCandidates (w := ⟨w.store.newEnv.2, w.names⟩) (c := factCursor src t (p.env e) w.store)
      (trial_newEnv hreads hscope) rfl (hcloses.of_advances hadvances) (hothers.of_advances hadvances) hwithin
  | mutex | member | dataset | computed =>
    rw [hkind] at hparts
    exact hparts.elim

/-- The goal that a machine is about to prove is plain. -/
theorem isPlainGoal_of_proves (h : w.Proves Q start (.goals env [t] next) otherwise x) : t.isPlainGoal = true := by
  obtain ⟨p, goals, s, others, -, hreads, -⟩ := h
  obtain ⟨e, rest, -, -, hplain, -⟩ := hreads.exists_goal
  exact hplain

theorem Shows.isPlain (hm : m.Shows Q start x) : m.IsPlain src := by
  obtain ⟨control, w⟩ := m
  cases control with
  | prove goal env next otherwise =>
    have hplain : goal.isPlainGoal = true := isPlainGoal_of_proves hm
    have hparts := Goal.isPlainOf_ofTerm src.rules hplain
    unfold IsPlain
    dsimp only
    rw [w.store.resolve_of_isPlainGoal hplain]
    generalize Goal.ofTerm src.rules goal = kind at hparts
    cases kind <;> first | rfl | exact hparts.elim
  | proved next otherwise => trivial
  | failed otherwise => trivial

/-- A move leads to a frontier that is covered by the one before. -/
theorem Shows.move (hm : m.Shows Q start x) (hrules : ∀ t ∈ src.rules.toList, t.hasPlainBody = true)
    (hwithin : m.work.names = start ∨ m.triesWithin src = true) :
    ∃ y, x.Covers src y ∧ (m.move src).Shows Q start y := by
  obtain ⟨control, w⟩ := m
  cases control with
  | prove goal env next otherwise =>
    have hresolve := w.store.resolve_of_isPlainGoal (isPlainGoal_of_proves hm) env
    unfold triesWithin at hwithin
    simp only [hresolve] at hwithin
    unfold Machine.move
    simp only [hresolve]
    exact shows_moveGoal hrules hm hwithin
  | proved next otherwise => exact shows_moveOn hm
  | failed otherwise => exact shows_moveBack hm hwithin

end Machine

end Deduction
