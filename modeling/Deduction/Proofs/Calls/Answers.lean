import Deduction.Proofs.Calls.Runs

/-!
# Calls through rules

A relation that only the rule `relation(X1, ..., Xn) :- goal` defines holds of terms where the goal holds with the terms for
the variables. The search that calls the relation enters the rule: it makes a fresh environment and binds the variables of
the head in it, to the terms or to what the terms lead to. From there on it has the goal in that environment where the other
search has the goal with the terms, and what comes after the goal comes to nothing (`Search.runsAlike_call`). So as long as
both searches are careful, they have the same answers but for the names of variables (`answers_call`).
-/

namespace Deduction

variable {D : Type} [Values D] {b : Bool} {R : Pairing D} {w w' : Workspace} {src : Sources} {ask : Answerer}
  {relation : String} {vs : List String} {body goal t : Term} {ts us : List Term} {σ : String → Term} {env env' : EnvId}

/-! ### Entering a rule -/

/-- In the first store a head is made equal to a closure, in a fresh environment. The stores stay coupled, if the closure
has no variables that have not come up yet, and readings of it can be extended to the head. -/
theorem Coupled.enter (hD : Values.Suits D b) (h : Coupled b R w w') {head : Term} {c : Closure}
    (hhead : ∀ v ∈ head.vars, IsOwn v) (hc : c.env < w.store.envs.size) (hknown : ∀ v ∈ c.term.vars, ¬ w.IsSpare v c.env)
    (hextends : ∀ θ : Reading D, ∃ η : Reading D, (∀ v, ∀ e < w.store.envs.size, η v e = θ v e) ∧
      η.read w.store.newEnv.1 head = η.read c.env c.term) {r : Option Store}
    (hr : Store.unifyWithin allowance head w.store.newEnv.1 c.term c.env w.store.newEnv.2 = some r) :
    ∃ s, r = some s ∧ Coupled b (R.within s w'.store) ⟨s, w.names⟩ w' ∧ w.store.newEnv.2.Extends s ∧
      ∀ θ : Reading D, θ.Solves s → θ.read w.store.newEnv.1 head = θ.read c.env c.term := by
  have hsize : w.store.newEnv.2.envs.size = w.store.envs.size + 1 := Store.size_envs_newEnv _
  have henv : w.store.newEnv.1 < w.store.newEnv.2.envs.size := hsize ▸ Nat.lt_succ_self _
  have hcenv : c.env < w.store.newEnv.2.envs.size := hsize ▸ Nat.lt_succ_of_lt hc
  have hsound := h.left.sound.newEnv
  have hfinds {θ : Reading D} (hθ : θ.Solves w.store) :
      θ.Finds (θ.read w.store.newEnv.1 head) (θ.read c.env c.term) r :=
    Store.unifyWithin_finds hsound.wellFormed (Reading.solves_newEnv.2 hθ)
      (fun hcheck => hD.wellFounded (h.left.check ▸ hcheck)) henv hcenv hr
  have hextend {θ θ' : Reading D} (hR : R θ θ') :
      ∃ η, R η θ' ∧ η.read w.store.newEnv.1 head = η.read c.env c.term := by
    obtain ⟨η, hη, heq⟩ := hextends θ
    exact ⟨η, h.left.spare hR fun v e hv => hη v e (Nat.lt_of_not_le fun hle => hv (.inl hle)), heq⟩
  have hunify := Store.unify_of_within hr
  cases r with
  | none =>
    obtain ⟨θ, θ', hR⟩ := h.left.exists_pair hD
    obtain ⟨η, hη, heq⟩ := hextend hR
    exact absurd heq (hfinds (h.left.solves hη))
  | some s =>
    have hext := Store.unify_extends hunify
    have hiff {θ : Reading D} (hθ : θ.Solves w.store) :
        θ.read w.store.newEnv.1 head = θ.read c.env c.term ↔ θ.Solves s := hfinds hθ
    have hback {θ : Reading D} (hθ : θ.Solves s) : θ.Solves w.store :=
      Reading.solves_newEnv.1 (hθ.of_below hext.isBelow)
    refine ⟨s, rfl, ⟨?_, ?_⟩, hext, fun θ hθ => (hiff (hback hθ)).2 hθ⟩
    · refine ⟨hsound.unify henv hcenv hunify, hext.occursCheck.trans h.left.check, fun hR => hR.2.1, fun {θ} hθ => ?_,
        fun {θ θ' η} hR heq => ?_⟩
      · obtain ⟨θ', hR⟩ := h.left.total (hback hθ)
        exact ⟨θ', hR, hθ, h.right.solves hR⟩
      · -- Neither the head nor the closure has variables that have not come up yet, so their values stay the same.
        have hkept {v : String} {e : EnvId} (hv : ¬ w.IsSpare v e) : η v e = θ v e := by
          refine heq v e fun hspare => hv (hspare.mono ?_ (Nat.le_refl _))
          exact Nat.le_trans (Nat.le_of_lt (Nat.lt_of_lt_of_eq (Nat.lt_succ_self _) hsize.symm)) (Nat.le_of_eq hext.size_envs.symm)
        have hη : R η θ' := h.left.spare hR.1 fun v e hv => hkept hv
        refine ⟨hη, (hiff (h.left.solves hη)).1 ?_, hR.2.2⟩
        rw [Reading.read_congr head fun v hv => ?_, Reading.read_congr c.term fun v hv => hkept (hknown v hv)]
        · exact (hiff (hback hR.2.1)).2 hR.2.1
        · refine heq v _ (not_or.2 ⟨?_, (hhead v hv).not_willIssue _⟩)
          exact Nat.not_le_of_lt (Nat.lt_of_lt_of_eq henv hext.size_envs.symm)
    · refine ⟨h.right.sound, h.right.check, fun hR => hR.2.2, fun {θ'} hθ' => ?_, fun {θ' θ η} hR heq => ?_⟩
      · obtain ⟨θ, hR⟩ := h.right.total hθ'
        obtain ⟨η, hη, heq⟩ := hextend hR
        exact ⟨η, hη, (hiff (h.left.solves hη)).1 heq, hθ'⟩
      · have hη : R θ η := h.right.spare hR.1 heq
        exact ⟨hη, hR.2.1, h.right.solves hη⟩

/-! ### The rule that is called -/

/-- The rule that the relation holds of the values of the variables for which the goal holds. -/
def callRule (relation : String) (vs : List String) (body : Term) : Term :=
  .compound "rule" [.apply relation (vs.map .var), body]

/-- The relation is defined by the rule that it holds where the goal holds, and by nothing else. Rules are indexed by the
relations of their heads, or not at all. -/
structure Sources.CallsThrough (src : Sources) (relation : String) (vs : List String) (body : Term) : Prop where
  ordinary : isRelation relation = true
  reachable : src.rules.Reachable
  mode : src.rules.mode = .rule ∨ src.rules.mode = .none
  rules : ∃ before after, src.rules.toList = before ++ callRule relation vs body :: after ∧
    ∀ t ∈ before ++ after, ∃ f, t.headOrSelf.functor? = some f ∧ f ≠ relation
  covers : ∀ v ∈ body.vars, v ∈ vs

theorem Term.functor_apply (f : String) (ts : List Term) : (apply f ts).functor? = some f := by
  unfold apply
  split <;> rfl

theorem functor_callRule (relation : String) (vs : List String) (body : Term) :
    (callRule relation vs body).headOrSelf.functor? = some relation := Term.functor_apply _ _

theorem operator_callRule (h : isRelation relation = true) (vs : List String) (body : Term) :
    (callRule relation vs body).operator? = some relation :=
  Term.operator?_of_asRule rfl (Term.functor_apply _ _) (isWrapper_of_isRelation h)

theorem Store.resolve_of_functor {s : Store} {f : String} (h : goal.functor? = some f) :
    s.resolve goal env = ⟨goal, env⟩ := by
  cases goal with
  | var v => cases h
  | sym a => exact s.resolve_sym a env
  | compound g args => exact s.resolve_compound g args env

namespace Sources.CallsThrough

variable (h : src.CallsThrough relation vs body)

include h

theorem mem : callRule relation vs body ∈ src.rules.toList := by
  obtain ⟨before, after, hrules, -⟩ := h.rules
  simp [hrules]

/-- The relation is answered by rules. -/
theorem ofTerm_eq (hgoal : goal.functor? = some relation) : Goal.ofTerm src.rules goal = .view := by
  rw [Term.ofTerm_of_isRelation src.rules hgoal h.ordinary, Goal.ofRelation, if_pos]
  by_cases hindexed : src.rules.mode = .none ∨ isIndexable relation = false
  · exact (Theory.defines_of_not_indexed hindexed).2 ⟨_, h.mem, operator_callRule h.ordinary _ _⟩
  · rw [not_or, Bool.not_eq_false] at hindexed
    exact (h.reachable.indexed.defines_of_indexable (h.mode.resolve_right hindexed.1) hindexed.2).2
      ⟨_, h.mem, functor_callRule _ _ _⟩

/-- A lookup gives the rule. -/
theorem admits (s : Store) (env : EnvId) (hgoal : goal.functor? = some relation) :
    src.rules.admits (src.rules.queryKeyIn s goal env) (callRule relation vs body) = true := by
  have hrule : goal.functor? ≠ some "rule" := by
    rw [hgoal]
    exact fun heq => ne_of_isRelation h.ordinary (by decide) (Option.some.inj heq)
  unfold Theory.queryKeyIn Theory.queryKey Theory.admits
  rcases h.mode with hmode | hmode
  · simp only [hmode, Store.resolve_of_functor hgoal, Term.headOrSelf_of_functor hrule, hgoal, Option.all_some]
    cases hkey : isIndexable relation with
    | false => rfl
    | true => exact Bool.or_eq_true_iff.2 (.inr (decide_eq_true (Theory.mem_functorKeys (functor_callRule _ _ _) hkey)))
  · simp [hmode]

/-- Other rules that a lookup gives do not fit. -/
theorem lookupIn_eq (s : Store) (env : EnvId) (hgoal : goal.functor? = some relation) :
    ∃ before after, src.rules.lookupIn s goal env = before ++ callRule relation vs body :: after ∧
      ∀ t ∈ before ++ after, goal.Passes t := by
  obtain ⟨before, after, hrules, hother⟩ := h.rules
  rw [Theory.lookupIn_eq h.reachable.indexed, hrules, List.filter_append, List.filter_cons, if_pos (h.admits s env hgoal)]
  refine ⟨_, _, rfl, fun t ht => ?_⟩
  rw [← List.filter_append] at ht
  obtain ⟨f, hf, hne⟩ := hother t (List.mem_filter.1 ht).1
  exact ⟨relation, f, hgoal, hf, hne.symm⟩

end Sources.CallsThrough

/-! ### Searches that call it -/

/-- A relation applied to terms has the value of the same relation applied to other terms if the terms have the same
values. -/
theorem Reading.read_apply_map_iff {θ η : Reading D} {g k : String → Term} :
    θ.read env (.apply relation (vs.map g)) = η.read env' (.apply relation (vs.map k)) ↔
      ∀ v ∈ vs, θ.read env (g v) = η.read env' (k v) := by
  cases vs with
  | nil => simp [Term.apply]
  | cons v vs =>
    have happly (g : String → Term) : Term.apply relation ((v :: vs).map g) = .compound relation ((v :: vs).map g) := rfl
    rw [happly, happly, read_compound, read_compound, List.map_map, List.map_map]
    constructor
    · intro heq
      exact List.map_inj_left.1 (Values.compound_inj heq).2
    · intro heq
      have hargs : (v :: vs).map (θ.read env ∘ g) = (v :: vs).map (η.read env' ∘ k) := List.map_inj_left.2 heq
      rw [hargs]

theorem Term.mem_vars_apply {v f : String} : v ∈ (apply f ts).vars ↔ ∃ t ∈ ts, v ∈ t.vars := by
  unfold apply
  cases ts with
  | nil => simp [vars, addVars]
  | cons t ts => exact mem_vars_compound

/-- The machine has entered a rule whose only goal is linked to the goal of a query, and is to come to an answer then. -/
inductive Machine.Entered (D : Type) [Values D] (b : Bool) (p : Term × Term) (goal' : Term) (w' : Workspace) :
    Machine → Prop
  | intro {R : Pairing D} {w : Workspace} (h : Coupled b R w w') {body : Term} {env : EnvId}
    (hbody : Linked R w w' ⟨body, env⟩ ⟨goal', Search.queryEnv⟩)
    (hp : Linked R w w' ⟨p.1, Search.queryEnv⟩ ⟨p.2, Search.queryEnv⟩) (goal : Term) (env₀ : EnvId) {x : Expansion}
    (hx : ∀ t ∈ x.rules, x.goal.Passes t) :
    Machine.Entered D b p goal' w' ⟨.proved (.goals env [body] (.leave goal env₀ .done)) (.rules x .done .none), w⟩

theorem Machine.Entered.agree_runCareful (hD : Values.Suits D b) (hown : src.Owns)
    (hask : ask.Nameless src.config.limit) {p : Term × Term} {m : Machine} (h : m.Entered D b p goal w') (k k' : Nat) :
    Agree src.config.limit (Search.Outcome.Matched D b p) (Search.runCareful src ask p.1 k m)
      (Search.runCareful src ask p.2 k' ⟨.prove goal Search.queryEnv .done .none, w'⟩) := by
  cases k with
  | zero => exact agree_throw_left _ _
  | succ k =>
    cases h with
    | intro h hbody hp goal env₀ hx =>
      refine Search.agree_runCareful_left trivial (fun _ => Ensures.pure rfl) fun m₁ hm₁ => ?_
      subst hm₁
      exact Search.matched_runCareful hD hown hask (.prove h hbody (.through _ (.out _ _ (.done hp))) (.past hx _))

theorem Expansion.attempt_of_passes {x : Expansion} (h : x.goal.Passes t) (s : Store) : (x.attempt s t).1 = false := by
  obtain ⟨f, g, hf, hg, hne⟩ := h
  unfold Term.headOrSelf at hg
  unfold attempt
  cases hrule : t.asRule with
  | some rule =>
    rw [hrule] at hg
    exact s.unify_of_functor_ne hg hf hne.symm
  | none =>
    rw [hrule] at hg
    exact s.unify_of_functor_ne hf hg hne

/-- The rule is come to within the allowance. -/
theorem Sources.CallsThrough.exists_attempt (h : src.CallsThrough relation vs body) {s : Store}
    (hgoal : goal.functor? = some relation) (htried : Goal.triedWithin src goal env s = true) :
    ∃ r, Store.unifyWithin allowance (.apply relation (vs.map .var)) s.newEnv.1 goal env s.newEnv.2 = some r := by
  obtain ⟨before, after, hrules, hpass⟩ := h.lookupIn_eq s env hgoal
  unfold Goal.triedWithin at htried
  rw [h.ofTerm_eq hgoal] at htried
  dsimp only at htried
  rw [hrules] at htried
  have hrest := triedWithin_of_append Expansion.ends_attempt htried fun t ht =>
    Expansion.attempt_of_passes (hpass t (List.mem_append_left _ ht)) _
  obtain ⟨r, hr, -⟩ := triedWithin_cons hrest
  exact ⟨r, hr⟩

/-- The relation is called with terms for the variables, and the rule is entered. -/
theorem Machine.ensures_enter (hD : Values.Suits D b) (hown : src.Owns) (hcall : src.CallsThrough relation vs body)
    (h : Coupled b R w w') (hgoal : Term.apply relation (vs.map σ) = goal)
    (hknown : ∀ v ∈ goal.vars, ¬ w.IsSpare v Search.queryEnv)
    (hvars : ∀ v ∈ body.vars, Linked R w w' ⟨σ v, Search.queryEnv⟩ ⟨σ v, Search.queryEnv⟩) {template : Term}
    (htemplate : Linked R w w' ⟨template, Search.queryEnv⟩ ⟨template, Search.queryEnv⟩)
    (hcareful : isCareful src template ⟨.prove goal Search.queryEnv .done .none, w⟩ = true) :
    Ensures (stepCareful src ask ⟨.prove goal Search.queryEnv .done .none, w⟩)
      (Entered D b (template, template) (body.instantiate σ) w') := by
  have hfunctor : goal.functor? = some relation := hgoal ▸ Term.functor_apply _ _
  have hresolve : w.store.resolve goal Search.queryEnv = ⟨goal, Search.queryEnv⟩ := Store.resolve_of_functor hfunctor
  have hread (θ : Reading D) : θ.read w.store.newEnv.1 (.apply relation (vs.map .var)) = θ.read Search.queryEnv goal ↔
      ∀ v ∈ vs, θ v w.store.newEnv.1 = θ.read Search.queryEnv (σ v) := hgoal ▸ Reading.read_apply_map_iff
  unfold isCareful triesWithin at hcareful
  dsimp only at hcareful
  rw [hresolve, Bool.and_eq_true] at hcareful
  obtain ⟨r, hr⟩ := hcall.exists_attempt hfunctor hcareful.1
  have henv : (⟨goal, Search.queryEnv⟩ : Closure).env < w.store.envs.size := htemplate.env_lt
  have hextends (θ : Reading D) : ∃ η : Reading D, (∀ v, ∀ e < w.store.envs.size, η v e = θ v e) ∧
      η.read w.store.newEnv.1 (.apply relation (vs.map .var)) = η.read Search.queryEnv goal := by
    let η : Reading D := fun v e => if e = w.store.newEnv.1 then θ.read Search.queryEnv (σ v) else θ v e
    have hold {v : String} {e : EnvId} (he : e < w.store.envs.size) : η v e = θ v e := if_neg (Nat.ne_of_lt he)
    refine ⟨η, fun v e he => hold he, (hread η).2 fun v _ => ?_⟩
    rw [Reading.read_congr (σ v) fun u _ => hold henv]
    exact if_pos rfl
  have hhead (v : String) (hv : v ∈ (Term.apply relation (vs.map .var)).vars) : IsOwn v :=
    hown.rule _ hcall.mem v (Term.mem_vars_compound.2 ⟨_, List.mem_cons_self, hv⟩)
  obtain ⟨s, rfl, hcoupled, hext, hvalues⟩ := h.enter hD hhead henv hknown hextends hr
  have hsize : s.envs.size = w.store.envs.size + 1 := hext.size_envs.trans (Store.size_envs_newEnv _)
  have hp : Linked (R.within s w'.store) ⟨s, w.names⟩ w' ⟨template, Search.queryEnv⟩ ⟨template, Search.queryEnv⟩ :=
    htemplate.mono (fun hR => hR.1) (Nat.le_of_lt (Nat.lt_of_lt_of_eq (Nat.lt_succ_self _) hsize.symm)) (Nat.le_refl _)
  have hbody : Linked (R.within s w'.store) ⟨s, w.names⟩ w' ⟨body, w.store.newEnv.1⟩
      ⟨body.instantiate σ, Search.queryEnv⟩ := by
    refine ⟨Nat.lt_of_lt_of_eq (Nat.lt_succ_self _) hsize.symm, htemplate.env_lt', fun {θ θ'} hR => ?_⟩
    refine Reading.read_instantiate body fun v hv => ?_
    rw [(hread θ).1 (hvalues θ hR.2.1) v (hcall.covers v hv)]
    exact (hvars v hv).read_eq hR.1
  obtain ⟨before, after, hrules, hpass⟩ := hcall.lookupIn_eq w.store Search.queryEnv hfunctor
  have hentered := Entered.intro (p := (template, template)) hcoupled hbody hp goal Search.queryEnv
    (x := ⟨goal, Search.queryEnv, after, w.store.newEnv.1, w.store.checkpoint⟩) fun t ht =>
      hpass t (List.mem_append_right _ ht)
  unfold stepCareful proveCareful proveResolved
  dsimp only
  rw [hresolve, hcall.ofTerm_eq hfunctor]
  unfold expand
  rw [hrules]
  refine Ensures.tick (ensures_tryRules_of_passes (fun t ht => hpass t (List.mem_append_left _ ht)) ?_)
  rw [tryRules_of_head rfl (Store.unify_of_within hr)]
  exact Ensures.tick (Ensures.pure hentered)

/-- The search that calls the relation runs like the one for the goal of its rule, with the terms for the variables. -/
theorem Search.runsAlike_call (hD : Values.Suits D src.config.occursCheck) (hown : src.Owns)
    (hask : ask.Nameless src.config.limit) (hcall : src.CallsThrough relation vs body) (σ : String → Term)
    (template : Term) :
    RunsAlike src ask D src.config.occursCheck (start src.config template (.apply relation (vs.map σ)))
      (start src.config template (body.instantiate σ)) := by
  have hvars {v u : String} (hv : v ∈ body.vars) (hu : u ∈ (σ v).vars) : u ∈ (body.instantiate σ).vars :=
    (Term.mem_vars_instantiate body).2 ⟨v, hv, hu⟩
  have hcalled {u : String} (hu : u ∈ (body.instantiate σ).vars) : u ∈ (Term.apply relation (vs.map σ)).vars := by
    obtain ⟨v, hv, hu⟩ := (Term.mem_vars_instantiate body).1 hu
    exact Term.mem_vars_apply.2 ⟨σ v, List.mem_map_of_mem (hcall.covers v hv), hu⟩
  generalize hgoal : Term.apply relation (vs.map σ) = goal at hcalled ⊢
  generalize hbody : body.instantiate σ = goal' at hvars hcalled ⊢
  refine ⟨rfl, fun k k' => ?_⟩
  let known := [template, goal'].flatMap Term.vars
  let w : Workspace := ⟨Store.start src.config.occursCheck, .after [template, goal]⟩
  let w' : Workspace := ⟨Store.start src.config.occursCheck, .after [template, goal']⟩
  have hknown {t : Term} (ht : t ∈ [template, goal']) {v : String} (hv : v ∈ t.vars) : v ∈ known :=
    List.mem_flatMap.2 ⟨t, ht, hv⟩
  have hcoupled : Coupled src.config.occursCheck (Pairing.naming D 1 known) w w' := by
    refine coupled_start known 1 (fun v hv => ?_) fun v hv => ?_
    · obtain ⟨t, ht, hvt⟩ := List.mem_flatMap.1 hv
      rcases List.mem_cons.1 ht with rfl | ht
      · exact NameSupply.not_willIssue_after List.mem_cons_self hvt
      · obtain rfl := List.mem_singleton.1 ht
        exact NameSupply.not_willIssue_after (List.mem_cons_of_mem _ List.mem_cons_self) (hcalled hvt)
    · obtain ⟨t, ht, hvt⟩ := List.mem_flatMap.1 hv
      exact NameSupply.not_willIssue_after ht hvt
  have hlinked {t : Term} (ht : ∀ v ∈ t.vars, v ∈ known) :
      Linked (Pairing.naming D 1 known) w w' ⟨t, queryEnv⟩ ⟨t, queryEnv⟩ := by
    have hrelabel : Linked (Pairing.naming D 1 known) w w' ⟨t, queryEnv⟩ ⟨t.relabel 1, queryEnv⟩ := linked_start ht
    rwa [Term.relabel_one] at hrelabel
  cases k with
  | zero => exact agree_throw_left _ _
  | succ k =>
    have hstep (hcareful : Machine.isCareful src template ⟨.prove goal queryEnv .done .none, w⟩ = true) :
        Ensures (Machine.stepCareful src ask ⟨.prove goal queryEnv .done .none, w⟩)
          (Machine.Entered D src.config.occursCheck (template, template) goal' w') := by
      refine hbody ▸ Machine.ensures_enter hD hown hcall hcoupled hgoal (fun v hv => ?_) (fun v hv => hlinked fun u hu => ?_)
        (hlinked fun v hv => ?_) hcareful
      · exact Workspace.not_isSpare_start (NameSupply.not_willIssue_after (List.mem_cons_of_mem _ List.mem_cons_self) hv)
      · exact hknown (List.mem_cons_of_mem _ List.mem_cons_self) (hvars hv hu)
      · exact hknown List.mem_cons_self hv
    exact agree_runCareful_left trivial hstep fun m hm => hm.agree_runCareful hD hown hask k k'

/-! ### Answers -/

namespace Solutions

variable {n : Nat} {x x' y y' : Solutions} {found found' : List (Option Term)}

theorem nextCareful_eq_ok {answer : Option Term} (h : x.nextCareful = .ok (answer, x')) :
    (x.search.nextCareful x.sources (consultCareful x.sources stepBound)).run x.meter =
      .ok ((answer, x'.search), x'.meter) ∧ x'.sources = x.sources := by
  obtain ⟨r, hr, h⟩ := bind_eq_ok.1 h
  cases h
  exact ⟨hr, rfl⟩

theorem answersCareful_succ_eq_ok (h : answersCareful (n + 1) x = .ok (found, x')) :
    ∃ answer x₁ rest, x.nextCareful = .ok (answer, x₁) ∧ answersCareful n x₁ = .ok (rest, x') ∧
      found = answer :: rest := by
  obtain ⟨⟨answer, x₁⟩, hnext, h⟩ := bind_eq_ok.1 h
  obtain ⟨⟨rest, x₂⟩, hrest, h⟩ := bind_eq_ok.1 h
  cases h
  exact ⟨answer, x₁, rest, hnext, hrest, rfl⟩

theorem exists_of_staysCareful (h : x.staysCareful n = true) :
    ∃ found x', answersCareful n x = .ok (found, x') ∧ x'.meter.spent < x.sources.config.limit := by
  unfold staysCareful at h
  cases hr : answersCareful n x with
  | error e =>
    rw [hr] at h
    cases h
  | ok r =>
    rw [hr] at h
    exact ⟨r.1, r.2, rfl, of_decide_eq_true h⟩

theorem spent_le_of_nextCareful {answer : Option Term} (h : x.nextCareful = .ok (answer, x')) :
    x.meter.spent ≤ x'.meter.spent :=
  Search.counts_nextCareful (counting_consultCareful _ _) _ (nextCareful_eq_ok h).1

theorem spent_le_of_answersCareful (h : answersCareful n x = .ok (found, x')) : x.meter.spent ≤ x'.meter.spent := by
  induction n generalizing x found with
  | zero =>
    cases h
    exact Nat.le_refl _
  | succ n ih =>
    obtain ⟨answer, x₁, rest, hnext, hrest, -⟩ := answersCareful_succ_eq_ok h
    exact Nat.le_trans (spent_le_of_nextCareful hnext) (ih hrest)

/-- A careful search gives the answers that any search gives. -/
theorem answers_of_answersCareful (h : answersCareful n x = .ok (found, x'))
    (hspent : x'.meter.spent < x.sources.config.limit) : x.answers n = .ok (found, x') := by
  induction n generalizing x found with
  | zero =>
    cases h
    rfl
  | succ n ih =>
    obtain ⟨answer, x₁, rest, hnext, hrest, rfl⟩ := answersCareful_succ_eq_ok h
    obtain ⟨hrun, hsources⟩ := nextCareful_eq_ok hnext
    have hspent₁ := Nat.lt_of_le_of_lt (spent_le_of_answersCareful hrest) hspent
    have hsearch := Search.lasts_nextCareful (lasts_consultCareful x.sources stepBound) x.search hrun hspent₁
    exact answers_succ (next_of_run hsearch hsources) (ih hrest (hsources ▸ hspent))

/-- Searches in the same sources that run alike give the same answers but for the names of variables, as long as both are
careful. -/
theorem answersCareful_of_runsAlike {D : Type} [Values D] (hD : Values.Suits D b) (hown : x.sources.Owns)
    (hsources : y.sources = x.sources)
    (hsearch : Search.RunsAlike x.sources (consultCareful x.sources stepBound) D b x.search y.search)
    (h : answersCareful n x = .ok (found, x')) (h' : answersCareful n y = .ok (found', y'))
    (hspent : x'.meter.spent < x.sources.config.limit) (hspent' : y'.meter.spent < x.sources.config.limit) :
    List.Forall₂ (Option.Rel Term.Renaming) found found' ∧ y'.search.status = x'.search.status := by
  induction n generalizing x y found found' with
  | zero =>
    cases h
    cases h'
    exact ⟨.nil, hsearch.status_eq⟩
  | succ n ih =>
    obtain ⟨answer, x₁, rest, hnext, hrest, rfl⟩ := answersCareful_succ_eq_ok h
    obtain ⟨answer', y₁, rest', hnext', hrest', rfl⟩ := answersCareful_succ_eq_ok h'
    obtain ⟨hrun, hsources₁⟩ := nextCareful_eq_ok hnext
    obtain ⟨hrun', hsources₁'⟩ := nextCareful_eq_ok hnext'
    rw [hsources] at hrun' hsources₁'
    have hconcluded := Search.agree_nextCareful hD hown (nameless_consultCareful hown stepBound) hsearch hrun hrun'
      (Nat.lt_of_le_of_lt (spent_le_of_answersCareful hrest) hspent)
      (Nat.lt_of_le_of_lt (spent_le_of_answersCareful hrest') hspent')
    obtain ⟨hanswers, hstatus⟩ := ih (hsources₁ ▸ hown) (hsources₁'.trans hsources₁.symm) (hsources₁ ▸ hconcluded.search)
      hrest hrest' (hsources₁ ▸ hspent) (hsources₁ ▸ hspent')
    exact ⟨.cons hconcluded.answer hanswers, hstatus⟩

end Solutions

/-- Calling a relation that only a rule with one goal defines gives the same answers as the goal itself with the terms for
the variables, but for the names of variables, and ends in the same way, as long as both searches are careful. -/
theorem answers_call (src : Sources) (hown : src.Owns) (hcall : src.CallsThrough relation vs body) (σ : String → Term)
    (template : Term) (n : Nat)
    (hcareful : (src.solutions template (.apply relation (vs.map σ))).staysCareful n = true)
    (hcareful' : (src.solutions template (body.instantiate σ)).staysCareful n = true) :
    ∃ found s found' s', (src.solutions template (.apply relation (vs.map σ))).answers n = .ok (found, s) ∧
      (src.solutions template (body.instantiate σ)).answers n = .ok (found', s') ∧
      List.Forall₂ (Option.Rel Term.Renaming) found found' ∧ s'.search.status = s.search.status := by
  obtain ⟨found, s, h, hspent⟩ := Solutions.exists_of_staysCareful hcareful
  obtain ⟨found', s', h', hspent'⟩ := Solutions.exists_of_staysCareful hcareful'
  obtain ⟨D, _, hD⟩ := Values.exists_suits src.config.occursCheck
  have halike := Search.runsAlike_call hD hown (nameless_consultCareful hown stepBound) hcall σ template
  exact ⟨found, s, found', s', Solutions.answers_of_answersCareful h hspent, Solutions.answers_of_answersCareful h' hspent',
    Solutions.answersCareful_of_runsAlike (x := src.solutions template (.apply relation (vs.map σ)))
      (y := src.solutions template (body.instantiate σ)) hD hown rfl halike h h' hspent hspent'⟩

/-- Two places are told apart if they are on different sides, or if there is a road between them. -/
def toldApart : Term :=
  .compound "or" [.compound "mutex" [.compound "left" [.var "X"], .compound "right" [.var "Y"]],
    .compound "road" [.var "X", .var "Y"]]

/-- One road, and a relation for places that are told apart. -/
def roads : Sources where
  facts := .ofList .full [.compound "road" [.sym "mill", .sym "pond"]]
  rules := .ofList .rule [callRule "apart" ["X", "Y"] toldApart]

/-- The variables of the query for those of the rule. -/
def asked (v : String) : Term := if v = "X" then .var "A" else .var "B"

/-- The places that are told apart by a goal. -/
def apartPlaces (goal : Term) : Solutions := roads.solutions (.compound "pair" [.var "A", .var "B"]) goal

/-- Inside the rule the variables of the query get names when the terms on the sides are plugged. The goal itself has the
variables of the query in its answers. -/
theorem answers_call_roads :
    let found := [some (Term.compound "pair" [.var "V3", .var "V4"]),
      some (.compound "pair" [.sym "mill", .sym "pond"]), none]
    let found' := [some (Term.compound "pair" [.var "A", .var "B"]), some (.compound "pair" [.sym "mill", .sym "pond"]), none]
    ∃ s s', (apartPlaces (.apply "apart" (["X", "Y"].map asked))).answers 3 = .ok (found, s) ∧
      (apartPlaces (toldApart.instantiate asked)).answers 3 = .ok (found', s') ∧
      List.Forall₂ (Option.Rel Term.Renaming) found found' ∧ s'.search.status = s.search.status := by
  intro found found'
  have hlist (v : String) (h : v.toList.head? ≠ some 'V') : IsOwn v := by
    rintro n - rfl
    exact h (by simp [toString])
  have hrule : ∀ v ∈ (callRule "apart" ["X", "Y"] toldApart).vars, v.toList.head? ≠ some 'V' := by decide +kernel
  have hfact : ∀ v ∈ (Term.compound "road" [.sym "mill", .sym "pond"]).vars, v.toList.head? ≠ some 'V' := by
    decide +kernel
  have hown : roads.Owns := by
    refine ⟨fun t ht v hv => hlist v ?_, fun _ h => (by cases h), fun _ _ h => (by cases h), fun t ht v hv => hlist v ?_⟩
    · obtain rfl := List.mem_singleton.1 ht
      exact hfact v hv
    · obtain rfl := List.mem_singleton.1 ht
      exact hrule v hv
  have hcall : roads.CallsThrough "apart" ["X", "Y"] toldApart :=
    ⟨by decide +kernel, .ofList _ _, .inl rfl, ⟨[], [], rfl, fun _ h => (by cases h)⟩, by decide +kernel⟩
  obtain ⟨s, hs, -⟩ := Solutions.exists_of_answers (x := (apartPlaces (.apply "apart" (["X", "Y"].map asked))).answers 3)
    (a := found) (b := false) (by decide +kernel)
  obtain ⟨s', hs', -⟩ := Solutions.exists_of_answers (x := (apartPlaces (toldApart.instantiate asked)).answers 3)
    (a := found') (b := false) (by decide +kernel)
  obtain ⟨a, t, a', t', h, h', hsame, hstatus⟩ := answers_call roads hown hcall asked (.compound "pair" [.var "A", .var "B"]) 3
    (by decide +kernel) (by decide +kernel)
  cases hs.symm.trans h
  cases hs'.symm.trans h'
  exact ⟨s, s', h, h', hsame, hstatus⟩

end Deduction
