import Deduction.Proofs.Groundness.Machines
import Deduction.Proofs.Groundness.Questions
import Deduction.Proofs.Search.Within

/-!
# Steps of machines that come to ground answers

A step of a machine that fits comes to one that does (`Machine.Fits.step`): what a goal binds, it grounds, and a rule hands
that on to the goal that it was tried for. Aggregates ask what is ground if their goal surely binds the template; they are
asked of a second answerer as well, which has to give whatever answers the first one gives.
-/

namespace Deduction

open Search (queryEnv)
open Store (AdmitsTerm ReturnsLike)

variable {watched : Option Term} {template goal target t x y g : Term} {s s' : Store} {names : NameSupply}
  {cp cp' : Checkpoint} {next : Agenda} {o : Alternatives} {env ex ey : EnvId} {ts goals values values' rest : List Term}
  {A B bound b : List String} {Γ : Grounding → Prop} {k : EnvId} {src : Sources} {w : Workspace}
  {agg : Bool}

/-! ### Goals that are ready -/

namespace IsReady

theorem first (h : IsReady agg k A Γ env [g] bound b) : g.IsBasic agg ∧ Term.bindGoalSurely g bound = some b :=
  ⟨h.basic g List.mem_cons_self, Term.bindGoalsSurely_singleton.1 h.binds⟩

theorem kept (h : IsReady agg k A Γ env [g] bound b) : ∀ v ∈ bound, v ∈ b := (h.first.1.binds h.first.2).kept

/-- What may be bound before the goal may be bound after it. -/
theorem scope (h : IsReady agg k A Γ env [g] bound b) : ∀ v ∈ A, v ∈ scopeAfter env b A :=
  mem_scopeAfter fun henv v hv => h.kept v (h.query henv v hv)

/-- A part of the goal that is bound after it. -/
theorem admitsTerm (h : IsReady agg k A Γ env [g] bound b) (ht : ∀ v ∈ t.vars, v ∈ g.vars ∧ v ∈ b) :
    AdmitsTerm agg (scopeAfter env b A) t env := by
  by_cases henv : env = queryEnv
  · subst henv
    rw [scopeAfter_query]
    exact Store.admitsTerm_of_query fun v hv => (ht v hv).2
  · exact Store.admitsTerm_of_ne henv fun hagg v hv => h.names hagg henv g List.mem_cons_self v (ht v hv).1

/-- What is plugged for a goal in the query has variables that are settled or open, and elsewhere no name that is invented
is bound. -/
theorem plugsApart (h : IsReady agg k A (fun γ => γ.Solves s) env goals bound b) (hagg : agg = true)
    (hs : s.KeepsTo agg A) (t : Term) : s.PlugsApart env env t := by
  by_cases henv : env = queryEnv
  · subst henv
    refine .inr fun v _ => ?_
    by_cases hv : v ∈ A
    · exact .inl (h.grounds s.Settles s.solves_settles v (h.query rfl v hv))
    · exact .inr ⟨rfl, hs.lookup_eq_none hv⟩
  · exact .inl (hs.spares hagg henv)

end IsReady

namespace Agenda

theorem Aside.extends (h : next.Aside agg watched s s.checkpoint) (hext : s.Extends s') :
    next.Aside agg watched s' s'.checkpoint :=
  (h.returnsLike (.of_extends hext)).mono hext.size_trail

/-- After a goal that binds nothing. -/
theorem FitsIn.of_test (h : FitsIn agg watched s (.goals env [g] next))
    (hb : ∀ bound b, Term.bindGoalSurely g bound = some b → b = bound) : next.FitsIn agg watched s := by
  rcases h.cases with ⟨template, A, hwatched, hs, hn⟩ | haside
  · cases hn with
    | @goals _ _ _ _ _ bound b hrest hn =>
      obtain rfl := hb bound b hrest.first.2
      exact fitsIn_of_grounds hwatched hs (hn.mono (Nat.le_refl _) hrest.scope fun γ hγ => ⟨hγ, hrest.grounds γ hγ⟩)
  · cases haside with
    | goals _ _ hn => exact .aside hn

/-- After terms were made equal. -/
theorem fitsIn_of_unify (hwatched : watched = some template) (hs : s.KeepsTo agg A) (hx : AdmitsTerm agg A x ex)
    (hy : AdmitsTerm agg A y ey) (hex : ex < s.envs.size) (hey : ey < s.envs.size) (hr : s.unify x ex y ey = (true, s'))
    (hn : next.Grounds agg template s.envs.size A Γ) (hΓ : ∀ γ : Grounding, γ.Solves s' → Γ γ) :
    next.FitsIn agg watched s' :=
  fitsIn_of_grounds hwatched (hs.unify hx hy hex hey hr)
    (hn.mono (Nat.le_of_eq (Store.unify_extends hr).size_envs.symm) (fun _ hv => hv) hΓ)

/-- After a term was made equal to one of the values. -/
theorem Fits.unify (h : next.Fits agg watched s s.checkpoint [x] ex values) (hy : y ∈ values) (hex : ex < s.envs.size)
    (hey : ey < s.envs.size) (hr : s.unify x ex y ey = (true, s')) : next.FitsIn agg watched s' := by
  have hext := Store.unify_extends hr
  rcases h.cases with ⟨template, A, hwatched, hs, hts, hvalues, hn⟩ | haside
  · have hvalue : AdmitsTerm agg A y ey := Store.admitsTerm_of_isGround (hvalues y hy)
    refine fitsIn_of_unify hwatched hs (hts x List.mem_cons_self) hvalue hex hey hr hn fun γ hγ =>
      ⟨hγ.of_below hext.isBelow, List.forall_mem_singleton.2 ?_⟩
    exact (hγ.grounds_iff hs.wellFormed hex hey hr).2 (Grounding.grounds_of_isGround (hvalues y hy))
  · exact .aside (haside.extends hext)

theorem Fits.mono_values (h : next.Fits agg watched s cp ts env values) (hvalues : ∀ t ∈ values', t ∈ values) :
    next.Fits agg watched s cp ts env values' := by
  cases h with
  | watched hwatched hs hts hground hn => exact .watched hwatched hs hts (fun t ht => hground t (hvalues t ht)) hn
  | aside hn => exact .aside hn

theorem Fits.with_values (h : next.Fits agg watched s cp ts env values) (hvalues : ∀ t ∈ values', t.isGround = true) :
    next.Fits agg watched s cp ts env values' := by
  cases h with
  | watched hwatched hs hts _ hn => exact .watched hwatched hs hts hvalues hn
  | aside hn => exact .aside hn

/-- After a goal that binds the variables of a term. -/
theorem fits_of_isReady (hwatched : watched = some template) (hs : s.KeepsTo agg A)
    (h : IsReady agg s.envs.size A (fun γ => γ.Solves s) env [g] bound b)
    (hn : next.Grounds agg template s.envs.size (scopeAfter env b A) (Also (fun γ => γ.Solves s) b env))
    (ht : ∀ v ∈ t.vars, v ∈ g.vars) (hb : ∀ v, v ∈ b ↔ v ∈ bound ∨ v ∈ t.vars)
    (hvalues : ∀ t ∈ values, t.isGround = true) : next.Fits agg watched s s.checkpoint [t] env values := by
  refine fits_of_grounds hwatched (hs.mono h.scope) ?_ hvalues
    (hn.mono (Nat.le_refl _) (fun _ hv => hv) fun γ hγ => ⟨hγ.1, fun v hv => ?_⟩)
  · exact List.forall_mem_singleton.2 (h.admitsTerm fun v hv => ⟨ht v hv, (hb v).2 (.inr hv)⟩)
  · rcases (hb v).1 hv with hv | hv
    · exact h.grounds γ hγ.1 v hv
    · exact hγ.2 t List.mem_cons_self v hv

/-- An atom binds its variables. -/
theorem FitsIn.await (h : FitsIn agg watched s (.goals env [g] next)) {f : String} (hf : g.functor? = some f)
    (hrel : isRelation f = true) (hvalues : ∀ t ∈ values, t.isGround = true) :
    next.Fits agg watched s s.checkpoint [g] env values := by
  rcases h.cases with ⟨template, A, hwatched, hs, hn⟩ | haside
  · cases hn with
    | @goals _ _ _ _ _ bound b hrest hn =>
      refine fits_of_isReady hwatched hs hrest hn (fun v hv => hv) (fun v => ?_) hvalues
      have hbinds := hrest.first.2
      cases g with
      | var v => cases hf
      | sym a =>
        cases hbinds
        simp [Term.vars, Term.addVars]
      | compound k args =>
        obtain rfl : k = f := Option.some.inj hf
        rw [Term.bindGoalSurely_atom hrel] at hbinds
        rw [← Option.some.inj hbinds, Term.mem_bindAll, Term.mem_vars_compound]
  · cases haside with
    | goals _ _ hn => exact .aside hn

/-- After `same`: what one of the terms was ground for, the other one is. -/
theorem FitsIn.same (h : FitsIn agg watched s (.goals env [.compound "same" (x :: y :: rest)] next))
    (hr : s.unify x env y env = (true, s')) : next.FitsIn agg watched s' := by
  have hext := Store.unify_extends hr
  rcases h.cases with ⟨template, A, hwatched, hs, hn⟩ | haside
  · cases hn with
    | @goals _ _ _ _ _ bound b hrest hn =>
      obtain ⟨hcovered, rfl⟩ := Term.bindGoalSurely_same.1 hrest.first.2
      have hadmits (t : Term) (ht : t ∈ [x, y]) : AdmitsTerm agg (scopeAfter env (Term.bindAll [x, y] bound) A) t env :=
        hrest.admitsTerm fun v hv =>
          ⟨Term.mem_vars_compound.2 ⟨t, List.mem_append_left rest ht, hv⟩, Term.mem_bindAll.2 (.inr ⟨t, ht, hv⟩)⟩
      refine fitsIn_of_unify hwatched (hs.mono hrest.scope) (hadmits x (by simp)) (hadmits y (by simp)) hrest.env_lt
        hrest.env_lt hr hn fun γ hγ => ?_
      have hbefore : γ.Solves s := hγ.of_below hext.isBelow
      have halike := hγ.grounds_iff hs.wellFormed hrest.env_lt hrest.env_lt hr
      -- The terms are ground alike, so whichever of them is covered, both are ground.
      have hboth : γ.Grounds x env ∧ γ.Grounds y env := by
        rcases hcovered with hx | hy
        · have hground : γ.Grounds x env := fun v hv => hrest.grounds γ hbefore v (hx v hv)
          exact ⟨hground, halike.1 hground⟩
        · have hground : γ.Grounds y env := fun v hv => hrest.grounds γ hbefore v (hy v hv)
          exact ⟨halike.2 hground, hground⟩
      refine ⟨hbefore, fun v hv => ?_⟩
      rcases Term.mem_bindAll.1 hv with hv | ⟨t, ht, hvt⟩
      · exact hrest.grounds γ hbefore v hv
      · simp only [List.mem_cons, List.not_mem_nil, or_false] at ht
        rcases ht with rfl | rfl
        · exact hboth.1 v hvt
        · exact hboth.2 v hvt
  · cases haside with
    | goals _ _ hn => exact .aside (hn.extends hext)

/-- The goals of a conjunction are proved one after the other. -/
theorem FitsIn.conjuncts (h : FitsIn agg watched s (.goals env [.compound "and" ts] next)) (hts : ∀ t ∈ ts, t.IsBasic agg) :
    FitsIn agg watched s (.goals env ts next) := by
  rcases h.cases with ⟨template, A, hwatched, hs, hn⟩ | haside
  · cases hn with
    | @goals _ _ _ _ _ bound b hrest hn =>
      have hbinds := hrest.first.2
      rw [Term.bindGoalSurely_and] at hbinds
      refine fitsIn_of_grounds hwatched hs (.goals ⟨hrest.env_lt, hts, ?_, hrest.query, hrest.grounds, hbinds⟩ hn)
      exact fun hagg henv t ht v hv =>
        hrest.names hagg henv _ List.mem_cons_self v (Term.mem_vars_compound.2 ⟨t, ht, hv⟩)
  · cases haside with
    | goals henv _ hn => exact .aside (.goals henv hts hn)

/-- Any goal of a disjunction may be proved: each binds what the disjunction binds, and possibly more. -/
theorem FitsIn.disjunct (h : FitsIn agg watched s (.goals env [.compound "or" ts] next)) (hts : ∀ t ∈ ts, t.IsBasic agg)
    (ht : t ∈ ts) : FitsIn agg watched s (.goals env [t] next) := by
  rcases h.cases with ⟨template, A, hwatched, hs, hn⟩ | haside
  · cases hn with
    | @goals _ _ _ _ _ bound b hrest hn =>
      obtain ⟨b₁, hb₁, hless⟩ := Term.exists_of_bindGoalSurely_or hrest.first.2 ht
      refine fitsIn_of_grounds hwatched hs (.goals
        ⟨hrest.env_lt, List.forall_mem_singleton.2 (hts t ht), ?_, hrest.query, hrest.grounds,
          Term.bindGoalsSurely_singleton.2 hb₁⟩ ?_)
      · refine fun hagg henv => List.forall_mem_singleton.2 fun v hv => ?_
        exact hrest.names hagg henv _ List.mem_cons_self v (Term.mem_vars_compound.2 ⟨t, ht, hv⟩)
      -- In the query the goal may bind variables that the disjunction leaves open, and what follows has to bear that.
      -- Elsewhere the scope stays as it is, and it is enough that more is ground.
      by_cases henv : env = queryEnv
      · subst henv
        rw [scopeAfter_query] at hn ⊢
        exact hn.widen hless fun γ hγ => ⟨⟨hγ.1, fun v hv => hγ.2 v (hless v hv)⟩, hγ.2⟩
      · rw [scopeAfter_of_ne henv] at hn ⊢
        exact hn.mono (Nat.le_refl _) (fun _ hv => hv) fun γ hγ => ⟨hγ.1, fun v hv => hγ.2 v (hless v hv)⟩
  · cases haside with
    | goals henv _ hn => exact .aside (.goals henv (List.forall_mem_singleton.2 (hts t ht)) hn)

/-- An aggregate binds its result to its value. -/
theorem FitsIn.aggregate {f : String} {result u value : Term} {n : Nat} {st₁ st₂ : Store × NameSupply}
    (h : FitsIn agg watched s (.goals env [.compound f (template :: goal :: result :: rest)] next))
    (hf : isAggregate f = true) (hagg : agg = true) (hgoal : goal.IsBasic agg)
    (ht : Store.plugWithin env n env template (s, names) = some (t, st₁))
    (hu : Store.plugWithin env n env goal st₁ = some (u, st₂))
    (hvalue : (f = "setofall" → Term.IsGroundQuestion t u) → value.isGround = true) :
    next.Fits agg watched s s.checkpoint [result] env [value] := by
  rcases h.cases with ⟨watchedTemplate, A, hwatched, hs, hn⟩ | haside
  · cases hn with
    | @goals _ _ _ _ _ bound b hrest hn =>
      obtain ⟨hcovered, rfl⟩ := (Term.bindGoalSurely_aggregate hf).1 hrest.first.2
      refine fits_of_isReady hwatched hs hrest hn (fun v hv => Term.mem_vars_compound.2 ⟨result, by simp, hv⟩) (fun v => ?_)
        (List.forall_mem_singleton.2 (hvalue fun hset => ?_))
      · rw [Term.mem_bindAll]
        simp
      · -- What is asked is an instance of the template and the goal that the walk saw.
        have hquestion : Term.IsGroundQuestion template goal := hcovered hset
        obtain ⟨σ, rfl, rfl⟩ := exists_instances hs.wellFormed hrest.env_lt (hrest.plugsApart hagg hs) ht hu
        exact hquestion.instantiate hgoal σ
  · cases haside with
    | goals _ _ hn => exact .aside hn

end Agenda

/-! ### Candidates and rules -/

namespace Machine

theorem ensures_tryCandidates {c : Cursor} {l : List Term} (hquery : queryEnv < s.envs.size)
    (hcp : c.checkpoint = s.checkpoint) (henv : c.env < s.envs.size) (hcandidateEnv : c.candidateEnv < s.envs.size)
    (hn : next.Fits agg watched s s.checkpoint [c.target] c.env l) (ho : o.FitsIn agg watched s) :
    Ensures (tryCandidates src c next o l ⟨s, names⟩) (Fits agg watched) := by
  induction l with
  | nil =>
    rw [tryCandidates_nil]
    exact Ensures.tick (Ensures.pure ⟨hquery, .failed ho⟩)
  | cons t rest ih =>
    have hrest := hn.mono_values fun u hu => List.mem_cons_of_mem t hu
    generalize h : s.unify c.target c.env t c.candidateEnv = r
    obtain ⟨ok, s'⟩ := r
    cases ok with
    | true =>
      have hext := Store.unify_extends h
      have hlike : ReturnsLike s.checkpoint s s' := .of_extends hext
      rw [tryCandidates_of_unify h]
      refine Ensures.tick (Ensures.tick (Ensures.pure ⟨hext.size_envs.symm ▸ hquery, .proved ?_ ?_⟩))
      · exact hn.unify List.mem_cons_self henv hcandidateEnv h
      · have hothers : Alternatives.FitsIn agg watched s' (.candidates { c with candidates := rest } next o) := by
          have hsize (e : EnvId) (he : e < s.envs.size) : e < s'.envs.size := hext.size_envs.symm ▸ he
          refine .candidates (hcp ▸ hext.size_trail) (hsize _ henv) (hsize _ hcandidateEnv) ?_ ?_
          · exact hcp ▸ hrest.returnsLike hlike
          · exact hcp ▸ Alternatives.Fits.returnsLike hlike ho
        unfold Cursor.others
        dsimp only
        split
        · exact .reenter hothers
        · exact hothers
    | false =>
      rw [tryCandidates_of_not_unify (congrArg Prod.fst h)]
      exact Ensures.tick (ih hrest)

/-- The body of a rule whose head was made equal to the goal grounds the goal. -/
theorem fitsIn_body {x : Expansion} {head : Term} {body : List Term} (hx : x.IsGrounding agg s.envs.size)
    (ht : t.IsGrounding agg) (hrule : t.asRule = some (head, body))
    (hn : next.Fits agg watched s s.checkpoint [x.goal] x.env values)
    (hr : s.unify head x.ruleEnv x.goal x.env = (true, s')) :
    Agenda.FitsIn agg watched s' (.goals x.ruleEnv body (.leave x.goal x.env next)) := by
  have hext := Store.unify_extends hr
  have hvars : (∀ v ∈ head.vars, v ∈ t.vars) ∧ ∀ g ∈ body, ∀ v ∈ g.vars, v ∈ t.vars := by
    obtain rfl := Term.eq_of_asRule hrule
    exact ⟨fun v hv => Term.mem_vars_compound.2 ⟨head, List.mem_cons_self, hv⟩,
      fun g hg v hv => Term.mem_vars_compound.2 ⟨g, List.mem_cons_of_mem _ hg, hv⟩⟩
  rcases hn.cases with ⟨template, A, hwatched, hs, hts, -, hn⟩ | haside
  · obtain ⟨b, hbinds, hhead⟩ := ht.binds head body hrule
    have hscope : AdmitsTerm agg A head x.ruleEnv :=
      Store.admitsTerm_of_ne hx.ruleEnv_ne fun hagg v hv => ht.names hagg head body hrule v (hvars.1 v hv)
    refine Agenda.fitsIn_of_unify hwatched hs hscope (hts x.goal List.mem_cons_self) hx.ruleEnv_lt hx.env_lt hr
      (.goals ⟨hx.ruleEnv_lt, ht.basic head body hrule, ?_, ?_, ?_, hbinds⟩
        (.leave (hn.mono (Nat.le_refl _) ?_ ?_))) fun γ hγ => hγ
    · exact fun hagg _ g hg v hv => ht.names hagg head body hrule v (hvars.2 g hg v hv)
    · exact fun henv => absurd henv hx.ruleEnv_ne
    · exact fun _ _ _ hv => by cases hv
    · rw [scopeAfter_of_ne hx.ruleEnv_ne]
      exact fun v hv => hv
    · -- The body grounds the head, and the head and the goal are ground alike.
      rintro γ ⟨hγ, hgrounds⟩
      refine ⟨hγ.of_below hext.isBelow, List.forall_mem_singleton.2 ?_⟩
      exact (hγ.grounds_iff hs.wellFormed hx.ruleEnv_lt hx.env_lt hr).1 fun v hv => hgrounds v (hhead v hv)
  · exact .aside (.goals (hext.size_envs.symm ▸ hx.ruleEnv_lt) (ht.basic head body hrule) (.leave (haside.extends hext)))

theorem ensures_tryRules {x : Expansion} {l : List Term} (hquery : queryEnv < s.envs.size)
    (hcp : x.checkpoint = s.checkpoint) (hx : x.IsGrounding agg s.envs.size) (hl : ∀ t ∈ l, t.IsGrounding agg)
    (hn : next.Fits agg watched s s.checkpoint [x.goal] x.env []) (ho : o.FitsIn agg watched s) :
    Ensures (tryRules src x next o l ⟨s, names⟩) (Fits agg watched) := by
  induction l with
  | nil =>
    rw [tryRules_nil]
    exact Ensures.tick (Ensures.pure ⟨hquery, .failed ho⟩)
  | cons t rest ih =>
    rw [List.forall_mem_cons] at hl
    obtain ⟨ht, hrest⟩ := hl
    have hothers (s' : Store) (hext : s.Extends s') :
        Alternatives.FitsIn agg watched s' (.rules { x with rules := rest } next o) := by
      have hlike : ReturnsLike s.checkpoint s s' := .of_extends hext
      refine .rules (hcp ▸ hext.size_trail) ?_ ?_ ?_
      · exact ⟨hext.size_envs.symm ▸ hx.env_lt, hext.size_envs.symm ▸ hx.ruleEnv_lt, hx.ruleEnv_ne, hx.goal, hrest⟩
      · exact hcp ▸ hn.returnsLike hlike
      · exact hcp ▸ Alternatives.Fits.returnsLike hlike ho
    cases hrule : t.asRule with
    | some rule =>
      obtain ⟨head, body⟩ := rule
      generalize h : s.unify head x.ruleEnv x.goal x.env = r
      obtain ⟨ok, s'⟩ := r
      cases ok with
      | true =>
        have hext := Store.unify_extends h
        rw [tryRules_of_head hrule h]
        refine Ensures.tick (Ensures.pure ⟨hext.size_envs.symm ▸ hquery, ?_⟩)
        exact .proved (fitsIn_body hx ht hrule hn h) (hothers s' hext)
      | false =>
        rw [tryRules_of_not_head hrule (congrArg Prod.fst h)]
        exact Ensures.tick (ih hrest)
    | none =>
      rcases ht.sentence hrule with hground | ⟨f, hf, hrel⟩
      · generalize h : s.unify x.goal x.env t x.ruleEnv = r
        obtain ⟨ok, s'⟩ := r
        cases ok with
        | true =>
          have hext := Store.unify_extends h
          have hvalues : next.Fits agg watched s s.checkpoint [x.goal] x.env [t] :=
            hn.with_values (List.forall_mem_singleton.2 hground)
          rw [tryRules_of_sentence hrule h]
          have hnext := hvalues.unify List.mem_cons_self hx.env_lt hx.ruleEnv_lt h
          refine Ensures.tick (Ensures.tick (Ensures.pure ⟨hext.size_envs.symm ▸ hquery, ?_⟩))
          exact .proved hnext (.reenter (hothers s' hext))
        | false =>
          rw [tryRules_of_not_sentence hrule (congrArg Prod.fst h)]
          exact Ensures.tick (ih hrest)
      · -- Transitions, handlers and definitions need not be ground, but no atom fits them.
        obtain ⟨k, hk, hgoal⟩ := hx.goal
        have hne : k ≠ f := by
          rintro rfl
          rw [hgoal] at hrel
          cases hrel
        rw [tryRules_of_not_sentence hrule (s.unify_of_functor_ne hk hf hne)]
        exact Ensures.tick (ih hrest)

end Machine

/-! ### Goals -/

/-- The facts are ground, and the rules ground what they answer. -/
structure Sources.IsGrounding (agg : Bool) (src : Sources) : Prop where
  fact : ∀ (s : Store) (goal : Term) (env : EnvId), ∀ t ∈ src.factsFor s goal env, t.isGround = true
  rule : ∀ t ∈ src.rules.toList, t.IsGrounding agg

/-- What a goal is comes from its functor, and aggregates are computed. -/
theorem Goal.ofTerm_aggregate (rules : Theory) {f : String} (hf : isAggregate f = true) (args : List Term) :
    Goal.ofTerm rules (.compound f args) = .computed f args := by
  have hcases : f = "setofall" ∨ f = "countofall" := by simpa [isAggregate] using hf
  rcases hcases with rfl | rfl
  · rfl
  · rfl

theorem computedInputs_aggregate {f : String} (hf : isAggregate f = true) (template goal : Term) (rest : List Term) :
    computedInputs f (template :: goal :: rest) = [template, goal] := by
  have hcases : f = "setofall" ∨ f = "countofall" := by simpa [isAggregate] using hf
  rcases hcases with rfl | rfl
  · rfl
  · rfl

namespace Machine

variable {ask ask' : Answerer}

/-- An atom is answered by rules or by facts. -/
theorem ensures_relation (hsrc : src.IsGrounding agg) (hquery : queryEnv < w.store.envs.size)
    (h : Agenda.FitsIn agg watched w.store (.goals env [g] next)) (ho : o.FitsIn agg watched w.store) {f : String}
    (hf : g.functor? = some f) (hrel : isRelation f = true) :
    Secures (proveResolved src ask g env next o w) (proveResolved src ask' g env next o w) (Fits agg watched) := by
  obtain ⟨s, names⟩ := w
  have hlike : ReturnsLike s.checkpoint s s.newEnv.2 := .of_newEnv s _
  have hquery' : queryEnv < s.newEnv.2.envs.size := Nat.lt_of_lt_of_le hquery hlike.size_le
  have henv : env < s.newEnv.2.envs.size := Nat.lt_of_lt_of_le h.basic.2 hlike.size_le
  have hnew : s.newEnv.1 < s.newEnv.2.envs.size := by
    rw [Store.size_envs_newEnv]
    exact Nat.lt_succ_self _
  have hothers : Alternatives.FitsIn agg watched s.newEnv.2 o := Alternatives.Fits.returnsLike hlike ho
  have hkind : Goal.ofTerm src.rules g = .view ∨ Goal.ofTerm src.rules g = .base := by
    rw [Term.ofTerm_of_isRelation src.rules hf hrel]
    unfold Goal.ofRelation
    split
    · exact .inl rfl
    · exact .inr rfl
  unfold proveResolved
  rcases hkind with hview | hbase
  · rw [hview]
    refine .of_ensures (Ensures.tick (ensures_tryRules hquery' rfl ?_ ?_ ?_ hothers))
    · refine ⟨henv, hnew, Nat.ne_of_gt hquery, ⟨f, hf, hrel⟩, fun t ht => ?_⟩
      exact hsrc.rule t (Theory.mem_of_mem_lookupIn ht)
    · exact fun t ht => hsrc.rule t (Theory.mem_of_mem_lookupIn ht)
    · exact (h.await hf hrel fun _ ht => by cases ht).returnsLike hlike
  · have hback : s.newEnv.2.rollback s.checkpoint = s.newEnv.2 := by
      rw [Store.rollback_newEnv, Store.checkpoint, Store.rollback_size]
    rw [hbase]
    unfold select
    simp only [run_selectFacts, pure_bind, hback]
    refine .of_ensures (Ensures.tick (ensures_tryCandidates hquery' rfl henv hnew ?_ hothers))
    exact (h.await hf hrel (hsrc.fact s g env)).returnsLike hlike

/-- An aggregate asks its question, and its result is made equal to the value. -/
theorem secures_aggregate {f : String} {result : Term} (hask : ask.Grounds agg ask') (hquery : queryEnv < w.store.envs.size)
    (h : Agenda.FitsIn agg watched w.store (.goals env [.compound f (template :: goal :: result :: rest)] next))
    (ho : o.FitsIn agg watched w.store) (hf : isAggregate f = true) (hagg : agg = true) (hgoal : goal.IsBasic agg)
    (hplugs : w.plugsWithin env [template, goal] = true) :
    Secures (proveResolved src ask (.compound f (template :: goal :: result :: rest)) env next o w)
      (proveResolved src ask' (.compound f (template :: goal :: result :: rest)) env next o w) (Fits agg watched) := by
  obtain ⟨s, names⟩ := w
  obtain ⟨t, st₁, ht, hplugs⟩ := Workspace.exists_plug hplugs
  obtain ⟨u, st₂, hu, -⟩ := Workspace.exists_plug hplugs
  have hext : s.Extends st₂.1 :=
    (Store.Renames.of_plugWithin ht).isExtension.trans (Store.Renames.of_plugWithin hu).isExtension
  have hbasic : u.IsBasic agg := by
    have havoids : st₁.1.Avoids [] := fun _ _ _ _ _ _ => List.not_mem_nil
    have hplugged : st₁.1.plug goal env env st₁.2 = (u, st₂) := Store.plugAt_of_within hu
    have hfills := Store.plug_fills havoids goal env env st₁.2
    rw [hplugged] at hfills
    exact hgoal.of_fills hfills
  unfold proveResolved
  rw [Goal.ofTerm_aggregate src.rules hf]
  unfold select
  simp only [run_selectAggregate hf (Store.plugAt_of_within ht) (Store.plugAt_of_within hu), bind_assoc, pure_bind,
    hext.rollback_eq]
  refine (Deduction.secures_aggregate hask src.config f t hbasic).bind fun value hvalue => .of_ensures ?_
  exact ensures_tryCandidates hquery rfl h.basic.2 h.basic.2 (h.aggregate hf hagg hgoal ht hu hvalue) ho

/-- Comes to a basic goal. -/
theorem secures_proveResolved (hsrc : src.IsGrounding agg) (hask : ask.Grounds agg ask')
    (hquery : queryEnv < w.store.envs.size) (h : Agenda.FitsIn agg watched w.store (.goals env [g] next))
    (ho : o.FitsIn agg watched w.store)
    (hplugs : w.plugsWithin env (Goal.ofTerm src.rules g).inputs = true) :
    Secures (proveResolved src ask g env next o w) (proveResolved src ask' g env next o w) (Fits agg watched) := by
  have hundo : Alternatives.FitsIn agg watched w.store (.undo w.store.checkpoint o) := .undo (Nat.le_refl _) ho
  have henv := h.basic.2
  cases h.basic.1 with
  | @symbol a ha =>
    rcases ha with rfl | rfl | hrel
    · refine .pure ⟨hquery, .proved (h.of_test fun bound b hb => ?_) hundo⟩
      exact (Option.some.inj hb).symm
    · exact .pure ⟨hquery, .failed ho⟩
    · exact ensures_relation hsrc hquery h ho rfl hrel
  | atom hf => exact ensures_relation hsrc hquery h ho rfl hf
  | @same args =>
    match args with
    | [] | [_] => exact .pure ⟨hquery, .failed ho⟩
    | x :: y :: rest =>
      have hkind : Goal.ofTerm src.rules (.compound "same" (x :: y :: rest)) = .same x y := rfl
      unfold proveResolved
      rw [hkind]
      refine .of_ensures ?_
      dsimp only
      split
      · rename_i s' hr
        have hext := Store.unify_extends hr
        refine Ensures.pure ⟨hext.size_envs.symm ▸ hquery, .proved (h.same hr) (.undo hext.size_trail ?_)⟩
        exact Alternatives.Fits.returnsLike (.of_extends hext) ho
      · rename_i s' hr
        obtain rfl := Store.unify_eq_of_fails hr
        exact Ensures.pure ⟨hquery, .failed ho⟩
  | @distinct args =>
    match args with
    | [] | [_] => exact .pure ⟨hquery, .failed ho⟩
    | x :: y :: rest =>
      have hkind : Goal.ofTerm src.rules (.compound "distinct" (x :: y :: rest)) = .distinct x y := rfl
      unfold proveResolved
      rw [hkind]
      refine .of_ensures ?_
      dsimp only
      split
      · rename_i s' hr
        rw [(Store.unify_extends hr).rollback_eq]
        exact Ensures.pure ⟨hquery, .failed ho⟩
      · rename_i s' hr
        obtain rfl := Store.unify_eq_of_fails hr
        refine Ensures.pure ⟨hquery, .proved (h.of_test fun bound b hb => ?_) ho⟩
        rw [Term.bindGoalSurely_test (.inr rfl)] at hb
        exact (Option.some.inj hb).symm
  | @negation args hargs =>
    cases args with
    | nil => exact .pure ⟨hquery, .failed ho⟩
    | cons g args =>
      refine .pure ⟨hquery, .prove (.aside (.goals henv ?_ (.refuted (Nat.le_refl _) ho))) (.absent ?_ ho)⟩
      · exact List.forall_mem_singleton.2 (hargs g List.mem_cons_self)
      · refine h.of_test fun bound b hb => ?_
        rw [Term.bindGoalSurely_test (.inl rfl)] at hb
        exact (Option.some.inj hb).symm
  | conjunction hargs => exact .pure ⟨hquery, .proved (h.conjuncts hargs) ho⟩
  | disjunction hargs => exact .pure ⟨hquery, .failed (.disjuncts (fun g hg => h.disjunct hargs hg) ho)⟩
  | aggregate hf hagg hgoal =>
    rw [Goal.ofTerm_aggregate src.rules hf] at hplugs
    exact secures_aggregate hask hquery h ho hf hagg hgoal (computedInputs_aggregate hf _ _ _ ▸ hplugs)

/-- Goes on with the agenda. -/
theorem ensures_advance (hquery : queryEnv < w.store.envs.size) (hn : next.FitsIn agg watched w.store)
    (ho : o.FitsIn agg watched w.store) : Ensures (advance src next o w) (Fits agg watched) := by
  cases next with
  | done => exact Ensures.pure ⟨hquery, .proved hn ho⟩
  | goals env rest next =>
    cases rest with
    | nil => exact Ensures.pure ⟨hquery, .proved hn.of_nil ho⟩
    | cons goal rest => exact Ensures.pure ⟨hquery, .prove hn.uncons ho⟩
  | leave goal env next => exact Ensures.tick (Ensures.pure ⟨hquery, .proved hn.of_leave (.reenter ho)⟩)
  | refuted cp o' =>
    rcases hn.cases with ⟨template, A, -, -, hn⟩ | haside
    · cases hn
    · cases haside with
      | refuted hcp ho' =>
        refine Ensures.pure ⟨?_, .failed (ho'.back hcp)⟩
        rwa [Store.size_envs_rollback]

/-- Goes back to what is left to try. -/
theorem ensures_retreat (hquery : queryEnv < w.store.envs.size) (ho : o.FitsIn agg watched w.store) :
    Ensures (retreat src o w) (Fits agg watched) := by
  have hquery' (cp : Checkpoint) : queryEnv < (w.store.rollback cp).envs.size := by rwa [Store.size_envs_rollback]
  have hcheckpoint {cp : Checkpoint} (hcp : cp ≤ w.store.checkpoint) : cp = (w.store.rollback cp).checkpoint :=
    (Store.size_trail_rollback hcp).symm
  cases ho with
  | none => exact Ensures.pure ⟨hquery, .failed .none⟩
  | undo hcp ho => exact Ensures.pure ⟨hquery' _, .failed (ho.back hcp)⟩
  | reenter ho => exact Ensures.tick (Ensures.pure ⟨hquery, .failed ho⟩)
  | absent hn ho => exact Ensures.pure ⟨hquery, .proved hn ho⟩
  | @disjuncts _ env goals next o hgoals ho =>
    cases goals with
    | nil => exact Ensures.pure ⟨hquery, .failed ho⟩
    | cons goal rest =>
      rw [List.forall_mem_cons] at hgoals
      exact Ensures.pure ⟨hquery, .prove hgoals.1 (.disjuncts hgoals.2 ho)⟩
  | candidates hcp henv hcandidateEnv hn ho =>
    refine ensures_tryCandidates (hquery' _) (hcheckpoint hcp) ?_ ?_ (hn.back hcp) (ho.back hcp)
    · rwa [Store.size_envs_rollback]
    · rwa [Store.size_envs_rollback]
  | rules hcp hx hn ho =>
    refine ensures_tryRules (hquery' _) (hcheckpoint hcp) (hx.mono ?_) hx.rules (hn.back hcp) (ho.back hcp)
    exact Nat.le_of_eq Store.size_envs_rollback.symm

/-- One step, as long as what is plugged stays within the allowance. -/
theorem Fits.step {m : Machine} (h : m.Fits agg watched) (hsrc : src.IsGrounding agg) (hask : ask.Grounds agg ask')
    {template : Term} (hshallow : m.isShallow src template = true) :
    Secures (step src ask m) (step src ask' m) (Fits agg watched) := by
  obtain ⟨control, w⟩ := m
  obtain ⟨hquery, hcontrol⟩ := h
  cases hcontrol with
  | @prove goal env next o hn ho =>
    have hresolve : w.store.resolve goal env = ⟨goal, env⟩ := by
      cases hn.basic.1 with
      | symbol => exact Store.resolve_sym _ _ _
      | _ => exact Store.resolve_compound _ _ _ _
    unfold isShallow at hshallow
    unfold Machine.step
    simp only [hresolve] at hshallow ⊢
    exact secures_proveResolved hsrc hask hquery hn ho hshallow
  | proved hn ho => exact .of_ensures (ensures_advance hquery hn ho)
  | failed ho => exact .of_ensures (ensures_retreat hquery ho)

end Machine

end Deduction
