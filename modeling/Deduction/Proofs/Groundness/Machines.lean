import Deduction.Proofs.Datalog.Offers
import Deduction.Proofs.Groundness.Stores

/-!
# Machines that come to ground answers

A search is watched if the instances of its template are to be ground. What is left to prove then sees to that: whoever
grounds what is bound by now grounds the template once all goals are done (`Agenda.Grounds`). Where a negation is proved
aside, and in searches that are not watched, goals need only be basic (`Agenda.Aside`).

What is left to try goes back to the stores that there were when it came up, so what is said of these stores holds as
long as the bindings up to the checkpoints stay (`Alternatives.Fits.returnsLike`).
-/

namespace Deduction

open Search (queryEnv)
open Store (AdmitsTerm ReturnsLike)

variable {watched : Option Term} {template goal target : Term} {s s' : Store} {cp cp' : Checkpoint} {next : Agenda}
  {o : Alternatives} {env : EnvId} {ts goals values rest : List Term} {A A' bound b b' : List String}
  {Γ Γ' : Grounding → Prop} {k k' : EnvId} {g : Term} {agg : Bool}

/-! ### What is left to prove -/

/-- The variables of the query that may be bound once goals that bind the given variables are done. -/
def scopeAfter (env : EnvId) (b A : List String) : List String := if env = queryEnv then b else A

theorem scopeAfter_query (b A : List String) : scopeAfter queryEnv b A = b := if_pos rfl

theorem scopeAfter_of_ne (henv : env ≠ queryEnv) (b A : List String) : scopeAfter env b A = A := if_neg henv

theorem scopeAfter_mono (env : EnvId) (hb : ∀ v ∈ b, v ∈ b') (hA : ∀ v ∈ A, v ∈ A') :
    ∀ v ∈ scopeAfter env b A, v ∈ scopeAfter env b' A' := by
  unfold scopeAfter
  split
  · exact hb
  · exact hA

theorem mem_scopeAfter (h : env = queryEnv → ∀ v ∈ A, v ∈ b) : ∀ v ∈ A, v ∈ scopeAfter env b A := by
  unfold scopeAfter
  split
  · rename_i henv
    exact h henv
  · exact fun _ hv => hv

/-- Goals that are done one after the other. -/
theorem scopeAfter_scopeAfter (env : EnvId) (b b' A : List String) :
    scopeAfter env b (scopeAfter env b' A) = scopeAfter env b A := by
  by_cases henv : env = queryEnv
  · rw [henv, scopeAfter_query, scopeAfter_query]
  · rw [scopeAfter_of_ne henv, scopeAfter_of_ne henv, scopeAfter_of_ne henv]

/-- The goals are ready to be run: the first variables are bound, no other variables of the query are, and on every way
the second ones will be. -/
structure IsReady (agg : Bool) (k : EnvId) (A : List String) (Γ : Grounding → Prop) (env : EnvId) (goals : List Term)
    (bound b : List String) : Prop where
  env_lt : env < k
  basic : ∀ g ∈ goals, g.IsBasic agg
  names : agg = true → env ≠ queryEnv → ∀ g ∈ goals, ∀ v ∈ g.vars, ∀ n : Nat, v ≠ s!"V{n}"
  query : env = queryEnv → ∀ v ∈ A, v ∈ bound
  grounds : ∀ γ, Γ γ → ∀ v ∈ bound, γ v env
  binds : Term.bindGoalsSurely goals bound = some b

/-- The groundings that ground the variables as well. -/
def Also (Γ : Grounding → Prop) (b : List String) (env : EnvId) : Grounding → Prop := fun γ => Γ γ ∧ ∀ v ∈ b, γ v env

namespace IsReady

theorem mono (h : IsReady agg k A Γ env goals bound b) (hk : k ≤ k') (hA : ∀ v ∈ A', v ∈ A) (hΓ : ∀ γ, Γ' γ → Γ γ) :
    IsReady agg k' A' Γ' env goals bound b where
  env_lt := Nat.lt_of_lt_of_le h.env_lt hk
  basic := h.basic
  names := h.names
  query henv v hv := h.query henv v (hA v hv)
  grounds γ hγ := h.grounds γ (hΓ γ hγ)
  binds := h.binds

/-- The first goal is ready, and when it is done, the others are. -/
theorem cons (h : IsReady agg k A Γ env (g :: goals) bound b) :
    ∃ b₁, IsReady agg k A Γ env [g] bound b₁ ∧ IsReady agg k (scopeAfter env b₁ A) (Also Γ b₁ env) env goals b₁ b := by
  obtain ⟨b₁, hfirst, hrest⟩ := Term.bindGoalsSurely_cons.1 h.binds
  have hbasic := h.basic
  rw [List.forall_mem_cons] at hbasic
  refine ⟨b₁, ⟨h.env_lt, ?_, fun hagg henv => ?_, h.query, h.grounds, Term.bindGoalsSurely_singleton.2 hfirst⟩, h.env_lt,
    hbasic.2, fun hagg henv g hg => ?_, ?_, fun γ hγ => hγ.2, hrest⟩
  · exact List.forall_mem_singleton.2 hbasic.1
  · exact List.forall_mem_singleton.2 (h.names hagg henv g List.mem_cons_self)
  · exact h.names hagg henv g (List.mem_cons_of_mem _ hg)
  · rintro rfl v hv
    rwa [scopeAfter_query] at hv

/-- More variables may be bound than it takes. -/
theorem widen (h : IsReady agg k A Γ env goals bound b) (hΓ : ∀ γ, Γ' γ → Γ γ ∧ ∀ v ∈ A', γ v queryEnv) :
    ∃ bound' b', IsReady agg k A' Γ' env goals bound' b' ∧ ∀ v ∈ b, v ∈ b' := by
  by_cases henv : env = queryEnv
  · subst henv
    -- The walk starts again with the other variables bound as well, and comes to no less.
    obtain ⟨b', hb', hb⟩ := Term.bindGoalsSurely_mono h.basic h.binds fun v hv => List.mem_append_left A' hv
    refine ⟨bound ++ A', b', ⟨h.env_lt, h.basic, h.names, ?_, fun γ hγ v hv => ?_, hb'⟩, hb⟩
    · exact fun _ v hv => List.mem_append_right _ hv
    · exact (List.mem_append.1 hv).elim (h.grounds γ (hΓ γ hγ).1 v) ((hΓ γ hγ).2 v)
  · refine ⟨bound, b, ⟨h.env_lt, h.basic, h.names, fun heq => absurd heq henv, ?_, h.binds⟩, fun _ hv => hv⟩
    exact fun γ hγ => h.grounds γ (hΓ γ hγ).1

end IsReady

/-- Once what is left to prove is done, the template is ground. At most the given variables of the query are bound by now,
and the groundings are those that the bindings allow. -/
inductive Agenda.Grounds (agg : Bool) (template : Term) (k : EnvId) : List String → (Grounding → Prop) → Agenda → Prop
  | done {A : List String} {Γ : Grounding → Prop} (h : ∀ γ, Γ γ → γ.Grounds template queryEnv) :
    Agenda.Grounds agg template k A Γ .done
  | goals {A : List String} {Γ : Grounding → Prop} {env : EnvId} {rest : List Term} {next : Agenda}
    {bound b : List String} (hrest : IsReady agg k A Γ env rest bound b)
    (hn : Agenda.Grounds agg template k (scopeAfter env b A) (Also Γ b env) next) :
    Agenda.Grounds agg template k A Γ (.goals env rest next)
  | leave {A : List String} {Γ : Grounding → Prop} {goal : Term} {env : EnvId} {next : Agenda}
    (hn : Agenda.Grounds agg template k A Γ next) : Agenda.Grounds agg template k A Γ (.leave goal env next)

namespace Agenda.Grounds

theorem mono (h : next.Grounds agg template k A Γ) (hk : k ≤ k') (hA : ∀ v ∈ A', v ∈ A) (hΓ : ∀ γ, Γ' γ → Γ γ) :
    next.Grounds agg template k' A' Γ' := by
  induction h generalizing A' Γ' with
  | done h => exact .done fun γ hγ => h γ (hΓ γ hγ)
  | goals hrest _ ih =>
    exact .goals (hrest.mono hk hA hΓ) (ih (scopeAfter_mono _ (fun _ hv => hv) hA) fun γ hγ => ⟨hΓ γ hγ.1, hγ.2⟩)
  | leave _ ih => exact .leave (ih hA hΓ)

/-- More variables of the query may be bound than it takes, if they are ground. -/
theorem widen (h : next.Grounds agg template k A Γ) (hA : ∀ v ∈ A, v ∈ A')
    (hΓ : ∀ γ, Γ' γ → Γ γ ∧ ∀ v ∈ A', γ v queryEnv) : next.Grounds agg template k A' Γ' := by
  induction h generalizing A' Γ' with
  | done h => exact .done fun γ hγ => h γ (hΓ γ hγ).1
  | @goals A Γ env rest next bound b hrest _ ih =>
    obtain ⟨bound', b', hrest', hb⟩ := hrest.widen hΓ
    refine .goals hrest' (ih (scopeAfter_mono env hb hA) fun γ hγ => ?_)
    refine ⟨⟨(hΓ γ hγ.1).1, fun v hv => hγ.2 v (hb v hv)⟩, ?_⟩
    unfold scopeAfter
    split
    · rename_i henv
      exact henv ▸ hγ.2
    · exact (hΓ γ hγ.1).2
  | leave _ ih => exact .leave (ih hA hΓ)

/-- The first goal is run on its own. -/
theorem uncons (h : Grounds agg template k A Γ (.goals env (g :: rest) next)) :
    Grounds agg template k A Γ (.goals env [g] (.goals env rest next)) := by
  cases h with
  | @goals _ _ _ _ _ bound b hrest hn =>
    obtain ⟨b₁, hfirst, hothers⟩ := hrest.cons
    refine .goals hfirst (.goals hothers (hn.mono (Nat.le_refl _) ?_ fun γ hγ => ⟨hγ.1.1, hγ.2⟩))
    rw [scopeAfter_scopeAfter]
    exact fun _ hv => hv

end Agenda.Grounds

/-! ### Rules -/

/-- A rule whose body binds the variables of the head on every way, or another sentence that is ground unless no atom fits
it. -/
structure Term.IsGrounding (agg : Bool) (t : Term) : Prop where
  basic : ∀ head body, t.asRule = some (head, body) → ∀ g ∈ body, g.IsBasic agg
  names : agg = true → ∀ head body, t.asRule = some (head, body) → ∀ v ∈ t.vars, ∀ n : Nat, v ≠ s!"V{n}"
  binds : ∀ head body, t.asRule = some (head, body) → ∃ b, bindGoalsSurely body [] = some b ∧ ∀ v ∈ head.vars, v ∈ b
  sentence : t.asRule = none → t.isGround = true ∨ ∃ f, t.functor? = some f ∧ isRelation f = false

/-- Rules are tried for an atom, in an environment that is not that of the query. -/
structure Expansion.IsGrounding (agg : Bool) (k : EnvId) (x : Expansion) : Prop where
  env_lt : x.env < k
  ruleEnv_lt : x.ruleEnv < k
  ruleEnv_ne : x.ruleEnv ≠ queryEnv
  goal : ∃ f, x.goal.functor? = some f ∧ isRelation f = true
  rules : ∀ t ∈ x.rules, t.IsGrounding agg

theorem Expansion.IsGrounding.mono {x : Expansion} (h : x.IsGrounding agg k) (hk : k ≤ k') : x.IsGrounding agg k' where
  env_lt := Nat.lt_of_lt_of_le h.env_lt hk
  ruleEnv_lt := Nat.lt_of_lt_of_le h.ruleEnv_lt hk
  ruleEnv_ne := h.ruleEnv_ne
  goal := h.goal
  rules := h.rules

/-! ### What is left to try -/

mutual
/-- Nothing is expected of what is left to prove: it is proved for a negation that then fails, or in a search that is not
watched. -/
inductive Agenda.Aside (agg : Bool) (watched : Option Term) (s : Store) : Checkpoint → Agenda → Prop
  | done {cp : Checkpoint} (h : watched = none) : Agenda.Aside agg watched s cp .done
  | goals {cp : Checkpoint} {env : EnvId} {rest : List Term} {next : Agenda} (henv : env < s.envs.size)
    (hrest : ∀ g ∈ rest, g.IsBasic agg) (hn : Agenda.Aside agg watched s cp next) :
    Agenda.Aside agg watched s cp (.goals env rest next)
  | leave {cp : Checkpoint} {goal : Term} {env : EnvId} {next : Agenda} (hn : Agenda.Aside agg watched s cp next) :
    Agenda.Aside agg watched s cp (.leave goal env next)
  | refuted {cp cp' : Checkpoint} {o : Alternatives} (hcp : cp' ≤ cp) (ho : Alternatives.Fits agg watched s cp' o) :
    Agenda.Aside agg watched s cp (.refuted cp' o)

/-- What is left to prove at a checkpoint, once the terms are made equal to one of the values. -/
inductive Agenda.Fits (agg : Bool) (watched : Option Term) (s : Store) :
    Checkpoint → List Term → EnvId → List Term → Agenda → Prop
  | watched {cp : Checkpoint} {ts : List Term} {env : EnvId} {values : List Term} {next : Agenda} {template : Term}
    {A : List String} (hwatched : watched = some template) (hs : (s.rollback cp).KeepsTo agg A)
    (hts : ∀ t ∈ ts, AdmitsTerm agg A t env) (hvalues : ∀ t ∈ values, t.isGround = true)
    (hn : next.Grounds agg template s.envs.size A fun γ => γ.Solves (s.rollback cp) ∧ ∀ t ∈ ts, γ.Grounds t env) :
    Agenda.Fits agg watched s cp ts env values next
  | aside {cp : Checkpoint} {ts : List Term} {env : EnvId} {values : List Term} {next : Agenda}
    (hn : Agenda.Aside agg watched s cp next) : Agenda.Fits agg watched s cp ts env values next

/-- What is left to try at a checkpoint. -/
inductive Alternatives.Fits (agg : Bool) (watched : Option Term) (s : Store) : Checkpoint → Alternatives → Prop
  | none {cp : Checkpoint} : Alternatives.Fits agg watched s cp .none
  | undo {cp cp' : Checkpoint} {o : Alternatives} (hcp : cp' ≤ cp) (ho : Alternatives.Fits agg watched s cp' o) :
    Alternatives.Fits agg watched s cp (.undo cp' o)
  | reenter {cp : Checkpoint} {goal : Term} {env : EnvId} {o : Alternatives} (ho : Alternatives.Fits agg watched s cp o) :
    Alternatives.Fits agg watched s cp (.reenter goal env o)
  | absent {cp : Checkpoint} {next : Agenda} {o : Alternatives} (hn : Agenda.Fits agg watched s cp [] queryEnv [] next)
    (ho : Alternatives.Fits agg watched s cp o) : Alternatives.Fits agg watched s cp (.absent next o)
  | disjuncts {cp : Checkpoint} {env : EnvId} {goals : List Term} {next : Agenda} {o : Alternatives}
    (hgoals : ∀ g ∈ goals, Agenda.Fits agg watched s cp [] queryEnv [] (.goals env [g] next))
    (ho : Alternatives.Fits agg watched s cp o) : Alternatives.Fits agg watched s cp (.disjuncts env goals next o)
  | candidates {cp : Checkpoint} {c : Cursor} {next : Agenda} {o : Alternatives} (hcp : c.checkpoint ≤ cp)
    (henv : c.env < s.envs.size) (hcandidateEnv : c.candidateEnv < s.envs.size)
    (hn : Agenda.Fits agg watched s c.checkpoint [c.target] c.env c.candidates next)
    (ho : Alternatives.Fits agg watched s c.checkpoint o) : Alternatives.Fits agg watched s cp (.candidates c next o)
  | rules {cp : Checkpoint} {x : Expansion} {next : Agenda} {o : Alternatives} (hcp : x.checkpoint ≤ cp)
    (hx : x.IsGrounding agg s.envs.size) (hn : Agenda.Fits agg watched s x.checkpoint [x.goal] x.env [] next)
    (ho : Alternatives.Fits agg watched s x.checkpoint o) : Alternatives.Fits agg watched s cp (.rules x next o)
end

/-! ### Going back to the same stores -/

theorem Store.ReturnsLike.keepsTo (h : ReturnsLike cp s s') (hs : (s.rollback cp).KeepsTo agg A) :
    (s'.rollback cp).KeepsTo agg A := by
  rcases h.rollback cp (Nat.le_refl _) with heq | heq
  · rwa [heq]
  · rw [heq]
    exact hs.newEnv

theorem Store.ReturnsLike.solves_iff {γ : Grounding} (h : ReturnsLike cp s s') :
    γ.Solves (s'.rollback cp) ↔ γ.Solves (s.rollback cp) := by
  rcases h.rollback cp (Nat.le_refl _) with heq | heq
  · rw [heq]
  · rw [heq, Grounding.solves_newEnv]

mutual
theorem Agenda.Aside.returnsLike : {cp : Checkpoint} → {next : Agenda} → ReturnsLike cp s s' →
    Agenda.Aside agg watched s cp next → Agenda.Aside agg watched s' cp next
  | _, _, _, .done h => .done h
  | _, _, hs, .goals henv hrest hn => .goals (Nat.lt_of_lt_of_le henv hs.size_le) hrest (hn.returnsLike hs)
  | _, _, hs, .leave hn => .leave (hn.returnsLike hs)
  | _, _, hs, .refuted hcp ho => .refuted hcp (ho.returnsLike (hs.mono hcp))

theorem Agenda.Fits.returnsLike : {cp : Checkpoint} → {ts : List Term} → {env : EnvId} → {values : List Term} →
    {next : Agenda} → ReturnsLike cp s s' → Agenda.Fits agg watched s cp ts env values next →
      Agenda.Fits agg watched s' cp ts env values next
  | _, _, _, _, _, hs, .watched hwatched hstore hts hvalues hn =>
    .watched hwatched (hs.keepsTo hstore) hts hvalues
      (hn.mono hs.size_le (fun _ hv => hv) fun _ hγ => ⟨hs.solves_iff.1 hγ.1, hγ.2⟩)
  | _, _, _, _, _, hs, .aside hn => .aside (hn.returnsLike hs)

theorem Alternatives.Fits.returnsLike : {cp : Checkpoint} → {o : Alternatives} → ReturnsLike cp s s' →
    Alternatives.Fits agg watched s cp o → Alternatives.Fits agg watched s' cp o
  | _, _, _, .none => .none
  | _, _, hs, .undo hcp ho => .undo hcp (ho.returnsLike (hs.mono hcp))
  | _, _, hs, .reenter ho => .reenter (ho.returnsLike hs)
  | _, _, hs, .absent hn ho => .absent (hn.returnsLike hs) (ho.returnsLike hs)
  | _, _, hs, .disjuncts hgoals ho => .disjuncts (fun g hg => (hgoals g hg).returnsLike hs) (ho.returnsLike hs)
  | _, _, hs, .candidates hcp henv hcandidateEnv hn ho =>
    .candidates hcp (Nat.lt_of_lt_of_le henv hs.size_le) (Nat.lt_of_lt_of_le hcandidateEnv hs.size_le)
      (hn.returnsLike (hs.mono hcp)) (ho.returnsLike (hs.mono hcp))
  | _, _, hs, .rules hcp hx hn ho =>
    .rules hcp (hx.mono hs.size_le) (hn.returnsLike (hs.mono hcp)) (ho.returnsLike (hs.mono hcp))
end

theorem Agenda.Aside.mono {next : Agenda} : cp ≤ cp' → Agenda.Aside agg watched s cp next →
    Agenda.Aside agg watched s cp' next
  | _, .done h => .done h
  | hcp, .goals henv hrest hn => .goals henv hrest (hn.mono hcp)
  | hcp, .leave hn => .leave (hn.mono hcp)
  | hcp, .refuted hcp' ho => .refuted (Nat.le_trans hcp' hcp) ho

/-! ### Machines -/

/-- What is left to prove where the store is now. -/
def Agenda.FitsIn (agg : Bool) (watched : Option Term) (s : Store) (next : Agenda) : Prop :=
  next.Fits agg watched s s.checkpoint [] queryEnv []

/-- What is left to try where the store is now. -/
def Alternatives.FitsIn (agg : Bool) (watched : Option Term) (s : Store) (o : Alternatives) : Prop :=
  o.Fits agg watched s s.checkpoint

/-- Going back to a checkpoint comes to where the bindings are those that there were then. -/
theorem Alternatives.Fits.back (h : o.Fits agg watched s cp) (hcp : cp ≤ s.checkpoint) :
    o.FitsIn agg watched (s.rollback cp) := by
  unfold FitsIn Store.checkpoint
  rw [Store.size_trail_rollback hcp]
  exact h.returnsLike (.of_rollback s cp)

theorem Agenda.Fits.back (h : next.Fits agg watched s cp ts env values) (hcp : cp ≤ s.checkpoint) :
    next.Fits agg watched (s.rollback cp) (s.rollback cp).checkpoint ts env values := by
  unfold Store.checkpoint
  rw [Store.size_trail_rollback hcp]
  exact h.returnsLike (.of_rollback s cp)

namespace Agenda

theorem fits_of_grounds (hwatched : watched = some template) (hs : s.KeepsTo agg A) (hts : ∀ t ∈ ts, AdmitsTerm agg A t env)
    (hvalues : ∀ t ∈ values, t.isGround = true)
    (hn : next.Grounds agg template s.envs.size A fun γ => γ.Solves s ∧ ∀ t ∈ ts, γ.Grounds t env) :
    next.Fits agg watched s s.checkpoint ts env values := by
  have hstore : s.rollback s.checkpoint = s := s.rollback_size
  exact .watched hwatched (hstore.symm ▸ hs) hts hvalues (hstore.symm ▸ hn)

/-- What is left to prove now is watched, or else aside. -/
theorem Fits.cases (h : next.Fits agg watched s s.checkpoint ts env values) :
    (∃ template A, watched = some template ∧ s.KeepsTo agg A ∧ (∀ t ∈ ts, AdmitsTerm agg A t env) ∧
      (∀ t ∈ values, t.isGround = true) ∧
      next.Grounds agg template s.envs.size A fun γ => γ.Solves s ∧ ∀ t ∈ ts, γ.Grounds t env) ∨
    next.Aside agg watched s s.checkpoint := by
  have hstore : s.rollback s.checkpoint = s := s.rollback_size
  cases h with
  | watched hwatched hs hts hvalues hn =>
    rw [hstore] at hs hn
    exact .inl ⟨_, _, hwatched, hs, hts, hvalues, hn⟩
  | aside hn => exact .inr hn

theorem fitsIn_of_grounds (hwatched : watched = some template) (hs : s.KeepsTo agg A)
    (hn : next.Grounds agg template s.envs.size A fun γ => γ.Solves s) : next.FitsIn agg watched s :=
  fits_of_grounds hwatched hs (fun _ ht => by cases ht) (fun _ ht => by cases ht)
    (hn.mono (Nat.le_refl _) (fun _ hv => hv) fun _ hγ => hγ.1)

theorem FitsIn.cases (h : next.FitsIn agg watched s) :
    (∃ template A, watched = some template ∧ s.KeepsTo agg A ∧
      next.Grounds agg template s.envs.size A fun γ => γ.Solves s) ∨
      next.Aside agg watched s s.checkpoint := by
  refine (Fits.cases h).imp_left fun ⟨template, A, hwatched, hs, _, _, hn⟩ => ⟨template, A, hwatched, hs, ?_⟩
  exact hn.mono (Nat.le_refl _) (fun _ hv => hv) fun γ hγ => ⟨hγ, fun _ ht => by cases ht⟩

/-- The first goal is proved on its own. -/
theorem FitsIn.uncons (h : FitsIn agg watched s (.goals env (g :: rest) next)) :
    FitsIn agg watched s (.goals env [g] (.goals env rest next)) := by
  rcases h.cases with ⟨template, A, hwatched, hs, hn⟩ | haside
  · exact fitsIn_of_grounds hwatched hs hn.uncons
  · cases haside with
    | goals henv hrest hn =>
      rw [List.forall_mem_cons] at hrest
      exact .aside (.goals henv (List.forall_mem_singleton.2 hrest.1) (.goals henv hrest.2 hn))

theorem FitsIn.of_nil (h : FitsIn agg watched s (.goals env [] next)) : next.FitsIn agg watched s := by
  rcases h.cases with ⟨template, A, hwatched, hs, hn⟩ | haside
  · cases hn with
    | @goals _ _ _ _ _ bound b hrest hn =>
      obtain rfl : bound = b := Option.some.inj hrest.binds
      refine fitsIn_of_grounds hwatched hs (hn.mono (Nat.le_refl _) (mem_scopeAfter hrest.query) fun γ hγ => ?_)
      exact ⟨hγ, hrest.grounds γ hγ⟩
  · cases haside with
    | goals _ _ hn => exact .aside hn

theorem FitsIn.of_leave (h : FitsIn agg watched s (.leave goal env next)) : next.FitsIn agg watched s := by
  rcases h.cases with ⟨template, A, hwatched, hs, hn⟩ | haside
  · cases hn with
    | leave hn => exact fitsIn_of_grounds hwatched hs hn
  · cases haside with
    | leave hn => exact .aside hn

/-- The goals of what is left to prove are basic. -/
theorem FitsIn.basic (h : FitsIn agg watched s (.goals env [g] next)) : g.IsBasic agg ∧ env < s.envs.size := by
  rcases h.cases with ⟨template, A, -, -, hn⟩ | haside
  · cases hn with
    | goals hrest _ => exact ⟨hrest.basic g List.mem_cons_self, hrest.env_lt⟩
  · cases haside with
    | goals henv hrest _ => exact ⟨hrest g List.mem_cons_self, henv⟩

end Agenda

/-- What the machine is about to do. -/
inductive Control.Fits (agg : Bool) (watched : Option Term) (s : Store) : Control → Prop
  | prove {goal : Term} {env : EnvId} {next : Agenda} {o : Alternatives}
    (hn : Agenda.FitsIn agg watched s (.goals env [goal] next)) (ho : o.FitsIn agg watched s) :
    Control.Fits agg watched s (.prove goal env next o)
  | proved {next : Agenda} {o : Alternatives} (hn : next.FitsIn agg watched s) (ho : o.FitsIn agg watched s) :
    Control.Fits agg watched s (.proved next o)
  | failed {o : Alternatives} (ho : o.FitsIn agg watched s) : Control.Fits agg watched s (.failed o)

/-- A machine whose answers will be ground, if it is watched. -/
structure Machine.Fits (agg : Bool) (watched : Option Term) (m : Machine) : Prop where
  query_lt : queryEnv < m.work.store.envs.size
  control : m.control.Fits agg watched m.work.store

end Deduction
