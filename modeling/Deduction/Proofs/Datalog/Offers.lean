import Deduction.Proofs.Datalog.Plugging
import Deduction.Proofs.Search.Visits

/-!
# What a machine offers

A machine that works on a Datalog program offers the instances of the query that it may still come to: those by
valuations that respect the store, or the store that an alternative goes back to, and under which what is left to prove
is in the least model. A step never offers anything new, and it loses nothing unless an attempt to unify is cut off by
the end of the allowance (`Machine.IsDatalog.move`).
-/

namespace Deduction

open Store (Flat IsFlatGoal IsArgument)

/-! ### Machines on a Datalog program -/

/-- A goal of an atom whose variables are read in an environment of the store. -/
structure IsDatalogGoal (U : Term → Prop) (Q : String → Prop) (k : Nat) (t : Term) (env : EnvId) : Prop where
  isAtom : t.isAtom = true
  flat : IsFlatGoal U Q Search.queryEnv t env
  env_lt : env < k

theorem IsDatalogGoal.mono {U : Term → Prop} {Q : String → Prop} {k k' : Nat} {t : Term} {env : EnvId}
    (h : IsDatalogGoal U Q k t env) (hk : k ≤ k') : IsDatalogGoal U Q k' t env :=
  ⟨h.isAtom, h.flat, Nat.lt_of_lt_of_le h.env_lt hk⟩

/-- What is left to prove are atoms. -/
inductive Agenda.IsDatalog (U : Term → Prop) (Q : String → Prop) (k : Nat) : Agenda → Prop
  | done : IsDatalog U Q k .done
  | goals {env : EnvId} {rest : List Term} {next : Agenda} (h : ∀ t ∈ rest, IsDatalogGoal U Q k t env)
      (hnext : IsDatalog U Q k next) : IsDatalog U Q k (.goals env rest next)
  | leave {goal : Term} {env : EnvId} {next : Agenda} (hnext : IsDatalog U Q k next) :
      IsDatalog U Q k (.leave goal env next)

theorem Agenda.IsDatalog.mono {U : Term → Prop} {Q : String → Prop} {k k' : Nat} {next : Agenda}
    (h : next.IsDatalog U Q k) (hk : k ≤ k') : next.IsDatalog U Q k' := by
  induction h with
  | done => exact .done
  | goals h _ ih => exact .goals (fun t ht => (h t ht).mono hk) ih
  | leave _ ih => exact .leave ih

/-- Clauses of a program that are tried for an atom, from a flat store. -/
structure Expansion.IsDatalog (U : Term → Prop) (Q : String → Prop) (program : List Term) (s : Store)
    (x : Expansion) : Prop where
  goal : IsDatalogGoal U Q s.envs.size x.goal x.env
  ruleEnv_lt : x.ruleEnv < s.envs.size
  ruleEnv_ne : x.ruleEnv ≠ Search.queryEnv
  rule : ∀ t ∈ x.rules, t ∈ program

/-- The clauses that a cursor on facts stands for. -/
def Cursor.expansion (c : Cursor) : Expansion := ⟨c.target, c.env, c.candidates, c.candidateEnv, c.checkpoint⟩

theorem Cursor.expansion_attemptWithin (c : Cursor) {t : Term} (h : t.asRule = none) (s : Store) :
    c.expansion.attemptWithin s t = c.attemptWithin s t := by
  unfold Expansion.attemptWithin
  rw [h]
  rfl

/-- What is left to try are clauses of the program, from flat stores, with checkpoints in their order. -/
inductive Alternatives.IsDatalog (U : Term → Prop) (Q : String → Prop) (program : List Term) (s : Store) :
    Checkpoint → Alternatives → Prop
  | none {cp : Checkpoint} : IsDatalog U Q program s cp .none
  | reenter {cp : Checkpoint} {goal : Term} {env : EnvId} {otherwise : Alternatives}
      (h : IsDatalog U Q program s cp otherwise) : IsDatalog U Q program s cp (.reenter goal env otherwise)
  | candidates {cp : Checkpoint} {c : Cursor} {next : Agenda} {otherwise : Alternatives}
      (hcp : c.checkpoint ≤ cp) (hstore : (s.rollback c.checkpoint).Flat U Q Search.queryEnv)
      (hx : c.expansion.IsDatalog U Q program s) (hfacts : c.origin = .facts ∧ ∀ t ∈ c.candidates, t.asRule = .none)
      (hnext : next.IsDatalog U Q s.envs.size) (h : IsDatalog U Q program s c.checkpoint otherwise) :
      IsDatalog U Q program s cp (.candidates c next otherwise)
  | rules {cp : Checkpoint} {x : Expansion} {next : Agenda} {otherwise : Alternatives}
      (hcp : x.checkpoint ≤ cp) (hstore : (s.rollback x.checkpoint).Flat U Q Search.queryEnv)
      (hx : x.IsDatalog U Q program s) (hnext : next.IsDatalog U Q s.envs.size)
      (h : IsDatalog U Q program s x.checkpoint otherwise) : IsDatalog U Q program s cp (.rules x next otherwise)

/-- A machine on a Datalog program; the store is flat, unless the machine is about to go back. -/
def Machine.IsDatalog (U : Term → Prop) (Q : String → Prop) (program : List Term) (m : Machine) : Prop :=
  let s := m.work.store
  Search.queryEnv < s.envs.size ∧
    match m.control with
    | .prove goal env next otherwise =>
      s.Flat U Q Search.queryEnv ∧ IsDatalogGoal U Q s.envs.size goal env ∧ next.IsDatalog U Q s.envs.size ∧
        otherwise.IsDatalog U Q program s s.checkpoint
    | .proved next otherwise =>
      s.Flat U Q Search.queryEnv ∧ next.IsDatalog U Q s.envs.size ∧ otherwise.IsDatalog U Q program s s.checkpoint
    | .failed otherwise => otherwise.IsDatalog U Q program s s.checkpoint

/-! ### Offers -/

/-- The valuation makes the goal an instance of the head of the clause, and the body of the clause is in the model. -/
def IsAnsweredBy (M : Term → Prop) (θ : Valuation) (goal : Term) (env : EnvId) (clause : Term) (clauseEnv : EnvId) : Prop :=
  θ.read env goal = θ.read clauseEnv clause.headOrSelf ∧ ∀ t ∈ clause.body, M (θ.read clauseEnv t)

/-- What is left to prove is in the model. -/
def Agenda.Holds (M : Term → Prop) (θ : Valuation) : Agenda → Prop
  | .done => True
  | .goals env rest next => (∀ t ∈ rest, M (θ.read env t)) ∧ next.Holds M θ
  | .leave _ _ next => next.Holds M θ
  | .refuted _ _ => False

/-- Some clause that is left to try answers its goal, and what follows is in the model. -/
def Alternatives.Offers (M : Term → Prop) (θ : Valuation) (s : Store) : Alternatives → Prop
  | .none => False
  | .undo _ otherwise | .reenter _ _ otherwise | .absent _ otherwise | .disjuncts _ _ _ otherwise =>
    otherwise.Offers M θ s
  | .candidates c next otherwise =>
    (θ.Respects (s.rollback c.checkpoint) ∧ next.Holds M θ ∧
      ∃ t ∈ c.candidates, IsAnsweredBy M θ c.target c.env t c.candidateEnv) ∨ otherwise.Offers M θ s
  | .rules x next otherwise =>
    (θ.Respects (s.rollback x.checkpoint) ∧ next.Holds M θ ∧ ∃ t ∈ x.rules, IsAnsweredBy M θ x.goal x.env t x.ruleEnv) ∨
      otherwise.Offers M θ s

/-- What is left to prove is in the model, or something that is left to try leads there. -/
def Machine.Offers (M : Term → Prop) (θ : Valuation) (m : Machine) : Prop :=
  match m.control with
  | .prove goal env next otherwise =>
    (θ.Respects m.work.store ∧ M (θ.read env goal) ∧ next.Holds M θ) ∨ otherwise.Offers M θ m.work.store
  | .proved next otherwise => (θ.Respects m.work.store ∧ next.Holds M θ) ∨ otherwise.Offers M θ m.work.store
  | .failed otherwise => otherwise.Offers M θ m.work.store

/-! ### Going back to the same stores -/

/-- Going back to the checkpoint or beyond leads to the same store from both, up to a fresh environment. -/
structure Store.ReturnsLike (cp : Checkpoint) (s s' : Store) : Prop where
  size_le : s.envs.size ≤ s'.envs.size
  rollback : ∀ cp', cp' ≤ cp → s'.rollback cp' = s.rollback cp' ∨ s'.rollback cp' = (s.rollback cp').newEnv.2

namespace Store.ReturnsLike

variable {s s' : Store} {cp cp' : Checkpoint}

theorem of_extends (h : s.Extends s') : ReturnsLike s.checkpoint s s' where
  size_le := Nat.le_of_eq h.size_envs.symm
  rollback _ hcp := Or.inl (h.rollback hcp)

theorem of_newEnv (s : Store) (cp : Checkpoint) : ReturnsLike cp s s.newEnv.2 where
  size_le := Nat.le_of_lt (Nat.lt_of_lt_of_eq (Nat.lt_succ_self _) (size_envs_newEnv s).symm)
  rollback _ _ := Or.inr (rollback_newEnv s _)

theorem of_rollback (s : Store) (cp : Checkpoint) : ReturnsLike cp s (s.rollback cp) where
  size_le := Nat.le_of_eq size_envs_rollback.symm
  rollback _ hcp := Or.inl (rollback_rollback hcp)

theorem mono (h : ReturnsLike cp s s') (hcp : cp' ≤ cp) : ReturnsLike cp' s s' where
  size_le := h.size_le
  rollback cp'' hcp' := h.rollback cp'' (Nat.le_trans hcp' hcp)

end Store.ReturnsLike

namespace Alternatives

variable {U : Term → Prop} {Q : String → Prop} {program : List Term} {s s' : Store} {cp cp' : Checkpoint}
  {otherwise : Alternatives} {M : Term → Prop} {θ : Valuation}

theorem IsDatalog.mono (h : otherwise.IsDatalog U Q program s cp) (hcp : cp ≤ cp') :
    otherwise.IsDatalog U Q program s cp' := by
  induction h with
  | none => exact .none
  | reenter _ ih => exact .reenter (ih hcp)
  | candidates hle hstore hx hfacts hnext h _ => exact .candidates (Nat.le_trans hle hcp) hstore hx hfacts hnext h
  | rules hle hstore hx hnext h _ => exact .rules (Nat.le_trans hle hcp) hstore hx hnext h

theorem flat_of_returnsLike (hlike : Store.ReturnsLike cp s s') (h : (s.rollback cp).Flat U Q Search.queryEnv) :
    (s'.rollback cp).Flat U Q Search.queryEnv := by
  rcases hlike.rollback cp (Nat.le_refl _) with heq | heq
  · rwa [heq]
  · rw [heq]
    exact h.newEnv

theorem respects_of_returnsLike (hlike : Store.ReturnsLike cp s s') :
    θ.Respects (s'.rollback cp) ↔ θ.Respects (s.rollback cp) := by
  rcases hlike.rollback cp (Nat.le_refl _) with heq | heq
  · rw [heq]
  · rw [heq, Valuation.respects_newEnv]

theorem IsDatalog.returnsLike (h : otherwise.IsDatalog U Q program s cp) (hlike : Store.ReturnsLike cp s s') :
    otherwise.IsDatalog U Q program s' cp := by
  have hgrow {x : Expansion} (hx : x.IsDatalog U Q program s) : x.IsDatalog U Q program s' :=
    ⟨hx.goal.mono hlike.size_le, Nat.lt_of_lt_of_le hx.ruleEnv_lt hlike.size_le, hx.ruleEnv_ne, hx.rule⟩
  induction h with
  | none => exact .none
  | reenter _ ih => exact .reenter (ih hlike)
  | candidates hle hstore hx hfacts hnext _ ih =>
    exact .candidates hle (flat_of_returnsLike (hlike.mono hle) hstore) (hgrow hx) hfacts (hnext.mono hlike.size_le)
      (ih (hlike.mono hle))
  | rules hle hstore hx hnext _ ih =>
    exact .rules hle (flat_of_returnsLike (hlike.mono hle) hstore) (hgrow hx) (hnext.mono hlike.size_le)
      (ih (hlike.mono hle))

theorem IsDatalog.offers_iff (h : otherwise.IsDatalog U Q program s cp) (hlike : Store.ReturnsLike cp s s') :
    otherwise.Offers M θ s' ↔ otherwise.Offers M θ s := by
  induction h with
  | none => rfl
  | reenter _ ih => exact ih hlike
  | candidates hle _ _ _ _ _ ih =>
    unfold Offers
    rw [respects_of_returnsLike (hlike.mono hle), ih (hlike.mono hle)]
  | rules hle _ _ _ _ ih =>
    unfold Offers
    rw [respects_of_returnsLike (hlike.mono hle), ih (hlike.mono hle)]

end Alternatives

end Deduction
