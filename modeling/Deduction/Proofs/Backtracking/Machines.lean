import Deduction.Proofs.Backtracking.Frontier
import Deduction.Proofs.Datalog.Program
import Deduction.Proofs.Search.Visits
import Deduction.Proofs.Store.MirrorPlug

/-!
# Frontiers of machines

What a machine is about to do and what it has left to try make up a frontier (`Machine.Shows`). The store of the machine
mirrors the store of the first branch; for every other branch, the store that the machine will have gone back to by then
does. Environments that are added, and the renamings that are left by an answer, do not change the frontier
(`Alternatives.Shows.of_advances`).
-/

namespace Deduction

open Store (InScope Placement Mirrors)

/-! ### Plain goals -/

namespace Term

mutual
/-- Is the goal made of symbols and of atoms on ordinary relations by means of `same`, `distinct`, `not`, `and` and
`or`? -/
def isPlainGoal : Term → Bool
  | var _ => false
  | sym _ => true
  | compound f args =>
    if f = "not" || f = "and" || f = "or" then allPlainGoals args
    else f = "same" || f = "distinct" || isRelation f

def allPlainGoals : List Term → Bool
  | [] => true
  | t :: ts => isPlainGoal t && allPlainGoals ts
end

@[simp] theorem allPlainGoals_eq (ts : List Term) : allPlainGoals ts = ts.all isPlainGoal := by
  induction ts with
  | nil => rfl
  | cons t ts ih => simp [allPlainGoals, ih]

/-- Are the goals plain that are left to prove when the sentence is used? -/
def hasPlainBody (t : Term) : Bool := t.body.all isPlainGoal

theorem isPlainGoal_of_hasPlainBody {t head g : Term} {body : List Term} (h : t.hasPlainBody = true)
    (hrule : t.asRule = some (head, body)) (hg : g ∈ body) : g.isPlainGoal = true := by
  unfold hasPlainBody Term.body at h
  rw [hrule] at h
  exact List.all_eq_true.1 h g hg

end Term

/-- What is known of the parts of a plain goal, by its kind. -/
def Goal.IsPlainOf (t : Term) : Goal → Prop
  | .holds | .fails | .view | .base => True
  | .same x y | .distinct x y => x ∈ t.args ∧ y ∈ t.args
  | .negation g => g ∈ t.args ∧ g.isPlainGoal = true
  | .conjunction gs | .disjunction gs => gs = t.args ∧ ∀ g ∈ gs, g.isPlainGoal = true
  | .mutex _ | .member _ _ | .dataset _ _ | .computed _ _ => False

theorem Goal.isPlainOf_ofTerm (rules : Theory) {t : Term} (h : t.isPlainGoal = true) :
    (Goal.ofTerm rules t).IsPlainOf t := by
  have hrelation (r : String) : (Goal.ofRelation rules r).IsPlainOf t := by
    unfold Goal.ofRelation
    split <;> trivial
  match t with
  | .var v => cases h
  | .sym a =>
    unfold Goal.ofTerm
    split <;> first | trivial | exact hrelation _
  | .compound f args =>
    have hconnective (hf : (f = "not" || f = "and" || f = "or") = true) : ∀ g ∈ args, g.isPlainGoal = true := by
      rw [Term.isPlainGoal, if_pos hf, Term.allPlainGoals_eq] at h
      exact List.all_eq_true.1 h
    have hother (hf : (f = "not" || f = "and" || f = "or") = false) (hne : f ≠ "same") (hne' : f ≠ "distinct") :
        isRelation f = true := by
      rw [Term.isPlainGoal, if_neg (by simp [hf])] at h
      simpa [hne, hne'] using h
    unfold Goal.ofTerm
    split
    all_goals rename_i heq
    all_goals cases heq
    · -- same
      split
      · exact ⟨List.mem_cons_self, List.mem_cons_of_mem _ List.mem_cons_self⟩
      · trivial
    · -- distinct
      split
      · exact ⟨List.mem_cons_self, List.mem_cons_of_mem _ List.mem_cons_self⟩
      · trivial
    · exact absurd (hother rfl (by decide) (by decide)) (by decide)
    · exact absurd (hother rfl (by decide) (by decide)) (by decide)
    · -- not
      split
      · exact ⟨List.mem_cons_self, hconnective rfl _ List.mem_cons_self⟩
      · trivial
    · exact ⟨rfl, hconnective rfl⟩
    · exact ⟨rfl, hconnective rfl⟩
    · exact absurd (hother rfl (by decide) (by decide)) (by decide)
    · split
      · rename_i hcomputes
        have hrel : isRelation f = true := hother (by simp_all) (by simp_all) (by simp_all)
        rw [isComputation_of_isRelation hrel] at hcomputes
        cases hcomputes
      · exact hrelation f

/-! ### What is left to prove -/

/-- The goals that are left to prove up to the end of the innermost negation. -/
def Agenda.closures : Agenda → List Closure
  | .done | .refuted _ _ => []
  | .goals env rest next => rest.map (⟨·, env⟩) ++ next.closures
  | .leave _ _ next => next.closures

section

variable (Q : String → Prop) (start names : NameSupply)

/-- What is left to prove are plain goals, those of a branch whose store is mirrored. -/
structure Agenda.Reads (p : Placement) (s s' : Store) (next : Agenda) (goals : List Closure) : Prop where
  mirrors : Mirrors Q start names p s s'
  closures : next.closures = goals.map p.closure
  plain : ∀ g ∈ goals, g.term.isPlainGoal = true ∧ InScope Q s.envs.size g

/-- A goal that candidates are tried for, in a fresh environment, and the goals after it. -/
structure Trial (p : Placement) (s s' : Store) (goal : Closure) (fresh : EnvId) (next : Agenda) (goals : List Closure)
    (target : Term) (env candidateEnv : EnvId) : Prop where
  reads : next.Reads Q start names p s s' goals
  goal_eq : p.closure goal = ⟨target, env⟩
  inScope : InScope Q s.envs.size goal
  fresh_eq : p.env fresh = candidateEnv
  fresh_lt : fresh < s.envs.size
  fresh_ne : fresh ≠ Search.queryEnv

/-! ### What is left to try -/

mutual
/-- Where the goals are proved, a solution is found, or the innermost negation is refuted and the branches after it are
left. -/
def Agenda.Closes : Agenda → Store → List Scope → Prop
  | .done, _, scopes => scopes = []
  | .goals _ _ next, s', scopes => next.Closes s' scopes
  | .leave _ _ next, s', scopes => next.Closes s' scopes
  | .refuted cp otherwise, s', scopes => ∃ scope outer, scopes = scope :: outer ∧ cp ≤ s'.trail.size ∧
      otherwise.Shows (s'.rollback cp) scope.others outer

/-- What is left to try are these branches, and then the branches of the scopes. The store is that of a machine that goes
back to the alternatives. -/
def Alternatives.Shows : Alternatives → Store → List Branch → List Scope → Prop
  | .none, _, bs, scopes => bs = [] ∧ scopes = []
  | .undo cp otherwise, s', bs, scopes => cp ≤ s'.trail.size ∧ otherwise.Shows (s'.rollback cp) bs scopes
  | .reenter _ _ otherwise, s', bs, scopes => otherwise.Shows s' bs scopes
  | .absent next otherwise, s', bs, scopes => bs = [] ∧ ∃ p goals s others outer,
      scopes = ⟨⟨goals, s⟩, others⟩ :: outer ∧ next.Reads Q start names p s s' goals ∧ next.Closes s' outer ∧
        otherwise.Shows s' others outer
  | .disjuncts env gs next otherwise, s', bs, scopes => ∃ p goals s e others,
      bs = (gs.map fun g => ⟨⟨g, e⟩ :: goals, s⟩) ++ others ∧ next.Reads Q start names p s s' goals ∧ p.env e = env ∧
        (∀ g ∈ gs, g.isPlainGoal = true ∧ InScope Q s.envs.size ⟨g, e⟩) ∧ next.Closes s' scopes ∧
        otherwise.Shows s' others scopes
  | .candidates c next otherwise, s', bs, scopes => c.checkpoint ≤ s'.trail.size ∧ ∃ p goals s goal fresh others,
      bs = ((c.candidates.filterMap (Branch.ofFact goal fresh s)).map (Branch.andThen goals)) ++ others ∧
        Trial Q start names p s (s'.rollback c.checkpoint) goal fresh next goals c.target c.env c.candidateEnv ∧
        next.Closes (s'.rollback c.checkpoint) scopes ∧ otherwise.Shows (s'.rollback c.checkpoint) others scopes
  | .rules x next otherwise, s', bs, scopes => x.checkpoint ≤ s'.trail.size ∧ ∃ p goals s goal fresh others,
      bs = ((x.rules.filterMap (Branch.ofSentence goal fresh s)).map (Branch.andThen goals)) ++ others ∧
        Trial Q start names p s (s'.rollback x.checkpoint) goal fresh next goals x.goal x.env x.ruleEnv ∧
        (∀ t ∈ x.rules, t.hasPlainBody = true) ∧ next.Closes (s'.rollback x.checkpoint) scopes ∧
        otherwise.Shows (s'.rollback x.checkpoint) others scopes
end

end

/-- The first branch is what is left to prove, and the others are what is left to try. -/
def Workspace.Proves (Q : String → Prop) (start : NameSupply) (w : Workspace) (next : Agenda) (otherwise : Alternatives)
    (x : Frontier) : Prop :=
  ∃ p goals s others, x.branches = ⟨goals, s⟩ :: others ∧ next.Reads Q start w.names p s w.store goals ∧
    next.Closes Q start w.names w.store x.scopes ∧ otherwise.Shows Q start w.names w.store others x.scopes

/-- The machine has the frontier. -/
def Machine.Shows (Q : String → Prop) (start : NameSupply) (m : Machine) (x : Frontier) : Prop :=
  match m.control with
  | .prove goal env next otherwise => m.work.Proves Q start (.goals env [goal] next) otherwise x
  | .proved next otherwise => m.work.Proves Q start next otherwise x
  | .failed otherwise => otherwise.Shows Q start m.work.names m.work.store x.branches x.scopes

variable {Q : String → Prop} {start names names' : NameSupply} {p p' : Placement} {s s' s'' : Store} {next : Agenda}
  {otherwise : Alternatives} {goal : Closure} {goals : List Closure} {fresh env candidateEnv : EnvId} {target t : Term}
  {bs : List Branch} {scopes : List Scope} {cp : Checkpoint}

/-! ### Stores that advance -/

/-- What mirrored the first store mirrors the second one as well, up to renamings, also where both go back. -/
structure Store.Advances (Q : String → Prop) (start names names' : NameSupply) (s s' : Store) : Prop where
  size_trail : s.trail.size ≤ s'.trail.size
  mirrors : ∀ {p base}, Mirrors Q start names p base s → ∃ p' : Placement, p'.env = p.env ∧
    Mirrors Q start names' p' base s'
  back : ∀ {cp p base}, cp ≤ s.trail.size → Mirrors Q start names p base (s.rollback cp) →
    ∃ p' : Placement, p'.env = p.env ∧ Mirrors Q start names' p' base (s'.rollback cp)

namespace Store.Advances

theorem rollback (h : Advances Q start names names' s s') (hcp : cp ≤ s.trail.size) :
    Advances Q start names names' (s.rollback cp) (s'.rollback cp) := by
  have hsize : (s.rollback cp).trail.size = cp := size_trail_rollback hcp
  refine ⟨Nat.le_of_eq ?_, h.back hcp, fun {cp'} _ _ hcp' hm => ?_⟩
  · rw [hsize, size_trail_rollback (Nat.le_trans hcp h.size_trail)]
  · rw [hsize] at hcp'
    rw [rollback_rollback hcp'] at hm ⊢
    exact h.back (Nat.le_trans hcp' hcp) hm

/-- A fresh environment is added. -/
theorem newEnv (Q : String → Prop) (start names : NameSupply) (s : Store) :
    Advances Q start names names s s.newEnv.2 where
  size_trail := Nat.le_refl _
  mirrors {p _} h := ⟨p, rfl, h.newEnv_right⟩
  back {_ p _} _ h := by
    rw [rollback_newEnv]
    exact ⟨p, rfl, h.newEnv_right⟩

/-- An answer was plugged. -/
theorem plug (Q : String → Prop) (start : NameSupply) (t : Term) (s : Store) (names : NameSupply)
    (hlt : (s.plug t Search.queryEnv Search.queryEnv names).2.2.issued < UInt64.size) :
    Advances Q start names (s.plug t Search.queryEnv Search.queryEnv names).2.2 s
      (s.plug t Search.queryEnv Search.queryEnv names).2.1 := by
  have hren := Renames.of_plugAt Search.queryEnv allowance Search.queryEnv t (s, names)
  refine ⟨hren.isExtension.size_trail, fun h => h.exists_plugAt allowance t _ rfl hlt, fun {cp p _} hcp h => ?_⟩
  have hback : (s.plug t Search.queryEnv Search.queryEnv names).2.1.rollback cp = s.rollback cp :=
    hren.isExtension.rollback hcp
  rw [hback]
  exact ⟨p, rfl, h.mono hren.issued_le hlt⟩

end Store.Advances

theorem Store.Placement.closure_eq (h : p'.env = p.env) : p'.closure = p.closure := by
  funext c
  rw [closure, closure, h]

theorem Agenda.Reads.of_mirrors (h : next.Reads Q start names p s s' goals) (henv : p'.env = p.env)
    (hm : Mirrors Q start names' p' s s'') : next.Reads Q start names' p' s s'' goals :=
  ⟨hm, by rw [Placement.closure_eq henv, h.closures], h.plain⟩

theorem Trial.of_mirrors (h : Trial Q start names p s s' goal fresh next goals target env candidateEnv)
    (henv : p'.env = p.env) (hm : Mirrors Q start names' p' s s'') :
    Trial Q start names' p' s s'' goal fresh next goals target env candidateEnv :=
  { h with
    reads := h.reads.of_mirrors henv hm
    goal_eq := by rw [Placement.closure_eq henv, h.goal_eq]
    fresh_eq := by rw [henv, h.fresh_eq] }

mutual
/-- What is left to prove is the same from a store that has advanced. -/
theorem Agenda.Closes.of_advances {s s' : Store} {scopes : List Scope}
    (hs : s.Advances Q start names names' s') : (next : Agenda) → next.Closes Q start names s scopes →
    next.Closes Q start names' s' scopes
  | .done, h => h
  | .goals _ _ next, h => Agenda.Closes.of_advances hs next h
  | .leave _ _ next, h => Agenda.Closes.of_advances hs next h
  | .refuted _ otherwise, ⟨scope, outer, heq, hcp, h⟩ =>
    ⟨scope, outer, heq, Nat.le_trans hcp hs.size_trail, Alternatives.Shows.of_advances (hs.rollback hcp) otherwise h⟩

/-- What is left to try is the same from a store that has advanced. -/
theorem Alternatives.Shows.of_advances {s s' : Store} {bs : List Branch} {scopes : List Scope}
    (hs : s.Advances Q start names names' s') : (otherwise : Alternatives) →
    otherwise.Shows Q start names s bs scopes → otherwise.Shows Q start names' s' bs scopes
  | .none, h => h
  | .undo _ otherwise, ⟨hcp, h⟩ =>
    ⟨Nat.le_trans hcp hs.size_trail, Alternatives.Shows.of_advances (hs.rollback hcp) otherwise h⟩
  | .reenter _ _ otherwise, h => Alternatives.Shows.of_advances hs otherwise h
  | .absent next otherwise, ⟨hbs, p, goals, s, others, outer, heq, hreads, hcloses, h⟩ =>
    have ⟨p', henv, hm⟩ := hs.mirrors hreads.mirrors
    ⟨hbs, p', goals, s, others, outer, heq, hreads.of_mirrors henv hm, Agenda.Closes.of_advances hs next hcloses,
      Alternatives.Shows.of_advances hs otherwise h⟩
  | .disjuncts _ _ next otherwise, ⟨p, goals, s, e, others, heq, hreads, he, hgs, hcloses, h⟩ =>
    have ⟨p', henv, hm⟩ := hs.mirrors hreads.mirrors
    ⟨p', goals, s, e, others, heq, hreads.of_mirrors henv hm, by rw [henv, he], hgs,
      Agenda.Closes.of_advances hs next hcloses, Alternatives.Shows.of_advances hs otherwise h⟩
  | .candidates _ next otherwise, ⟨hcp, p, goals, s, goal, fresh, others, heq, htrial, hcloses, h⟩ =>
    have ⟨p', henv, hm⟩ := hs.back hcp htrial.reads.mirrors
    ⟨Nat.le_trans hcp hs.size_trail, p', goals, s, goal, fresh, others, heq, htrial.of_mirrors henv hm,
      Agenda.Closes.of_advances (hs.rollback hcp) next hcloses,
      Alternatives.Shows.of_advances (hs.rollback hcp) otherwise h⟩
  | .rules _ next otherwise, ⟨hcp, p, goals, s, goal, fresh, others, heq, htrial, hplain, hcloses, h⟩ =>
    have ⟨p', henv, hm⟩ := hs.back hcp htrial.reads.mirrors
    ⟨Nat.le_trans hcp hs.size_trail, p', goals, s, goal, fresh, others, heq, htrial.of_mirrors henv hm, hplain,
      Agenda.Closes.of_advances (hs.rollback hcp) next hcloses,
      Alternatives.Shows.of_advances (hs.rollback hcp) otherwise h⟩
end

/-- What is left to prove ends in the same way once further variables are bound. -/
theorem Agenda.Closes.of_extends {s s' : Store} {scopes : List Scope} (hext : s.Extends s') :
    (next : Agenda) → next.Closes Q start names s scopes → next.Closes Q start names s' scopes
  | .done, h => h
  | .goals _ _ next, h => Agenda.Closes.of_extends hext next h
  | .leave _ _ next, h => Agenda.Closes.of_extends hext next h
  | .refuted _ _, ⟨scope, outer, heq, hcp, h⟩ =>
    ⟨scope, outer, heq, Nat.le_trans hcp hext.size_trail, by rwa [hext.rollback hcp]⟩

end Deduction
