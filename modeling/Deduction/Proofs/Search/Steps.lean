import Deduction.Proofs.Store.Rollback
import Deduction.Search.Query

/-!
# Going over candidates and rules

A candidate, or a rule, is tried by unification with the goal. If that succeeds, the machine goes on with what is left
to prove, and the others are left to try; if it fails, nothing but the count has changed.
-/

namespace Deduction

/-- Counts a candidate that is tried. -/
def Cursor.count (c : Cursor) : Metered Unit :=
  if c.origin = .computed then pure () else Meter.instantiate

/-- What is left to try when a candidate was taken. -/
def Cursor.others (c : Cursor) (rest : List Term) (next : Agenda) (otherwise : Alternatives) : Alternatives :=
  let others := .candidates { c with candidates := rest } next otherwise
  if c.origin = .facts then .reenter c.target c.env others else others

namespace Machine

variable {src : Sources} {c : Cursor} {x : Expansion} {next : Agenda} {otherwise : Alternatives} {t : Term}
  {rest : List Term} {s s' : Store} {names : NameSupply}

/-! ### Candidates -/

theorem tryCandidates_nil (w : Workspace) :
    tryCandidates src c next otherwise [] w =
      c.report src.config "Fail" w.store >>= fun _ => pure ⟨.failed otherwise, w⟩ := rfl

/-- A candidate that the target can be made equal to is taken. -/
theorem tryCandidates_of_unify (h : s.unify c.target c.env t c.candidateEnv = (true, s')) :
    tryCandidates src c next otherwise (t :: rest) ⟨s, names⟩ =
      c.count >>= fun _ => c.report src.config "Exit" s' >>= fun _ =>
        pure ⟨.proved next (c.others rest next otherwise), ⟨s', names⟩⟩ := by
  unfold tryCandidates Cursor.count Cursor.others
  simp only [h]
  split <;> rfl

/-- Any other candidate is passed over. -/
theorem tryCandidates_of_not_unify (h : (s.unify c.target c.env t c.candidateEnv).1 = false) :
    tryCandidates src c next otherwise (t :: rest) ⟨s, names⟩ =
      c.count >>= fun _ => tryCandidates src c next otherwise rest ⟨s, names⟩ := by
  have hpair : s.unify c.target c.env t c.candidateEnv = (false, s) := by
    refine Prod.ext h ?_
    exact Store.unify_eq_of_fails (Prod.ext h rfl)
  rw [tryCandidates]
  unfold Cursor.count
  simp only [hpair]
  split <;> rfl

/-! ### Rules -/

theorem tryRules_nil (w : Workspace) :
    tryRules src x next otherwise [] w =
      reportGoal src.config "Fail" w.store x.goal x.env >>= fun _ => pure ⟨.failed otherwise, w⟩ := rfl

/-- The body of a rule whose head fits is to be proved. -/
theorem tryRules_of_head {head : Term} {body : List Term} (hrule : t.asRule = some (head, body))
    (h : s.unify head x.ruleEnv x.goal x.env = (true, s')) :
    tryRules src x next otherwise (t :: rest) ⟨s, names⟩ =
      Meter.infer >>= fun _ =>
        pure ⟨.proved (.goals x.ruleEnv body (.leave x.goal x.env next)) (.rules { x with rules := rest } next otherwise),
          ⟨s', names⟩⟩ := by
  rw [tryRules, hrule]
  simp only [h]

theorem tryRules_of_not_head {head : Term} {body : List Term} (hrule : t.asRule = some (head, body))
    (h : (s.unify head x.ruleEnv x.goal x.env).1 = false) :
    tryRules src x next otherwise (t :: rest) ⟨s, names⟩ =
      Meter.infer >>= fun _ => tryRules src x next otherwise rest ⟨s, names⟩ := by
  have hpair : s.unify head x.ruleEnv x.goal x.env = (false, s) := by
    refine Prod.ext h ?_
    exact Store.unify_eq_of_fails (Prod.ext h rfl)
  rw [tryRules, hrule]
  simp only [hpair]

/-- A sentence that is no rule answers the goal itself. -/
theorem tryRules_of_sentence (hrule : t.asRule = none) (h : s.unify x.goal x.env t x.ruleEnv = (true, s')) :
    tryRules src x next otherwise (t :: rest) ⟨s, names⟩ =
      Meter.infer >>= fun _ => reportGoal src.config "Exit" s' x.goal x.env >>= fun _ =>
        pure ⟨.proved next (.reenter x.goal x.env (.rules { x with rules := rest } next otherwise)), ⟨s', names⟩⟩ := by
  rw [tryRules, hrule]
  simp only [h]

theorem tryRules_of_not_sentence (hrule : t.asRule = none) (h : (s.unify x.goal x.env t x.ruleEnv).1 = false) :
    tryRules src x next otherwise (t :: rest) ⟨s, names⟩ =
      Meter.infer >>= fun _ => tryRules src x next otherwise rest ⟨s, names⟩ := by
  have hpair : s.unify x.goal x.env t x.ruleEnv = (false, s) := by
    refine Prod.ext h ?_
    exact Store.unify_eq_of_fails (Prod.ext h rfl)
  rw [tryRules, hrule]
  simp only [hpair]

end Machine

end Deduction
