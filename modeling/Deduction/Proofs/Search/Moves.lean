import Deduction.Proofs.Search.Counting

/-!
# Moves of the machine

Goals that neither compute a value nor read a list or a dataset are plain. A step of the machine that comes to a plain
goal has one outcome whatever was counted (`Machine.step_eq_move`): candidates and rules are passed over up to the
first one that fits.
-/

namespace Deduction

/-! ### The first candidate that fits -/

/-- The first term for which the attempt succeeds, with the terms after it and the store that the attempt leaves. -/
def firstFit (attempt : Term → Bool × Store) : List Term → Option (Term × List Term × Store)
  | [] => none
  | t :: rest =>
    match attempt t with
    | (true, s) => some (t, rest, s)
    | (false, _) => firstFit attempt rest

theorem firstFit_of_fits {attempt : Term → Bool × Store} {t : Term} {rest : List Term} {s : Store}
    (h : attempt t = (true, s)) : firstFit attempt (t :: rest) = some (t, rest, s) := by
  rw [firstFit, h]

theorem firstFit_of_not_fits {attempt : Term → Bool × Store} {t : Term} {rest : List Term}
    (h : (attempt t).1 = false) : firstFit attempt (t :: rest) = firstFit attempt rest := by
  rw [firstFit]
  split
  · rename_i hs
    rw [hs] at h
    cases h
  · rfl

theorem firstFit_congr {attempt attempt' : Term → Bool × Store} {ts : List Term}
    (h : ∀ t ∈ ts, attempt t = attempt' t) : firstFit attempt ts = firstFit attempt' ts := by
  induction ts with
  | nil => rfl
  | cons t ts ih =>
    rw [firstFit, firstFit, h t List.mem_cons_self, ih fun u hu => h u (List.mem_cons_of_mem _ hu)]

/-- The first term that fits comes after terms that do not. -/
theorem firstFit_eq_some {attempt : Term → Bool × Store} {ts rest : List Term} {t : Term} {s : Store}
    (h : firstFit attempt ts = some (t, rest, s)) :
    ∃ passed, ts = passed ++ t :: rest ∧ (∀ u ∈ passed, (attempt u).1 = false) ∧ attempt t = (true, s) := by
  induction ts with
  | nil => cases h
  | cons u ts ih =>
    unfold firstFit at h
    split at h
    · rename_i s' hs'
      cases h
      exact ⟨[], rfl, by simp, hs'⟩
    · rename_i s' hs'
      obtain ⟨passed, rfl, hpassed, ht⟩ := ih h
      refine ⟨u :: passed, rfl, fun v hv => ?_, ht⟩
      rcases List.mem_cons.1 hv with rfl | hv
      · rw [hs']
      · exact hpassed v hv

theorem firstFit_eq_none {attempt : Term → Bool × Store} {ts : List Term} (h : firstFit attempt ts = none) :
    ∀ u ∈ ts, (attempt u).1 = false := by
  induction ts with
  | nil => exact fun _ hu => by cases hu
  | cons u ts ih =>
    unfold firstFit at h
    split at h
    · cases h
    · rename_i s' hs'
      intro v hv
      rcases List.mem_cons.1 hv with rfl | hv
      · rw [hs']
      · exact ih h v hv

/-- Tries to make the target equal to a candidate. -/
def Cursor.attempt (c : Cursor) (s : Store) (t : Term) : Bool × Store :=
  s.unify c.target c.env t c.candidateEnv

/-- Tries to make the goal equal to the head of a rule, or to a sentence that is no rule. -/
def Expansion.attempt (x : Expansion) (s : Store) (t : Term) : Bool × Store :=
  match t.asRule with
  | some (head, _) => s.unify head x.ruleEnv x.goal x.env
  | none => s.unify x.goal x.env t x.ruleEnv

/-- What is left to prove when a sentence fits: the body of a rule, and what follows. -/
def Expansion.agenda (x : Expansion) (t : Term) (next : Agenda) : Agenda :=
  match t.asRule with
  | some (_, body) => .goals x.ruleEnv body (.leave x.goal x.env next)
  | none => next

/-- What is left to try when a sentence was taken. -/
def Expansion.others (x : Expansion) (t : Term) (rest : List Term) (next : Agenda) (otherwise : Alternatives) :
    Alternatives :=
  match t.asRule with
  | some _ => .rules { x with rules := rest } next otherwise
  | none => .reenter x.goal x.env (.rules { x with rules := rest } next otherwise)

/-- The goals whose step depends on the store and the sources alone. -/
def Goal.isPlain : Goal → Bool
  | mutex _ | member _ _ | dataset _ _ | computed _ _ => false
  | _ => true

namespace Expansion

variable {x : Expansion} {t head : Term} {body rest : List Term} {next : Agenda} {otherwise : Alternatives}

theorem attempt_of_rule (h : t.asRule = some (head, body)) (s : Store) :
    x.attempt s t = s.unify head x.ruleEnv x.goal x.env := by rw [attempt, h]

theorem attempt_of_sentence (h : t.asRule = none) (s : Store) :
    x.attempt s t = s.unify x.goal x.env t x.ruleEnv := by rw [attempt, h]

theorem agenda_of_rule (h : t.asRule = some (head, body)) :
    x.agenda t next = .goals x.ruleEnv body (.leave x.goal x.env next) := by rw [agenda, h]

theorem agenda_of_sentence (h : t.asRule = none) : x.agenda t next = next := by rw [agenda, h]

theorem others_of_rule (h : t.asRule = some (head, body)) :
    x.others t rest next otherwise = .rules { x with rules := rest } next otherwise := by rw [others, h]

theorem others_of_sentence (h : t.asRule = none) :
    x.others t rest next otherwise = .reenter x.goal x.env (.rules { x with rules := rest } next otherwise) := by
  rw [others, h]

end Expansion

namespace Machine

variable {src : Sources} {ask : Answerer} {m m' : Machine} {meter meter' : Meter} {w : Workspace} {next : Agenda}
  {otherwise : Alternatives} {ts : List Term}

/-- Goes on with the first candidate that fits. -/
def moveCandidates (c : Cursor) (next : Agenda) (otherwise : Alternatives) (ts : List Term) (w : Workspace) :
    Machine :=
  match firstFit (c.attempt w.store) ts with
  | some (_, rest, s) => ⟨.proved next (c.others rest next otherwise), ⟨s, w.names⟩⟩
  | none => ⟨.failed otherwise, w⟩

/-- Goes on with the first rule that fits. -/
def moveRules (x : Expansion) (next : Agenda) (otherwise : Alternatives) (ts : List Term) (w : Workspace) :
    Machine :=
  match firstFit (x.attempt w.store) ts with
  | some (t, rest, s) => ⟨.proved (x.agenda t next) (x.others t rest next otherwise), ⟨s, w.names⟩⟩
  | none => ⟨.failed otherwise, w⟩

theorem run_tryCandidates {c : Cursor}
    (h : (tryCandidates src c next otherwise ts w).run meter = .ok (m', meter')) :
    m' = moveCandidates c next otherwise ts w := by
  obtain ⟨s, names⟩ := w
  unfold moveCandidates
  induction ts generalizing meter with
  | nil =>
    rw [tryCandidates_nil] at h
    obtain ⟨_, _, _, h⟩ := Metered.run_bind_eq_ok.1 h
    exact (Metered.run_pure_eq_ok.1 h).1.symm
  | cons t ts ih =>
    cases hr : (c.attempt s t).1 with
    | true =>
      have hfits : c.attempt s t = (true, (c.attempt s t).2) := Prod.ext hr rfl
      rw [tryCandidates_of_unify hfits] at h
      obtain ⟨_, _, _, h⟩ := Metered.run_bind_eq_ok.1 h
      obtain ⟨_, _, _, h⟩ := Metered.run_bind_eq_ok.1 h
      rw [firstFit_of_fits hfits]
      exact (Metered.run_pure_eq_ok.1 h).1.symm
    | false =>
      rw [tryCandidates_of_not_unify hr] at h
      obtain ⟨_, _, _, h⟩ := Metered.run_bind_eq_ok.1 h
      rw [firstFit_of_not_fits hr]
      exact ih h

theorem run_tryRules {x : Expansion} (h : (tryRules src x next otherwise ts w).run meter = .ok (m', meter')) :
    m' = moveRules x next otherwise ts w := by
  obtain ⟨s, names⟩ := w
  unfold moveRules
  induction ts generalizing meter with
  | nil =>
    rw [tryRules_nil] at h
    obtain ⟨_, _, _, h⟩ := Metered.run_bind_eq_ok.1 h
    exact (Metered.run_pure_eq_ok.1 h).1.symm
  | cons t ts ih =>
    cases hrule : t.asRule with
    | some rule =>
      obtain ⟨head, body⟩ := rule
      have hattempt := x.attempt_of_rule hrule s
      cases hr : (x.attempt s t).1 with
      | true =>
        have hfits : x.attempt s t = (true, (x.attempt s t).2) := Prod.ext hr rfl
        rw [tryRules_of_head hrule (hattempt ▸ hfits)] at h
        obtain ⟨_, _, _, h⟩ := Metered.run_bind_eq_ok.1 h
        simp only [firstFit_of_fits hfits, Expansion.agenda_of_rule hrule, Expansion.others_of_rule hrule, hattempt]
        exact (Metered.run_pure_eq_ok.1 h).1.symm
      | false =>
        rw [tryRules_of_not_head hrule (hattempt ▸ hr)] at h
        obtain ⟨_, _, _, h⟩ := Metered.run_bind_eq_ok.1 h
        rw [firstFit_of_not_fits hr]
        exact ih h
    | none =>
      have hattempt := x.attempt_of_sentence hrule s
      cases hr : (x.attempt s t).1 with
      | true =>
        have hfits : x.attempt s t = (true, (x.attempt s t).2) := Prod.ext hr rfl
        rw [tryRules_of_sentence hrule (hattempt ▸ hfits)] at h
        obtain ⟨_, _, _, h⟩ := Metered.run_bind_eq_ok.1 h
        obtain ⟨_, _, _, h⟩ := Metered.run_bind_eq_ok.1 h
        simp only [firstFit_of_fits hfits, Expansion.agenda_of_sentence hrule, Expansion.others_of_sentence hrule,
          hattempt]
        exact (Metered.run_pure_eq_ok.1 h).1.symm
      | false =>
        rw [tryRules_of_not_sentence hrule (hattempt ▸ hr)] at h
        obtain ⟨_, _, _, h⟩ := Metered.run_bind_eq_ok.1 h
        rw [firstFit_of_not_fits hr]
        exact ih h

/-! ### Plain goals -/

/-- The facts that are tried for a goal, in a fresh environment. -/
def factCursor (src : Sources) (goal : Term) (env : EnvId) (s : Store) : Cursor :=
  ⟨.facts, goal, env, src.factsFor s goal env, s.newEnv.1, s.checkpoint⟩

/-- The rules that are tried for a goal, in a fresh environment. -/
def ruleExpansion (src : Sources) (goal : Term) (env : EnvId) (s : Store) : Expansion :=
  ⟨goal, env, src.rules.lookupIn s goal env, s.newEnv.1, s.checkpoint⟩

/-- Comes to a plain goal whose variables are resolved. -/
def moveGoal (src : Sources) (goal : Term) (env : EnvId) (next : Agenda) (otherwise : Alternatives) (w : Workspace) :
    Machine :=
  match Goal.ofTerm src.rules goal with
  | .holds => ⟨.proved next (.undo w.store.checkpoint otherwise), w⟩
  | .same x y =>
    match w.store.unify x env y env with
    | (true, s) => ⟨.proved next (.undo w.store.checkpoint otherwise), ⟨s, w.names⟩⟩
    | (false, _) => ⟨.failed otherwise, w⟩
  | .distinct x y =>
    match w.store.unify x env y env with
    | (true, _) => ⟨.failed otherwise, w⟩
    | (false, _) => ⟨.proved next otherwise, w⟩
  | .negation goal => ⟨.prove goal env (.refuted w.store.checkpoint otherwise) (.absent next otherwise), w⟩
  | .conjunction goals => ⟨.proved (.goals env goals next) otherwise, w⟩
  | .disjunction goals => ⟨.failed (.disjuncts env goals next otherwise), w⟩
  | .view =>
    moveRules (ruleExpansion src goal env w.store) next otherwise (src.rules.lookupIn w.store goal env)
      ⟨w.store.newEnv.2, w.names⟩
  | .base =>
    moveCandidates (factCursor src goal env w.store) next otherwise (src.factsFor w.store goal env)
      ⟨w.store.newEnv.2, w.names⟩
  | _ => ⟨.failed otherwise, w⟩

/-- Goes on with the agenda. -/
def moveOn : Agenda → Alternatives → Workspace → Machine
  | .done, otherwise, w => ⟨.proved .done otherwise, w⟩
  | .goals _ [] next, otherwise, w => ⟨.proved next otherwise, w⟩
  | .goals env (goal :: rest) next, otherwise, w => ⟨.prove goal env (.goals env rest next) otherwise, w⟩
  | .leave goal env next, otherwise, w => ⟨.proved next (.reenter goal env otherwise), w⟩
  | .refuted checkpoint otherwise, _, w => ⟨.failed otherwise, ⟨w.store.rollback checkpoint, w.names⟩⟩

/-- Goes back to what is left to try. -/
def moveBack : Alternatives → Workspace → Machine
  | .none, w => ⟨.failed .none, w⟩
  | .undo checkpoint otherwise, w => ⟨.failed otherwise, ⟨w.store.rollback checkpoint, w.names⟩⟩
  | .reenter _ _ otherwise, w => ⟨.failed otherwise, w⟩
  | .absent next otherwise, w => ⟨.proved next otherwise, w⟩
  | .disjuncts _ [] _ otherwise, w => ⟨.failed otherwise, w⟩
  | .disjuncts env (goal :: rest) next otherwise, w => ⟨.prove goal env next (.disjuncts env rest next otherwise), w⟩
  | .candidates c next otherwise, w =>
    moveCandidates c next otherwise c.candidates ⟨w.store.rollback c.checkpoint, w.names⟩
  | .rules x next otherwise, w => moveRules x next otherwise x.rules ⟨w.store.rollback x.checkpoint, w.names⟩

/-- One move of the machine. -/
def move (src : Sources) : Machine → Machine
  | ⟨.prove goal env next otherwise, w⟩ =>
    moveGoal src (w.store.resolve goal env).term (w.store.resolve goal env).env next otherwise w
  | ⟨.proved next otherwise, w⟩ => moveOn next otherwise w
  | ⟨.failed otherwise, w⟩ => moveBack otherwise w

theorem move_view {goal : Term} {env : EnvId} (hresolve : w.store.resolve goal env = ⟨goal, env⟩)
    (h : Goal.ofTerm src.rules goal = .view) :
    move src ⟨.prove goal env next otherwise, w⟩ =
      moveRules (ruleExpansion src goal env w.store) next otherwise (src.rules.lookupIn w.store goal env)
        ⟨w.store.newEnv.2, w.names⟩ := by
  simp only [move, moveGoal, hresolve, h]

theorem move_base {goal : Term} {env : EnvId} (hresolve : w.store.resolve goal env = ⟨goal, env⟩)
    (h : Goal.ofTerm src.rules goal = .base) :
    move src ⟨.prove goal env next otherwise, w⟩ =
      moveCandidates (factCursor src goal env w.store) next otherwise (src.factsFor w.store goal env)
        ⟨w.store.newEnv.2, w.names⟩ := by
  simp only [move, moveGoal, hresolve, h]

/-- The machine does not come to a goal that computes a value or reads a list or a dataset. -/
def IsPlain (src : Sources) (m : Machine) : Prop :=
  match m.control with
  | .prove goal env _ _ => (Goal.ofTerm src.rules (m.work.store.resolve goal env).term).isPlain = true
  | _ => True

theorem run_proveResolved {goal : Term} {env : EnvId} (hgoal : (Goal.ofTerm src.rules goal).isPlain = true)
    (h : (proveResolved src ask goal env next otherwise w).run meter = .ok (m', meter')) :
    m' = moveGoal src goal env next otherwise w := by
  unfold proveResolved at h
  unfold moveGoal
  cases hg : Goal.ofTerm src.rules goal with
  | fails | holds | negation | conjunction | disjunction =>
    simp only [hg] at h
    exact (Metered.run_pure_eq_ok.1 h).1.symm
  | same x y =>
    simp only [hg] at h
    cases hr : w.store.unify x env y env with
    | mk ok s =>
      cases ok with
      | true =>
        simp only [hr] at h ⊢
        exact (Metered.run_pure_eq_ok.1 h).1.symm
      | false =>
        obtain rfl := Store.unify_eq_of_fails hr
        simp only [hr] at h ⊢
        exact (Metered.run_pure_eq_ok.1 h).1.symm
  | distinct x y =>
    simp only [hg] at h
    cases hr : w.store.unify x env y env with
    | mk ok s =>
      cases ok with
      | true =>
        simp only [hr, (Store.unify_extends hr).rollback_eq] at h ⊢
        exact (Metered.run_pure_eq_ok.1 h).1.symm
      | false =>
        obtain rfl := Store.unify_eq_of_fails hr
        simp only [hr] at h ⊢
        exact (Metered.run_pure_eq_ok.1 h).1.symm
  | view =>
    simp only [hg, expand] at h
    obtain ⟨_, _, _, h⟩ := Metered.run_bind_eq_ok.1 h
    exact run_tryRules h
  | base =>
    simp only [hg, select, run_selectFacts, pure_bind] at h
    obtain ⟨_, _, _, h⟩ := Metered.run_bind_eq_ok.1 h
    have hback : w.store.newEnv.2.rollback w.store.checkpoint = w.store.newEnv.2 := by
      rw [Store.rollback_newEnv, Store.checkpoint, Store.rollback_size]
    rw [hback] at h
    exact run_tryCandidates h
  | mutex | member | dataset | computed =>
    rw [hg] at hgoal
    cases hgoal

theorem run_advance (h : (advance src next otherwise w).run meter = .ok (m', meter')) :
    m' = moveOn next otherwise w := by
  cases next with
  | done | refuted => exact (Metered.run_pure_eq_ok.1 h).1.symm
  | goals env rest next => cases rest <;> exact (Metered.run_pure_eq_ok.1 h).1.symm
  | leave goal env next =>
    obtain ⟨_, _, _, h⟩ := Metered.run_bind_eq_ok.1 h
    exact (Metered.run_pure_eq_ok.1 h).1.symm

theorem run_retreat (h : (retreat src otherwise w).run meter = .ok (m', meter')) : m' = moveBack otherwise w := by
  cases otherwise with
  | none | undo | absent => exact (Metered.run_pure_eq_ok.1 h).1.symm
  | reenter goal env otherwise =>
    obtain ⟨_, _, _, h⟩ := Metered.run_bind_eq_ok.1 h
    exact (Metered.run_pure_eq_ok.1 h).1.symm
  | disjuncts env goals next otherwise => cases goals <;> exact (Metered.run_pure_eq_ok.1 h).1.symm
  | candidates c next otherwise => exact run_tryCandidates h
  | rules x next otherwise => exact run_tryRules h

/-- A step that comes to no other than a plain goal is a move. -/
theorem step_eq_move (hm : m.IsPlain src) (h : (step src ask m).run meter = .ok (m', meter')) : m' = move src m := by
  obtain ⟨control, w⟩ := m
  cases control with
  | prove goal env next otherwise => exact run_proveResolved hm h
  | proved next otherwise => exact run_advance h
  | failed otherwise => exact run_retreat h

end Machine

end Deduction
