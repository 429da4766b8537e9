import Deduction.Proofs.Search.Limit
import Deduction.Proofs.Variants.Builtins
import Deduction.Proofs.Variants.Shallow

/-!
# Careful searches

A search is careful if nothing that it does is cut off, and if it does not lose track of the variables that its results
have. The terms that are made equal or plugged stay within the allowance. What a computed goal selects has no variables,
unless its inputs were plugged without giving a variable another name: names that are given are taken back before the
candidates are tried. Texts are made of ground terms only, what is mapped over a list is no variable, goals are not of the
form of rules, and the answers to questions that come up on the way are ground.

Careful searches are those that come to an end when they are interrupted as soon as one of this fails
(`Solutions.staysCareful`). Up to there they are like any search (`lasts_runCareful`).
-/

namespace Deduction

/-! ### What a step may do -/

/-- The terms with bindings applied, unless they are cut off or the numbers of the names that are given, and of one more
for every element of the lists among them, do not fit into 64 bits. -/
def Workspace.plugged (env : EnvId) (ts : List Term) (w : Workspace) : Option (List Term) :=
  match Store.threadMapWithin (Store.plugWithin env allowance env) ts (w.store, w.names) with
  | some (us, st) => if st.2.issued + (us.flatMap Term.cells).length < UInt64.size then some us else none
  | none => none

/-- May the goal, whose variables are resolved, be proved when its inputs are these? -/
def Goal.allows (goal : Term) (inputs : List Term) : Goal → Bool
  | .view | .base => goal.functor? ≠ some "rule"
  | .computed f args =>
    (!textWords.contains f || inputs.all Term.isGround) && (f ≠ "map" || !(args.head?.any Term.isVariable))
  | _ => true

/-- May the next step be made in a search for the instances of a template? -/
def Machine.isCareful (src : Sources) (template : Term) (m : Machine) : Bool :=
  m.triesWithin src &&
    match m.control with
    | .prove goal env _ _ =>
      let goal := m.work.store.resolve goal env
      let kind := Goal.ofTerm src.rules goal.term
      (m.work.plugged goal.env kind.inputs).any fun inputs => kind.allows goal.term inputs
    | .proved .done _ => (m.work.plugged Search.queryEnv [template]).isSome
    | _ => true

/-- Have the candidates of a computed goal no variables, or the same variables after going back? -/
def Selection.isSettled (goal : Term) (names names' : NameSupply) (x : Selection) : Bool :=
  x.candidates.all Term.isGround || (names = names' && !goal.functor?.any textWords.contains)

namespace Machine

variable (src : Sources) (ask : Answerer)

/-- The candidates that were selected, after going back to a checkpoint. -/
def offered (origin : Cursor.Origin) (env : EnvId) (checkpoint : Checkpoint) (x : Selection) : Cursor :=
  ⟨origin, x.target, env, x.candidates, x.env, checkpoint⟩

/-- Goes over what was selected, if anything was. -/
def offer (origin : Cursor.Origin) (env : EnvId) (checkpoint : Checkpoint) (next : Agenda) (otherwise : Alternatives) :
    Option Selection × Workspace → Metered Machine
  | (none, w) => return ⟨.failed otherwise, w⟩
  | (some x, w) =>
    tryCandidates src (offered origin env checkpoint x) next otherwise x.candidates
      ⟨w.store.rollback checkpoint, w.names⟩

theorem select_eq_offer (origin : Cursor.Origin) (env : EnvId) (selecting : Selecting Selection) (next : Agenda)
    (otherwise : Alternatives) (w : Workspace) :
    select src origin env selecting next otherwise w =
      selecting.run.run w >>= offer src origin env w.store.checkpoint next otherwise := by
  unfold select
  apply bind_congr
  rintro ⟨x, w'⟩
  cases x <;> rfl

/-- May what was selected for a goal be tried? -/
def mayOffer (goal : Term) (origin : Cursor.Origin) (env : EnvId) (w : Workspace) : Option Selection × Workspace → Bool
  | (none, _) => true
  | (some x, w') =>
    triedWithin ((offered origin env w.store.checkpoint x).attemptWithin (w'.store.rollback w.store.checkpoint))
        x.candidates &&
      match origin with
      | .facts => true
      | .dataset => (w'.store.resolve x.target env).term.functor? ≠ some "rule"
      | .computed => x.isSettled goal w.names w'.names

/-- Goes over what a goal selects, if that may be tried. -/
def selectCareful (goal : Term) (origin : Cursor.Origin) (env : EnvId) (selecting : Selecting Selection) (next : Agenda)
    (otherwise : Alternatives) (w : Workspace) : Metered Machine := do
  let r ← selecting.run.run w
  if mayOffer goal origin env w r then offer src origin env w.store.checkpoint next otherwise r else throw .stepBound

/-- Comes to a goal whose variables are resolved. -/
def proveCareful (goal : Term) (env : EnvId) (next : Agenda) (otherwise : Alternatives) (w : Workspace) :
    Metered Machine :=
  match Goal.ofTerm src.rules goal with
  | .member item list => selectCareful src goal .computed env (selectMembers item list env) next otherwise w
  | .dataset about name => selectCareful src goal .dataset env (selectDataset src about name env) next otherwise w
  | .computed f args => selectCareful src goal .computed env (selectComputed src ask f args env) next otherwise w
  | _ => proveResolved src ask goal env next otherwise w

/-- One step of the machine. -/
def stepCareful : Machine → Metered Machine
  | ⟨.prove goal env next otherwise, w⟩ =>
    let goal := w.store.resolve goal env
    proveCareful src ask goal.term goal.env next otherwise w
  | m => step src ask m

end Machine

/-! ### Searches that are interrupted -/

namespace Search

variable (src : Sources) (ask : Answerer)

/-- Runs the machine to the next answer, or to the end, as long as it is careful. -/
def runCareful (template : Term) : Nat → Machine → Metered Outcome
  | 0, _ => throw .stepBound
  | n + 1, m => do
    if ← Meter.isSpent src.config then return .limitReached m.work
    else if m.isCareful src template then
      match m with
      | ⟨.proved .done otherwise, w⟩ => return .answer otherwise w
      | ⟨.failed .none, w⟩ => return .exhausted w
      | m =>
        let m ← m.stepCareful src ask
        runCareful template n m
    else throw .stepBound

/-- The next answer, if there is one. -/
def nextCareful (s : Search) : Metered (Option Term × Search) :=
  if s.status = .running then s.conclude <$> runCareful src ask s.template stepBound s.machine else return (none, s)

/-- Goes on to at most so many further answers. -/
def pullCareful : Nat → Search → List Term → Metered (List Term × Search)
  | 0, s, found => return (found, s)
  | n + 1, s, found => do
    let (answer, s) ← s.nextCareful src ask
    answer.elim (return (found, s)) fun t => pullCareful n s (t :: found)

/-- The answers that are still to come, at most so many. -/
def takeCareful (n : Nat) (s : Search) : Metered (List Term) := do
  return (← s.pullCareful src ask n []).1.reverse

end Search

/-- Gives the answers if they are ground. -/
def ifGround (answers : List Term) : Metered (List Term) :=
  if answers.all Term.isGround then return answers else throw .stepBound

/-- Answers a question from the sources, to a depth of questions within questions, as long as the searches are careful and
the answers are ground. -/
def consultCareful (src : Sources) : Nat → Answerer
  | 0 => fun _ => throw .stepBound
  | n + 1 => fun
    | .all template goal => do
      ifGround (← (Search.start src.config template goal).takeCareful src (consultCareful src n) stepBound)
    | .first template goal => do
      ifGround (← (Search.start src.config template goal).nextCareful src (consultCareful src n)).1.toList
    | .value expr => do ifGround (← (valueOf src (consultCareful src n) expr).run).toList

namespace Solutions

/-- The next answer, if there is one and the search is careful up to there. -/
def nextCareful (s : Solutions) : Except Interruption (Option Term × Solutions) := do
  let ((answer, search), meter) ← (s.search.nextCareful s.sources (consultCareful s.sources stepBound)).run s.meter
  return (answer, { s with search, meter })

/-- The next answers, as long as the search is careful. -/
def answersCareful : Nat → Solutions → Except Interruption (List (Option Term) × Solutions)
  | 0, s => return ([], s)
  | n + 1, s => do
    let (answer, s) ← s.nextCareful
    let (rest, s) ← answersCareful n s
    return (answer :: rest, s)

/-- Is the search careful up to the given number of answers, and does it come to these before the limit? -/
def staysCareful (n : Nat) (s : Solutions) : Bool :=
  (answersCareful n s).toOption.any fun r => r.2.meter.spent < s.sources.config.limit

end Solutions

/-! ### Careful searches count up -/

section

variable {src : Sources} {ask ask' : Answerer} {limit : Nat}

namespace Machine

theorem counts_offer (origin : Cursor.Origin) (env : EnvId) (checkpoint : Checkpoint) (next : Agenda)
    (otherwise : Alternatives) (r : Option Selection × Workspace) :
    Counts (offer src origin env checkpoint next otherwise r) := by
  obtain ⟨x, w⟩ := r
  cases x with
  | none => exact counts_pure _
  | some x => exact counts_tryCandidates _ _ _ _ _

theorem counts_selectCareful {selecting : Selecting Selection} (h : CountsIn selecting) (goal : Term)
    (origin : Cursor.Origin) (env : EnvId) (next : Agenda) (otherwise : Alternatives) (w : Workspace) :
    Counts (selectCareful src goal origin env selecting next otherwise w) :=
  Counts.bind (h w) fun r => counts_ite (counts_offer _ _ _ _ _ r) (counts_throw _)

theorem counts_proveCareful (hask : ask.Counting) (goal : Term) (env : EnvId) (next : Agenda) (otherwise : Alternatives)
    (w : Workspace) : Counts (proveCareful src ask goal env next otherwise w) := by
  unfold proveCareful
  split
  · exact counts_selectCareful (.of_quiet (quiet_selectMembers _ _ _)) _ _ _ _ _ _
  · exact counts_selectCareful (.of_quiet (quiet_selectDataset _ _ _)) _ _ _ _ _ _
  · exact counts_selectCareful (countsIn_selectComputed hask _ _ _) _ _ _ _ _ _
  · exact counts_proveResolved hask _ _ _ _ _

theorem counts_stepCareful (hask : ask.Counting) (m : Machine) : Counts (stepCareful src ask m) := by
  unfold stepCareful
  split
  · exact counts_proveCareful hask _ _ _ _ _
  · exact counts_step hask _

end Machine

namespace Search

theorem counts_runCareful (hask : ask.Counting) (template : Term) (n : Nat) (m : Machine) :
    Counts (runCareful src ask template n m) := by
  induction n generalizing m with
  | zero => exact counts_throw _
  | succ n ih =>
    unfold runCareful
    refine (counts_isSpent src.config).bind fun spent => counts_ite (counts_pure _) (counts_ite ?_ (counts_throw _))
    split
    · exact counts_pure _
    · exact counts_pure _
    · exact (Machine.counts_stepCareful hask m).bind ih

theorem counts_nextCareful (hask : ask.Counting) (s : Search) : Counts (s.nextCareful src ask) :=
  counts_ite ((counts_runCareful hask _ _ _).map _) (counts_pure _)

theorem counts_pullCareful (hask : ask.Counting) (n : Nat) (s : Search) (found : List Term) :
    Counts (s.pullCareful src ask n found) := by
  induction n generalizing s found with
  | zero => exact counts_pure _
  | succ n ih =>
    refine (counts_nextCareful hask s).bind fun r => ?_
    obtain ⟨answer, s⟩ := r
    cases answer with
    | none => exact counts_pure _
    | some t => exact ih s (t :: found)

end Search

theorem counts_ifGround (answers : List Term) : Counts (ifGround answers) := counts_ite (counts_pure _) (counts_throw _)

theorem counting_consultCareful (src : Sources) (n : Nat) : (consultCareful src n).Counting := by
  induction n with
  | zero => exact fun _ => counts_throw _
  | succ n ih =>
    intro q
    cases q with
    | all template goal =>
      exact Counts.bind ((Search.counts_pullCareful ih _ _ _).bind fun _ => counts_pure _) fun _ => counts_ifGround _
    | first template goal => exact (Search.counts_nextCareful ih _).bind fun _ => counts_ifGround _
    | value expr => exact Counts.bind (countsOption_valueOf ih expr) fun _ => counts_ifGround _

/-! ### Careful searches are searches -/

/-- What is not interrupted does the same as without the interruption. -/
theorem Lasts.unlessInterrupted {α : Type} {x y : Metered α} {c : Bool} (h : Lasts limit x y) :
    Lasts limit (if c = true then x else throw .stepBound) y := by
  split
  · exact h
  · intro m a m' hx
    cases hx

namespace Machine

theorem lasts_selectCareful {x y : Selecting Selection} (h : LastsIn limit x y) (goal : Term) (origin : Cursor.Origin)
    (env : EnvId) (next : Agenda) (otherwise : Alternatives) (w : Workspace) :
    Lasts limit (selectCareful src goal origin env x next otherwise w) (select src origin env y next otherwise w) := by
  rw [select_eq_offer]
  exact Lasts.bind (h w) (fun r => counts_ite (counts_offer _ _ _ _ _ r) (counts_throw _)) fun r =>
    (Lasts.refl _).unlessInterrupted

theorem lasts_proveCareful (hask : ask.Lasts limit ask') (goal : Term) (env : EnvId) (next : Agenda)
    (otherwise : Alternatives) (w : Workspace) :
    Lasts limit (proveCareful src ask goal env next otherwise w) (proveResolved src ask' goal env next otherwise w) := by
  have hplain : Lasts limit (proveResolved src ask goal env next otherwise w) _ :=
    lasts_proveResolved hask goal env next otherwise w
  unfold proveCareful
  split
  · rename_i hgoal
    unfold proveResolved
    rw [hgoal]
    exact lasts_selectCareful (.refl _) _ _ _ _ _ _
  · rename_i hgoal
    unfold proveResolved
    rw [hgoal]
    exact lasts_selectCareful (.refl _) _ _ _ _ _ _
  · rename_i hgoal
    unfold proveResolved
    rw [hgoal]
    exact lasts_selectCareful (lastsIn_selectComputed hask _ _ _) _ _ _ _ _ _
  · exact hplain

theorem lasts_stepCareful (hask : ask.Lasts limit ask') (m : Machine) :
    Lasts limit (stepCareful src ask m) (step src ask' m) := by
  unfold stepCareful
  split
  · exact lasts_proveCareful hask _ _ _ _ _
  · exact lasts_step hask _

end Machine

namespace Search

variable (hask : ask.Lasts src.config.limit ask')

include hask

/-- As long as a run is careful it is like any run. -/
theorem lasts_runCareful (template : Term) (n : Nat) (m : Machine) :
    Lasts src.config.limit (runCareful src ask template n m) (run src ask' n m) := by
  induction n generalizing m with
  | zero => exact .refl _
  | succ n ih =>
    unfold runCareful run
    refine Lasts.unlessSpent (Nat.le_refl _) (counts_pure _) (Lasts.unlessInterrupted ?_)
    have hcareful : Lasts src.config.limit (m.stepCareful src ask) _ := Machine.lasts_stepCareful hask m
    have hstep := hcareful.bind (counts_runCareful hask.counting template n) ih
    rcases m with ⟨control, w⟩
    cases control with
    | prove goal env next otherwise => exact hstep
    | proved next otherwise =>
      cases next with
      | done => exact .refl _
      | _ => exact hstep
    | failed otherwise =>
      cases otherwise with
      | none => exact .refl _
      | _ => exact hstep

theorem lasts_nextCareful (s : Search) : Lasts src.config.limit (s.nextCareful src ask) (s.next src ask') := by
  rw [← nextWithin_stepBound]
  unfold nextCareful nextWithin
  split
  · rw [map_eq_pure_bind, map_eq_pure_bind]
    exact (lasts_runCareful hask _ _ _).bind_left fun _ => counts_pure _
  · exact .refl _

theorem lasts_pullCareful (n : Nat) (s : Search) (found : List Term) :
    Lasts src.config.limit (s.pullCareful src ask n found) (s.pull src ask' n found) := by
  induction n generalizing s found with
  | zero => exact .refl _
  | succ n ih =>
    unfold pullCareful pull
    refine (lasts_nextCareful hask s).bind (fun r => ?_) fun r => ?_
    · obtain ⟨answer, s⟩ := r
      cases answer with
      | none => exact counts_pure _
      | some t => exact counts_pullCareful hask.counting n s _
    · obtain ⟨answer, s⟩ := r
      cases answer with
      | none => exact .refl _
      | some t => exact ih s (t :: found)

end Search

/-- What is asked on the way is answered as in any search. -/
theorem lasts_consultCareful (src : Sources) (n : Nat) :
    (consultCareful src n).Lasts src.config.limit (consultAt src n) := by
  have hground {x : Metered (List Term)} {y : Metered (List Term)} (h : Lasts src.config.limit x y) :
      Lasts src.config.limit (x >>= ifGround) y := by
    have hbind := h.bind (f := ifGround) (g := pure) counts_ifGround fun answers => (Lasts.refl _).unlessInterrupted
    rwa [bind_pure] at hbind
  induction n with
  | zero => exact ⟨counting_consultCareful src 0, fun _ => .refl _⟩
  | succ n ih =>
    refine ⟨counting_consultCareful src (n + 1), fun q => ?_⟩
    cases q with
    | all template goal =>
      exact hground ((Search.lasts_pullCareful ih _ _ _).bind_left fun _ => counts_pure _)
    | first template goal =>
      have hnext := (Search.lasts_nextCareful ih (Search.start src.config template goal)).bind_left
        (f := fun r => pure r.1.toList) fun _ => counts_pure _
      have := hground hnext
      rwa [bind_assoc] at this
    | value expr =>
      have h : src.Raises (consultCareful src n) src.config.limit (consultAt src n) := ⟨Nat.le_refl _, ih⟩
      have hvalue := Lasts.bind_left (f := fun a => pure a.toList) (lastsOption_valueOf h expr) fun _ => counts_pure _
      have := hground hvalue
      rwa [bind_assoc] at this

end

end Deduction
