import Deduction.Proofs.Search.Moves
import Deduction.Proofs.Store.Allowance

/-!
# What a search comes to

The machines that a search comes to, together with what was counted by then: the one it starts from, those that steps
lead to as long as the limit is not reached, and those that go on after an answer. A run from a machine that a search
comes to ends in such a machine (`Search.Visits.run`).
-/

namespace Deduction

/-! ### Attempts within the allowance -/

/-- Do the attempts up to the first one that succeeds stay within the allowance? -/
def triedWithin (attempt : Term → Option (Option Store)) : List Term → Bool
  | [] => true
  | t :: rest =>
    match attempt t with
    | some (some _) => true
    | some none => triedWithin attempt rest
    | none => false

theorem triedWithin_congr {attempt attempt' : Term → Option (Option Store)} {ts : List Term}
    (h : ∀ t ∈ ts, attempt t = attempt' t) : triedWithin attempt ts = triedWithin attempt' ts := by
  induction ts with
  | nil => rfl
  | cons t ts ih =>
    rw [triedWithin, triedWithin, h t List.mem_cons_self, ih fun u hu => h u (List.mem_cons_of_mem _ hu)]

/-- Terms that are passed over within the allowance cannot be made to fit. -/
theorem passed_of_triedWithin {within : Term → Option (Option Store)} {attempt : Term → Bool × Store}
    (hends : ∀ t r, within t = some r → Store.Ends (attempt t) r) {passed rest : List Term}
    (h : triedWithin within (passed ++ rest) = true) (hpassed : ∀ t ∈ passed, (attempt t).1 = false) :
    ∀ t ∈ passed, within t = some none := by
  induction passed with
  | nil => exact fun _ ht => by cases ht
  | cons t passed ih =>
    have hfails := hpassed t List.mem_cons_self
    rw [List.cons_append] at h
    unfold triedWithin at h
    cases hr : within t with
    | none =>
      simp only [hr] at h
      cases h
    | some r =>
      have hend := hends t r hr
      cases r with
      | some s =>
        have hfits : attempt t = (true, s) := hend
        rw [hfits] at hfails
        cases hfails
      | none =>
        simp only [hr] at h
        intro u hu
        rcases List.mem_cons.1 hu with rfl | hu
        · exact hr
        · exact ih h (fun v hv => hpassed v (List.mem_cons_of_mem _ hv)) u hu

/-- The attempt at a candidate, within the allowance. -/
def Cursor.attemptWithin (c : Cursor) (s : Store) (t : Term) : Option (Option Store) :=
  Store.unifyWithin allowance c.target c.env t c.candidateEnv s

/-- The attempt at a rule, within the allowance. -/
def Expansion.attemptWithin (x : Expansion) (s : Store) (t : Term) : Option (Option Store) :=
  match t.asRule with
  | some (head, _) => Store.unifyWithin allowance head x.ruleEnv x.goal x.env s
  | none => Store.unifyWithin allowance x.goal x.env t x.ruleEnv s

theorem Expansion.ends_attempt {x : Expansion} {s : Store} (t : Term) (r : Option Store)
    (h : x.attemptWithin s t = some r) : Store.Ends (x.attempt s t) r := by
  have hends {a b : Term} {ea eb : EnvId} (h : Store.unifyWithin allowance a ea b eb s = some r) :
      Store.Ends (s.unify a ea b eb) r := by
    rw [Store.unify_of_within h]
    cases r <;> rfl
  unfold attemptWithin at h
  unfold attempt
  cases hrule : t.asRule with
  | some rule =>
    simp only [hrule] at h ⊢
    exact hends h
  | none =>
    simp only [hrule] at h ⊢
    exact hends h

/-- Do the attempts at the goal stay within the allowance? -/
def Goal.triedWithin (src : Sources) (goal : Term) (env : EnvId) (s : Store) : Bool :=
  match Goal.ofTerm src.rules goal with
  | .same x y | .distinct x y => (Store.unifyWithin allowance x env y env s).isSome
  | .view =>
    Deduction.triedWithin ((Machine.ruleExpansion src goal env s).attemptWithin s.newEnv.2)
      (src.rules.lookupIn s goal env)
  | .base =>
    Deduction.triedWithin ((Machine.factCursor src goal env s).attemptWithin s.newEnv.2) (src.factsFor s goal env)
  | _ => true

/-- Do the attempts of the next step stay within the allowance? -/
def Machine.triesWithin (src : Sources) (m : Machine) : Bool :=
  match m.control with
  | .prove goal env _ _ =>
    Goal.triedWithin src (m.work.store.resolve goal env).term (m.work.store.resolve goal env).env m.work.store
  | .failed (.candidates c _ _) => triedWithin (c.attemptWithin (m.work.store.rollback c.checkpoint)) c.candidates
  | .failed (.rules x _ _) => triedWithin (x.attemptWithin (m.work.store.rollback x.checkpoint)) x.rules
  | _ => true

/-! ### Machines that a search comes to -/

namespace Search

variable {src : Sources} {ask : Answerer} {x x' : Search} {m m' : Machine} {meter meter' start : Meter}

/-- The machine that goes on after the answer of the template was given. -/
def resume (template : Term) (otherwise : Alternatives) (w : Workspace) : Machine :=
  let (_, store, names) := w.store.plug template queryEnv queryEnv w.names
  ⟨.failed otherwise, ⟨store, names⟩⟩

/-- The search comes to the machine, with the meter as given, when it starts with a meter. -/
inductive Visits (src : Sources) (ask : Answerer) (x : Search) (start : Meter) : Machine → Meter → Prop
  | start : Visits src ask x start x.machine start
  | step {m m' : Machine} {meter meter' : Meter} (h : Visits src ask x start m meter)
      (hlimit : meter.spent < src.config.limit) (hstep : (m.step src ask).run meter = .ok (m', meter')) :
      Visits src ask x start m' meter'
  | resume {otherwise : Alternatives} {w : Workspace} {meter : Meter}
      (h : Visits src ask x start ⟨.proved .done otherwise, w⟩ meter) :
      Visits src ask x start (resume x.template otherwise w) meter

/-- The run ends in a machine as described, unless it reaches the limit. -/
def Outcome.EndsIn (P : Machine → Meter → Prop) (meter : Meter) : Outcome → Prop
  | .answer otherwise w => P ⟨.proved .done otherwise, w⟩ meter
  | .exhausted w => P ⟨.failed .none, w⟩ meter
  | .limitReached _ => True

/-- What is kept by steps holds where a run ends. -/
theorem run_keeps {P : Machine → Meter → Prop} {n : Nat} {outcome : Outcome}
    (hstep : ∀ m meter m' meter', P m meter → meter.spent < src.config.limit →
      (m.step src ask).run meter = .ok (m', meter') → P m' meter')
    (hm : P m meter) (h : (run src ask n m).run meter = .ok (outcome, meter')) : outcome.EndsIn P meter' := by
  induction n generalizing m meter with
  | zero => cases h
  | succ n ih =>
    unfold run at h
    obtain ⟨spent, meter₁, hspent, h⟩ := Metered.run_bind_eq_ok.1 h
    cases hspent
    split at h
    · obtain ⟨rfl, -⟩ := Metered.run_pure_eq_ok.1 h
      trivial
    · rename_i hle
      have hlt : meter.spent < src.config.limit := by
        rw [decide_eq_true_iff] at hle
        omega
      split at h
      · obtain ⟨rfl, rfl⟩ := Metered.run_pure_eq_ok.1 h
        exact hm
      · obtain ⟨rfl, rfl⟩ := Metered.run_pure_eq_ok.1 h
        exact hm
      · obtain ⟨m', meter₂, hm', h⟩ := Metered.run_bind_eq_ok.1 h
        exact ih (hstep _ _ _ _ hm hlt hm') h

section Pull

variable {P : Machine → Meter → Prop} {B : Term → Prop} {n : Nat} {found found' : List Term} {template : Term}
  (hstep : ∀ m meter m' meter', P m meter → meter.spent < src.config.limit →
    (m.step src ask).run meter = .ok (m', meter') → P m' meter')

/-- The answer of the template where the goal was proved. -/
def answer (template : Term) (w : Workspace) : Term := (w.store.plug template queryEnv queryEnv w.names).1

include hstep in
/-- What is kept by steps holds where the next answer is given, or else where the search has ended. -/
theorem next_keeps {given : Option Term} (hx : P x.machine meter) (hrunning : x.status = .running)
    (h : (x.next src ask).run meter = .ok ((given, x'), meter')) :
    (∃ otherwise w, P ⟨.proved .done otherwise, w⟩ meter' ∧ given = some (answer x.template w) ∧
      x' = { x with machine := resume x.template otherwise w }) ∨
    given = none ∧ (x'.status = .exhausted → ∃ w, P ⟨.failed .none, w⟩ meter') := by
  unfold next at h
  rw [if_neg (by simp [hrunning])] at h
  obtain ⟨outcome, meter₁, hrun, h⟩ := Metered.run_bind_eq_ok.1 h
  have hend := run_keeps hstep hx hrun
  cases outcome with
  | answer otherwise w =>
    obtain ⟨hpair, rfl⟩ := Metered.run_pure_eq_ok.1 h
    cases hpair
    exact Or.inl ⟨otherwise, w, hend, rfl, rfl⟩
  | exhausted w =>
    obtain ⟨hpair, rfl⟩ := Metered.run_pure_eq_ok.1 h
    cases hpair
    exact Or.inr ⟨rfl, fun _ => ⟨w, hend⟩⟩
  | limitReached w =>
    obtain ⟨hpair, rfl⟩ := Metered.run_pure_eq_ok.1 h
    cases hpair
    exact Or.inr ⟨rfl, fun hstatus => by cases hstatus⟩

theorem exists_append_of_pull (h : (pull src ask n x found).run meter = .ok ((found', x'), meter')) :
    ∃ new, found' = new ++ found := by
  induction n generalizing x found meter with
  | zero =>
    obtain ⟨hpair, -⟩ := Metered.run_pure_eq_ok.1 h
    cases hpair
    exact ⟨[], rfl⟩
  | succ n ih =>
    unfold pull at h
    obtain ⟨⟨given, x₁⟩, meter₁, -, h⟩ := Metered.run_bind_eq_ok.1 h
    cases given with
    | none =>
      obtain ⟨hpair, -⟩ := Metered.run_pure_eq_ok.1 h
      cases hpair
      exact ⟨[], rfl⟩
    | some t =>
      obtain ⟨new, rfl⟩ := ih h
      exact ⟨new ++ [t], by rw [List.append_assoc, List.singleton_append]⟩

include hstep in
/-- What is kept by steps, and when the search goes on after an answer as described, holds where each of the answers was
given, and where the search has tried everything. -/
theorem pull_keeps
    (hresume : ∀ otherwise w meter, P ⟨.proved .done otherwise, w⟩ meter → B (answer template w) →
      P (resume template otherwise w) meter)
    (hx : P x.machine meter) (hrunning : x.status = .running) (htemplate : x.template = template)
    (h : (pull src ask n x found).run meter = .ok ((found', x'), meter')) :
    ∃ new, found' = new ++ found ∧ ((∀ a ∈ new, B a) →
      (∀ a ∈ new, ∃ otherwise w meter, P ⟨.proved .done otherwise, w⟩ meter ∧ a = answer template w) ∧
      (x'.status = .exhausted → ∃ w meter, P ⟨.failed .none, w⟩ meter)) := by
  induction n generalizing x found meter with
  | zero =>
    obtain ⟨hpair, rfl⟩ := Metered.run_pure_eq_ok.1 h
    cases hpair
    refine ⟨[], rfl, fun _ => ⟨by simp, fun hstatus => ?_⟩⟩
    rw [hrunning] at hstatus
    cases hstatus
  | succ n ih =>
    unfold pull at h
    obtain ⟨⟨given, x₁⟩, meter₁, hnext, h⟩ := Metered.run_bind_eq_ok.1 h
    rcases next_keeps hstep hx hrunning hnext with ⟨otherwise, w, hw, rfl, rfl⟩ | ⟨rfl, hend⟩
    · have hanswer : answer x.template w = answer template w := by rw [htemplate]
      have hsplit (new : List Term) : new ++ answer x.template w :: found = (new ++ [answer template w]) ++ found := by
        rw [List.append_assoc, List.singleton_append, hanswer]
      by_cases hB : B (answer template w)
      · have hw' : P (resume x.template otherwise w) meter₁ := htemplate ▸ hresume otherwise w meter₁ hw hB
        obtain ⟨new, rfl, hnew⟩ :=
          ih (x := { x with machine := resume x.template otherwise w }) hw' hrunning htemplate h
        refine ⟨new ++ [answer template w], hsplit new, fun hall => ?_⟩
        obtain ⟨hanswers, hexhausted⟩ := hnew fun a ha => hall a (List.mem_append_left _ ha)
        refine ⟨fun a ha => ?_, hexhausted⟩
        rcases List.mem_append.1 ha with ha | ha
        · exact hanswers a ha
        · exact ⟨otherwise, w, meter₁, hw, List.mem_singleton.1 ha⟩
      · obtain ⟨new, rfl⟩ := exists_append_of_pull h
        refine ⟨new ++ [answer template w], hsplit new, fun hall => ?_⟩
        exact absurd (hall _ (List.mem_append_right _ List.mem_cons_self)) hB
    · obtain ⟨hpair, rfl⟩ := Metered.run_pure_eq_ok.1 h
      cases hpair
      exact ⟨[], rfl, fun _ => ⟨by simp, fun hstatus => (hend hstatus).imp fun w hw => ⟨_, hw⟩⟩⟩

end Pull

/-- No attempt to unify comes to the end of the allowance. -/
def UnifiesWithin (src : Sources) (ask : Answerer) (x : Search) (start : Meter) : Prop :=
  ∀ m meter, x.Visits src ask start m meter → m.triesWithin src = true

/-- Does an answer stay within the allowance, and the numbers of the variables that are invented for it within 64
bits? -/
def plugsWithin (template : Term) (w : Workspace) : Bool :=
  match Store.plugWithin queryEnv allowance queryEnv template (w.store, w.names) with
  | some (_, (_, names)) => names.issued < UInt64.size
  | none => false

/-- No answer is cut off by the end of the allowance. -/
def PlugsWithin (src : Sources) (ask : Answerer) (x : Search) (start : Meter) : Prop :=
  ∀ otherwise w meter, x.Visits src ask start ⟨.proved .done otherwise, w⟩ meter → plugsWithin x.template w = true

theorem exists_of_plugsWithin {template : Term} {w : Workspace} (h : plugsWithin template w = true) :
    ∃ t s names, Store.plugWithin queryEnv allowance queryEnv template (w.store, w.names) = some (t, (s, names)) ∧
      names.issued < UInt64.size := by
  unfold plugsWithin at h
  cases hr : Store.plugWithin queryEnv allowance queryEnv template (w.store, w.names) with
  | none =>
    simp only [hr] at h
    cases h
  | some r =>
    simp only [hr] at h
    exact ⟨r.1, r.2.1, r.2.2, rfl, of_decide_eq_true h⟩

/-! ### One machine after the other -/

/-- The next machine that a search comes to. -/
def onward (src : Sources) (template : Term) (m : Machine) : Machine :=
  match m.control with
  | .proved .done otherwise => resume template otherwise m.work
  | _ => m.move src

/-- The machine that a search comes to after so many steps and answers. -/
def machineAt (src : Sources) (x : Search) : Nat → Machine
  | 0 => x.machine
  | n + 1 => onward src x.template (machineAt src x n)

/-- Has everything been tried? -/
def hasEnded (m : Machine) : Bool :=
  match m.control with
  | .failed .none => true
  | _ => false

theorem onward_of_hasEnded (h : hasEnded m = true) (template : Term) : onward src template m = m := by
  obtain ⟨control, w⟩ := m
  unfold hasEnded at h
  split at h
  · rename_i hcontrol
    cases hcontrol
    rfl
  · cases h

/-- A search that has ended stays where it is. -/
theorem machineAt_of_hasEnded {N n : Nat} (hend : hasEnded (machineAt src x N) = true) (hn : N ≤ n) :
    machineAt src x n = machineAt src x N := by
  obtain ⟨k, rfl⟩ := Nat.exists_eq_add_of_le hn
  clear hn
  induction k with
  | zero => rfl
  | succ k ih => rw [← Nat.add_assoc, machineAt, ih, onward_of_hasEnded hend]

/-- A search that comes to plain goals only comes to one machine after the other, up to the one where it ends. -/
theorem Visits.exists_machineAt (hplain : ∀ m meter, x.Visits src ask start m meter → m.IsPlain src) {N : Nat}
    (hend : hasEnded (machineAt src x N) = true) (h : x.Visits src ask start m meter) :
    ∃ n, n ≤ N ∧ m = machineAt src x n := by
  have hnext (n : Nat) (hn : n ≤ N) : ∃ k, k ≤ N ∧ onward src x.template (machineAt src x n) = machineAt src x k := by
    rcases Nat.lt_or_eq_of_le hn with hlt | rfl
    · exact ⟨n + 1, hlt, rfl⟩
    · exact ⟨n, hn, onward_of_hasEnded hend _⟩
  induction h with
  | start => exact ⟨0, Nat.zero_le _, rfl⟩
  | @step m m' meter meter' h _ hstep ih =>
    obtain rfl := Machine.step_eq_move (hplain m meter h) hstep
    obtain ⟨n, hn, hm⟩ := ih
    by_cases hdone : onward src x.template m = m.move src
    · rw [← hdone, hm]
      exact hnext n hn
    · obtain ⟨control, w⟩ := m
      unfold onward at hdone
      split at hdone
      · rename_i hcontrol
        cases hcontrol
        exact ⟨n, hn, hm⟩
      · exact absurd rfl hdone
  | resume _ ih =>
    obtain ⟨n, hn, hm⟩ := ih
    obtain ⟨k, hk, heq⟩ := hnext n hn
    exact ⟨k, hk, by rw [← heq, ← hm]; rfl⟩

end Search

end Deduction
