import Deduction.Proofs.Search.Within

/-!
# Computations that settle

A computation that depends on the bounds settles if it has the same result, and the same meter, from some bounds on. A
machine ends if steps that settle lead it through all its answers to where everything was tried, or to the limit
(`Machine.Ends`). A search from such a machine settles, and so do all its answers together (`Machine.Ends.pull`).
-/

namespace Deduction

variable {α β : Type}

/-- What follows a result goes on from it. -/
theorem Metered.run_bind_of_run {x : Metered α} {f : α → Metered β} {m m' : Meter} {a : α}
    (h : x.run m = .ok (a, m')) : (x >>= f).run m = (f a).run m' := by
  rw [StateT.run_bind, h]
  rfl

/-- From some bounds on, the computation has one result, which is as described, and nothing was taken back of what was
counted. -/
def Settles (x : Nat → Nat → Metered α) (m : Meter) (R : α → Meter → Prop) : Prop :=
  ∃ a m', (∃ N, ∀ b d, N ≤ b → N ≤ d → (x b d).run m = .ok (a, m')) ∧ m.spent ≤ m'.spent ∧ R a m'

namespace Settles

variable {x : Nat → Nat → Metered α} {f : Nat → Nat → α → Metered β} {m : Meter} {R R' : α → Meter → Prop}
  {S : β → Meter → Prop}

theorem of_run {x : Metered α} {a : α} {m' : Meter} (h : x.run m = .ok (a, m')) (hle : m.spent ≤ m'.spent)
    (hR : R a m') : Settles (fun _ _ => x) m R :=
  ⟨a, m', ⟨0, fun _ _ _ _ => h⟩, hle, hR⟩

theorem pure {a : α} (h : R a m) : Settles (fun _ _ => Pure.pure a) m R := of_run rfl (Nat.le_refl _) h

theorem imp (h : Settles x m R) (hR : ∀ a m', m.spent ≤ m'.spent → R a m' → R' a m') : Settles x m R' := by
  obtain ⟨a, m', hrun, hle, ha⟩ := h
  exact ⟨a, m', hrun, hle, hR a m' hle ha⟩

theorem bind (h : Settles x m R) (hf : ∀ a m', m.spent ≤ m'.spent → R a m' → Settles (fun b d => f b d a) m' S) :
    Settles (fun b d => x b d >>= f b d) m S := by
  obtain ⟨a, m₁, ⟨N, hx⟩, hle, ha⟩ := h
  obtain ⟨b, m₂, ⟨N', hfa⟩, hle', hb⟩ := hf a m₁ hle ha
  refine ⟨b, m₂, ⟨max N N', fun b' d hb' hd => ?_⟩, Nat.le_trans hle hle', hb⟩
  have hxrun := hx b' d (by omega) (by omega)
  have hfrun := hfa b' d (by omega) (by omega)
  exact Metered.run_bind_eq_ok.2 ⟨a, m₁, hxrun, hfrun⟩

/-- What every result of the computation is like, the result that it settles on is like. -/
theorem ensures {Q : α → Prop} (h : Settles x m R) (hx : ∀ b d, Ensures (x b d) Q) :
    Settles x m fun a m' => Q a ∧ R a m' := by
  obtain ⟨a, m', ⟨N, hrun⟩, hle, ha⟩ := h
  exact ⟨a, m', ⟨N, hrun⟩, hle, hx N N (hrun N N (Nat.le_refl _) (Nat.le_refl _)), ha⟩

/-- Reporting a line. -/
theorem report {line : String} {R : Unit → Meter → Prop} (h : R () { m with lines := m.lines.push line }) :
    Settles (fun _ _ => Meter.report line) m R := of_run rfl (Nat.le_refl _) h

/-- Counting a rule. -/
theorem infer {R : Unit → Meter → Prop} (h : ∀ m' : Meter, m'.spent = m.spent + 1 → R () m') :
    Settles (fun _ _ => Meter.infer) m R := by
  have hspent : ({ m with inferences := m.inferences + 1 } : Meter).spent = m.spent + 1 := by
    unfold Meter.spent
    dsimp only
    omega
  exact of_run rfl (Nat.le_of_lt (by rw [hspent]; omega)) (h _ hspent)

/-- Counting a fact. -/
theorem instantiate {R : Unit → Meter → Prop} (h : ∀ m' : Meter, m'.spent = m.spent + 1 → R () m') :
    Settles (fun _ _ => Meter.instantiate) m R := by
  have hspent : ({ m with instantiations := m.instantiations + 1 } : Meter).spent = m.spent + 1 := by
    unfold Meter.spent
    dsimp only
    omega
  exact of_run rfl (Nat.le_of_lt (by rw [hspent]; omega)) (h _ hspent)

/-- Looking at the meter. -/
theorem isSpent {config : Config} {R : Bool → Meter → Prop} (h : R (decide (config.limit ≤ m.spent)) m) :
    Settles (fun _ _ => Meter.isSpent config) m R := of_run rfl (Nat.le_refl _) h

theorem reportGoal {config : Config} {event : String} {s : Store} {goal : Term} {env : EnvId}
    {R : Unit → Meter → Prop} (h : ∀ m' : Meter, m'.spent = m.spent → R () m') :
    Settles (fun _ _ => reportGoal config event s goal env) m R := by
  unfold Deduction.reportGoal
  split
  · split
    · exact report (h _ rfl)
    · exact pure (h m rfl)
  · exact pure (h m rfl)

theorem cursorReport {config : Config} {event : String} {s : Store} {c : Cursor} {R : Unit → Meter → Prop}
    (h : ∀ m' : Meter, m'.spent = m.spent → R () m') : Settles (fun _ _ => c.report config event s) m R := by
  unfold Cursor.report
  split
  · exact reportGoal h
  · exact pure (h m rfl)

end Settles

/-! ### Machines that end -/

variable {src : Sources} {template : Term} {m m' : Machine} {meter meter' : Meter}

/-- Steps that settle lead the machine through all its answers to the end of what there is to try, or to the limit. -/
inductive Machine.Ends (src : Sources) (template : Term) : Machine → Meter → Prop
  | spent {m : Machine} {meter : Meter} (h : src.config.limit ≤ meter.spent) : Machine.Ends src template m meter
  | exhausted {w : Workspace} {meter : Meter} : Machine.Ends src template ⟨.failed .none, w⟩ meter
  | answer {otherwise : Alternatives} {w : Workspace} {meter : Meter}
    (h : Machine.Ends src template (Search.resume template otherwise w) meter) :
    Machine.Ends src template ⟨.proved .done otherwise, w⟩ meter
  | step {m m' : Machine} {meter meter' : Meter}
    (hstep : ∃ N, ∀ b d, N ≤ b → N ≤ d → (m.step src (consultWithin src b d)).run meter = .ok (m', meter'))
    (h : Machine.Ends src template m' meter') : Machine.Ends src template m meter

theorem Machine.Ends.of_settles
    (h : Settles (fun b d => m.step src (consultWithin src b d)) meter fun m' => Machine.Ends src template m') :
    m.Ends src template meter := by
  obtain ⟨m', meter', hstep, -, hend⟩ := h
  exact .step hstep hend

/-- From some bounds on, the run from the machine comes to the outcome. -/
def Machine.RunsTo (src : Sources) (m : Machine) (meter : Meter) (outcome : Search.Outcome) (meter' : Meter) : Prop :=
  ∃ N, ∀ n b d, N ≤ n → N ≤ b → N ≤ d →
    (Search.run src (consultWithin src b d) n m).run meter = .ok (outcome, meter')

/-- From some bounds on, all further answers of the search are found. -/
def Search.Completes (src : Sources) (s : Search) (meter : Meter) : Prop :=
  ∃ given meter' N, ∀ n b d, N ≤ n → N ≤ b → N ≤ d → ∀ found, ∃ s',
    (s.pullWithin src (consultWithin src b d) b n found).run meter = .ok ((given ++ found, s'), meter')

namespace Machine

theorem runsTo_of_spent (h : src.config.limit ≤ meter.spent) : m.RunsTo src meter (.limitReached m.work) meter := by
  refine ⟨1, fun n b d hn _ _ => ?_⟩
  obtain ⟨n, rfl⟩ : ∃ k, n = k + 1 := ⟨n - 1, by omega⟩
  unfold Search.run
  refine Metered.run_bind_eq_ok.2 ⟨true, meter, ?_, rfl⟩
  change Except.ok (decide (src.config.limit ≤ meter.spent), meter) = _
  rw [decide_eq_true h]

section

variable {ask : Answerer} {n : Nat} {otherwise : Alternatives} {w : Workspace}
  (h : meter.spent < src.config.limit)

include h

theorem run_answer :
    (Search.run src ask (n + 1) ⟨.proved .done otherwise, w⟩).run meter = .ok (.answer otherwise w, meter) := by
  unfold Search.run
  refine Metered.run_bind_eq_ok.2 ⟨false, meter, ?_, rfl⟩
  change Except.ok (decide (src.config.limit ≤ meter.spent), meter) = _
  rw [decide_eq_false (by omega)]

theorem run_exhausted :
    (Search.run src ask (n + 1) ⟨.failed .none, w⟩).run meter = .ok (.exhausted w, meter) := by
  unfold Search.run
  refine Metered.run_bind_eq_ok.2 ⟨false, meter, ?_, rfl⟩
  change Except.ok (decide (src.config.limit ≤ meter.spent), meter) = _
  rw [decide_eq_false (by omega)]

/-- A machine that is not at an answer or at the end goes on by a step. -/
theorem run_step (hanswer : ∀ otherwise w, m ≠ ⟨.proved .done otherwise, w⟩) (hexhausted : ∀ w, m ≠ ⟨.failed .none, w⟩)
    (hstep : (m.step src ask).run meter = .ok (m', meter')) :
    (Search.run src ask (n + 1) m).run meter = (Search.run src ask n m').run meter' := by
  have hspent : (Meter.isSpent src.config).run meter = .ok (false, meter) := by
    change Except.ok (decide (src.config.limit ≤ meter.spent), meter) = _
    rw [decide_eq_false (by omega)]
  rw [Search.run.eq_def]
  dsimp only
  rw [Metered.run_bind_of_run hspent, if_neg Bool.false_ne_true]
  split
  · exact absurd rfl (hanswer _ _)
  · exact absurd rfl (hexhausted _)
  · exact Metered.run_bind_of_run hstep

end

/-- If the run comes to an outcome from which all further answers are found, then all answers are found. -/
theorem completes_of_runsTo {outcome : Search.Outcome} (hrun : m.RunsTo src meter outcome meter')
    (hanswer : ∀ otherwise w, outcome = .answer otherwise w →
      Search.Completes src ⟨template, Search.resume template otherwise w, .running⟩ meter') :
    Search.Completes src ⟨template, m, .running⟩ meter := by
  obtain ⟨N, hrun⟩ := hrun
  have hnext (b d : Nat) (hb : N ≤ b) (hd : N ≤ d) :
      (Search.nextWithin src (consultWithin src b d) b ⟨template, m, .running⟩).run meter =
        .ok (Search.conclude ⟨template, m, .running⟩ outcome, meter') := by
    unfold Search.nextWithin
    rw [if_pos rfl, map_eq_pure_bind]
    exact Metered.run_bind_eq_ok.2 ⟨outcome, meter', hrun b b d hb hb hd, rfl⟩
  -- an outcome that is no answer is the end of the search
  have hend (hnone : (Search.conclude ⟨template, m, .running⟩ outcome).1 = none) :
      Search.Completes src ⟨template, m, .running⟩ meter := by
    refine ⟨[], meter', N + 1, fun n b d hn hb hd found => ⟨(Search.conclude ⟨template, m, .running⟩ outcome).2, ?_⟩⟩
    obtain ⟨n, rfl⟩ : ∃ k, n = k + 1 := ⟨n - 1, by omega⟩
    unfold Search.pullWithin
    refine Metered.run_bind_eq_ok.2 ⟨_, _, hnext b d (by omega) (by omega), ?_⟩
    dsimp only
    rw [hnone]
    rfl
  cases outcome with
  | exhausted w => exact hend rfl
  | limitReached w => exact hend rfl
  | answer otherwise w =>
    obtain ⟨given, meter₁, N', hpull⟩ := hanswer otherwise w rfl
    refine ⟨given ++ [Search.answer template w], meter₁, max N N' + 1, fun n b d hn hb hd found => ?_⟩
    obtain ⟨n, rfl⟩ : ∃ k, n = k + 1 := ⟨n - 1, by omega⟩
    obtain ⟨s', hs'⟩ := hpull n b d (by omega) (by omega) (by omega) (Search.answer template w :: found)
    refine ⟨s', ?_⟩
    unfold Search.pullWithin
    refine Metered.run_bind_eq_ok.2 ⟨_, _, hnext b d (by omega) (by omega), ?_⟩
    rw [List.append_assoc, List.singleton_append]
    exact hs'

/-- A machine that ends comes to an outcome, and if that is an answer, all further answers are found. -/
theorem Ends.run (h : m.Ends src template meter) : ∃ outcome meter', m.RunsTo src meter outcome meter' ∧
    ∀ otherwise w, outcome = .answer otherwise w →
      Search.Completes src ⟨template, Search.resume template otherwise w, .running⟩ meter' := by
  -- a machine that the limit has stopped has come to an outcome, whatever it is about to do
  have hspent {m : Machine} {meter : Meter} (hle : src.config.limit ≤ meter.spent) :
      ∃ outcome meter', m.RunsTo src meter outcome meter' ∧ ∀ otherwise w, outcome = .answer otherwise w →
        Search.Completes src ⟨template, Search.resume template otherwise w, .running⟩ meter' :=
    ⟨_, meter, runsTo_of_spent hle, fun _ _ h => by cases h⟩
  induction h with
  | spent hle => exact hspent hle
  | @exhausted w meter =>
    rcases Nat.lt_or_ge meter.spent src.config.limit with hlt | hle
    · refine ⟨.exhausted w, meter, ⟨1, fun n b d hn _ _ => ?_⟩, fun _ _ h => by cases h⟩
      obtain ⟨n, rfl⟩ : ∃ k, n = k + 1 := ⟨n - 1, by omega⟩
      exact run_exhausted hlt
    · exact hspent hle
  | @answer otherwise w meter _ ih =>
    rcases Nat.lt_or_ge meter.spent src.config.limit with hlt | hle
    · refine ⟨.answer otherwise w, meter, ⟨1, fun n b d hn _ _ => ?_⟩, fun o w' heq => ?_⟩
      · obtain ⟨n, rfl⟩ : ∃ k, n = k + 1 := ⟨n - 1, by omega⟩
        exact run_answer hlt
      · cases heq
        obtain ⟨outcome, meter', hrun, hanswer⟩ := ih
        exact completes_of_runsTo hrun hanswer
    · exact hspent hle
  | @step m m' meter meter' hstep _ ih =>
    obtain ⟨N, hstep⟩ := hstep
    rcases Nat.lt_or_ge meter.spent src.config.limit with hlt | hle
    · by_cases hterminal : (∃ otherwise w, m = ⟨.proved .done otherwise, w⟩) ∨ ∃ w, m = ⟨.failed .none, w⟩
      · -- a machine at an answer or at the end stays where it is
        have hstays : (m', meter') = (m, meter) := by
          have hstep := hstep N N (Nat.le_refl _) (Nat.le_refl _)
          rcases hterminal with ⟨otherwise, w, rfl⟩ | ⟨w, rfl⟩
          · cases hstep
            rfl
          · cases hstep
            rfl
        cases hstays
        exact ih
      · simp only [not_or, not_exists] at hterminal
        obtain ⟨outcome, meter₁, ⟨N', hrun⟩, hanswer⟩ := ih
        refine ⟨outcome, meter₁, ⟨max N N' + 1, fun n b d hn hb hd => ?_⟩, hanswer⟩
        obtain ⟨n, rfl⟩ : ∃ k, n = k + 1 := ⟨n - 1, by omega⟩
        rw [run_step hlt hterminal.1 hterminal.2 (hstep b d (by omega) (by omega))]
        exact hrun n b d (by omega) (by omega) (by omega)
    · exact hspent hle

end Machine

/-! ### Questions that settle -/

/-- The next answer of a search from a machine that ends settles. -/
theorem Search.settles_nextWithin {s : Search} (h : s.status = .running → s.machine.Ends src s.template meter) :
    Settles (fun b d => s.nextWithin src (consultWithin src b d) b) meter fun _ _ => True := by
  by_cases hrunning : s.status = .running
  · obtain ⟨outcome, meter', ⟨N, hrun⟩, -⟩ := (h hrunning).run
    have hnext (b d : Nat) (hb : N ≤ b) (hd : N ≤ d) :
        (s.nextWithin src (consultWithin src b d) b).run meter = .ok (s.conclude outcome, meter') := by
      unfold nextWithin
      rw [if_pos hrunning, map_eq_pure_bind]
      exact Metered.run_bind_eq_ok.2 ⟨outcome, meter', hrun b b d hb hb hd, rfl⟩
    have hcounts := counts_nextWithin (counts_consultWithin src N N) N s (hnext N N (Nat.le_refl _) (Nat.le_refl _))
    exact ⟨_, _, ⟨N, hnext⟩, hcounts, trivial⟩
  · unfold nextWithin
    simp only [if_neg hrunning]
    exact Settles.pure trivial

/-- All answers of a search from a machine that ends settle. -/
theorem Search.settles_takeWithin {template : Term} {m : Machine} (h : m.Ends src template meter) :
    Settles (fun b d => Search.takeWithin src (consultWithin src b d) b ⟨template, m, .running⟩) meter
      fun _ _ => True := by
  obtain ⟨outcome, meter₁, hrun, hanswer⟩ := h.run
  obtain ⟨given, meter', N, hpull⟩ := Machine.completes_of_runsTo hrun hanswer
  have htake (b d : Nat) (hb : N ≤ b) (hd : N ≤ d) :
      (takeWithin src (consultWithin src b d) b ⟨template, m, .running⟩).run meter = .ok (given.reverse, meter') := by
    obtain ⟨s', hs'⟩ := hpull b b d hb hb hd []
    refine Metered.run_bind_eq_ok.2 ⟨_, _, hs', ?_⟩
    rw [List.append_nil]
    rfl
  have hcounts : meter.spent ≤ meter'.spent := by
    obtain ⟨s', hs'⟩ := hpull N N N (Nat.le_refl _) (Nat.le_refl _) (Nat.le_refl _) []
    exact counts_pullWithin (counts_consultWithin src N N) N N _ _ hs'
  exact ⟨_, _, ⟨N, htake⟩, hcounts, trivial⟩

/-- A question settles if it does so when questions within it are one level deeper. -/
theorem settles_consultWithin {q : Question} {R : List Term → Meter → Prop}
    (h : Settles (fun b d => answerWithin src (consultWithin src b d) b q) meter R) :
    Settles (fun b d => consultWithin src b d q) meter R := by
  obtain ⟨ts, meter', ⟨N, hrun⟩, hle, hR⟩ := h
  refine ⟨ts, meter', ⟨N + 1, fun b d hb hd => ?_⟩, hle, hR⟩
  obtain ⟨d, rfl⟩ : ∃ k, d = k + 1 := ⟨d - 1, by omega⟩
  exact hrun b d (by omega) (by omega)

end Deduction
