import Deduction.Proofs.Termination.Questions

/-!
# Machines that end from a count on

Suppose that machines which keep to a language end once more than a given count was counted. Then a machine with that
count ends as well, if what it has left to prove and to try does (`Agenda.EndsFrom`, `Alternatives.EndsFrom`): a fact or
a rule that is tried is counted, and no step that counts nothing makes goals that were not there before.
-/

namespace Deduction

variable {L : Language} {src : Sources} {n : Nat}

namespace Machine

/-- The machine ends, whatever the template of the answers is. -/
def Halts (src : Sources) (m : Machine) (meter : Meter) : Prop := ∀ template, m.Ends src template meter

/-- The machine ends whenever so much was counted. -/
def EndsFrom (src : Sources) (n : Nat) (m : Machine) : Prop := ∀ meter : Meter, n ≤ meter.spent → m.Halts src meter

theorem EndsFrom.of_step {m : Machine}
    (h : ∀ meter : Meter, n ≤ meter.spent → Settles (fun b d => m.step src (consultWithin src b d)) meter (Halts src)) :
    m.EndsFrom src n := by
  intro meter hmeter template
  exact .of_settles ((h meter hmeter).imp fun m' meter' _ hhalts => hhalts template)

/-- A step that counts nothing and asks nothing. -/
theorem EndsFrom.of_eq {m m' : Machine} (h : m'.EndsFrom src n) (hstep : ∀ ask, m.step src ask = pure m') :
    m.EndsFrom src n := by
  refine .of_step fun meter hmeter => ?_
  simp only [hstep]
  exact Settles.pure (h meter hmeter)

end Machine

/-- What is left to try keeps to the language, and the machine that goes back to it ends. -/
structure Alternatives.EndsFrom (L : Language) (src : Sources) (n : Nat) (o : Alternatives) : Prop where
  within : o.Within L
  failed : ∀ w : Workspace, w.store.Avoids L.words → Machine.EndsFrom src n ⟨.failed o, w⟩

/-- What is left to prove keeps to the language, and the machine that goes on to it ends. -/
structure Agenda.EndsFrom (L : Language) (src : Sources) (n : Nat) (next : Agenda) : Prop where
  within : next.Within L
  proved : ∀ o : Alternatives, o.EndsFrom L src n → ∀ w : Workspace, w.store.Avoids L.words →
    Machine.EndsFrom src n ⟨.proved next o, w⟩

/-- The machine that comes to the goal ends. -/
def GoalEndsFrom (L : Language) (src : Sources) (n : Nat) (goal : Term) : Prop :=
  ∀ (env : EnvId) (next : Agenda) (o : Alternatives), next.EndsFrom L src n → o.EndsFrom L src n →
    ∀ w : Workspace, w.store.Avoids L.words → Machine.EndsFrom src n ⟨.prove goal env next o, w⟩

/-- All machines that keep to the language end whenever so much was counted. -/
def MachinesEndFrom (L : Language) (src : Sources) (n : Nat) : Prop := ∀ m : Machine, m.Within L → m.EndsFrom src n

variable {next : Agenda} {o : Alternatives}

/-! ### What is left to try -/

namespace Alternatives.EndsFrom

theorem none : Alternatives.EndsFrom L src n .none := ⟨.none, fun _ _ _ _ _ => .exhausted⟩

theorem undo (ho : o.EndsFrom L src n) (checkpoint : Checkpoint) : Alternatives.EndsFrom L src n (.undo checkpoint o) :=
  ⟨.undo ho.within, fun _ hw => (ho.failed _ (hw.rollback checkpoint)).of_eq fun _ => rfl⟩

theorem reenter (ho : o.EndsFrom L src n) (goal : Term) (env : EnvId) :
    Alternatives.EndsFrom L src n (.reenter goal env o) := by
  refine ⟨.reenter ho.within, fun w hw => .of_step fun meter hmeter => ?_⟩
  refine (Settles.reportGoal fun m' hm' => hm').bind fun _ m' _ (hm' : m'.spent = meter.spent) => ?_
  exact Settles.pure (ho.failed w hw m' (by omega))

theorem absent (hn : next.EndsFrom L src n) (ho : o.EndsFrom L src n) : Alternatives.EndsFrom L src n (.absent next o) :=
  ⟨.absent hn.within ho.within, fun w hw => (hn.proved o ho w hw).of_eq fun _ => rfl⟩

theorem disjuncts {goals : List Term} (hgoals : ∀ g ∈ goals, L.goal g ∧ GoalEndsFrom L src n g)
    (hn : next.EndsFrom L src n) (ho : o.EndsFrom L src n) (env : EnvId) :
    Alternatives.EndsFrom L src n (.disjuncts env goals next o) := by
  induction goals with
  | nil => exact ⟨.disjuncts (by simp) hn.within ho.within, fun w hw => (ho.failed w hw).of_eq fun _ => rfl⟩
  | cons goal rest ih =>
    rw [List.forall_mem_cons] at hgoals
    have hrest := ih hgoals.2
    refine ⟨?_, fun w hw => (hgoals.1.2 env next _ hn hrest w hw).of_eq fun _ => rfl⟩
    exact .disjuncts (List.forall_mem_cons.2 ⟨hgoals.1.1, fun g hg => (hgoals.2 g hg).1⟩) hn.within ho.within

end Alternatives.EndsFrom

/-! ### What is left to prove -/

namespace Agenda.EndsFrom

theorem done : Agenda.EndsFrom L src n .done := by
  refine ⟨.done, fun o ho w hw meter hmeter template => .answer ?_⟩
  exact ho.failed _ (hw.plug _ _ _ _) meter hmeter template

theorem goals {rest : List Term} (hgoals : ∀ g ∈ rest, L.goal g ∧ GoalEndsFrom L src n g) (hn : next.EndsFrom L src n)
    (env : EnvId) : Agenda.EndsFrom L src n (.goals env rest next) := by
  induction rest with
  | nil => exact ⟨.goals (by simp) hn.within, fun o ho w hw => (hn.proved o ho w hw).of_eq fun _ => rfl⟩
  | cons goal rest ih =>
    rw [List.forall_mem_cons] at hgoals
    have hrest := ih hgoals.2
    refine ⟨?_, fun o ho w hw => (hgoals.1.2 env _ o hrest ho w hw).of_eq fun _ => rfl⟩
    exact .goals (List.forall_mem_cons.2 ⟨hgoals.1.1, fun g hg => (hgoals.2 g hg).1⟩) hn.within

theorem leave (hn : next.EndsFrom L src n) (goal : Term) (env : EnvId) :
    Agenda.EndsFrom L src n (.leave goal env next) := by
  refine ⟨.leave hn.within, fun o ho w hw => .of_step fun meter hmeter => ?_⟩
  refine (Settles.reportGoal fun m' hm' => hm').bind fun _ m' _ (hm' : m'.spent = meter.spent) => ?_
  exact Settles.pure (hn.proved _ (ho.reenter goal env) w hw m' (by omega))

theorem refuted (ho : o.EndsFrom L src n) (checkpoint : Checkpoint) :
    Agenda.EndsFrom L src n (.refuted checkpoint o) :=
  ⟨.refuted ho.within, fun _ _ _ hw => (ho.failed _ (hw.rollback checkpoint)).of_eq fun _ => rfl⟩

end Agenda.EndsFrom

/-! ### Candidates -/

namespace Machine

variable {c : Cursor} {x : Expansion} {ts : List Term}

theorem settles_count (c : Cursor) (meter : Meter) :
    Settles (fun _ _ => c.count) meter fun _ m' => c.origin ≠ .computed → meter.spent < m'.spent := by
  unfold Cursor.count
  split
  · rename_i hcomputed
    exact Settles.pure fun hcount => absurd hcomputed hcount
  · exact Settles.instantiate fun m' hm' _ => by omega

/-- Going over candidates settles in any case, and something is counted unless there are none. -/
theorem settles_tryCandidates (c : Cursor) (next : Agenda) (o : Alternatives) (ts : List Term) (w : Workspace)
    (meter : Meter) : Settles (fun _ _ => tryCandidates src c next o ts w) meter
      fun _ m' => c.origin ≠ .computed → ts ≠ [] → meter.spent < m'.spent := by
  obtain ⟨s, names⟩ := w
  induction ts generalizing meter with
  | nil =>
    rw [tryCandidates_nil]
    refine (Settles.cursorReport fun _ _ => trivial).bind fun _ _ _ (_ : True) => ?_
    exact Settles.pure fun _ hnil => absurd rfl hnil
  | cons t rest ih =>
    generalize h : s.unify c.target c.env t c.candidateEnv = r
    obtain ⟨ok, s'⟩ := r
    cases ok with
    | true =>
      rw [tryCandidates_of_unify h]
      refine (settles_count c meter).bind fun _ m₁ _ hm₁ => ?_
      refine (Settles.cursorReport fun m₂ hm₂ => hm₂).bind fun _ m₂ _ (hm₂ : m₂.spent = m₁.spent) => ?_
      exact Settles.pure fun hcount _ => hm₂ ▸ hm₁ hcount
    | false =>
      rw [tryCandidates_of_not_unify (congrArg Prod.fst h)]
      refine (settles_count c meter).bind fun _ m₁ _ hm₁ => ?_
      exact (ih m₁).imp fun _ m₂ hle _ hcount _ => Nat.lt_of_lt_of_le (hm₁ hcount) hle

/-- Going over rules settles in any case, and something is counted unless there are none. -/
theorem settles_tryRules (x : Expansion) (next : Agenda) (o : Alternatives) (ts : List Term) (w : Workspace)
    (meter : Meter) : Settles (fun _ _ => tryRules src x next o ts w) meter
      fun _ m' => ts ≠ [] → meter.spent < m'.spent := by
  obtain ⟨s, names⟩ := w
  have hinfer (meter : Meter) : Settles (fun _ _ => Meter.infer) meter fun _ m' => meter.spent < m'.spent :=
    Settles.infer fun m' hm' => by omega
  induction ts generalizing meter with
  | nil =>
    rw [tryRules_nil]
    refine (Settles.reportGoal fun _ _ => trivial).bind fun _ _ _ (_ : True) => ?_
    exact Settles.pure fun hnil => absurd rfl hnil
  | cons t rest ih =>
    cases hrule : t.asRule with
    | some rule =>
      obtain ⟨head, body⟩ := rule
      generalize h : s.unify head x.ruleEnv x.goal x.env = r
      obtain ⟨ok, s'⟩ := r
      cases ok with
      | true =>
        rw [tryRules_of_head hrule h]
        exact (hinfer meter).bind fun _ _ _ hm₁ => Settles.pure fun _ => hm₁
      | false =>
        rw [tryRules_of_not_head hrule (congrArg Prod.fst h)]
        refine (hinfer meter).bind fun _ m₁ _ hm₁ => ?_
        exact (ih m₁).imp fun _ m₂ hle _ _ => Nat.lt_of_lt_of_le hm₁ hle
    | none =>
      generalize h : s.unify x.goal x.env t x.ruleEnv = r
      obtain ⟨ok, s'⟩ := r
      cases ok with
      | true =>
        rw [tryRules_of_sentence hrule h]
        refine (hinfer meter).bind fun _ m₁ _ hm₁ => ?_
        refine (Settles.reportGoal fun m₂ hm₂ => hm₂).bind fun _ m₂ _ (hm₂ : m₂.spent = m₁.spent) => ?_
        exact Settles.pure fun _ => hm₂ ▸ hm₁
      | false =>
        rw [tryRules_of_not_sentence hrule (congrArg Prod.fst h)]
        refine (hinfer meter).bind fun _ m₁ _ hm₁ => ?_
        exact (ih m₁).imp fun _ m₂ hle _ _ => Nat.lt_of_lt_of_le hm₁ hle

section

variable (hbeyond : MachinesEndFrom L src (n + 1)) (hn : next.EndsFrom L src n)
  (ho : o.EndsFrom L src n)

omit hbeyond hn in
/-- Where there is nothing left to go over, the machine goes back. -/
theorem halts_failed {x : Metered Unit} (hx : ∀ meter, Settles (fun _ _ => x) meter fun _ m' => m'.spent = meter.spent)
    (ho : o.EndsFrom L src n) {w : Workspace} (hw : w.store.Avoids L.words) {meter : Meter} (hmeter : n ≤ meter.spent) :
    Settles (fun _ _ => x >>= fun _ => pure ⟨.failed o, w⟩) meter (Halts src) := by
  refine (hx meter).bind fun _ m' _ hm' => ?_
  exact Settles.pure (ho.failed w hw m' (by omega))

include hn ho

/-- Candidates that are not counted are gone through one after the other. -/
theorem halts_tryCandidates_of_computed (hcount : c.origin = .computed) (htarget : c.target.Avoids L.words)
    (hts : ∀ t ∈ ts, t.Avoids L.words) {w : Workspace} (hw : w.store.Avoids L.words) {meter : Meter}
    (hmeter : n ≤ meter.spent) : Settles (fun _ _ => tryCandidates src c next o ts w) meter (Halts src) := by
  induction ts generalizing c w meter with
  | nil =>
    rw [tryCandidates_nil]
    exact halts_failed (fun _ => Settles.cursorReport fun _ hm' => hm') ho hw hmeter
  | cons t rest ih =>
    rw [List.forall_mem_cons] at hts
    obtain ⟨s, names⟩ := w
    have hunify := hw.unify htarget hts.1 c.env c.candidateEnv
    generalize h : s.unify c.target c.env t c.candidateEnv = r at hunify
    obtain ⟨ok, s'⟩ := r
    cases ok with
    | true =>
      have hrest : Alternatives.EndsFrom L src n (.candidates { c with candidates := rest } next o) := by
        refine ⟨.candidates htarget hts.2 hn.within ho.within, fun w hw => .of_step fun meter hmeter => ?_⟩
        have hback : (w.store.rollback c.checkpoint).Avoids L.words := hw.rollback _
        exact ih (c := { c with candidates := rest }) (w := ⟨w.store.rollback c.checkpoint, w.names⟩) hcount htarget hts.2 hback hmeter
      have hothers : (c.others rest next o).EndsFrom L src n := by
        unfold Cursor.others
        rw [if_neg (by simp [hcount])]
        exact hrest
      rw [tryCandidates_of_unify h]
      refine (settles_count c meter).bind fun _ m₁ hm₁ _ => ?_
      refine (Settles.cursorReport fun m₂ hm₂ => hm₂).bind fun _ m₂ _ (hm₂ : m₂.spent = m₁.spent) => ?_
      exact Settles.pure (hn.proved _ hothers _ hunify m₂ (by omega))
    | false =>
      rw [tryCandidates_of_not_unify (congrArg Prod.fst h)]
      exact (settles_count c meter).bind fun _ m₁ hm₁ _ => ih hcount htarget hts.2 hw (Nat.le_trans hmeter hm₁)

include hbeyond

/-- Other candidates lead beyond the count. -/
theorem halts_tryCandidates (htarget : c.target.Avoids L.words) (hts : ∀ t ∈ ts, t.Avoids L.words) {w : Workspace}
    (hw : w.store.Avoids L.words) {meter : Meter} (hmeter : n ≤ meter.spent) :
    Settles (fun _ _ => tryCandidates src c next o ts w) meter (Halts src) := by
  by_cases hcount : c.origin = .computed
  · exact halts_tryCandidates_of_computed hn ho hcount htarget hts hw hmeter
  cases ts with
  | nil =>
    rw [tryCandidates_nil]
    exact halts_failed (fun _ => Settles.cursorReport fun _ hm' => hm') ho hw hmeter
  | cons t rest =>
    have hwithin : Ensures (tryCandidates src c next o (t :: rest) w) (Within L) :=
      within_tryCandidates htarget hts hn.within ho.within hw
    refine ((settles_tryCandidates c next o (t :: rest) w meter).ensures fun _ _ => hwithin).imp fun m' meter' _ h => ?_
    have hlt := h.2 hcount (List.cons_ne_nil t rest)
    exact hbeyond m' h.1 meter' (by omega)

/-- Rules lead beyond the count. -/
theorem halts_tryRules (hgoal : x.goal.Avoids L.words) (hvar : x.goal.isVariable = false) (hts : ∀ t ∈ ts, L.Rule t)
    {w : Workspace} (hw : w.store.Avoids L.words) {meter : Meter} (hmeter : n ≤ meter.spent) :
    Settles (fun _ _ => tryRules src x next o ts w) meter (Halts src) := by
  cases ts with
  | nil =>
    rw [tryRules_nil]
    exact halts_failed (fun _ => Settles.reportGoal fun _ hm' => hm') ho hw hmeter
  | cons t rest =>
    have hwithin : Ensures (tryRules src x next o (t :: rest) w) (Within L) :=
      within_tryRules hgoal hvar hts hn.within ho.within hw
    refine ((settles_tryRules x next o (t :: rest) w meter).ensures fun _ _ => hwithin).imp fun m' meter' _ h => ?_
    have hlt := h.2 (List.cons_ne_nil t rest)
    exact hbeyond m' h.1 meter' (by omega)

theorem halts_select {selecting : Nat → Nat → Selecting Selection} (hfinishes : FinishesIn L.words n selecting)
    (hyields : ∀ b d, Yields L.words (selecting b d) L.Selects) (origin : Cursor.Origin) (env : EnvId) {w : Workspace}
    (hw : w.store.Avoids L.words) {meter : Meter} (hmeter : n ≤ meter.spent) :
    Settles (fun b d => select src origin env (selecting b d) next o w) meter (Halts src) := by
  unfold select
  refine Settles.bind ((hfinishes w hw meter hmeter).ensures fun b d => hyields b d w hw) fun r m' hle hr => ?_
  obtain ⟨selection, w'⟩ := r
  have hm' : n ≤ m'.spent := Nat.le_trans hmeter hle
  cases selection with
  | none => exact Settles.pure (ho.failed w' hr.1.1 m' hm')
  | some selection =>
    obtain ⟨htarget, hcandidates⟩ := hr.1.2 selection rfl
    exact halts_tryCandidates hbeyond hn ho htarget hcandidates (hr.1.1.rollback _) hm'

theorem halts_expand (hL : L.Closed src) {goal : Term} (hgoal : goal.Avoids L.words) (hvar : goal.isVariable = false)
    (env : EnvId) {w : Workspace} (hw : w.store.Avoids L.words) {meter : Meter} (hmeter : n ≤ meter.spent) :
    Settles (fun _ _ => expand src goal env next o w) meter (Halts src) := by
  have hrules (t : Term) (ht : t ∈ src.rules.lookupIn w.store goal env) : L.Rule t :=
    hL.rule t (Theory.mem_of_mem_lookupIn ht)
  unfold expand
  refine (Settles.reportGoal fun m' hm' => hm').bind fun _ m' _ (hm' : m'.spent = meter.spent) => ?_
  exact halts_tryRules hbeyond hn ho hgoal hvar hrules hw.newEnv (by omega)

end

end Machine

/-! ### Goals -/

/-- What the goal leads to without counting anything ends. -/
def Goal.PartsEndFrom (L : Language) (src : Sources) (n : Nat) : Goal → Prop
  | .negation g => GoalEndsFrom L src n g
  | .conjunction goals | .disjunction goals => ∀ g ∈ goals, GoalEndsFrom L src n g
  | .computed f args => ∀ env, FinishesIn L.words n fun b d => selectComputed src (consultWithin src b d) f args env
  | _ => True

section

variable (hL : L.Closed src) (hbeyond : MachinesEndFrom L src (n + 1))

include hL hbeyond

theorem Machine.halts_proveResolved {goal : Term} (hgoal : L.goal goal)
    (hparts : (Goal.ofTerm src.rules goal).PartsEndFrom L src n) (env : EnvId) (hn : next.EndsFrom L src n)
    (ho : o.EndsFrom L src n) {w : Workspace} (hw : w.store.Avoids L.words) {meter : Meter} (hmeter : n ≤ meter.spent) :
    Settles (fun b d => proveResolved src (consultWithin src b d) goal env next o w) meter (Halts src) := by
  have hadmits := hL.goal_admits goal hgoal
  have hfailed {w : Workspace} (hw : w.store.Avoids L.words) :
      Settles (fun _ _ => pure ⟨.failed o, w⟩) meter (Halts src) := Settles.pure (ho.failed w hw meter hmeter)
  have hproved {next : Agenda} {o : Alternatives} {w : Workspace} (hn : next.EndsFrom L src n)
      (ho : o.EndsFrom L src n) (hw : w.store.Avoids L.words) :
      Settles (fun _ _ => pure ⟨.proved next o, w⟩) meter (Halts src) :=
    Settles.pure (hn.proved o ho w hw meter hmeter)
  unfold proveResolved
  split
  · exact hfailed hw
  · exact hproved hn (ho.undo _) hw
  · rename_i x y heq
    rw [heq] at hadmits
    have hunify := hw.unify hadmits.1 hadmits.2 env env
    dsimp only
    split
    · rename_i s hs
      rw [hs] at hunify
      exact hproved hn (ho.undo _) hunify
    · rename_i s hs
      rw [hs] at hunify
      exact hfailed hunify
  · rename_i x y heq
    rw [heq] at hadmits
    have hunify := hw.unify hadmits.1 hadmits.2 env env
    dsimp only
    split
    · rename_i s hs
      rw [hs] at hunify
      exact hfailed (hunify.rollback _)
    · rename_i s hs
      rw [hs] at hunify
      exact hproved hn ho hunify
  · rename_i terms heq
    rw [heq] at hadmits
    have hinputs : FinishesIn L.words n fun _ _ => Selecting.inputs env terms := .of_quiet (quiet_inputs env terms)
    refine Settles.bind ((hinputs w hw meter hmeter).ensures fun _ _ => Yields.inputs env hadmits w hw)
      fun r m' hle hr => ?_
    obtain ⟨values, w'⟩ := r
    have hm' : n ≤ m'.spent := Nat.le_trans hmeter hle
    cases values with
    | none => exact Settles.pure (ho.failed w' hr.1.1 m' hm')
    | some values =>
      refine Settles.pure ?_
      split
      · exact hn.proved o ho w' hr.1.1 m' hm'
      · exact ho.failed w' hr.1.1 m' hm'
  · rename_i g heq
    rw [heq] at hparts
    exact Settles.pure (hparts env _ _ (.refuted ho _) (.absent hn ho) w hw meter hmeter)
  · rename_i goals heq
    rw [heq] at hadmits hparts
    exact hproved (.goals (fun g hg => ⟨hadmits g hg, hparts g hg⟩) hn env) ho hw
  · rename_i goals heq
    rw [heq] at hadmits hparts
    have hdisjuncts := Alternatives.EndsFrom.disjuncts (fun g hg => ⟨hadmits g hg, hparts g hg⟩) hn ho env
    exact Settles.pure (hdisjuncts.failed w hw meter hmeter)
  · rename_i item list heq
    rw [heq] at hadmits
    exact halts_select hbeyond hn ho (.of_quiet (quiet_selectMembers item list env))
      (fun _ _ => Language.yields_selectMembers hadmits.1 hadmits.2 env) _ _ hw hmeter
  · rename_i g name heq
    rw [heq] at hadmits
    exact halts_select hbeyond hn ho (.of_quiet (quiet_selectDataset g name env))
      (fun _ _ => Language.yields_selectDataset hL hadmits name env) _ _ hw hmeter
  · rename_i f args heq
    rw [heq] at hadmits hparts
    exact halts_select hbeyond hn ho (hparts env)
      (fun b d => Language.yields_selectComputed hL (Language.answers_consultWithin hL b d) hadmits env) _ _ hw hmeter
  · rename_i heq
    rw [heq] at hadmits
    have hvar : goal.isVariable = false := by
      cases goal with
      | var v => cases heq
      | sym a => rfl
      | compound f args => rfl
    exact halts_expand hbeyond hn ho hL hadmits hvar env hw hmeter
  · rename_i heq
    rw [heq] at hadmits
    refine (Settles.reportGoal fun m' hm' => hm').bind fun _ m' _ (hm' : m'.spent = meter.spent) => ?_
    have hfacts : FinishesIn L.words n fun _ _ => selectFacts src goal env := by
      intro w _ m _
      simp only [run_selectFacts]
      exact Settles.pure trivial
    exact halts_select hbeyond hn ho hfacts
      (fun _ _ => Language.yields_selectFacts hL hadmits env) _ _ hw (by omega)

/-- The machine that comes to a goal ends if what the goal leads to does. -/
theorem goalEndsFrom_of_parts {goal : Term} (hgoal : L.goal goal) (hvar : goal.isVariable = false)
    (hparts : (Goal.ofTerm src.rules goal).PartsEndFrom L src n) : GoalEndsFrom L src n goal := by
  intro env next o hn ho w hw
  refine .of_step fun meter hmeter => ?_
  have hresolve : w.store.resolve goal env = ⟨goal, env⟩ := by
    cases goal with
    | var v => cases hvar
    | sym a => exact Store.resolve_sym _ _ _
    | compound f args => exact Store.resolve_compound _ _ _ _
  have hstep (b d : Nat) : Machine.step src (consultWithin src b d) ⟨.prove goal env next o, w⟩ =
      Machine.proveResolved src (consultWithin src b d) goal env next o w := by
    unfold Machine.step
    simp only [hresolve]
  simp only [hstep]
  exact Machine.halts_proveResolved hL hbeyond hgoal hparts env hn ho hw hmeter

end

/-! ### Machines of the language -/

mutual
theorem Agenda.endsFrom_of_within (hbeyond : MachinesEndFrom L src (n + 1))
    (hgoals : ∀ g, L.goal g → GoalEndsFrom L src n g) : (next : Agenda) → next.Within L → next.EndsFrom L src n
  | .done, _ => .done
  | .goals env _ next, .goals hrest hn =>
    .goals (fun g hg => ⟨hrest g hg, hgoals g (hrest g hg)⟩) (Agenda.endsFrom_of_within hbeyond hgoals next hn) env
  | .leave goal env next, .leave hn => (Agenda.endsFrom_of_within hbeyond hgoals next hn).leave goal env
  | .refuted checkpoint o, .refuted ho => .refuted (Alternatives.endsFrom_of_within hbeyond hgoals o ho) checkpoint

theorem Alternatives.endsFrom_of_within (hbeyond : MachinesEndFrom L src (n + 1))
    (hgoals : ∀ g, L.goal g → GoalEndsFrom L src n g) : (o : Alternatives) → o.Within L → o.EndsFrom L src n
  | .none, _ => .none
  | .undo checkpoint o, .undo ho => (Alternatives.endsFrom_of_within hbeyond hgoals o ho).undo checkpoint
  | .reenter goal env o, .reenter ho => (Alternatives.endsFrom_of_within hbeyond hgoals o ho).reenter goal env
  | .absent next o, .absent hn ho => .absent (Agenda.endsFrom_of_within hbeyond hgoals next hn) (Alternatives.endsFrom_of_within hbeyond hgoals o ho)
  | .disjuncts env _ next o, .disjuncts hdisjuncts hn ho =>
    .disjuncts (fun g hg => ⟨hdisjuncts g hg, hgoals g (hdisjuncts g hg)⟩) (Agenda.endsFrom_of_within hbeyond hgoals next hn)
      (Alternatives.endsFrom_of_within hbeyond hgoals o ho) env
  | .candidates _ next o, .candidates htarget hcandidates hn ho =>
    ⟨.candidates htarget hcandidates hn ho, fun _ hw => .of_step fun _ hmeter =>
      Machine.halts_tryCandidates hbeyond (Agenda.endsFrom_of_within hbeyond hgoals next hn) (Alternatives.endsFrom_of_within hbeyond hgoals o ho)
        htarget hcandidates (hw.rollback _) hmeter⟩
  | .rules _ next o, .rules hgoal hvar hrules hn ho =>
    ⟨.rules hgoal hvar hrules hn ho, fun _ hw => .of_step fun _ hmeter =>
      Machine.halts_tryRules hbeyond (Agenda.endsFrom_of_within hbeyond hgoals next hn) (Alternatives.endsFrom_of_within hbeyond hgoals o ho)
        hgoal hvar hrules (hw.rollback _) hmeter⟩
end

/-- All machines that keep to the language end if those do that come to a goal of the language. -/
theorem machinesEndFrom_of_goals (hbeyond : MachinesEndFrom L src (n + 1))
    (hgoals : ∀ g, L.goal g → GoalEndsFrom L src n g) : MachinesEndFrom L src n := by
  intro m hm
  obtain ⟨control, w⟩ := m
  obtain ⟨hcontrol, hw⟩ := hm
  have hagenda := Agenda.endsFrom_of_within hbeyond hgoals
  have halternatives := Alternatives.endsFrom_of_within hbeyond hgoals
  cases hcontrol with
  | prove hgoal hn ho => exact hgoals _ hgoal _ _ _ (hagenda _ hn) (halternatives _ ho) w hw
  | proved hn ho => exact (hagenda _ hn).proved _ (halternatives _ ho) w hw
  | failed ho => exact (halternatives _ ho).failed w hw

/-! ### Questions about goals -/

/-- A question about a goal is answered if the machine that comes to the goal ends. -/
theorem GoalEndsFrom.finishes {goal : Term} (h : GoalEndsFrom L src n goal) (template : Term) :
    (Question.all template goal).Finishes src n ∧ (Question.first template goal).Finishes src n := by
  have hempty : Store.Avoids L.words ({ occursCheck := src.config.occursCheck } : Store).newEnv.2 := by
    refine Store.Avoids.newEnv fun v env c hc => ?_
    simp [Store.lookup] at hc
  have hends (meter : Meter) (hmeter : n ≤ meter.spent) :
      (Search.start src.config template goal).machine.Ends src template meter :=
    h _ _ _ .done .none ⟨_, .after [template, goal]⟩ hempty meter hmeter template
  refine ⟨fun meter hmeter => settles_consultWithin ?_, fun meter hmeter => settles_consultWithin ?_⟩
  · exact Search.settles_takeWithin (hends meter hmeter)
  · exact (Search.settles_nextWithin fun _ => hends meter hmeter).bind fun _ _ _ _ => Settles.pure trivial

end Deduction
