import Deduction.Proofs.Search.Language

/-!
# Searches that keep to a language

A machine that keeps to a language does so after every step (`Machine.within_step`), and so do the answers of a search,
at any depth of questions (`Language.answers_consultWithin`).
-/

namespace Deduction

variable {L : Language} {src : Sources} {ask : Answerer}

/-! ### What is left to prove and to try -/

mutual
/-- What is left to prove keeps to the language. -/
inductive Agenda.Within (L : Language) : Agenda → Prop
  | done : Agenda.Within L .done
  | goals {env : EnvId} {rest : List Term} {next : Agenda} (hrest : ∀ g ∈ rest, L.goal g) (hn : Agenda.Within L next) :
    Agenda.Within L (.goals env rest next)
  | leave {goal : Term} {env : EnvId} {next : Agenda} (hn : Agenda.Within L next) : Agenda.Within L (.leave goal env next)
  | refuted {checkpoint : Checkpoint} {otherwise : Alternatives} (ho : Alternatives.Within L otherwise) :
    Agenda.Within L (.refuted checkpoint otherwise)

/-- What is left to try keeps to the language. -/
inductive Alternatives.Within (L : Language) : Alternatives → Prop
  | none : Alternatives.Within L .none
  | undo {checkpoint : Checkpoint} {otherwise : Alternatives} (ho : Alternatives.Within L otherwise) :
    Alternatives.Within L (.undo checkpoint otherwise)
  | reenter {goal : Term} {env : EnvId} {otherwise : Alternatives} (ho : Alternatives.Within L otherwise) :
    Alternatives.Within L (.reenter goal env otherwise)
  | absent {next : Agenda} {otherwise : Alternatives} (hn : Agenda.Within L next)
    (ho : Alternatives.Within L otherwise) : Alternatives.Within L (.absent next otherwise)
  | disjuncts {env : EnvId} {goals : List Term} {next : Agenda} {otherwise : Alternatives}
    (hgoals : ∀ g ∈ goals, L.goal g) (hn : Agenda.Within L next) (ho : Alternatives.Within L otherwise) :
    Alternatives.Within L (.disjuncts env goals next otherwise)
  | candidates {c : Cursor} {next : Agenda} {otherwise : Alternatives} (htarget : c.target.Avoids L.words)
    (hcandidates : ∀ t ∈ c.candidates, t.Avoids L.words) (hn : Agenda.Within L next)
    (ho : Alternatives.Within L otherwise) : Alternatives.Within L (.candidates c next otherwise)
  | rules {x : Expansion} {next : Agenda} {otherwise : Alternatives} (hgoal : x.goal.Avoids L.words)
    (hvar : x.goal.isVariable = false) (hrules : ∀ t ∈ x.rules, L.Rule t) (hn : Agenda.Within L next)
    (ho : Alternatives.Within L otherwise) : Alternatives.Within L (.rules x next otherwise)
end

/-- What the machine is about to do keeps to the language. -/
inductive Control.Within (L : Language) : Control → Prop
  | prove {goal : Term} {env : EnvId} {next : Agenda} {otherwise : Alternatives} (hgoal : L.goal goal)
    (hn : next.Within L) (ho : otherwise.Within L) : Control.Within L (.prove goal env next otherwise)
  | proved {next : Agenda} {otherwise : Alternatives} (hn : next.Within L) (ho : otherwise.Within L) :
    Control.Within L (.proved next otherwise)
  | failed {otherwise : Alternatives} (ho : otherwise.Within L) : Control.Within L (.failed otherwise)

/-- The machine keeps to the language: its goals are of the language, and its store is without the words. -/
structure Machine.Within (L : Language) (m : Machine) : Prop where
  control : m.control.Within L
  store : m.work.store.Avoids L.words

/-! ### Candidates and rules -/

/-- Terms with different functors cannot be made equal. -/
theorem Store.unify_of_functor_ne (s : Store) {x y : Term} {ex ey : EnvId} {f g : String} (hx : x.functor? = some f)
    (hy : y.functor? = some g) (hne : f ≠ g) : (s.unify x ex y ey).1 = false := by
  have hat : unifyAt allowance x ex y ey s = (false, s) := by
    cases x with
    | var v => cases hx
    | sym a =>
      cases y with
      | var v => cases hy
      | sym b =>
        have hab : a ≠ b := fun h => hne (by rw [← Option.some.inj hx, ← Option.some.inj hy, h])
        change (a == b, s) = _
        rw [beq_eq_false_iff_ne.2 hab]
      | compound g ts => rfl
    | compound h args =>
      cases y with
      | var v => cases hy
      | sym b => rfl
      | compound k ts =>
        have hhk : h ≠ k := fun h => hne (by rw [← Option.some.inj hx, ← Option.some.inj hy, h])
        change (if h = k then _ else (false, s)) = _
        rw [if_neg hhk]
  unfold unify
  rw [hat]
  rfl

/-- A compound with a word for its functor cannot be made equal to a goal that is without the words. -/
theorem Store.unify_of_mem_words {words : List String} (s : Store) {goal : Term} {env env' : EnvId} {f : String}
    {args : List Term} (hgoal : goal.Avoids words) (hvar : goal.isVariable = false) (hf : f ∈ words) :
    (s.unify goal env (.compound f args) env').1 = false := by
  cases goal with
  | var v => cases hvar
  | sym a => exact s.unify_of_functor_ne rfl rfl fun h => Term.avoids_sym.1 hgoal (h ▸ hf)
  | compound g ts => exact s.unify_of_functor_ne rfl rfl fun h => (Term.avoids_compound.1 hgoal).1 (h ▸ hf)

namespace Machine

variable {next : Agenda} {otherwise : Alternatives} {w : Workspace}

theorem within_failed (ho : otherwise.Within L) (hw : w.store.Avoids L.words) : Within L ⟨.failed otherwise, w⟩ :=
  ⟨.failed ho, hw⟩

theorem within_proved (hn : next.Within L) (ho : otherwise.Within L) (hw : w.store.Avoids L.words) :
    Within L ⟨.proved next otherwise, w⟩ :=
  ⟨.proved hn ho, hw⟩

theorem within_tryCandidates {c : Cursor} {candidates : List Term} (htarget : c.target.Avoids L.words)
    (hcandidates : ∀ t ∈ candidates, t.Avoids L.words) (hn : next.Within L) (ho : otherwise.Within L)
    (hw : w.store.Avoids L.words) : Ensures (tryCandidates src c next otherwise candidates w) (Within L) := by
  obtain ⟨s, names⟩ := w
  induction candidates with
  | nil =>
    rw [tryCandidates_nil]
    exact Ensures.tick (Ensures.pure (within_failed ho hw))
  | cons t rest ih =>
    rw [List.forall_mem_cons] at hcandidates
    have hunify := hw.unify htarget hcandidates.1 c.env c.candidateEnv
    generalize h : s.unify c.target c.env t c.candidateEnv = r at hunify
    obtain ⟨ok, s'⟩ := r
    cases ok with
    | true =>
      rw [tryCandidates_of_unify h]
      have hothers : (c.others rest next otherwise).Within L := by
        have hrest : Alternatives.Within L (.candidates { c with candidates := rest } next otherwise) :=
          .candidates htarget hcandidates.2 hn ho
        unfold Cursor.others
        dsimp only
        split
        · exact .reenter hrest
        · exact hrest
      exact Ensures.tick (Ensures.tick (Ensures.pure (within_proved hn hothers hunify)))
    | false =>
      rw [tryCandidates_of_not_unify (congrArg Prod.fst h)]
      exact Ensures.tick (ih hcandidates.2)

theorem within_tryRules {x : Expansion} {rules : List Term} (hgoal : x.goal.Avoids L.words)
    (hvar : x.goal.isVariable = false) (hrules : ∀ t ∈ rules, L.Rule t) (hn : next.Within L) (ho : otherwise.Within L)
    (hw : w.store.Avoids L.words) : Ensures (tryRules src x next otherwise rules w) (Within L) := by
  obtain ⟨s, names⟩ := w
  induction rules with
  | nil =>
    rw [tryRules_nil]
    exact Ensures.tick (Ensures.pure (within_failed ho hw))
  | cons t rest ih =>
    rw [List.forall_mem_cons] at hrules
    have ih := ih hrules.2
    have hothers : Alternatives.Within L (.rules { x with rules := rest } next otherwise) :=
      .rules hgoal hvar hrules.2 hn ho
    cases hrule : t.asRule with
    | some rule =>
      obtain ⟨head, body⟩ := rule
      obtain ⟨hhead, hbody⟩ := hrules.1.rule head body hrule
      have hunify := hw.unify hhead hgoal x.ruleEnv x.env
      generalize h : s.unify head x.ruleEnv x.goal x.env = r at hunify
      obtain ⟨ok, s'⟩ := r
      cases ok with
      | true =>
        rw [tryRules_of_head hrule h]
        exact Ensures.tick (Ensures.pure (within_proved (.goals hbody (.leave hn)) hothers hunify))
      | false =>
        rw [tryRules_of_not_head hrule (congrArg Prod.fst h)]
        exact Ensures.tick ih
    | none =>
      rcases hrules.1.sentence hrule with hsentence | ⟨f, args, rfl, hf⟩
      · have hunify := hw.unify hgoal hsentence x.env x.ruleEnv
        generalize h : s.unify x.goal x.env t x.ruleEnv = r at hunify
        obtain ⟨ok, s'⟩ := r
        cases ok with
        | true =>
          rw [tryRules_of_sentence hrule h]
          exact Ensures.tick (Ensures.tick (Ensures.pure (within_proved hn (.reenter hothers) hunify)))
        | false =>
          rw [tryRules_of_not_sentence hrule (congrArg Prod.fst h)]
          exact Ensures.tick ih
      · rw [tryRules_of_not_sentence hrule (s.unify_of_mem_words hgoal hvar hf)]
        exact Ensures.tick ih

theorem within_select {selecting : Selecting Selection} (h : Yields L.words selecting L.Selects) (origin : Cursor.Origin)
    (env : EnvId) (hn : next.Within L) (ho : otherwise.Within L) (hw : w.store.Avoids L.words) :
    Ensures (select src origin env selecting next otherwise w) (Within L) := by
  unfold select
  refine Ensures.bind (h w hw) fun r hr => ?_
  obtain ⟨selection, w'⟩ := r
  cases selection with
  | none => exact Ensures.pure (within_failed ho hr.1)
  | some selection =>
    obtain ⟨htarget, hcandidates⟩ := hr.2 selection rfl
    exact within_tryCandidates htarget hcandidates hn ho (hr.1.rollback _)

theorem within_expand (hL : L.Closed src) {goal : Term} (hgoal : goal.Avoids L.words) (hvar : goal.isVariable = false)
    (env : EnvId) (hn : next.Within L) (ho : otherwise.Within L) (hw : w.store.Avoids L.words) :
    Ensures (expand src goal env next otherwise w) (Within L) := by
  have hrules (t : Term) (ht : t ∈ src.rules.lookupIn w.store goal env) : L.Rule t :=
    hL.rule t (Theory.mem_of_mem_lookupIn ht)
  unfold expand
  exact Ensures.tick (within_tryRules hgoal hvar hrules hn ho hw.newEnv)

/-! ### Steps -/

theorem within_proveResolved (hL : L.Closed src) (hask : L.Answers ask) {goal : Term} (hgoal : L.goal goal) (env : EnvId)
    (hn : next.Within L) (ho : otherwise.Within L) (hw : w.store.Avoids L.words) :
    Ensures (proveResolved src ask goal env next otherwise w) (Within L) := by
  have hadmits := hL.goal_admits goal hgoal
  unfold proveResolved
  split
  · exact Ensures.pure (within_failed ho hw)
  · exact Ensures.pure (within_proved hn (.undo ho) hw)
  · rename_i x y heq
    rw [heq] at hadmits
    have hunify := hw.unify hadmits.1 hadmits.2 env env
    dsimp only
    split
    · rename_i s hs
      rw [hs] at hunify
      exact Ensures.pure (within_proved hn (.undo ho) hunify)
    · rename_i s hs
      rw [hs] at hunify
      exact Ensures.pure (within_failed ho hunify)
  · rename_i x y heq
    rw [heq] at hadmits
    have hunify := hw.unify hadmits.1 hadmits.2 env env
    dsimp only
    split
    · rename_i s hs
      rw [hs] at hunify
      exact Ensures.pure (within_failed ho (hunify.rollback _))
    · rename_i s hs
      rw [hs] at hunify
      exact Ensures.pure (within_proved hn ho hunify)
  · rename_i terms heq
    rw [heq] at hadmits
    refine Ensures.bind (Yields.inputs env hadmits w hw) fun r hr => ?_
    obtain ⟨values, w'⟩ := r
    cases values with
    | none => exact Ensures.pure (within_failed ho hr.1)
    | some values =>
      refine Ensures.pure ⟨?_, hr.1⟩
      dsimp only
      split
      · exact .proved hn ho
      · exact .failed ho
  · rename_i g heq
    rw [heq] at hadmits
    exact Ensures.pure ⟨.prove hadmits (.refuted ho) (.absent hn ho), hw⟩
  · rename_i goals heq
    rw [heq] at hadmits
    exact Ensures.pure (within_proved (.goals hadmits hn) ho hw)
  · rename_i goals heq
    rw [heq] at hadmits
    exact Ensures.pure (within_failed (.disjuncts hadmits hn ho) hw)
  · rename_i item list heq
    rw [heq] at hadmits
    exact within_select (Language.yields_selectMembers hadmits.1 hadmits.2 env) _ _ hn ho hw
  · rename_i g name heq
    rw [heq] at hadmits
    exact within_select (Language.yields_selectDataset hL hadmits name env) _ _ hn ho hw
  · rename_i f args heq
    rw [heq] at hadmits
    exact within_select (Language.yields_selectComputed hL hask hadmits env) _ _ hn ho hw
  · rename_i heq
    rw [heq] at hadmits
    have hvar : goal.isVariable = false := by
      cases goal with
      | var v => cases heq
      | sym a => rfl
      | compound f args => rfl
    exact within_expand hL hadmits hvar env hn ho hw
  · rename_i heq
    rw [heq] at hadmits
    exact Ensures.tick (within_select (Language.yields_selectFacts hL hadmits env) _ _ hn ho hw)

theorem within_advance (hn : next.Within L) (ho : otherwise.Within L) (hw : w.store.Avoids L.words) :
    Ensures (advance src next otherwise w) (Within L) := by
  cases hn with
  | done => exact Ensures.pure (within_proved .done ho hw)
  | goals hrest hn =>
    rename_i env rest next
    cases rest with
    | nil => exact Ensures.pure (within_proved hn ho hw)
    | cons goal rest =>
      rw [List.forall_mem_cons] at hrest
      exact Ensures.pure ⟨.prove hrest.1 (.goals hrest.2 hn) ho, hw⟩
  | leave hn => exact Ensures.tick (Ensures.pure (within_proved hn (.reenter ho) hw))
  | refuted ho' => exact Ensures.pure (within_failed ho' (hw.rollback _))

theorem within_retreat (ho : otherwise.Within L) (hw : w.store.Avoids L.words) :
    Ensures (retreat src otherwise w) (Within L) := by
  cases ho with
  | none => exact Ensures.pure (within_failed .none hw)
  | undo ho => exact Ensures.pure (within_failed ho (hw.rollback _))
  | reenter ho => exact Ensures.tick (Ensures.pure (within_failed ho hw))
  | absent hn ho => exact Ensures.pure (within_proved hn ho hw)
  | disjuncts hgoals hn ho =>
    rename_i env goals next otherwise
    cases goals with
    | nil => exact Ensures.pure (within_failed ho hw)
    | cons goal rest =>
      rw [List.forall_mem_cons] at hgoals
      exact Ensures.pure ⟨.prove hgoals.1 hn (.disjuncts hgoals.2 hn ho), hw⟩
  | candidates htarget hcandidates hn ho => exact within_tryCandidates htarget hcandidates hn ho (hw.rollback _)
  | rules hgoal hvar hrules hn ho => exact within_tryRules hgoal hvar hrules hn ho (hw.rollback _)

/-- A goal with its variables resolved is a goal of the language. -/
theorem goal_resolve (hL : L.Closed src) {s : Store} (hs : s.Avoids L.words) {goal : Term} (hgoal : L.goal goal)
    (env : EnvId) : L.goal (s.resolve goal env).term := by
  cases goal with
  | var v => exact hL.goal_value v _ hgoal (Store.resolveAt_avoids hs (Term.avoids_var v))
  | sym a => rwa [Store.resolve_sym]
  | compound f args => rwa [Store.resolve_compound]

/-- One step of a machine that keeps to the language. -/
theorem within_step (hL : L.Closed src) (hask : L.Answers ask) {m : Machine} (hm : m.Within L) :
    Ensures (step src ask m) (Within L) := by
  obtain ⟨control, w⟩ := m
  obtain ⟨hcontrol, hw⟩ := hm
  cases hcontrol with
  | prove hgoal hn ho => exact within_proveResolved hL hask (goal_resolve hL hw hgoal _) _ hn ho hw
  | proved hn ho => exact within_advance hn ho hw
  | failed ho => exact within_retreat ho hw

end Machine

/-! ### Searches -/

namespace Search

variable {s : Search} {bound : Nat}

/-- The search keeps to the language as long as it goes on. -/
structure Within (L : Language) (s : Search) : Prop where
  template : s.template.Avoids L.words
  machine : s.status = .running → s.machine.Within L

theorem within_start {config : Config} {template goal : Term} (htemplate : template.Avoids L.words)
    (hgoal : L.goal goal) : (start config template goal).Within L := by
  refine ⟨htemplate, fun _ => ⟨.prove hgoal .done .none, ?_⟩⟩
  refine Store.Avoids.newEnv fun v env c hc => ?_
  simp [Store.lookup] at hc

section

variable (hL : L.Closed src) (hask : L.Answers ask)

include hL hask

theorem ensures_run {m : Machine} (hm : m.Within L) :
    Ensures (run src ask bound m) fun outcome =>
      ∀ otherwise w, outcome = .answer otherwise w → Machine.Within L ⟨.proved .done otherwise, w⟩ := by
  rintro meter outcome meter' h otherwise w rfl
  have hstep (m : Machine) (meter : Meter) (m' : Machine) (meter' : Meter) (hm : m.Within L)
      (_ : meter.spent < src.config.limit) (h : (m.step src ask).run meter = .ok (m', meter')) : m'.Within L :=
    Machine.within_step hL hask hm h
  exact run_keeps (P := fun m _ => m.Within L) hstep hm h

theorem ensures_nextWithin (hs : s.Within L) :
    Ensures (s.nextWithin src ask bound) fun r => (∀ t ∈ r.1, t.Avoids L.words) ∧ r.2.Within L := by
  unfold nextWithin
  split
  · rename_i hrunning
    rw [map_eq_pure_bind]
    refine (ensures_run hL hask (hs.machine hrunning)).bind fun outcome houtcome => Ensures.pure ?_
    cases outcome with
    | answer otherwise w =>
      obtain ⟨hcontrol, hw⟩ := houtcome otherwise w rfl
      cases hcontrol with
      | proved hn ho =>
        refine ⟨fun t ht => ?_, hs.template, fun _ => ⟨.failed ho, hw.plug _ _ _ _⟩⟩
        rw [← Option.some.inj ht]
        exact (Store.plug_fills hw _ _ _ _).avoids hs.template
    | exhausted w => exact ⟨fun _ ht => (by cases ht), hs.template, fun h => by cases h⟩
    | limitReached w => exact ⟨fun _ ht => (by cases ht), hs.template, fun h => by cases h⟩
  · exact Ensures.pure ⟨fun _ ht => (by cases ht), hs⟩

theorem ensures_pullWithin (n : Nat) (hs : s.Within L) {found : List Term} (hfound : ∀ t ∈ found, t.Avoids L.words) :
    Ensures (s.pullWithin src ask bound n found) fun r => ∀ t ∈ r.1, t.Avoids L.words := by
  induction n generalizing s found with
  | zero => exact Ensures.pure hfound
  | succ n ih =>
    unfold pullWithin
    refine (ensures_nextWithin hL hask hs).bind fun r hr => ?_
    obtain ⟨answer, s⟩ := r
    cases answer with
    | none => exact Ensures.pure hfound
    | some t => exact ih hr.2 (List.forall_mem_cons.2 ⟨hr.1 t rfl, hfound⟩)

theorem ensures_takeWithin (hs : s.Within L) :
    Ensures (s.takeWithin src ask bound) fun ts => ∀ t ∈ ts, t.Avoids L.words :=
  (ensures_pullWithin hL hask bound hs (by simp)).bind fun _ hr => Ensures.pure fun t ht => hr t (List.mem_reverse.1 ht)

end

end Search

namespace Language

/-- Answers to questions within the language are without the words. -/
theorem answers_answerWithin (hL : L.Closed src) (hask : L.Answers ask) (bound : Nat) :
    L.Answers (answerWithin src ask bound) := by
  intro q hq
  cases q with
  | all template goal => exact Search.ensures_takeWithin hL hask (Search.within_start hq.1 hq.2)
  | first template goal =>
    refine (Search.ensures_nextWithin hL hask (Search.within_start hq.1 hq.2)).bind fun r hr => Ensures.pure fun t ht => ?_
    exact hr.1 t (Option.mem_toList.1 ht)
  | value e =>
    refine Ensures.bind (ensuresOption_valueOf hL hask e hq) fun r hr => Ensures.pure fun t ht => ?_
    exact hr t (Option.mem_toList.1 ht)

/-- Questions within questions are answered without the words, at any depth. -/
theorem answers_consultWithin (hL : L.Closed src) (bound n : Nat) : L.Answers (consultWithin src bound n) := by
  induction n with
  | zero => exact fun _ _ => Ensures.throw _
  | succ n ih => exact answers_answerWithin hL ih bound

end Language

end Deduction
