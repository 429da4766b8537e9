import Deduction.Proofs.Datalog.Moves
import Deduction.Proofs.Dedup
import Deduction.Proofs.Variables

/-!
# Answers of Datalog programs

All answers of a query to a Datalog program are sound: their instances are in the least model. If the search has tried
everything, the answers are complete as well: every instance of the query in the model is an instance of an answer
(`Sources.findAll_leastModel`). Applying the bindings to an answer must not be cut off for that by the end of the
allowance, and for the second part no attempt to unify must be.
-/

namespace Deduction

open Store (Flat IsFlatGoal IsArgument IsNew ReturnsLike)

namespace Machine

variable {U : Term → Prop} {Q : String → Prop} {program : List Term} {src : Sources} {m : Machine} {w : Workspace}
  {otherwise : Alternatives} {query : Term} {a : Term}

/-! ### Going on after an answer -/

/-- Moves invent no names. -/
theorem names_move (src : Sources) (m : Machine) : (move src m).work.names = m.work.names := by
  have hcandidates (c : Cursor) (next : Agenda) (otherwise : Alternatives) (ts : List Term) (w : Workspace) :
      (moveCandidates c next otherwise ts w).work.names = w.names := by
    unfold moveCandidates
    split <;> rfl
  have hrules (x : Expansion) (next : Agenda) (otherwise : Alternatives) (ts : List Term) (w : Workspace) :
      (moveRules x next otherwise ts w).work.names = w.names := by
    unfold moveRules
    split <;> rfl
  obtain ⟨control, w⟩ := m
  cases control with
  | prove goal env next otherwise =>
    unfold move moveGoal
    dsimp only
    split
    all_goals first
      | rfl
      | exact hrules _ _ _ _ _
      | exact hcandidates _ _ _ _ _
      | split <;> rfl
  | proved next otherwise =>
    cases next with
    | goals env rest next => cases rest <;> rfl
    | _ => rfl
  | failed otherwise =>
    cases otherwise with
    | disjuncts env goals next otherwise => cases goals <;> rfl
    | candidates c next otherwise => exact hcandidates _ _ _ _ _
    | rules x next otherwise => exact hrules _ _ _ _ _
    | _ => rfl

theorem resume_extends (template : Term) (otherwise : Alternatives) (w : Workspace) :
    w.store.Extends (Search.resume template otherwise w).work.store := Store.plug_extends ..

/-- The machine that goes on after an answer is a machine on the program. -/
theorem IsDatalog.resume (hm : (⟨.proved .done otherwise, w⟩ : Machine).IsDatalog U Q program) (template : Term) :
    (Search.resume template otherwise w).IsDatalog U Q program := by
  obtain ⟨hsize, -, -, hother⟩ := hm
  have hext := resume_extends template otherwise w
  exact ⟨hext.size_envs.symm ▸ hsize, (hother.returnsLike (.of_extends hext)).mono hext.size_trail⟩

/-- After an answer, what was offered before is among the values of the query, or still offered. -/
theorem IsDatalog.gives_resume (hm : (⟨.proved .done otherwise, w⟩ : Machine).IsDatalog U Q program)
    (template : Term) :
    (⟨.proved .done otherwise, w⟩ : Machine).Gives U program query a ↔
      (∃ θ : Valuation, θ.Respects w.store ∧ (∀ v env, U (θ v env)) ∧ θ.read Search.queryEnv query = a) ∨
        (Search.resume template otherwise w).Gives U program query a := by
  have hlike := ReturnsLike.of_extends (resume_extends template otherwise w)
  have hiff (θ : Valuation) := hm.2.2.2.offers_iff (M := LeastModel U program) (θ := θ) hlike
  constructor
  · rintro ⟨θ, hθ, ⟨hrespects, -⟩ | h, ha⟩
    · exact Or.inl ⟨θ, hrespects, hθ, ha⟩
    · exact Or.inr ⟨θ, hθ, (hiff θ).2 h, ha⟩
  · rintro (⟨θ, hrespects, hθ, ha⟩ | ⟨θ, hθ, h, ha⟩)
    · exact ⟨θ, hθ, Or.inl ⟨hrespects, trivial⟩, ha⟩
    · exact ⟨θ, hθ, Or.inr ((hiff θ).1 h), ha⟩

/-- A machine that has tried everything gives nothing. -/
theorem not_gives_none : ¬ (⟨.failed .none, w⟩ : Machine).Gives U program query a := by
  rintro ⟨θ, -, h, -⟩
  exact h

end Machine

/-! ### Queries -/

section Query

variable {U : Term → Prop} {program : List Term} {query : Term} {config : Config} {datasets : List (String × Theory)}
  {start : Meter}

/-- The query itself is a goal in the environment of the query. -/
theorem isDatalogGoal_query (hquery : query.isAtom = true) (hU : IsUniverse U (query :: program)) :
    IsDatalogGoal U (· ∈ query.vars) 1 query Search.queryEnv := by
  refine ⟨hquery, ⟨?_, fun a ha => ?_⟩, Nat.zero_lt_one⟩
  · cases query with
    | var v => cases hquery
    | sym b => rfl
    | compound f args => rfl
  · cases query with
    | var v => cases hquery
    | sym b => cases ha
    | compound f args =>
      cases a with
      | var v => exact fun _ => Term.mem_vars_compound.2 ⟨_, ha, Term.mem_vars_var.2 rfl⟩
      | sym b =>
        refine hU.constant _ List.mem_cons_self b ?_
        unfold Term.constants
        rw [Term.headOrSelf_of_isAtom hquery]
        exact List.mem_flatMap.2 ⟨_, List.mem_cons_self, List.mem_filterMap.2 ⟨_, ha, rfl⟩⟩
      | compound g us =>
        rw [Term.isAtom, Bool.and_eq_true, List.all_eq_true] at hquery
        have := hquery.2 _ ha
        cases this

/-- The machine that a search starts from is on the program. -/
theorem Search.isDatalog_start (hquery : query.isAtom = true) (hU : IsUniverse U (query :: program)) :
    (Search.start config query query).machine.IsDatalog U (· ∈ query.vars) program :=
  ⟨Nat.zero_lt_one, (Flat.of_empty _ _ _ _).newEnv, isDatalogGoal_query hquery hU, .done, .none⟩

/-- It gives the instances of the query in the least model. -/
theorem Search.gives_start {a : Term} : (Search.start config query query).machine.Gives U program query a ↔
    ∃ σ : String → Term, (∀ v, U (σ v)) ∧ LeastModel U program (query.instantiate σ) ∧ query.instantiate σ = a := by
  constructor
  · rintro ⟨θ, hθ, ⟨-, hmem, -⟩ | h, rfl⟩
    · refine ⟨fun v => θ v queryEnv, fun v => hθ v _, ?_, (Valuation.read_eq_instantiate ..).symm⟩
      rw [← Valuation.read_eq_instantiate]
      exact hmem
    · exact h.elim
  · rintro ⟨σ, hσ, hmem, rfl⟩
    have hread := Valuation.read_eq_instantiate (fun v _ => σ v) queryEnv query
    refine ⟨fun v _ => σ v, fun v _ => hσ v, Or.inl ⟨fun v env c hc => ?_, ?_, trivial⟩, hread⟩
    · change (Store.newEnv { occursCheck := config.occursCheck }).2.lookup v env = some c at hc
      rw [Store.lookup_newEnv] at hc
      simp [Store.lookup] at hc
    · change LeastModel U program (Valuation.read (fun v _ => σ v) queryEnv query)
      rwa [hread]

end Query

/-! ### Answers -/

section Answers

variable (U : Term → Prop) (program : List Term) (config : Config) (datasets : List (String × Theory)) (ask : Answerer)
  (query : Term) (start : Meter)

/-- What is known of a machine that the search for a query comes to. -/
structure ComesTo (m : Machine) (meter : Meter) : Prop where
  visits : (Search.start config query query).Visits (.ofProgram program config datasets) ask start m meter
  isDatalog : m.IsDatalog U (· ∈ query.vars) program
  issued_le : (NameSupply.after [query, query]).issued ≤ m.work.names.issued

variable {U program config datasets ask query start} {m m' : Machine} {meter meter' : Meter}

namespace ComesTo

theorem step (h : ComesTo U program config datasets ask query start m meter)
    (hprogram : program.all Term.isClause = true) (hU : IsUniverse U program) (hlimit : meter.spent < config.limit)
    (hstep : (m.step (.ofProgram program config datasets) ask).run meter = .ok (m', meter')) :
    ComesTo U program config datasets ask query start m' meter' ∧
      m.Follows U (· ∈ query.vars) program query (.ofProgram program config datasets) m' := by
  obtain rfl := Machine.step_eq_move h.isDatalog.isPlain hstep
  have hfollows : m.Follows U (· ∈ query.vars) program query (.ofProgram program config datasets) _ :=
    h.isDatalog.move hprogram hU
  exact ⟨⟨h.visits.step hlimit hstep, hfollows.isDatalog, (Machine.names_move _ m).symm ▸ h.issued_le⟩, hfollows⟩

theorem resume {otherwise : Alternatives} {w : Workspace}
    (h : ComesTo U program config datasets ask query start ⟨.proved .done otherwise, w⟩ meter) :
    ComesTo U program config datasets ask query start (Search.resume query otherwise w) meter where
  visits := h.visits.resume
  isDatalog := h.isDatalog.resume query
  issued_le := Nat.le_trans h.issued_le (Store.Renames.of_plugAt _ allowance _ query (w.store, w.names)).issued_le

theorem of_visits (hprogram : program.all Term.isClause = true) (hquery : query.isAtom = true)
    (hU : IsUniverse U (query :: program))
    (h : (Search.start config query query).Visits (.ofProgram program config datasets) ask start m meter) :
    ComesTo U program config datasets ask query start m meter := by
  have hU' : IsUniverse U program := ⟨hU.nonempty, fun t ht => hU.constant t (List.mem_cons_of_mem _ ht)⟩
  induction h with
  | start => exact ⟨.start, Search.isDatalog_start hquery hU, Nat.le_refl _⟩
  | step _ hlimit hstep ih => exact (ih.step hprogram hU' hlimit hstep).1
  | resume _ ih => exact ih.resume

/-- The instances of an answer are the values that the query has where the answer is given. -/
theorem instances_answer {otherwise : Alternatives} {w : Workspace}
    (h : ComesTo U program config datasets ask query start ⟨.proved .done otherwise, w⟩ meter)
    (hgoal : IsFlatGoal U (· ∈ query.vars) Search.queryEnv query Search.queryEnv)
    (hplugs : (Search.start config query query).PlugsWithin (.ofProgram program config datasets) ask start) (a : Term) :
    (∃ σ : String → Term, (∀ v, U (σ v)) ∧ (Search.answer query w).instantiate σ = a) ↔
      ∃ θ : Valuation, θ.Respects w.store ∧ (∀ v env, U (θ v env)) ∧ θ.read Search.queryEnv query = a := by
  obtain ⟨t, s, names, hplug, hsize⟩ := Search.exists_of_plugsWithin (hplugs _ _ _ h.visits)
  have hanswer : Search.answer query w = t := congrArg Prod.fst (Store.plugAt_of_within hplug)
  have hnew : IsNew (· ∈ query.vars) w.names := fun n hn hsize =>
    NameSupply.not_mem_vars_after List.mem_cons_self (Nat.lt_of_le_of_lt h.issued_le hn) hsize
  rw [hanswer]
  exact h.isDatalog.2.1.plug_instances hnew hgoal h.isDatalog.1 hplug hsize a

end ComesTo

/-- All answers of a query to a Datalog program are sound, and they are complete if the search has tried everything. The
variables take their values from any universe that has the constants. -/
theorem Sources.findAll_leastModel (hprogram : program.all Term.isClause = true) (hquery : query.isAtom = true)
    (hU : IsUniverse U (query :: program)) {answers : List Term}
    (h : ((Sources.ofProgram program config datasets).findAll query query).run meter = .ok (answers, meter')) :
    ∃ found x, let src := Sources.ofProgram program config datasets
      let ask := consultAt src (stepBound - 1)
      let search := Search.start config query query
      (search.pull src ask stepBound []).run meter = .ok ((found, x), meter') ∧
      answers = config.dedup.apply found.reverse ∧
      (search.PlugsWithin src ask meter →
        (∀ a ∈ answers, ∀ σ : String → Term, (∀ v, U (σ v)) → LeastModel U program (a.instantiate σ)) ∧
        (x.status = .exhausted → search.UnifiesWithin src ask meter →
          ∀ σ : String → Term, (∀ v, U (σ v)) → LeastModel U program (query.instantiate σ) →
            ∃ a ∈ answers, ∃ τ : String → Term, (∀ v, U (τ v)) ∧ a.instantiate τ = query.instantiate σ)) := by
  set src := Sources.ofProgram program config datasets with hsrc
  set search := Search.start config query query with hsearch
  have hU' : IsUniverse U program := ⟨hU.nonempty, fun t ht => hU.constant t (List.mem_cons_of_mem _ ht)⟩
  have hgoal := (isDatalogGoal_query hquery hU).flat
  unfold Sources.findAll Answerer.findAll at h
  obtain ⟨terms, meter₁, hask, h⟩ := Metered.run_bind_eq_ok.1 h
  obtain ⟨rfl, rfl⟩ := Metered.run_pure_eq_ok.1 h
  have htake : (search.take src (consultAt src (stepBound - 1)) stepBound).run meter = .ok (terms, meter₁) := hask
  unfold Search.take at htake
  obtain ⟨⟨found, x⟩, meter₂, hpull, h⟩ := Metered.run_bind_eq_ok.1 htake
  obtain ⟨rfl, rfl⟩ := Metered.run_pure_eq_ok.1 h
  have hstart : ComesTo U program config datasets (consultAt src (stepBound - 1)) query meter search.machine meter :=
    ⟨.start, Search.isDatalog_start hquery hU, Nat.le_refl _⟩
  have hanswers (a : Term) : a ∈ config.dedup.apply found.reverse ↔ a ∈ found := by
    rw [DedupPolicy.mem_apply, List.mem_reverse]
  refine ⟨found, x, hpull, rfl, fun hplugs => ⟨fun a ha σ hσ => ?_, fun hexhausted hwithin σ hσ hmem => ?_⟩⟩
  · -- What is given anywhere was given at the start.
    obtain ⟨new, hnew, hkept⟩ := Search.pull_keeps
      (P := fun m m₁ => ComesTo U program config datasets (consultAt src (stepBound - 1)) query meter m m₁ ∧
        ∀ b, m.Gives U program query b → search.machine.Gives U program query b) (B := fun _ => True)
      (fun m m₁ m' m₂ hm hlimit hstep =>
        have ⟨hm', hfollows⟩ := hm.1.step hprogram hU' hlimit hstep
        ⟨hm', fun b hb => hm.2 b (hfollows.sound b hb)⟩)
      (fun otherwise w m₁ hm _ =>
        ⟨hm.1.resume, fun b hb => hm.2 b ((hm.1.isDatalog.gives_resume query).2 (Or.inr hb))⟩)
      ⟨hstart, fun _ hb => hb⟩ rfl rfl hpull
    rw [List.append_nil] at hnew
    obtain ⟨otherwise, w, m₁, ⟨hm, hgives⟩, rfl⟩ := (hkept fun _ _ => trivial).1 a (hnew ▸ (hanswers a).1 ha)
    have hvalue := (hm.instances_answer hgoal hplugs _).1 ⟨σ, hσ, rfl⟩
    obtain ⟨τ, -, hτ, heq⟩ := Search.gives_start.1 (hgives _ ((hm.isDatalog.gives_resume query).2 (Or.inl hvalue)))
    exact heq ▸ hτ
  · -- As long as no answer has the instance, it is still given.
    by_contra hnone
    obtain ⟨new, hnew, hkept⟩ := Search.pull_keeps
      (P := fun m m₁ => ComesTo U program config datasets (consultAt src (stepBound - 1)) query meter m m₁ ∧
        m.Gives U program query (query.instantiate σ))
      (B := fun a => ¬ ∃ τ : String → Term, (∀ v, U (τ v)) ∧ a.instantiate τ = query.instantiate σ)
      (fun m m₁ m' m₂ hm hlimit hstep =>
        have ⟨hm', hfollows⟩ := hm.1.step hprogram hU' hlimit hstep
        ⟨hm', hfollows.complete (hwithin m m₁ hm.1.visits) _ hm.2⟩)
      (fun otherwise w m₁ hm hB => ⟨hm.1.resume, by
        refine ((hm.1.isDatalog.gives_resume query).1 hm.2).resolve_left fun hvalue => hB ?_
        exact (hm.1.instances_answer hgoal hplugs _).2 hvalue⟩)
      ⟨hstart, Search.gives_start.2 ⟨σ, hσ, hmem, rfl⟩⟩ rfl rfl hpull
    rw [List.append_nil] at hnew
    obtain ⟨w, m₁, -, hgives⟩ := (hkept fun a ha hcovers => hnone ⟨a, (hanswers a).2 (hnew ▸ ha), hcovers⟩).2 hexhausted
    exact Machine.not_gives_none hgives

end Answers

/-! ### An example -/

def link (x y : Term) : Term := .compound "link" [x, y]

def reach (x y : Term) : Term := .compound "reach" [x, y]

/-- One link, and what is reached by following links. -/
def network : List Term :=
  [link (.sym "a") (.sym "b"),
    .rule (reach (.var "X") (.var "Y")) [link (.var "X") (.var "Y")],
    .rule (reach (.var "X") (.var "Y")) [link (.var "X") (.var "Z"), reach (.var "Z") (.var "Y")]]

/-- The answer that `b` is reached from `a` is sound, and there is no other place that is reached from there. -/
theorem findAll_network :
    ∃ meter, ((Sources.ofProgram network {} []).findAll (reach (.sym "a") (.var "W")) (reach (.sym "a") (.var "W"))).run
        {} = .ok ([reach (.sym "a") (.sym "b")], meter) ∧
      LeastModel (fun t => ∃ a, t = .sym a) network (reach (.sym "a") (.sym "b")) ∧
      ∀ a, LeastModel (fun t => ∃ a, t = .sym a) network (reach (.sym "a") (.sym a)) → a = "b" := by
  set src := Sources.ofProgram network {} []
  set query := reach (.sym "a") (.var "W")
  set search := Search.start {} query query
  set ask := consultAt src (stepBound - 1)
  have hprogram : network.all Term.isClause = true := by decide +kernel
  have hquery : query.isAtom = true := by decide +kernel
  have hU : IsUniverse (fun t => ∃ a, t = .sym a) (query :: network) := ⟨⟨_, "a", rfl⟩, fun _ _ a _ => ⟨a, rfl⟩⟩
  have hends : Search.hasEnded (Search.machineAt src search 23) = true := by decide +kernel
  have hunifies : ∀ n, n ≤ 23 → (Search.machineAt src search n).triesWithin src = true := by decide +kernel
  have hplugs : ∀ n, n ≤ 23 → Search.plugsWithin query (Search.machineAt src search n).work = true := by decide +kernel
  have hvisits {m : Machine} {meter : Meter} (h : search.Visits src ask {} m meter) :
      ∃ n, n ≤ 23 ∧ m = Search.machineAt src search n :=
    h.exists_machineAt (fun m meter hm => (ComesTo.of_visits hprogram hquery hU hm).isDatalog.isPlain) hends
  have hplugsWithin : search.PlugsWithin src ask {} := by
    intro otherwise w meter h
    obtain ⟨n, hn, hm⟩ := hvisits h
    have hw : w = (Search.machineAt src search n).work := congrArg Machine.work hm
    exact hw ▸ hplugs n hn
  have hunifiesWithin : search.UnifiesWithin src ask {} := by
    intro m meter h
    obtain ⟨n, hn, rfl⟩ := hvisits h
    exact hunifies n hn
  have hfound : (src.findAll query query).result.toOption = some [reach (.sym "a") (.sym "b")] := by decide +kernel
  have hstatus : (search.pull src ask stepBound []).result.toOption.map (fun r => r.2.status) = some .exhausted := by
    decide +kernel
  obtain ⟨meter, hrun⟩ := Metered.exists_run_of_result hfound
  obtain ⟨found, x, hpull, -, hmodel⟩ := Sources.findAll_leastModel hprogram hquery hU hrun
  obtain ⟨hsound, hcomplete⟩ := hmodel hplugsWithin
  have hexhausted : x.status = .exhausted := by
    rw [Metered.result, hpull] at hstatus
    exact Option.some.inj hstatus
  refine ⟨meter, hrun, hsound _ List.mem_cons_self (fun _ => .sym "a") fun _ => ⟨_, rfl⟩, fun a ha => ?_⟩
  obtain ⟨b, hb, τ, -, heq⟩ := hcomplete hexhausted hunifiesWithin (fun _ => .sym a) (fun _ => ⟨a, rfl⟩) ha
  rw [List.mem_singleton.1 hb] at heq
  have hargs : reach (.sym "a") (.sym "b") = reach (.sym "a") (.sym a) := heq
  simpa [reach, eq_comm] using hargs

end Deduction
