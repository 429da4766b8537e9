import Deduction.Proofs.Groundness.Steps
import Deduction.Proofs.Search.Indexing
import Deduction.Proofs.Variants.Answers

/-!
# Answers of safe programs

Atoms have ground answers in a safe program (`answers_ground`). What the walk over the bodies takes for granted has to be
so: that goals bind surely what it says that they bind, that no name of a variable comes up again as an invented one, and
that no term is cut off.
-/

namespace Deduction

open Search (queryEnv)

variable {watched : Option Term} {template goal : Term} {s s' : Store} {cp cp' : Checkpoint} {o : Alternatives}
  {src : Sources} {ask ask' : Answerer} {agg : Bool}

/-! ### Searches -/

/-- In a search that is not watched, the bindings that there were do not matter. -/
theorem Agenda.Fits.mono_unwatched {ts values : List Term} {env : EnvId} {next : Agenda}
    (h : Agenda.Fits agg Option.none s cp ts env values next) (hcp : cp ≤ cp') :
    Agenda.Fits agg Option.none s cp' ts env values next := by
  cases h with
  | watched hwatched => cases hwatched
  | aside hn => exact .aside (hn.mono hcp)

theorem Alternatives.Fits.mono_unwatched : {o : Alternatives} → Alternatives.Fits agg Option.none s cp o → cp ≤ cp' →
    Alternatives.Fits agg Option.none s cp' o
  | _, .none, _ => .none
  | _, .undo hcp' ho, hcp => .undo (Nat.le_trans hcp' hcp) ho
  | _, .reenter ho, hcp => .reenter (ho.mono_unwatched hcp)
  | _, .absent hn ho, hcp => .absent (hn.mono_unwatched hcp) (ho.mono_unwatched hcp)
  | _, .disjuncts hgoals ho, hcp => .disjuncts (fun g hg => (hgoals g hg).mono_unwatched hcp) (ho.mono_unwatched hcp)
  | _, .candidates hcp' henv hcandidateEnv hn ho, hcp => .candidates (Nat.le_trans hcp' hcp) henv hcandidateEnv hn ho
  | _, .rules hcp' hx hn ho, hcp => .rules (Nat.le_trans hcp' hcp) hx hn ho

namespace Search

variable {x : Search}

/-- The outcome of a run of a machine that fits. -/
inductive Outcome.Fits (agg : Bool) (watched : Option Term) (template : Term) : Outcome → Prop
  | answer {o : Alternatives} {w : Workspace} (hm : Machine.Fits agg watched ⟨.proved .done o, w⟩)
    (hplugs : w.plugsWithin queryEnv [template] = true) : Outcome.Fits agg watched template (.answer o w)
  | exhausted {w : Workspace} : Outcome.Fits agg watched template (.exhausted w)
  | limitReached {w : Workspace} : Outcome.Fits agg watched template (.limitReached w)

/-- The machine of the search fits, and it is watched for the template of the search, if at all. -/
structure Fits (agg : Bool) (watched : Option Term) (x : Search) : Prop where
  template : ∀ t, watched = some t → t = x.template
  machine : x.status = .running → x.machine.Fits agg watched

theorem Fits.ended (h : x.Fits agg watched) {status : Status} (hstatus : status ≠ .running) (m : Machine) :
    Fits agg watched { x with machine := m, status } :=
  ⟨h.template, fun hrunning => absurd hrunning hstatus⟩

section

variable (hsrc : src.IsGrounding agg) (hask : ask.Grounds agg ask')

include hsrc hask

theorem secures_runShallow (template : Term) (n : Nat) {m : Machine} (h : m.Fits agg watched) :
    Secures (runShallow src ask template n m) (run src ask' n m) (Outcome.Fits agg watched template) := by
  induction n generalizing m with
  | zero =>
    intro meter outcome meter' hrun
    cases hrun
  | succ n ih =>
    unfold runShallow run
    refine (Secures.of_ensures (Ensures.any (Meter.isSpent src.config))).bind fun spent _ => ?_
    split
    · exact .pure .limitReached
    by_cases hshallow : m.isShallow src template = true
    · have hstep : Secures (m.step src ask >>= runShallow src ask template n) (m.step src ask' >>= run src ask' n)
          (Outcome.Fits agg watched template) := (h.step hsrc hask hshallow).bind fun m hm => ih hm
      rw [if_pos hshallow]
      obtain ⟨control, w⟩ := m
      cases control with
      | prove goal env next o => exact hstep
      | proved next o =>
        cases next with
        | done => exact .pure (.answer h hshallow)
        | goals | leave | refuted => exact hstep
      | failed o =>
        cases o with
        | none => exact .pure .exhausted
        | undo | reenter | absent | disjuncts | candidates | rules => exact hstep
    · rw [if_neg hshallow]
      intro meter outcome meter' hrun
      cases hrun

/-- The next answer is ground if the search is watched, and the search goes on to others. -/
theorem secures_nextShallow (h : x.Fits agg watched) : Secures (x.nextShallow src ask) (x.next src ask') fun r =>
    r.2.Fits agg watched ∧ ∀ t, r.1 = some t → watched.isSome = true → t.isGround = true := by
  rw [← nextWithin_stepBound]
  unfold nextShallow nextWithin
  split
  · rename_i hrunning
    rw [map_eq_pure_bind, map_eq_pure_bind]
    refine (secures_runShallow hsrc hask x.template stepBound (h.machine hrunning)).bind fun outcome houtcome => .pure ?_
    cases houtcome with
    | exhausted => exact ⟨h.ended (by simp) _, fun _ ht => by cases ht⟩
    | limitReached => exact ⟨h.ended (by simp) _, fun _ ht => by cases ht⟩
    | @answer o w hm hplugs =>
      obtain ⟨s, names⟩ := w
      obtain ⟨t, st, hplug, -⟩ := Workspace.exists_plug hplugs
      have hplugged : s.plug x.template queryEnv queryEnv names = (t, st) := Store.plugAt_of_within hplug
      have hext : s.Extends st.1 := (Store.Renames.of_plugWithin hplug).isExtension
      unfold conclude answer resume
      dsimp only
      rw [hplugged]
      obtain ⟨hquery, hcontrol⟩ := hm
      cases hcontrol with
      | proved hn ho =>
        cases watched with
        | none =>
          -- Plugging the template may bind variables of the query to invented ones, but here nothing hangs on that.
          refine ⟨⟨h.template, fun _ => ⟨?_, .failed ?_⟩⟩, fun _ _ hwatched => by cases hwatched⟩
          · exact hext.size_envs.symm ▸ hquery
          · exact (Alternatives.Fits.returnsLike (.of_extends hext) ho).mono_unwatched hext.size_trail
        | some template =>
          have htemplate : template = x.template := h.template template rfl
          rcases hn.cases with ⟨_, A, hwatched, -, hn⟩ | haside
          · cases hwatched
            cases hn with
            | done hgrounds =>
              -- The least grounding is one of those that ground the template: plugging leaves the store as it is.
              have hsettled : ∀ v ∈ x.template.vars, s.Settles v queryEnv := htemplate ▸ hgrounds s.Settles s.solves_settles
              obtain ⟨rfl, hground⟩ := Store.plugWithin_of_settles hplug hsettled
              refine ⟨⟨h.template, fun _ => ⟨hquery, .failed ho⟩⟩, fun u hu _ => ?_⟩
              exact Option.some.inj hu ▸ hground
          · cases haside with
            | done hwatched => cases hwatched
  · exact .pure ⟨h, fun _ ht => by cases ht⟩

theorem secures_pullShallow (n : Nat) (h : x.Fits agg watched) {found : List Term}
    (hfound : watched.isSome = true → ∀ t ∈ found, t.isGround = true) :
    Secures (x.pullShallow src ask n found) (x.pull src ask' n found) fun r =>
      watched.isSome = true → ∀ t ∈ r.1, t.isGround = true := by
  induction n generalizing x found with
  | zero => exact .pure hfound
  | succ n ih =>
    unfold pullShallow pull
    refine (secures_nextShallow hsrc hask h).bind fun r hr => ?_
    obtain ⟨given, x₁⟩ := r
    obtain ⟨hx₁, hgiven⟩ := hr
    cases given with
    | none => exact .pure hfound
    | some t => exact ih hx₁ fun hwatched => List.forall_mem_cons.2 ⟨hgiven t rfl hwatched, hfound hwatched⟩

theorem secures_takeShallow (n : Nat) (h : x.Fits agg watched) :
    Secures (x.takeShallow src ask n) (x.take src ask' n) fun ts =>
      watched.isSome = true → ∀ t ∈ ts, t.isGround = true := by
  refine (secures_pullShallow hsrc hask n h fun _ _ ht => by cases ht).bind fun r hr => .pure fun hwatched t ht => ?_
  exact hr hwatched t (List.mem_reverse.1 ht)

end

/-- A ground question is watched. -/
theorem fits_start (config : Config) (hgoal : goal.IsBasic agg) (hquestion : Term.IsGroundQuestion template goal) :
    (start config template goal).Fits agg (some template) := by
  refine ⟨fun _ ht => (Option.some.inj ht).symm, fun _ => ⟨Nat.zero_lt_one, .prove ?_ .none⟩⟩
  obtain ⟨b, hb, hcovers⟩ := hquestion
  refine Agenda.fitsIn_of_grounds rfl (Store.KeepsTo.of_empty agg [] _).newEnv (.goals
    ⟨Nat.zero_lt_one, List.forall_mem_singleton.2 hgoal, ?_, ?_, ?_, Term.bindGoalsSurely_singleton.2 hb⟩ (.done ?_))
  · exact fun _ hne => absurd rfl hne
  · exact fun _ _ hv => hv
  · exact fun _ _ _ hv => by cases hv
  · exact fun γ hγ v hv => hγ.2 v (hcovers v hv)

/-- Of other questions nothing is expected. -/
theorem fits_start_unwatched (config : Config) (template : Term) (hgoal : goal.IsBasic agg) :
    (start config template goal).Fits agg none := by
  refine ⟨fun _ ht => (by cases ht), fun _ => ⟨Nat.zero_lt_one, .prove (.aside ?_) .none⟩⟩
  exact .goals Nat.zero_lt_one (List.forall_mem_singleton.2 hgoal) (.done rfl)

end Search

/-- Questions at any depth have ground answers if what they ask is bound surely. -/
theorem grounds_consult (hsrc : src.IsGrounding agg) (n : Nat) : (consultShallow src n).Grounds agg (consultAt src n) := by
  induction n with
  | zero =>
    intro template goal hgoal meter ts meter' hrun
    cases hrun
  | succ n ih =>
    intro template goal hgoal
    unfold consultShallow consultAt
    by_cases hquestion : Term.IsGroundQuestion template goal
    · refine (Search.secures_takeShallow hsrc ih stepBound (Search.fits_start src.config hgoal hquestion)).imp ?_
      exact fun ts hts _ => hts rfl
    · refine (Search.secures_takeShallow hsrc ih stepBound (Search.fits_start_unwatched src.config template hgoal)).imp ?_
      exact fun ts _ h => absurd h hquestion

/-! ### Queries -/

/-- As long as the search is shallow, its answers are those of the shallow search, and they are ground if it is watched. -/
theorem Solutions.answers_of_fits {z z' : Solutions} (hsrc : z.sources.IsGrounding agg) (hz : z.search.Fits agg watched)
    {n : Nat} {found : List (Option Term)} (h : answersShallow n z = .ok (found, z')) :
    answers n z = .ok (found, z') ∧ (watched.isSome = true → ∀ t, some t ∈ found → t.isGround = true) := by
  induction n generalizing z found with
  | zero =>
    cases h
    exact ⟨rfl, fun _ _ ht => by cases ht⟩
  | succ n ih =>
    obtain ⟨answer, z₁, rest, hnext, hrest, rfl⟩ := answersShallow_succ_eq_ok h
    obtain ⟨hrun, hsources⟩ := nextShallow_eq_ok hnext
    obtain ⟨hrun', hz₁, hground⟩ := Search.secures_nextShallow hsrc (grounds_consult hsrc stepBound) hz hrun
    obtain ⟨hanswers, hall⟩ := ih (hsources.symm ▸ hsrc) hz₁ hrest
    refine ⟨?_, fun hwatched t ht => ?_⟩
    · exact answers_succ (next_of_run hrun' hsources) hanswers
    · rcases List.mem_cons.1 ht with heq | ht
      · exact hground t heq.symm hwatched
      · exact hall hwatched t ht

/-- A safe sentence grounds what it answers if it binds the variables of its head on every way. -/
theorem Term.isGrounding_of_isSafe {t : Term} (hsafe : t.isSafe = true) (hsurely : t.isSurelySafe = true)
    (hbasic : areBasicGoals agg t.body = true)
    (hnames : agg = true → t.isRule = true → ∀ v ∈ t.vars, ∀ n : Nat, v ≠ s!"V{n}") : t.IsGrounding agg := by
  refine ⟨fun head goals hrule => ?_, fun hagg head goals hrule => ?_, fun head goals hrule => ?_, fun hnone => ?_⟩
  · exact isBasic_of_areBasicGoals goals (body_of_asRule hrule ▸ hbasic)
  · exact hnames hagg (by rw [isRule, hrule]; rfl)
  · unfold isSurelySafe at hsurely
    simp only [hrule, Option.any_eq_true, isCovered_iff] at hsurely
    exact hsurely
  · rcases Impartial.isRuleSentence_cases t with hfact | ⟨head, goals, hrule⟩ | ⟨condition, action, rfl⟩ | haside
    · exact .inl (isGround_of_isSafe hsafe hfact)
    · rw [hnone] at hrule
      cases hrule
    · exact .inr ⟨"transition", rfl, by decide⟩
    · obtain ⟨f, args, rfl, rfl | rfl⟩ := Impartial.functor_of_isAside haside
      · exact .inr ⟨"handler", rfl, by decide⟩
      · exact .inr ⟨"definition", rfl, by decide⟩

theorem Sources.isGrounding_ofProgram {program : List Term} (hsafe : ∀ t ∈ program, t.isSafe = true)
    (hprogram : ∀ t ∈ program, t.IsGrounding agg) (config : Config) (datasets : List (String × Theory)) :
    (Sources.ofProgram program config datasets).IsGrounding agg where
  fact s goal env t ht := by
    have hmem : t ∈ (Theory.ofList .full (splitProgram program).1).toList := Theory.mem_of_mem_lookupIn ht
    rw [Theory.toList_ofList] at hmem
    obtain ⟨⟨hmem, hfact⟩, -⟩ := mem_facts_split.1 hmem
    exact isGround_of_isSafe (hsafe t hmem) hfact
  rule t ht := by
    have hmem : t ∈ (Theory.ofList .rule (splitProgram program).2).toList := ht
    rw [Theory.toList_ofList] at hmem
    exact hprogram t (mem_of_mem_rules hmem)

/-- Atoms are ground questions. -/
theorem Term.isGroundQuestion_atom (agg : Bool) {query : Term} {f : String} (hquery : query.functor? = some f)
    (hf : isRelation f = true) : query.IsBasic agg ∧ IsGroundQuestion query query := by
  cases query with
  | var v => cases hquery
  | sym a =>
    obtain rfl := Option.some.inj hquery
    exact ⟨.symbol (.inr (.inr hf)), [], rfl, fun v hv => by cases hv⟩
  | compound g args =>
    obtain rfl := Option.some.inj hquery
    exact ⟨.atom hf, _, bindGoalSurely_atom hf args [], fun v hv => mem_bindAll.2 (.inr (mem_vars_compound.1 hv))⟩

/-- Atoms have ground answers in a safe program, if the variables of the head of a rule are bound on every way through
its disjunctions and collected goals, the names of its variables are not those that aggregates invent, and no term is cut
off. -/
theorem answers_ground {program : List Term} (hsafe : ∀ t ∈ program, t.isSafe = true) (agg : Bool)
    (hbasic : ∀ t ∈ program, Term.areBasicGoals agg t.body = true)
    (hsurely : ∀ t ∈ program, Term.areStraightGoals t.body = true ∨ t.isSurelySafe = true)
    (hnames : agg = true → ∀ t ∈ program, t.isRule = true → ∀ v ∈ t.vars, ∀ n : Nat, v ≠ s!"V{n}") (config : Config)
    (datasets : List (String × Theory)) {query : Term} {f : String} (hquery : query.functor? = some f)
    (hf : isRelation f = true) {n : Nat}
    (hshallow : ((Sources.ofProgram program config datasets).solutions query query).staysShallow n = true)
    {found : List (Option Term)} {s : Solutions}
    (h : ((Sources.ofProgram program config datasets).solutions query query).answers n = .ok (found, s)) :
    ∀ t, some t ∈ found → t.isGround = true := by
  have hprogram (t : Term) (ht : t ∈ program) : t.IsGrounding agg := by
    have hsure := (hsurely t ht).elim (Term.isSurelySafe_of_isSafe (hsafe t ht) (hbasic t ht)) id
    exact Term.isGrounding_of_isSafe (hsafe t ht) hsure (hbasic t ht) fun hagg => hnames hagg t ht
  have hsrc := Sources.isGrounding_ofProgram hsafe hprogram config datasets
  obtain ⟨hgoal, hquestion⟩ := Term.isGroundQuestion_atom agg hquery hf
  unfold Solutions.staysShallow at hshallow
  cases hz : ((Sources.ofProgram program config datasets).solutions query query).answersShallow n with
  | error e =>
    rw [hz] at hshallow
    cases hshallow
  | ok r =>
    obtain ⟨found₀, z⟩ := r
    obtain ⟨hanswers, hground⟩ := Solutions.answers_of_fits hsrc (Search.fits_start config hgoal hquestion) hz
    rw [h] at hanswers
    cases hanswers
    exact hground rfl

/-- Towns, roads and ferries between them, and the towns that a road or a ferry leaves, each with all towns. -/
def towns : List Term :=
  [.compound "town" [.sym "a"], .compound "town" [.sym "b"], .compound "road" [.sym "a", .sym "b"],
    .compound "ferry" [.sym "b", .sym "c"],
    .rule (.compound "linked" [.var "X", .var "L"]) [.compound "town" [.var "X"],
      .compound "or" [.compound "road" [.var "X", .var "Y"], .compound "ferry" [.var "X", .var "Z"]],
      .compound "not" [.compound "road" [.var "X", .var "X"]],
      .compound "setofall" [.var "W", .compound "town" [.var "W"], .var "L"]]]

/-- The towns that are linked with which towns. -/
def linkedTowns : Solutions :=
  let query := .compound "linked" [.var "A", .var "B"]
  (Sources.ofProgram towns {} []).solutions query query

/-- The ferry binds no `Y` and the road no `Z`, but neither is in the head. -/
theorem answers_ground_towns : ∃ found s, linkedTowns.answers 3 = .ok (found, s) ∧
    found = [some (.compound "linked" [.sym "a", .list [.sym "a", .sym "b"]]),
      some (.compound "linked" [.sym "b", .list [.sym "a", .sym "b"]]), none] ∧
    ∀ t, some t ∈ found → t.isGround = true := by
  have hanswers : (linkedTowns.answers 3).toOption.map Prod.fst =
      some [some (.compound "linked" [.sym "a", .list [.sym "a", .sym "b"]]),
        some (.compound "linked" [.sym "b", .list [.sym "a", .sym "b"]]), none] := by decide +kernel
  have hvars : ∀ t ∈ towns, ∀ v ∈ t.vars, v.toList.head? ≠ some 'V' := by decide +kernel
  have hspelled (v : String) (hv : v.toList.head? ≠ some 'V') (n : Nat) : v ≠ s!"V{n}" := by
    rintro rfl
    exact hv (by simp [toString])
  cases h : linkedTowns.answers 3 with
  | error e =>
    rw [h] at hanswers
    cases hanswers
  | ok r =>
    obtain ⟨found, s⟩ := r
    rw [h] at hanswers
    refine ⟨found, s, rfl, Option.some.inj hanswers, ?_⟩
    exact answers_ground (by decide +kernel) true (by decide +kernel) (by decide +kernel)
      (fun _ t ht _ v hv => hspelled v (hvars t ht v hv)) {} [] (f := "linked") rfl (by decide) (by decide +kernel) h

end Deduction
