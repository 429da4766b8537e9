import Mathlib.Data.Nat.Init
import Deduction.Proofs.Search.Hypothetical
import Deduction.Proofs.Termination.Machines
import Deduction.Proofs.Termination.Written

/-!
# Every call for an answer ends

Where all goals are written out, a search comes to its next answer, to the end of what there is to try, or to the limit,
in finitely many steps (`answers_settle`). From the limit on everything has ended. Below it, whatever counts something
leads to where one more was counted, and what counts nothing only takes goals and expressions apart that were written
down beforehand. A goal that is bound to a negation of itself is taken apart for ever, and nothing is counted
(`Machine.runsOn_of_cyclic`).
-/

namespace Deduction

variable {src : Sources} {evaluates : Bool} {n : Nat}

/-- Machines that keep to written goals end, and the values of written expressions are found, whenever so much was
counted. -/
structure Sources.EndsFrom (src : Sources) (evaluates : Bool) (n : Nat) : Prop where
  machine : MachinesEndFrom (written evaluates) src n
  value : ∀ e, (written evaluates).expr e → (Question.value e).Finishes src n

/-! ### What a goal leads to -/

/-- The value of an expression is asked for. -/
theorem finishes_value {e : Term} (he : FinishesOption n fun b d => valueOf src (consultWithin src b d) e) :
    (Question.value e).Finishes src n := by
  intro meter hmeter
  refine settles_consultWithin ?_
  exact (he meter hmeter).bind fun _ _ _ _ => Settles.pure trivial

theorem partsEndFrom_compound {L : Language} {f : String} {args : List Term}
    (hconnective : isConnective f = true → ∀ g ∈ args, GoalEndsFrom L src n g)
    (hcomputed : isConnective f = false → ∀ env,
      FinishesIn L.words n fun b d => selectComputed src (consultWithin src b d) f args env) :
    (Goal.ofTerm src.rules (.compound f args)).PartsEndFrom L src n := by
  have hrelation (r : String) : (Goal.ofRelation src.rules r).PartsEndFrom L src n := by
    unfold Goal.ofRelation
    split <;> trivial
  unfold Goal.ofTerm
  split
  all_goals rename_i heq
  all_goals cases heq
  · split <;> trivial
  · split <;> trivial
  · trivial
  · split <;> trivial
  · have hgoals := hconnective (by decide)
    split
    · exact hgoals _ (by simp)
    · trivial
  · exact hconnective (by decide)
  · exact hconnective (by decide)
  · trivial
  · rename_i hnot hand hor _
    split
    · refine hcomputed ?_
      unfold isConnective
      simp [show f ≠ "and" from hand, show f ≠ "or" from hor, show f ≠ "not" from hnot]
    · exact hrelation f

section

variable (h : src.WrittenOut evaluates) (hbeyond : src.EndsFrom evaluates (n + 1))

include h hbeyond

theorem goalEndsFrom_compound {f : String} {args : List Term} (hgoal : isWrittenGoal evaluates (.compound f args) = true)
    (hconnective : isConnective f = true → ∀ g ∈ args, GoalEndsFrom (written evaluates) src n g)
    (hquestion : isAggregate f = true → ∀ g ∈ args[1]?, ∀ goal, g.Fills (dataWords evaluates) goal →
      GoalEndsFrom (written evaluates) src n goal)
    (hexpr : f = "evaluate" → ∀ t ∈ args[0]?, ∀ e, t.Fills (dataWords evaluates) e →
      FinishesOption n fun b d => valueOf src (consultWithin src b d) e)
    (hmap : f = "map" → ∀ r item v, args[0]? = some (.sym r) → item.Avoids (dataWords evaluates) →
      GoalEndsFrom (written evaluates) src n (.apply r [item, .var v])) :
    GoalEndsFrom (written evaluates) src n (.compound f args) := by
  have hL := closed_written h
  refine goalEndsFrom_of_parts hL hbeyond.machine hgoal rfl (partsEndFrom_compound hconnective fun hf env => ?_)
  refine finishes_selectComputed hL (written_computes hgoal hf) ?_ ?_ ?_ env
  · exact fun hf t ht e hfills => finishes_value (hexpr hf t ht e hfills)
  · exact fun hf r item v hr hitem => ((hmap hf r item v hr hitem).finishes _).2
  · exact fun hf g hg goal hfills template _ => ((hquestion hf g hg goal hfills).finishes template).1

/-- A goal that is no connective, no question and no evaluation leads to no other goal. -/
theorem goalEndsFrom_of_plain {goal : Term} (hgoal : isWrittenGoal evaluates goal = true)
    (hplain : ∀ f args, goal = .compound f args →
      isConnective f = false ∧ isAggregate f = false ∧ f ≠ "evaluate" ∧ f ≠ "map") :
    GoalEndsFrom (written evaluates) src n goal := by
  cases goal with
  | var v => simp [isWrittenGoal] at hgoal
  | sym a =>
    refine goalEndsFrom_of_parts (closed_written h) hbeyond.machine hgoal rfl ?_
    unfold Goal.ofTerm
    split
    all_goals rename_i heq
    all_goals cases heq
    · trivial
    · trivial
    · unfold Goal.ofRelation
      split <;> trivial
  | compound f args =>
    obtain ⟨hconnective, haggregate, hevaluate, hmap⟩ := hplain f args rfl
    refine goalEndsFrom_compound h hbeyond hgoal ?_ ?_ (fun hf => absurd hf hevaluate) fun hf => absurd hf hmap
    · exact fun hf => by simp [hconnective] at hf
    · exact fun hf => by simp [haggregate] at hf

/-- The goals that a plain relation makes of data. -/
theorem goalEndsFrom_apply {r : String} (hr : isPlainRelation evaluates r = true) {ts : List Term}
    (hts : ∀ t ∈ ts, t.Avoids (dataWords evaluates)) : GoalEndsFrom (written evaluates) src n (.apply r ts) := by
  refine goalEndsFrom_of_plain h hbeyond (isWrittenGoal_apply hr hts) fun f args heq => ?_
  simp only [isPlainRelation, Bool.and_eq_true, Bool.not_eq_true', decide_eq_true_eq] at hr
  unfold Term.apply at heq
  split at heq
  · cases heq
  · cases heq
    exact ⟨hr.1.1.1.1, hr.1.1.1.2, hr.1.1.2, hr.1.2⟩

end

/-! ### Data have values -/

mutual
theorem finishes_valueOf_of_avoids (h : src.WrittenOut true) (hbeyond : src.EndsFrom true (n + 1)) :
    (t : Term) → t.Avoids questionWords → FinishesOption n fun b d => valueOf src (consultWithin src b d) t
  | .var _, _ => by
    unfold valueOf
    exact .failure
  | .sym _, _ => by
    unfold valueOf
    exact .pure _
  | .compound f args, ht => by
    obtain ⟨hf, hargs⟩ := Term.avoids_compound.1 ht
    have hne (w : String) (hw : w ∈ questionWords) : f ≠ w := fun heq => hf (heq ▸ hw)
    refine finishes_compound (closed_written h) hbeyond.value ⟨rfl, isWrittenExpr_of_avoids _ ht⟩ ?_ ?_ ?_
    · intro hquestion
      unfold isAggregate at hquestion
      simp [hne "setofall" (by decide), hne "countofall" (by decide), hne "choose" (by decide)] at hquestion
    · exact fun hif => absurd hif (hne "if" (by decide))
    · exact fun _ _ _ => finishes_valueOf_of_avoids_of_mem h hbeyond args hargs

theorem finishes_valueOf_of_avoids_of_mem (h : src.WrittenOut true) (hbeyond : src.EndsFrom true (n + 1)) :
    (ts : List Term) → (∀ t ∈ ts, t.Avoids questionWords) →
      ∀ t ∈ ts, FinishesOption n fun b d => valueOf src (consultWithin src b d) t
  | [], _ => by simp
  | t :: ts, hts => by
    rw [List.forall_mem_cons] at hts ⊢
    exact ⟨finishes_valueOf_of_avoids h hbeyond t hts.1, finishes_valueOf_of_avoids_of_mem h hbeyond ts hts.2⟩
end

/-! ### Written goals and expressions

A goal within a goal has bindings applied before it is asked for, and the goals within that one again. So the recursion
is over the goal as it was written, for all goals that it becomes with terms in the place of variables. -/

mutual
theorem goalEndsFrom_of_written (h : src.WrittenOut evaluates) (hbeyond : src.EndsFrom evaluates (n + 1)) :
    (t u : Term) → t.Fills (dataWords evaluates) u → isWrittenGoal evaluates t = true →
      GoalEndsFrom (written evaluates) src n u
  | .var _, _, _, ht => by simp [isWrittenGoal] at ht
  | .sym a, _, .sym _, ht => goalEndsFrom_of_plain h hbeyond ht fun f args heq => by cases heq
  | .compound f ts, _, hfills, ht => by
    have hu := isWrittenGoal_fills _ _ hfills ht
    cases hfills with
    | compound _ hargs =>
      unfold isWrittenGoal at ht
      refine goalEndsFrom_compound h hbeyond hu ?_ ?_ ?_ ?_
      · intro hf
        rw [if_pos hf] at ht
        exact goalsEndFrom_of_written h hbeyond ts _ hargs ht
      · intro hf
        have hconnective : isConnective f = false := by
          unfold isAggregate at hf
          simp only [Bool.or_eq_true, decide_eq_true_eq] at hf
          rcases hf with rfl | rfl <;> rfl
        rw [if_neg (by simp [hconnective]), if_pos hf] at ht
        exact questionEndsFrom_of_written h hbeyond ts _ hargs ht
      · rintro rfl
        rw [if_neg (by decide), if_neg (by decide), if_pos rfl, Bool.and_eq_true] at ht
        exact finishes_evaluation_of_written h hbeyond ts _ ht.1 hargs ht.2
      · rintro rfl r item v hr hitem
        rw [if_neg (by decide), if_neg (by decide), if_neg (by decide), if_pos rfl] at ht
        refine goalEndsFrom_apply h hbeyond (isPlainRelation_of_mapping (isWrittenMapping_fills hargs ht) hr) ?_
        exact List.forall_mem_cons.2 ⟨hitem, List.forall_mem_singleton.2 (Term.avoids_var v)⟩

theorem goalsEndFrom_of_written (h : src.WrittenOut evaluates) (hbeyond : src.EndsFrom evaluates (n + 1)) :
    (ts us : List Term) → List.Forall₂ (Term.Fills (dataWords evaluates)) ts us → areWrittenGoals evaluates ts = true →
      ∀ u ∈ us, GoalEndsFrom (written evaluates) src n u
  | [], _, .nil, _ => by simp
  | t :: ts, _, .cons hfills hrest, hts => by
    unfold areWrittenGoals at hts
    rw [Bool.and_eq_true] at hts
    rw [List.forall_mem_cons]
    exact ⟨goalEndsFrom_of_written h hbeyond t _ hfills hts.1, goalsEndFrom_of_written h hbeyond ts _ hrest hts.2⟩

theorem questionEndsFrom_of_written (h : src.WrittenOut evaluates) (hbeyond : src.EndsFrom evaluates (n + 1)) :
    (ts us : List Term) → List.Forall₂ (Term.Fills (dataWords evaluates)) ts us → isWrittenQuestion evaluates ts = true →
      ∀ g ∈ us[1]?, ∀ goal, g.Fills (dataWords evaluates) goal → GoalEndsFrom (written evaluates) src n goal
  | [], _, .nil, _ => by simp
  | [_], _, .cons _ .nil, _ => by simp
  | _ :: t :: _, _, .cons _ (.cons hfills _), hts => by
    unfold isWrittenQuestion at hts
    rw [Bool.and_eq_true] at hts
    intro g hg goal hgoal
    cases hg
    exact goalEndsFrom_of_written h hbeyond t goal (hfills.trans _ hgoal) hts.2

theorem finishes_evaluation_of_written (h : src.WrittenOut evaluates) (hbeyond : src.EndsFrom evaluates (n + 1)) :
    (ts us : List Term) → evaluates = true → List.Forall₂ (Term.Fills (dataWords evaluates)) ts us →
      isWrittenEvaluation evaluates ts = true → ∀ t ∈ us[0]?, ∀ e, t.Fills (dataWords evaluates) e →
        FinishesOption n fun b d => valueOf src (consultWithin src b d) e
  | [], _, _, .nil, _ => by simp
  | t :: _, _, hev, .cons hfills _, hts => by
    unfold isWrittenEvaluation at hts
    rw [Bool.and_eq_true] at hts
    intro u hu e he
    cases hu
    exact finishes_valueOf_of_written h hbeyond t e hev (hfills.trans _ he) hts.1

theorem finishes_valueOf_of_written (h : src.WrittenOut evaluates) (hbeyond : src.EndsFrom evaluates (n + 1)) :
    (t u : Term) → evaluates = true → t.Fills (dataWords evaluates) u → isWrittenExpr evaluates t = true →
      FinishesOption n fun b d => valueOf src (consultWithin src b d) u
  | .var _, u, hev, .var _ hu, _ => by
    subst hev
    exact finishes_valueOf_of_avoids h hbeyond u hu
  | .sym _, _, _, .sym _, _ => by
    unfold valueOf
    exact .pure _
  | .compound f ts, _, hev, hfills, ht => by
    have hu : (written evaluates).expr _ := ⟨hev, isWrittenExpr_fills _ _ hev hfills ht⟩
    cases hfills with
    | compound _ hargs =>
      unfold isWrittenExpr at ht
      refine finishes_compound (closed_written h) hbeyond.value hu ?_ ?_ ?_
      · intro hf template goal rest hus
        subst hus
        have hif : f ≠ "if" := by
          rintro rfl
          revert hf
          decide
        rw [if_neg hif, if_pos (by simpa using hf)] at ht
        have hgoal := questionEndsFrom_of_written h hbeyond ts _ hargs ht goal rfl goal (.refl _ goal)
        exact hgoal.finishes template
      · intro hf
        rw [if_pos hf] at ht
        exact finishes_branches_of_written h hbeyond ts _ hev hargs ht
      · intro hif haggregate hchoose
        rw [if_neg hif, if_neg (by simp [haggregate, hchoose]), Bool.and_eq_true] at ht
        exact finishes_exprs_of_written h hbeyond ts _ hev hargs ht.2

theorem finishes_exprs_of_written (h : src.WrittenOut evaluates) (hbeyond : src.EndsFrom evaluates (n + 1)) :
    (ts us : List Term) → evaluates = true → List.Forall₂ (Term.Fills (dataWords evaluates)) ts us →
      areWrittenExprs evaluates ts = true → ∀ u ∈ us, FinishesOption n fun b d => valueOf src (consultWithin src b d) u
  | [], _, _, .nil, _ => by simp
  | t :: ts, _, hev, .cons hfills hrest, hts => by
    unfold areWrittenExprs at hts
    rw [Bool.and_eq_true] at hts
    rw [List.forall_mem_cons]
    exact ⟨finishes_valueOf_of_written h hbeyond t _ hev hfills hts.1,
      finishes_exprs_of_written h hbeyond ts _ hev hrest hts.2⟩

theorem finishes_branches_of_written (h : src.WrittenOut evaluates) (hbeyond : src.EndsFrom evaluates (n + 1)) :
    (ts us : List Term) → evaluates = true → List.Forall₂ (Term.Fills (dataWords evaluates)) ts us →
      areWrittenBranches evaluates ts = true →
        FinishesOption n fun b d => valueOfBranch src (consultWithin src b d) us
  | [], _, _, .nil, _ => by
    unfold valueOfBranch
    exact .failure
  | [_], _, _, .cons _ .nil, _ => by
    unfold valueOfBranch
    exact .failure
  | condition :: value :: rest, _, hev, .cons hcondition (.cons hvalue hrest), hts => by
    unfold areWrittenBranches at hts
    rw [Bool.and_eq_true, Bool.and_eq_true] at hts
    have hends := goalEndsFrom_of_written h hbeyond condition _ hcondition hts.1.1
    exact finishes_valueOfBranch (hends.finishes _).2 (finishes_valueOf_of_written h hbeyond value _ hev hvalue hts.1.2)
      (finishes_branches_of_written h hbeyond rest _ hev hrest hts.2)
end

/-! ### From the limit down -/

/-- When the limit is reached, everything has ended. -/
theorem endsFrom_limit (src : Sources) (evaluates : Bool) : src.EndsFrom evaluates src.config.limit where
  machine _ _ _ hmeter _ := .spent hmeter
  value e _ := by
    refine finishes_value fun meter hmeter => ?_
    cases e with
    | var v =>
      unfold valueOf
      exact Settles.pure trivial
    | sym a =>
      unfold valueOf
      exact Settles.pure trivial
    | compound f args =>
      have hspent : (liftM (Meter.isSpent src.config) : OptionT Metered Bool).run.run meter = .ok (some true, meter) := by
        change Except.ok (some (decide (src.config.limit ≤ meter.spent)), meter) = _
        rw [decide_eq_true hmeter]
      have hvalue (b d : Nat) :
          (valueOf src (consultWithin src b d) (.compound f args)).run.run meter = .ok (none, meter) := by
        unfold valueOf
        rw [OptionT.run_bind]
        exact Metered.run_bind_eq_ok.2 ⟨some true, meter, hspent, rfl⟩
      exact ⟨none, meter, ⟨0, fun b d _ _ => hvalue b d⟩, Nat.le_refl _, trivial⟩

/-- What ends once more was counted ends. -/
theorem endsFrom_of_succ (h : src.WrittenOut evaluates) (hbeyond : src.EndsFrom evaluates (n + 1)) :
    src.EndsFrom evaluates n where
  machine := machinesEndFrom_of_goals hbeyond.machine fun g hg =>
    goalEndsFrom_of_written h hbeyond g g (.refl _ g) hg
  value e he := finishes_value (finishes_valueOf_of_written h hbeyond e e he.1 (.refl _ e) he.2)

/-- Everything ends. -/
theorem endsFrom_zero (h : src.WrittenOut evaluates) : src.EndsFrom evaluates 0 :=
  Nat.decreasingInduction (motive := fun n _ => src.EndsFrom evaluates n) (fun _ _ hbeyond => endsFrom_of_succ h hbeyond)
    (endsFrom_limit src evaluates) (Nat.zero_le src.config.limit)

/-! ### Calls for answers -/

/-- A search that gives no answer has ended, and one that has ended gives none. -/
theorem Search.ensures_ended (src : Sources) (ask : Answerer) (bound : Nat) (s : Search) :
    Ensures (s.nextWithin src ask bound) fun r => (r.1 = none ∨ s.status ≠ .running) → r.2.status ≠ .running := by
  unfold nextWithin
  split
  · rename_i hrunning
    rw [map_eq_pure_bind]
    refine (Ensures.any _).bind fun outcome _ => Ensures.pure fun hended => ?_
    have hnone : (s.conclude outcome).1 = none := hended.resolve_right (not_not_intro hrunning)
    cases outcome with
    | answer otherwise w => cases hnone
    | exhausted w => exact Search.Status.noConfusion
    | limitReached w => exact Search.Status.noConfusion
  · rename_i hended
    exact Ensures.pure fun _ => hended

namespace Solutions

/-- The query keeps to written goals. -/
structure Within (src : Sources) (evaluates : Bool) (s : Solutions) : Prop where
  sources_eq : s.sources = src
  search : s.search.Within (written evaluates)

/-- From some bound on, a call for an answer is answered. -/
theorem next_settles (h : src.WrittenOut evaluates) {s : Solutions} (hs : s.Within src evaluates) :
    ∃ answer s' N, (∀ n, N ≤ n → s.nextWithin n = .ok (answer, s')) ∧ s'.Within src evaluates ∧
      ((answer = none ∨ s.search.status ≠ .running) → s'.search.status ≠ .running) := by
  have hends (hrunning : s.search.status = .running) : s.search.machine.Ends src s.search.template s.meter :=
    (endsFrom_zero h).machine _ (hs.search.machine hrunning) s.meter (Nat.zero_le _) _
  have hL := closed_written h
  have hwithin (b d : Nat) : Ensures (s.search.nextWithin src (consultWithin src b d) b) fun r =>
      (∀ t ∈ r.1, t.Avoids (dataWords evaluates)) ∧ r.2.Within (written evaluates) :=
    Search.ensures_nextWithin hL (Language.answers_consultWithin hL b d) hs.search
  have hended (b d : Nat) := Search.ensures_ended src (consultWithin src b d) b s.search
  obtain ⟨r, meter, ⟨N, hrun⟩, -, hr⟩ := ((Search.settles_nextWithin hends).ensures hwithin).ensures hended
  refine ⟨r.1, { s with search := r.2, meter }, N, fun n hn => ?_, ⟨hs.sources_eq, hr.2.1.2⟩, hr.1⟩
  unfold nextWithin
  rw [hs.sources_eq, hrun n n hn hn]
  rfl

end Solutions

/-- Every call for an answer settles after finitely many steps, if all goals are written out: it gives an answer, or the
search has ended. Or else it comes to a store in which variables lead round. -/
theorem answers_settle (h : src.WrittenOut evaluates) {template query : Term}
    (htemplate : template.Avoids (dataWords evaluates)) (hquery : isWrittenGoal evaluates query = true) (k : Nat) :
    ∃ answers s N, (∀ n, N ≤ n → (src.solutions template query).answersStraight n k = .ok (answers, s) ∨
        (src.solutions template query).answersStraight n k = .error .endless) ∧
      (none ∈ answers → s.search.status = .exhausted ∨ s.search.status = .limitReached) := by
  have hsettles (k : Nat) (s : Solutions) (hs : s.Within src evaluates) :
      ∃ answers s' N, (∀ n, N ≤ n → s.answersStraight n k = .ok (answers, s') ∨ s.answersStraight n k = .error .endless) ∧
        ((none ∈ answers ∨ s.search.status ≠ .running) → s'.search.status ≠ .running) := by
    induction k generalizing s with
    | zero => exact ⟨[], s, 0, fun _ _ => .inl rfl, by simp⟩
    | succ k ih =>
      obtain ⟨answer, s₁, N, hnext, hs₁, hended⟩ := Solutions.next_settles h hs
      obtain ⟨rest, s₂, N', hrest, hended'⟩ := ih s₁ hs₁
      refine ⟨answer :: rest, s₂, max N N', fun n hn => ?_, fun hnone => hended' ?_⟩
      · rcases s.nextStraight_cases n with hendless | hsame
        · exact .inr (Solutions.answersStraight_of_error hendless)
        rw [Solutions.answersStraight_succ (hsame.trans (hnext n (by omega)))]
        exact (hrest n (by omega)).imp (congrArg _) (congrArg _)
      · rw [List.mem_cons] at hnone
        rcases hnone with (hnone | hnone) | hnone
        · exact .inr (hended (.inl hnone.symm))
        · exact .inl hnone
        · exact .inr (hended (.inr hnone))
  have hstart : Solutions.Within src evaluates (src.solutions template query) :=
    ⟨rfl, Search.within_start htemplate hquery⟩
  obtain ⟨answers, s, N, hanswers, hended⟩ := hsettles k _ hstart
  refine ⟨answers, s, N, hanswers, fun hnone => ?_⟩
  have hstatus := hended (.inl hnone)
  cases hs : s.search.status with
  | running => exact absurd hs hstatus
  | exhausted => exact .inl rfl
  | limitReached => exact .inr rfl

/-- The player at the place wins. -/
def wins (place : Term) : Term := .compound "wins" [place]

/-- There is a move from one place to the other. -/
def moves (place place' : Term) : Term := .compound "move" [place, place']

/-- A player wins who can move to where the other player does not win; all moves lead to and fro. -/
def game : Sources where
  facts := .ofList .full [moves (.sym "a") (.sym "b"), moves (.sym "b") (.sym "a")]
  rules := .ofList .rule
    [.rule (wins (.var "X")) [moves (.var "X") (.var "Y"), .compound "not" [wins (.var "Y")]]]
  config := { limit := 20 }

/-- Whether the game is won is not decided in finitely many inferences, but the question is answered in finitely many
steps: the limit is reached, and no variables lead round on the way. -/
theorem answers_settle_game :
    (∃ answers s N, (∀ n, N ≤ n →
        (game.solutions (.sym "true") (wins (.sym "a"))).answersStraight n 1 = .ok (answers, s) ∨
          (game.solutions (.sym "true") (wins (.sym "a"))).answersStraight n 1 = .error .endless) ∧
        (none ∈ answers → s.search.status = .exhausted ∨ s.search.status = .limitReached)) ∧
      ((game.solutions (.sym "true") (wins (.sym "a"))).answersStraight stepBound 1).toOption.map
        (fun r => (r.1, r.2.limitReached)) = some ([none], true) := by
  have hrules : game.rules.toList =
      [.rule (wins (.var "X")) [moves (.var "X") (.var "Y"), .compound "not" [wins (.var "Y")]]] := rfl
  have hwritten : game.WrittenOut false := by
    refine ⟨fun t _ => Term.avoids_nil_words t, fun _ _ t _ => Term.avoids_nil_words t,
      fun _ _ _ t _ => Term.avoids_nil_words t, ?_, fun h => by cases h⟩
    rw [hrules, List.forall_mem_singleton]
    refine ⟨fun head body h => ?_, fun h => by cases h⟩
    cases h
    have hbody : ∀ g ∈ [moves (.var "X") (.var "Y"), .compound "not" [wins (.var "Y")]], isWrittenGoal false g = true := by
      decide
    exact ⟨Term.avoids_nil_words _, hbody⟩
  exact ⟨answers_settle hwritten (Term.avoids_nil_words _) (by decide) 1, by decide +kernel⟩

/-! ### A goal that is bound to its own negation -/

/-- No number of steps leads the machine to an outcome. -/
def Machine.RunsOn (src : Sources) (ask : Answerer) (m : Machine) (meter : Meter) : Prop :=
  ∀ n, (Search.run src ask n m).run meter = .error .stepBound

theorem Machine.RunsOn.of_step {ask : Answerer} {m m' : Machine} {meter : Meter} (h : m'.RunsOn src ask meter)
    (hmeter : meter.spent < src.config.limit) (hanswer : ∀ otherwise w, m ≠ ⟨.proved .done otherwise, w⟩)
    (hexhausted : ∀ w, m ≠ ⟨.failed .none, w⟩) (hstep : (m.step src ask).run meter = .ok (m', meter)) :
    m.RunsOn src ask meter := by
  intro n
  cases n with
  | zero => rfl
  | succ n =>
    rw [run_step hmeter hanswer hexhausted hstep]
    exact h n

/-- A variable that is bound to its own negation is a goal that no number of steps decides, and nothing is counted on the
way. -/
theorem Machine.runsOn_of_cyclic {ask : Answerer} {v : String} {env : EnvId} {w : Workspace}
    (hcyclic : w.store.resolve (.var v) env = ⟨.compound "not" [.var v], env⟩) {meter : Meter}
    (hmeter : meter.spent < src.config.limit) (next : Agenda) (o : Alternatives) :
    Machine.RunsOn src ask ⟨.prove (.var v) env next o, w⟩ meter := by
  intro n
  induction n generalizing next o with
  | zero => rfl
  | succ n ih =>
    have hstep : (step src ask ⟨.prove (.var v) env next o, w⟩).run meter =
        .ok (⟨.prove (.var v) env (.refuted w.store.checkpoint o) (.absent next o), w⟩, meter) := by
      unfold step
      simp only [hcyclic]
      rfl
    rw [run_step hmeter (by simp) (by simp) hstep]
    exact ih _ _

/-- Goals of which the first binds a variable to its own negation, and the second is the variable. -/
def selfNegation : List Term := [.compound "same" [.var "X", .compound "not" [.var "X"]], .var "X"]

/-- Without the occurs check, no bound is enough for such a goal. -/
theorem Search.runsOn_selfNegation (src : Sources) (ask : Answerer) (hcheck : src.config.occursCheck = false)
    (hlimit : 0 < src.config.limit) (template : Term) :
    (start src.config template (.compound "and" selfNegation)).machine.RunsOn src ask {} := by
  unfold start
  rw [hcheck]
  generalize NameSupply.after [template, .compound "and" selfNegation] = names
  have hgoal (o : Alternatives) : Machine.RunsOn src ask ⟨.prove (.var "X") 0 (.goals 0 [] .done) o,
      ⟨(Store.newEnv {}).2.bind "X" 0 ⟨.compound "not" [.var "X"], 0⟩, names⟩⟩ {} := by
    refine Machine.runsOn_of_cyclic rfl ?_ _ _
    exact hlimit
  have hsame : Machine.RunsOn src ask ⟨.prove (.compound "same" [.var "X", .compound "not" [.var "X"]]) 0
      (.goals 0 [.var "X"] .done) .none, ⟨(Store.newEnv {}).2, names⟩⟩ {} :=
    .of_step (.of_step (hgoal _) hlimit (by simp) (by simp) rfl) hlimit (by simp) (by simp) rfl
  exact .of_step (.of_step hsame hlimit (by simp) (by simp) rfl) hlimit (by simp) (by simp) rfl

end Deduction
