import Deduction.Proofs.Search.Asking
import Deduction.Proofs.Search.Stepwise
import Deduction.Proofs.Search.Within

/-!
# Searches in lockstep

Two sources are alike if they offer the same candidates and rules for every goal of a language, but for those that the
goal cannot be made equal to. Machines that search them within the language stay alike step by step: a candidate that does
not fit leaves no trace but a higher count. Questions that come up on the way are answered alike, so the two searches find
the same answers as long as neither reaches the limit (`alike_consultAt`). All that is needed of the steps is that they keep
machines alike (`Machine.StepsAlike`), so the same holds of searches that are interrupted on the way (`alike_consultBy`).
-/

namespace Deduction

/-! ### Candidates that do not fit -/

/-- The target cannot be made equal to the candidate, whatever else is bound. -/
def Store.Unfit (s : Store) (target : Term) (env candidateEnv : EnvId) (t : Term) : Prop :=
  ∀ s', s.Below s' → (s'.unify target env t candidateEnv).1 = false

/-- The sentence is about another functor than the goal, so neither it nor its head can be made equal to the goal. -/
def Term.Passes (goal t : Term) : Prop := ∃ f g, goal.functor? = some f ∧ t.headOrSelf.functor? = some g ∧ f ≠ g

/-- The goal is on a relation, and nothing fits it, whatever the bindings. -/
inductive Sources.Hopeless (src : Sources) (goal : Term) : Prop
  | view (hgoal : Goal.ofTerm src.rules goal = .view) (h : ∀ t ∈ src.rules.toList, goal.Passes t) : Hopeless src goal
  | base (hgoal : Goal.ofTerm src.rules goal = .base)
    (h : ∀ s env candidateEnv, ∀ t ∈ src.factsFor s goal env, s.Unfit goal env candidateEnv t) : Hopeless src goal

/-- The sources offer the same candidates and rules for every goal of the language, but for those that do not fit. A goal
that nothing fits may be of either kind. -/
structure Sources.Alike (L : Language) (src src' : Sources) : Prop extends src.DefineAlike src' where
  datasets : src.datasets = src'.datasets
  goals : ∀ goal, L.goal goal →
    Goal.ofTerm src.rules goal = Goal.ofTerm src'.rules goal ∨ src.Hopeless goal ∧ src'.Hopeless goal
  rules : ∀ goal, L.goal goal → Goal.ofTerm src.rules goal = .view → ∀ s env,
    SameExcept goal.Passes (src.rules.lookupIn s goal env) (src'.rules.lookupIn s goal env)
  facts : ∀ s goal env candidateEnv,
    SameExcept (s.Unfit goal env candidateEnv) (src.factsFor s goal env) (src'.factsFor s goal env)

theorem Sources.Alike.refl (L : Language) (src : Sources) : src.Alike L src where
  config := rfl
  definitions := .refl _ _
  datasets := rfl
  goals _ _ := .inl rfl
  rules _ _ _ _ _ := .refl _ _
  facts _ _ _ _ := .refl _ _

/-! ### What is left to prove and to try -/

mutual
/-- What is left to prove is the same but for candidates that do not fit. The bindings up to the checkpoint are those
that were there when it came up. -/
inductive Agenda.Alike (s : Store) : Checkpoint → Agenda → Agenda → Prop
  | done {cp : Checkpoint} : Agenda.Alike s cp .done .done
  | goals {cp : Checkpoint} (env : EnvId) (rest : List Term) {next next' : Agenda} (h : Agenda.Alike s cp next next') :
    Agenda.Alike s cp (.goals env rest next) (.goals env rest next')
  | leave {cp : Checkpoint} (goal : Term) (env : EnvId) {next next' : Agenda} (h : Agenda.Alike s cp next next') :
    Agenda.Alike s cp (.leave goal env next) (.leave goal env next')
  | refuted {cp cp' : Checkpoint} (hcp : cp' ≤ cp) {o o' : Alternatives} (h : Alternatives.Alike s cp' o o') :
    Agenda.Alike s cp (.refuted cp' o) (.refuted cp' o')

/-- What is left to try is the same but for candidates that do not fit. -/
inductive Alternatives.Alike (s : Store) : Checkpoint → Alternatives → Alternatives → Prop
  | none {cp : Checkpoint} : Alternatives.Alike s cp .none .none
  | undo {cp cp' : Checkpoint} (hcp : cp' ≤ cp) {o o' : Alternatives} (h : Alternatives.Alike s cp' o o') :
    Alternatives.Alike s cp (.undo cp' o) (.undo cp' o')
  | reenter {cp : Checkpoint} (goal : Term) (env : EnvId) {o o' : Alternatives} (h : Alternatives.Alike s cp o o') :
    Alternatives.Alike s cp (.reenter goal env o) (.reenter goal env o')
  | absent {cp : Checkpoint} {next next' : Agenda} (hn : Agenda.Alike s cp next next') {o o' : Alternatives}
    (h : Alternatives.Alike s cp o o') : Alternatives.Alike s cp (.absent next o) (.absent next' o')
  | disjuncts {cp : Checkpoint} (env : EnvId) (goals : List Term) {next next' : Agenda}
    (hn : Agenda.Alike s cp next next') {o o' : Alternatives} (h : Alternatives.Alike s cp o o') :
    Alternatives.Alike s cp (.disjuncts env goals next o) (.disjuncts env goals next' o')
  | candidates {cp : Checkpoint} {c : Cursor} {l : List Term} (hcp : c.checkpoint ≤ cp)
    (hc : SameExcept ((s.rollback c.checkpoint).Unfit c.target c.env c.candidateEnv) c.candidates l)
    {next next' : Agenda} (hn : Agenda.Alike s c.checkpoint next next') {o o' : Alternatives}
    (h : Alternatives.Alike s c.checkpoint o o') :
    Alternatives.Alike s cp (.candidates c next o) (.candidates { c with candidates := l } next' o')
  | rules {cp : Checkpoint} {x : Expansion} {l : List Term} (hcp : x.checkpoint ≤ cp)
    (hx : SameExcept x.goal.Passes x.rules l) {next next' : Agenda} (hn : Agenda.Alike s x.checkpoint next next')
    {o o' : Alternatives} (h : Alternatives.Alike s x.checkpoint o o') :
    Alternatives.Alike s cp (.rules x next o) (.rules { x with rules := l } next' o')
end

variable {s s' : Store}

mutual
/-- Nothing changes as long as no binding up to the checkpoint is taken back. -/
theorem Agenda.Alike.of_below : {cp cp' : Checkpoint} → {next next' : Agenda} →
    (∀ k, k ≤ cp → (s.rollback k).Below (s'.rollback k)) → cp ≤ cp' → Agenda.Alike s cp next next' →
      Agenda.Alike s' cp' next next'
  | _, _, _, _, _, _, .done => .done
  | _, _, _, _, hs, hcp, .goals env rest h => .goals env rest (h.of_below hs hcp)
  | _, _, _, _, hs, hcp, .leave goal env h => .leave goal env (h.of_below hs hcp)
  | _, _, _, _, hs, hcp, .refuted hk h =>
    .refuted (Nat.le_trans hk hcp) (h.of_below (fun k hk' => hs k (Nat.le_trans hk' hk)) (Nat.le_refl _))

theorem Alternatives.Alike.of_below : {cp cp' : Checkpoint} → {o o' : Alternatives} →
    (∀ k, k ≤ cp → (s.rollback k).Below (s'.rollback k)) → cp ≤ cp' → Alternatives.Alike s cp o o' →
      Alternatives.Alike s' cp' o o'
  | _, _, _, _, _, _, .none => .none
  | _, _, _, _, hs, hcp, .undo hk h =>
    .undo (Nat.le_trans hk hcp) (h.of_below (fun k hk' => hs k (Nat.le_trans hk' hk)) (Nat.le_refl _))
  | _, _, _, _, hs, hcp, .reenter goal env h => .reenter goal env (h.of_below hs hcp)
  | _, _, _, _, hs, hcp, .absent hn h => .absent (hn.of_below hs hcp) (h.of_below hs hcp)
  | _, _, _, _, hs, hcp, .disjuncts env goals hn h =>
    .disjuncts env goals (hn.of_below hs hcp) (h.of_below hs hcp)
  | _, _, _, _, hs, hcp, .candidates hk hc hn h =>
    have hs' := fun k hk' => hs k (Nat.le_trans hk' hk)
    .candidates (Nat.le_trans hk hcp) (hc.imp fun _ ht u hu => ht u ((hs _ hk).trans hu))
      (hn.of_below hs' (Nat.le_refl _)) (h.of_below hs' (Nat.le_refl _))
  | _, _, _, _, hs, hcp, .rules hk hx hn h =>
    have hs' := fun k hk' => hs k (Nat.le_trans hk' hk)
    .rules (Nat.le_trans hk hcp) hx (hn.of_below hs' (Nat.le_refl _)) (h.of_below hs' (Nat.le_refl _))
end

section

variable {cp : Checkpoint} {next next' : Agenda} {o o' : Alternatives}

theorem Agenda.Alike.grows (h : Agenda.Alike s s.checkpoint next next') (hs : s.Grows s') :
    Agenda.Alike s' s'.checkpoint next next' := h.of_below hs.below hs.size_trail

theorem Alternatives.Alike.grows (h : Alternatives.Alike s s.checkpoint o o') (hs : s.Grows s') :
    Alternatives.Alike s' s'.checkpoint o o' := h.of_below hs.below hs.size_trail

theorem Agenda.Alike.extends (h : Agenda.Alike s s.checkpoint next next') (hs : s.Extends s') :
    Agenda.Alike s' s.checkpoint next next' := h.of_below (Store.Grows.of_extends hs).below (Nat.le_refl _)

theorem Alternatives.Alike.extends (h : Alternatives.Alike s s.checkpoint o o') (hs : s.Extends s') :
    Alternatives.Alike s' s.checkpoint o o' := h.of_below (Store.Grows.of_extends hs).below (Nat.le_refl _)

private theorem below_rollback (s : Store) {k : Checkpoint} (hk : k ≤ cp) :
    (s.rollback k).Below ((s.rollback cp).rollback k) := by
  rw [Store.rollback_rollback hk]
  exact .refl _

theorem Agenda.Alike.rollback (h : Agenda.Alike s cp next next') (hcp : cp ≤ s.checkpoint) :
    Agenda.Alike (s.rollback cp) (s.rollback cp).checkpoint next next' := by
  have hsize : (s.rollback cp).checkpoint = cp := Store.size_trail_rollback hcp
  rw [hsize]
  exact h.of_below (fun _ hk => below_rollback s hk) (Nat.le_refl _)

theorem Alternatives.Alike.rollback (h : Alternatives.Alike s cp o o') (hcp : cp ≤ s.checkpoint) :
    Alternatives.Alike (s.rollback cp) (s.rollback cp).checkpoint o o' := by
  have hsize : (s.rollback cp).checkpoint = cp := Store.size_trail_rollback hcp
  rw [hsize]
  exact h.of_below (fun _ hk => below_rollback s hk) (Nat.le_refl _)

end

/-! ### Machines -/

/-- The machines are in the same workspace, and what they are to do is the same but for candidates that do not fit. -/
inductive Machine.Alike : Machine → Machine → Prop
  | prove {w : Workspace} (goal : Term) (env : EnvId) {next next' : Agenda} {o o' : Alternatives}
    (hn : Agenda.Alike w.store w.store.checkpoint next next')
    (ho : Alternatives.Alike w.store w.store.checkpoint o o') :
    Machine.Alike ⟨.prove goal env next o, w⟩ ⟨.prove goal env next' o', w⟩
  | proved {w : Workspace} {next next' : Agenda} {o o' : Alternatives}
    (hn : Agenda.Alike w.store w.store.checkpoint next next')
    (ho : Alternatives.Alike w.store w.store.checkpoint o o') :
    Machine.Alike ⟨.proved next o, w⟩ ⟨.proved next' o', w⟩
  | failed {w : Workspace} {o o' : Alternatives} (ho : Alternatives.Alike w.store w.store.checkpoint o o') :
    Machine.Alike ⟨.failed o, w⟩ ⟨.failed o', w⟩

namespace Machine

variable {src src' : Sources} {next next' : Agenda} {o o' : Alternatives} {names : NameSupply} {limit : Nat}

theorem alike_others {c : Cursor} {l l' : List Term} (hcp : c.checkpoint = s.checkpoint) (hext : s.Extends s')
    (hc : SameExcept (s.Unfit c.target c.env c.candidateEnv) l l') (hn : Agenda.Alike s s.checkpoint next next')
    (ho : Alternatives.Alike s s.checkpoint o o') (k : List Term) :
    Alternatives.Alike s' s'.checkpoint (c.others l next o) ({ c with candidates := k }.others l' next' o') := by
  have hrest : Alternatives.Alike s' s'.checkpoint (.candidates { c with candidates := l } next o)
      (.candidates { c with candidates := l' } next' o') := by
    refine .candidates ?_ ?_ ?_ ?_
    · exact hcp ▸ hext.size_trail
    · dsimp only
      rwa [hcp, hext.rollback_eq]
    · exact hcp ▸ hn.extends hext
    · exact hcp ▸ ho.extends hext
  unfold Cursor.others
  dsimp only
  split
  · exact .reenter _ _ hrest
  · exact hrest

/-- A candidate that does not fit is passed over, without a trace but in the meter. -/
theorem agree_tryCandidates {c : Cursor} {l l' : List Term} (hcp : c.checkpoint = s.checkpoint)
    (hc : SameExcept (s.Unfit c.target c.env c.candidateEnv) l l') (hn : Agenda.Alike s s.checkpoint next next')
    (ho : Alternatives.Alike s s.checkpoint o o') (k : List Term) :
    Agree limit Machine.Alike (tryCandidates src c next o l ⟨s, names⟩)
      (tryCandidates src' { c with candidates := k } next' o' l' ⟨s, names⟩) := by
  induction hc with
  | nil =>
    rw [tryCandidates_nil, tryCandidates_nil]
    exact .tick (agree_pure (.failed ho))
  | @both t l l' hc ih =>
    generalize h : s.unify c.target c.env t c.candidateEnv = r
    obtain ⟨ok, s'⟩ := r
    cases ok with
    | true =>
      have hext := Store.unify_extends h
      rw [tryCandidates_of_unify h, tryCandidates_of_unify (c := { c with candidates := k }) h]
      exact .tick (.tick (agree_pure (.proved (hn.grows (.of_extends hext)) (alike_others hcp hext hc hn ho k))))
    | false =>
      have hfalse := congrArg Prod.fst h
      rw [tryCandidates_of_not_unify hfalse, tryCandidates_of_not_unify (c := { c with candidates := k }) hfalse]
      exact .tick ih
  | left ht _ ih =>
    rw [tryCandidates_of_not_unify (ht s (.refl s))]
    exact .tick_left ih
  | right ht _ ih =>
    rw [tryCandidates_of_not_unify (c := { c with candidates := k }) (ht s (.refl s))]
    exact .tick_right ih

/-- A sentence about another functor is passed over, like one that is not there. -/
theorem tryRules_of_passes {src : Sources} {x : Expansion} {next : Agenda} {o : Alternatives} {t : Term}
    (h : x.goal.Passes t) (rest : List Term) (s : Store) (names : NameSupply) :
    tryRules src x next o (t :: rest) ⟨s, names⟩ = Meter.infer >>= fun _ => tryRules src x next o rest ⟨s, names⟩ := by
  obtain ⟨f, g, hf, hg, hne⟩ := h
  unfold Term.headOrSelf at hg
  cases hrule : t.asRule with
  | some rule =>
    rw [hrule] at hg
    exact tryRules_of_not_head hrule (s.unify_of_functor_ne hg hf hne.symm)
  | none =>
    rw [hrule] at hg
    exact tryRules_of_not_sentence hrule (s.unify_of_functor_ne hf hg hne)

/-- A rule that does not fit is passed over, without a trace but in the meter. -/
theorem agree_tryRules {x : Expansion} {l l' : List Term} (hcp : x.checkpoint = s.checkpoint)
    (hx : SameExcept x.goal.Passes l l') (hn : Agenda.Alike s s.checkpoint next next')
    (ho : Alternatives.Alike s s.checkpoint o o') (k : List Term) :
    Agree limit Machine.Alike (tryRules src x next o l ⟨s, names⟩)
      (tryRules src' { x with rules := k } next' o' l' ⟨s, names⟩) := by
  have hrest {rest rest' : List Term} (hrest : SameExcept x.goal.Passes rest rest') (s' : Store) (hext : s.Extends s') :
      Alternatives.Alike s' s'.checkpoint (.rules { x with rules := rest } next o)
        (.rules { x with rules := rest' } next' o') := by
    refine .rules (x := { x with rules := rest }) ?_ hrest ?_ ?_
    · exact hcp ▸ hext.size_trail
    · exact hcp ▸ hn.extends hext
    · exact hcp ▸ ho.extends hext
  induction hx with
  | nil =>
    rw [tryRules_nil, tryRules_nil]
    exact .tick (agree_pure (.failed ho))
  | @both t rest rest' hsame ih =>
    cases hrule : t.asRule with
    | some rule =>
      obtain ⟨head, body⟩ := rule
      generalize h : s.unify head x.ruleEnv x.goal x.env = r
      obtain ⟨ok, s'⟩ := r
      cases ok with
      | true =>
        have hext := Store.unify_extends h
        have hnext := hn.grows (.of_extends hext)
        rw [tryRules_of_head hrule h, tryRules_of_head (x := { x with rules := k }) hrule h]
        exact .tick (agree_pure (.proved (.goals _ _ (.leave _ _ hnext)) (hrest hsame s' hext)))
      | false =>
        have hfalse := congrArg Prod.fst h
        rw [tryRules_of_not_head hrule hfalse, tryRules_of_not_head (x := { x with rules := k }) hrule hfalse]
        exact .tick ih
    | none =>
      generalize h : s.unify x.goal x.env t x.ruleEnv = r
      obtain ⟨ok, s'⟩ := r
      cases ok with
      | true =>
        have hext := Store.unify_extends h
        have hnext := hn.grows (.of_extends hext)
        rw [tryRules_of_sentence hrule h, tryRules_of_sentence (x := { x with rules := k }) hrule h]
        exact .tick (.tick (agree_pure (.proved hnext (.reenter _ _ (hrest hsame s' hext)))))
      | false =>
        have hfalse := congrArg Prod.fst h
        rw [tryRules_of_not_sentence hrule hfalse, tryRules_of_not_sentence (x := { x with rules := k }) hrule hfalse]
        exact .tick ih
  | left ht _ ih =>
    rw [tryRules_of_passes ht]
    exact .tick_left ih
  | right ht _ ih =>
    rw [tryRules_of_passes (x := { x with rules := k }) ht]
    exact .tick_right ih

end Machine

/-! ### Selections -/

/-- The selections are the same but for candidates that do not fit. -/
structure Selection.Alike (s : Store) (env : EnvId) (x x' : Selection) : Prop where
  target_eq : x.target = x'.target
  env_eq : x.env = x'.env
  sameExcept : SameExcept (s.Unfit x.target env x.env) x.candidates x'.candidates

theorem Selection.Alike.refl (s : Store) (env : EnvId) (x : Selection) : Selection.Alike s env x x :=
  ⟨rfl, rfl, .refl _ _⟩

/-- The outcomes of selecting are the same but for candidates that do not fit. -/
structure SelectedAlike (w : Workspace) (env : EnvId) (r r' : Option Selection × Workspace) : Prop where
  work : r.2 = r'.2
  grows : w.store.Grows r.2.store
  selection : Option.Rel (Selection.Alike w.store env) r.1 r'.1

namespace Machine

variable {L L' : Language} {src src' : Sources} {ask ask' : Answerer} {next next' : Agenda} {o o' : Alternatives}
  {limit : Nat} {w : Workspace}

theorem agree_select {x y : Selecting Selection} {env : EnvId}
    (h : Agree limit (SelectedAlike w env) (x.run.run w) (y.run.run w)) (origin : Cursor.Origin)
    (hn : Agenda.Alike w.store w.store.checkpoint next next')
    (ho : Alternatives.Alike w.store w.store.checkpoint o o') :
    Agree limit Machine.Alike (select src origin env x next o w) (select src' origin env y next' o' w) := by
  unfold select
  refine Agree.bind h (fun r => ?_) (fun r => ?_) fun r r' hr => ?_
  · obtain ⟨selection, w₁⟩ := r
    cases selection with
    | none => exact counts_pure _
    | some selection => exact counts_tryCandidates _ _ _ _ _
  · obtain ⟨selection, w₁⟩ := r
    cases selection with
    | none => exact counts_pure _
    | some selection => exact counts_tryCandidates _ _ _ _ _
  obtain ⟨selection, ⟨store, names⟩⟩ := r
  obtain ⟨selection', w'⟩ := r'
  obtain ⟨hwork, hgrows, hselection⟩ := hr
  dsimp only at hwork hgrows hselection
  subst hwork
  cases hselection with
  | none => exact agree_pure (.failed (ho.grows hgrows))
  | @some x x' hxx' =>
    obtain ⟨target, candidates, cenv⟩ := x
    obtain ⟨target', candidates', cenv'⟩ := x'
    obtain ⟨htarget, henv, hcandidates⟩ := hxx'
    dsimp only at htarget henv hcandidates
    subst htarget henv
    have hcp : (store.rollback w.store.checkpoint).checkpoint = w.store.checkpoint :=
      Store.size_trail_rollback hgrows.size_trail
    have hbelow : w.store.Below (store.rollback w.store.checkpoint) := by
      have := hgrows.below w.store.checkpoint (Nat.le_refl _)
      rwa [Store.checkpoint, Store.rollback_size] at this
    have hn' := (hn.of_below hgrows.below (Nat.le_refl _)).rollback hgrows.size_trail
    have ho' := (ho.of_below hgrows.below (Nat.le_refl _)).rollback hgrows.size_trail
    exact agree_tryCandidates (c := ⟨origin, target, env, candidates, cenv, w.store.checkpoint⟩) hcp.symm
      (hcandidates.imp fun t ht u hu => ht u (hbelow.trans hu)) hn' ho' candidates'

/-- Selections that agree give machines that are alike. -/
theorem agree_select_of_agreeIn {x y : Selecting Selection} {env : EnvId} (h : AgreeIn L.words limit x y)
    (hw : w.store.Avoids L.words) (origin : Cursor.Origin) (hn : Agenda.Alike w.store w.store.checkpoint next next')
    (ho : Alternatives.Alike w.store w.store.checkpoint o o') :
    Agree limit Machine.Alike (select src origin env x next o w) (select src' origin env y next' o' w) := by
  refine agree_select ((h w hw).imp fun r r' hr => ?_) origin hn ho
  obtain ⟨rfl, hgrows⟩ := hr
  obtain ⟨selection, w₁⟩ := r
  refine ⟨rfl, hgrows, ?_⟩
  cases selection with
  | none => exact .none
  | some x => exact .some (.refl _ _ x)

theorem agree_selectFacts (hsrc : src.Alike L src') (goal : Term) (env : EnvId)
    (hn : Agenda.Alike w.store w.store.checkpoint next next')
    (ho : Alternatives.Alike w.store w.store.checkpoint o o') :
    Agree limit Machine.Alike (select src .facts env (selectFacts src goal env) next o w)
      (select src' .facts env (selectFacts src' goal env) next' o' w) := by
  apply agree_select
  rw [run_selectFacts, run_selectFacts]
  · exact agree_pure ⟨rfl, .newEnv w.store, .some ⟨rfl, rfl, hsrc.facts w.store goal env _⟩⟩
  · exact hn
  · exact ho

/-! ### Steps -/

theorem agree_expand {goal : Term} {env : EnvId} (hrules : SameExcept goal.Passes (src.rules.lookupIn w.store goal env)
      (src'.rules.lookupIn w.store goal env)) (hn : Agenda.Alike w.store w.store.checkpoint next next')
    (ho : Alternatives.Alike w.store w.store.checkpoint o o') :
    Agree limit Machine.Alike (expand src goal env next o w) (expand src' goal env next' o' w) := by
  unfold expand
  have hgrows := Store.Grows.newEnv w.store
  exact .tick (agree_tryRules (s := w.store.newEnv.2) rfl hrules (hn.grows hgrows) (ho.grows hgrows) _)

/-- A goal that nothing fits fails, after an environment was made for what could have fitted. -/
theorem ensures_proveResolved_of_hopeless {goal : Term} (h : src.Hopeless goal) (env : EnvId) (next : Agenda)
    (o : Alternatives) (w : Workspace) :
    Ensures (proveResolved src ask goal env next o w) (· = ⟨.failed o, ⟨w.store.newEnv.2, w.names⟩⟩) := by
  cases h with
  | view hgoal h =>
    have hpass (t : Term) (ht : t ∈ src.rules.lookupIn w.store goal env) := h t (Theory.mem_of_mem_lookupIn ht)
    unfold proveResolved
    rw [hgoal]
    unfold expand
    refine Ensures.tick ?_
    generalize src.rules.lookupIn w.store goal env = rules at hpass
    have hrules (x : Expansion) (hx : x.goal = goal) :
        Ensures (tryRules src x next o rules ⟨w.store.newEnv.2, w.names⟩) (· = ⟨.failed o, ⟨w.store.newEnv.2, w.names⟩⟩) := by
      induction rules with
      | nil => exact Ensures.tick (Ensures.pure rfl)
      | cons t rest ih =>
        rw [List.forall_mem_cons] at hpass
        rw [tryRules_of_passes (hx ▸ hpass.1)]
        exact Ensures.tick (ih hpass.2)
    exact hrules _ rfl
  | base hgoal h =>
    unfold proveResolved
    rw [hgoal]
    refine Ensures.tick ?_
    unfold select
    rw [run_selectFacts, pure_bind]
    have hunfit := h w.store env w.store.newEnv.1
    have hback : w.store.newEnv.2.rollback w.store.checkpoint = w.store.newEnv.2 := Store.rollback_size w.store.newEnv.2
    dsimp only
    rw [hback]
    generalize src.factsFor w.store goal env = facts at hunfit
    have hfacts (c : Cursor) (htarget : c.target = goal) (henv : c.env = env) (hcenv : c.candidateEnv = w.store.newEnv.1) :
        Ensures (tryCandidates src c next o facts ⟨w.store.newEnv.2, w.names⟩)
          (· = ⟨.failed o, ⟨w.store.newEnv.2, w.names⟩⟩) := by
      induction facts with
      | nil => exact Ensures.tick (Ensures.pure rfl)
      | cons t rest ih =>
        rw [List.forall_mem_cons] at hunfit
        rw [tryCandidates_of_not_unify]
        · exact Ensures.tick (ih hunfit.2)
        · rw [htarget, henv, hcenv]
          exact hunfit.1 _ fun v e d hd => w.store.lookup_newEnv.trans hd
    exact hfacts _ rfl rfl rfl

theorem agree_proveResolved (hL : L.Closed src) (hsrc : src.Alike L' src') (hask : ask.Alike L limit ask') {goal : Term}
    (hgoal : L.goal goal) (hgoal' : L'.goal goal) (hw : w.store.Avoids L.words) (env : EnvId)
    (hn : Agenda.Alike w.store w.store.checkpoint next next')
    (ho : Alternatives.Alike w.store w.store.checkpoint o o') :
    Agree limit Machine.Alike (proveResolved src ask goal env next o w)
      (proveResolved src' ask' goal env next' o' w) := by
  rcases hsrc.goals goal hgoal' with hkind | ⟨hleft, hright⟩
  swap
  · refine agree_of_ensures (ensures_proveResolved_of_hopeless hleft env next o w)
      (ensures_proveResolved_of_hopeless hright env next' o' w) ?_
    rintro m m' rfl rfl
    exact .failed (ho.grows (.newEnv w.store))
  have hadmits := hL.goal_admits goal hgoal
  unfold proveResolved
  rw [← hkind]
  split
  · exact agree_pure (.failed ho)
  · exact agree_pure (.proved hn (.undo (Nat.le_refl _) ho))
  · rename_i x y _
    dsimp only
    generalize h : w.store.unify x env y env = r
    obtain ⟨ok, s⟩ := r
    cases ok with
    | true =>
      have hext := Store.unify_extends h
      exact agree_pure (.proved (hn.grows (.of_extends hext)) (.undo hext.size_trail (ho.extends hext)))
    | false =>
      rw [Store.unify_eq_of_fails h]
      exact agree_pure (.failed ho)
  · rename_i x y _
    dsimp only
    generalize h : w.store.unify x env y env = r
    obtain ⟨ok, s⟩ := r
    cases ok with
    | true =>
      simp only [(Store.unify_extends h).rollback_eq]
      exact agree_pure (.failed ho)
    | false =>
      rw [Store.unify_eq_of_fails h]
      exact agree_pure (.proved hn ho)
  · rename_i terms _
    obtain ⟨r, hr, hgrows⟩ := quiet_inputs env terms w
    rw [hr, pure_bind, pure_bind]
    obtain ⟨values, w₁⟩ := r
    cases values with
    | none => exact agree_pure (.failed (ho.grows hgrows))
    | some values =>
      dsimp only
      split
      · exact agree_pure (.proved (hn.grows hgrows) (ho.grows hgrows))
      · exact agree_pure (.failed (ho.grows hgrows))
  · exact agree_pure (.prove _ _ (.refuted (Nat.le_refl _) ho) (.absent hn ho))
  · exact agree_pure (.proved (.goals _ _ hn) ho)
  · exact agree_pure (.failed (.disjuncts _ _ hn ho))
  · exact agree_select_of_agreeIn (L := L) (.of_quiet (quiet_selectMembers _ _ env)) hw _ hn ho
  · have hdataset (goal name : Term) : selectDataset src goal name env = selectDataset src' goal name env := by
      unfold selectDataset Sources.datasetFactsFor Sources.dataset?
      rw [hsrc.datasets]
    rw [hdataset]
    exact agree_select_of_agreeIn (L := L) (.of_quiet (quiet_selectDataset _ _ env)) hw _ hn ho
  · rename_i f args heq
    rw [heq] at hadmits
    exact agree_select_of_agreeIn (agreeIn_selectComputed hask hL hsrc.config hadmits env) hw _ hn ho
  · rename_i heq
    exact agree_expand (hsrc.rules goal hgoal' heq w.store env) hn ho
  · exact .tick (agree_selectFacts hsrc _ _ hn ho)

theorem agree_advance (hn : Agenda.Alike w.store w.store.checkpoint next next')
    (ho : Alternatives.Alike w.store w.store.checkpoint o o') :
    Agree limit Machine.Alike (advance src next o w) (advance src' next' o' w) := by
  cases hn with
  | done => exact agree_pure (.proved .done ho)
  | goals env rest hn =>
    cases rest with
    | nil => exact agree_pure (.proved hn ho)
    | cons goal rest => exact agree_pure (.prove _ _ (.goals _ _ hn) ho)
  | leave goal env hn => exact .tick (agree_pure (.proved hn (.reenter _ _ ho)))
  | refuted hcp h => exact agree_pure (.failed (h.rollback hcp))

theorem agree_retreat (ho : Alternatives.Alike w.store w.store.checkpoint o o') :
    Agree limit Machine.Alike (retreat src o w) (retreat src' o' w) := by
  cases ho with
  | none => exact agree_pure (.failed .none)
  | undo hcp h => exact agree_pure (.failed (h.rollback hcp))
  | reenter goal env h => exact .tick (agree_pure (.failed h))
  | absent hn h => exact agree_pure (.proved hn h)
  | disjuncts env goals hn h =>
    cases goals with
    | nil => exact agree_pure (.failed h)
    | cons goal rest => exact agree_pure (.prove _ _ hn (.disjuncts _ _ hn h))
  | candidates hcp hc hn h =>
    exact agree_tryCandidates (Store.size_trail_rollback hcp).symm hc (hn.rollback hcp) (h.rollback hcp) _
  | rules hcp hx hn h =>
    exact agree_tryRules (Store.size_trail_rollback hcp).symm hx (hn.rollback hcp) (h.rollback hcp) _

/-- If the machine is about to prove a goal, it is one of the language. -/
def ComesTo (L : Language) (m : Machine) : Prop :=
  ∀ goal env next otherwise, m.control = .prove goal env next otherwise → L.goal (m.work.store.resolve goal env).term

/-- One step of machines that are alike gives machines that are alike. For this step, the sources have to be alike for the
goal that the machines are about to prove only. -/
theorem agree_step (hL : L.Closed src) (hsrc : src.Alike L' src') (hask : ask.Alike L limit ask') {m m' : Machine}
    (h : m.Alike m') (hm : m.Within L) (hcomes : m.ComesTo L') :
    Agree limit (fun m m' => m.Alike m' ∧ m.Within L) (step src ask m) (step src' ask' m') := by
  refine Agree.and ?_ (within_step hL hask.answers hm)
  obtain ⟨hcontrol, hw⟩ := hm
  cases h with
  | prove goal env hn ho =>
    cases hcontrol with
    | prove hgoal =>
      have hgoal' := hcomes goal env _ _ rfl
      exact agree_proveResolved hL hsrc hask (goal_resolve hL hw hgoal env) hgoal' hw _ hn ho
  | proved hn ho => exact agree_advance hn ho
  | failed ho => exact agree_retreat ho

/-- A machine that keeps to the language comes to goals of the language. -/
theorem Within.comesTo (hL : L.Closed src) {m : Machine} (hm : m.Within L) : m.ComesTo L := by
  obtain ⟨control, w⟩ := m
  obtain ⟨hcontrol, hw⟩ := hm
  rintro goal env next otherwise hprove
  dsimp only at hprove
  subst hprove
  cases hcontrol with
  | prove hgoal => exact goal_resolve hL hw hgoal env

/-- Steps lead from machines that are alike to machines that are alike, within the language. -/
structure StepsAlike (L : Language) (limit : Nat) (step step' : Machine → Metered Machine) : Prop where
  left : ∀ m, Counts (step m)
  right : ∀ m, Counts (step' m)
  agree : ∀ m m', m.Alike m' → m.Within L → Agree limit (fun m m' => m.Alike m' ∧ m.Within L) (step m) (step' m')

theorem stepsAlike_step (hL : L.Closed src) (hsrc : src.Alike L src') (hask : ask.Alike L limit ask') :
    StepsAlike L limit (step src ask) (step src' ask') where
  left := counts_step hask.left
  right := counts_step hask.right
  agree _ _ h hm := agree_step hL hsrc hask h hm (hm.comesTo hL)

end Machine

/-! ### Searches -/

/-- The outcomes are of the same kind, and what is left to try is the same but for candidates that do not fit. -/
inductive Search.Outcome.Alike : Search.Outcome → Search.Outcome → Prop
  | answer {w : Workspace} {o o' : Alternatives} (ho : Alternatives.Alike w.store w.store.checkpoint o o') :
    Alike (.answer o w) (.answer o' w)
  | exhausted (w : Workspace) : Alike (.exhausted w) (.exhausted w)
  | limitReached (w : Workspace) : Alike (.limitReached w) (.limitReached w)

/-- The searches are the same but for candidates that do not fit. -/
structure Search.Alike (x y : Search) : Prop where
  template_eq : x.template = y.template
  machine_alike : x.machine.Alike y.machine
  status_eq : x.status = y.status

namespace Search

variable {L : Language} {config : Config} {step step' : Machine → Metered Machine}

theorem alike_start (config : Config) (template goal : Term) :
    (start config template goal).Alike (start config template goal) :=
  ⟨rfl, .prove _ _ .done .none, rfl⟩

section

variable (hstep : Machine.StepsAlike L config.limit step step')

include hstep

/-- By steps that keep machines alike, the outcomes are alike, and an answer is within the language. -/
theorem agree_runBy (n : Nat) {m m' : Machine} (h : m.Alike m') (hm : m.Within L) :
    Agree config.limit (fun x y => x.Alike y ∧ ∀ o w, x = .answer o w → Machine.Within L ⟨.proved .done o, w⟩)
      (runBy config step n m) (runBy config step' n m') := by
  induction n generalizing m m' with
  | zero => exact agree_throw _
  | succ n ih =>
    have hnext := (hstep.agree m m' h hm).bind (fun m => counts_runBy hstep.left n m)
      (fun m => counts_runBy hstep.right n m) fun m m' h => ih h.1 h.2
    unfold runBy
    refine Agree.unlessSpent (counts_pure _) (counts_pure _) ?_
    cases h with
    | prove goal env hn ho => exact hnext
    | proved hn ho =>
      cases hn with
      | done =>
        refine agree_pure ⟨.answer ho, ?_⟩
        rintro o w ⟨⟩
        exact hm
      | goals => exact hnext
      | leave => exact hnext
      | refuted => exact hnext
    | failed ho =>
      cases ho with
      | none => exact agree_pure ⟨.exhausted _, fun _ _ h => by cases h⟩
      | undo => exact hnext
      | reenter => exact hnext
      | absent => exact hnext
      | disjuncts => exact hnext
      | candidates => exact hnext
      | rules => exact hnext

/-- The next answers are the same, and the searches go on alike. -/
theorem agree_nextBy (bound : Nat) {x y : Search} (h : x.Alike y) (hx : x.Within L) :
    Agree config.limit (fun r r' => (r.1 = r'.1 ∧ r.2.Alike r'.2) ∧ r.2.Within L) (x.nextBy config step bound)
      (y.nextBy config step' bound) := by
  obtain ⟨template, m, status⟩ := x
  obtain ⟨template', m', status'⟩ := y
  obtain ⟨htemplate, hm, hstatus⟩ := h
  dsimp only at htemplate hm hstatus
  subst htemplate hstatus
  unfold nextBy
  dsimp only
  split
  · rename_i hrunning
    rw [map_eq_pure_bind, map_eq_pure_bind]
    have hrun := agree_runBy hstep bound hm (hx.machine hrunning)
    refine hrun.bind (fun _ => counts_pure _) (fun _ => counts_pure _) fun r r' hr => ?_
    obtain ⟨houtcome, hwithin⟩ := hr
    cases houtcome with
    | answer ho =>
      rename_i w o _
      have hgrows := Store.Grows.of_extends (Store.plug_extends w.store template queryEnv queryEnv w.names)
      obtain ⟨hcontrol, hw⟩ := hwithin o w rfl
      cases hcontrol with
      | proved _ ho' =>
        exact agree_pure ⟨⟨rfl, rfl, .failed (ho.grows hgrows), rfl⟩, hx.template, fun _ => ⟨.failed ho', hw.plug _ _ _ _⟩⟩
    | exhausted w => exact agree_pure ⟨⟨rfl, rfl, .failed .none, rfl⟩, hx.template, fun h => by cases h⟩
    | limitReached w => exact agree_pure ⟨⟨rfl, rfl, .failed .none, rfl⟩, hx.template, fun h => by cases h⟩
  · exact agree_pure ⟨⟨rfl, rfl, hm, rfl⟩, hx⟩

theorem agree_pullBy (bound n : Nat) {x y : Search} (h : x.Alike y) (hx : x.Within L) (found : List Term) :
    Agree config.limit (fun r r' => r.1 = r'.1) (x.pullBy config step bound n found)
      (y.pullBy config step' bound n found) := by
  induction n generalizing x y found with
  | zero => exact agree_pure rfl
  | succ n ih =>
    unfold pullBy
    refine (agree_nextBy hstep bound h hx).bind (fun r => ?_) (fun r => ?_) fun r r' hr => ?_
    · obtain ⟨answer, s⟩ := r
      cases answer with
      | none => exact counts_pure _
      | some t => exact counts_pullBy hstep.left bound n s _
    · obtain ⟨answer, s⟩ := r
      cases answer with
      | none => exact counts_pure _
      | some t => exact counts_pullBy hstep.right bound n s _
    obtain ⟨answer, s⟩ := r
    obtain ⟨answer', s'⟩ := r'
    obtain ⟨⟨hanswer, hs⟩, hwithin⟩ := hr
    dsimp only at hanswer
    subst hanswer
    cases answer with
    | none => exact agree_pure rfl
    | some t => exact ih hs hwithin (t :: found)

theorem agree_takeBy (bound : Nat) {x y : Search} (h : x.Alike y) (hx : x.Within L) :
    Agree config.limit Eq (x.takeBy config step bound) (y.takeBy config step' bound) := by
  refine (agree_pullBy hstep bound bound h hx []).bind (fun _ => counts_pure _) (fun _ => counts_pure _) fun r r' hr => ?_
  rw [hr]
  exact agree_pure rfl

end

/-- The next answers from sources that are alike are the same, and the searches go on alike. -/
theorem agree_next {src src' : Sources} {ask ask' : Answerer} (hL : L.Closed src) (hsrc : src.Alike L src')
    (hask : ask.Alike L src.config.limit ask') {x y : Search} (h : x.Alike y) (hx : x.Within L) :
    Agree src.config.limit (fun r r' => (r.1 = r'.1 ∧ r.2.Alike r'.2) ∧ r.2.Within L) (x.next src ask)
      (y.next src' ask') := by
  rw [← nextWithin_stepBound, ← nextWithin_stepBound, ← nextBy_step, ← nextBy_step, ← hsrc.config]
  exact agree_nextBy (Machine.stepsAlike_step hL hsrc hask) stepBound h hx

end Search

/-! ### Questions -/

section

variable {L : Language} {src src' : Sources}

/-- By steps that keep machines alike, as long as questions are answered alike, the questions of the language are answered
alike at any depth. -/
theorem alike_consultBy {step step' : Answerer → Machine → Metered Machine} (hL : L.Closed src) (htrue : "true" ∉ L.words)
    (hsrc : src.DefineAlike src') {bound : Nat} (hanswers : ∀ n, L.Answers (consultBy src step bound n))
    (hstep : ∀ ask ask', ask.Alike L src.config.limit ask' → Machine.StepsAlike L src.config.limit (step ask) (step' ask'))
    (n : Nat) : (consultBy src step bound n).Alike L src.config.limit (consultBy src' step' bound n) := by
  induction n with
  | zero => exact ⟨fun _ => counts_throw _, fun _ => counts_throw _, hanswers 0, fun _ _ => agree_throw _⟩
  | succ n ih =>
    have hsteps := hstep _ _ ih
    refine ⟨counting_answerBy ih.left hsteps.left bound, counting_answerBy ih.right hsteps.right bound, hanswers (n + 1), ?_⟩
    intro q hq
    unfold consultBy
    cases q with
    | all template goal =>
      dsimp only [answerBy]
      rw [← hsrc.config]
      exact Search.agree_takeBy hsteps _ (Search.alike_start _ _ _) (Search.within_start hq.1 hq.2)
    | first template goal =>
      dsimp only [answerBy]
      rw [← hsrc.config]
      refine (Search.agree_nextBy hsteps _ (Search.alike_start _ _ _) (Search.within_start hq.1 hq.2)).bind
        (fun _ => counts_pure _) (fun _ => counts_pure _) fun r r' hr => ?_
      rw [hr.1.1]
      exact agree_pure rfl
    | value expr =>
      refine Agree.bind (agreeOption_valueOf ih hL hsrc htrue rfl expr hq) (fun _ => counts_pure _)
        (fun _ => counts_pure _) fun r r' hr => ?_
      rw [hr]
      exact agree_pure rfl

/-- Questions of the language are answered alike by sources that are alike, at any depth. -/
theorem alike_consultAt (hL : L.Closed src) (htrue : "true" ∉ L.words) (hsrc : src.Alike L src') (n : Nat) :
    (consultAt src n).Alike L src.config.limit (consultAt src' n) := by
  rw [← consultWithin_stepBound, ← consultWithin_stepBound, ← consultBy_step, ← consultBy_step]
  refine alike_consultBy hL htrue hsrc.toDefineAlike (fun n => ?_) (fun _ _ => Machine.stepsAlike_step hL hsrc) n
  rw [consultBy_step]
  exact Language.answers_consultWithin hL stepBound n

end

end Deduction
