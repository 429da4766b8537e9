import Deduction.Proofs.Search.Quiet
import Deduction.Proofs.Search.Steps

/-!
# Meters only count up

No computation takes back what it has counted: neither a step of the machine nor a whole search, with all questions
that come up on the way (`counts_step`, `counts_pull`, `counts_consultAt`). So a meter that is below the limit at the
end was below it all the time.
-/

namespace Deduction

variable {α β : Type}

/-! ### Computations put together from others -/

/-- A sequence has a result if each of its parts has one. -/
theorem bind_eq_ok {ε : Type} {x : Except ε α} {f : α → Except ε β} {b : β} :
    (x >>= f) = .ok b ↔ ∃ a, x = .ok a ∧ f a = .ok b := by
  cases x with
  | error e => simp [bind, Except.bind]
  | ok a => simp [bind, Except.bind]

namespace Metered

variable {m m' : Meter}

theorem run_pure_eq_ok {a b : α} : (pure a : Metered α).run m = .ok (b, m') ↔ a = b ∧ m = m' := by
  constructor
  · intro h
    cases h
    exact ⟨rfl, rfl⟩
  · rintro ⟨rfl, rfl⟩
    rfl

theorem run_bind_eq_ok {x : Metered α} {f : α → Metered β} {b : β} :
    (x >>= f).run m = .ok (b, m') ↔ ∃ a m₁, x.run m = .ok (a, m₁) ∧ (f a).run m₁ = .ok (b, m') := by
  rw [StateT.run_bind, bind_eq_ok, Prod.exists]

theorem exists_run_of_result {x : Metered α} {a : α} (h : x.result.toOption = some a) :
    ∃ m, x.run {} = .ok (a, m) := by
  unfold result at h
  cases hx : x.run {} with
  | error e =>
    rw [hx] at h
    cases h
  | ok r =>
    rw [hx] at h
    exact ⟨r.2, by rw [← Option.some.inj h]⟩

end Metered

/-- The computation takes back nothing of what was counted. -/
def Counts (x : Metered α) : Prop := ∀ ⦃m a m'⦄, x.run m = .ok (a, m') → m.spent ≤ m'.spent

theorem counts_pure (a : α) : Counts (pure a) := by
  intro m b m' h
  obtain ⟨-, rfl⟩ := Metered.run_pure_eq_ok.1 h
  exact Nat.le_refl _

theorem counts_throw (e : Interruption) : Counts (throw e : Metered α) := by
  intro m b m' h
  cases h

theorem Counts.bind {x : Metered α} {f : α → Metered β} (hx : Counts x) (hf : ∀ a, Counts (f a)) :
    Counts (x >>= f) := by
  intro m b m' h
  obtain ⟨a, m₁, hx', hf'⟩ := Metered.run_bind_eq_ok.1 h
  exact Nat.le_trans (hx hx') (hf a hf')

theorem Counts.map {x : Metered α} (hx : Counts x) (f : α → β) : Counts (f <$> x) := by
  rw [map_eq_pure_bind]
  exact hx.bind fun a => counts_pure (f a)

theorem counts_ite {c : Prop} [Decidable c] {x y : Metered α} (hx : Counts x) (hy : Counts y) :
    Counts (if c then x else y) := by
  split
  · exact hx
  · exact hy

theorem counts_modify {f : Meter → Meter} (hf : ∀ m, m.spent ≤ (f m).spent) : Counts (modify f : Metered Unit) := by
  intro m b m' h
  cases h
  exact hf m

theorem counts_infer : Counts Meter.infer := by
  apply counts_modify
  intro m
  unfold Meter.spent
  dsimp only
  omega

theorem counts_instantiate : Counts Meter.instantiate := by
  apply counts_modify
  intro m
  unfold Meter.spent
  dsimp only
  omega

theorem counts_report (line : String) : Counts (Meter.report line) := counts_modify fun _ => Nat.le_refl _

theorem counts_isSpent (config : Config) : Counts (Meter.isSpent config) := by
  intro m b m' h
  cases h
  exact Nat.le_refl _

/-! ### Computations that may have no result -/

/-- A computation that may have no result takes back nothing. -/
def CountsOption (x : OptionT Metered α) : Prop := Counts x.run

namespace CountsOption

theorem pure (a : α) : CountsOption (Pure.pure a) := counts_pure (some a)

theorem failure : CountsOption (failure : OptionT Metered α) := counts_pure none

theorem getM (a : Option α) : CountsOption (a.getM : OptionT Metered α) := by
  cases a with
  | none => exact failure
  | some a => exact pure a

theorem lift {x : Metered α} (hx : Counts x) : CountsOption (liftM x : OptionT Metered α) := hx.map some

theorem bind {x : OptionT Metered α} {f : α → OptionT Metered β} (hx : CountsOption x)
    (hf : ∀ a, CountsOption (f a)) : CountsOption (x >>= f) := by
  unfold CountsOption
  rw [OptionT.run_bind]
  refine Counts.bind hx fun a => ?_
  cases a with
  | none => exact counts_pure none
  | some a => exact hf a

theorem mapM {f : α → OptionT Metered β} (hf : ∀ a, CountsOption (f a)) (as : List α) :
    CountsOption (as.mapM f) := by
  induction as with
  | nil => exact pure []
  | cons a as ih =>
    rw [List.mapM_cons]
    exact (hf a).bind fun b => ih.bind fun bs => pure (b :: bs)

end CountsOption

/-! ### Computations in a workspace -/

/-- A computation in a workspace takes back nothing. -/
def CountsIn (x : Selecting α) : Prop := ∀ w, Counts (x.run.run w)

namespace CountsIn

theorem of_quiet {x : Selecting α} (hx : Quiet x) : CountsIn x := by
  intro w
  obtain ⟨r, hr, -⟩ := hx w
  rw [hr]
  exact counts_pure r

theorem lift {x : Metered α} (hx : Counts x) : CountsIn (liftM x : Selecting α) := by
  intro w
  rw [Selecting.run_liftM]
  exact hx.bind fun a => counts_pure _

theorem bind {x : Selecting α} {f : α → Selecting β} (hx : CountsIn x) (hf : ∀ a, CountsIn (f a)) :
    CountsIn (x >>= f) := by
  intro w
  rw [OptionT.run_bind, Option.elimM, StateT.run_bind]
  refine Counts.bind (hx w) fun r => ?_
  obtain ⟨a, w⟩ := r
  cases a with
  | none => exact counts_pure (none, w)
  | some a => exact hf a w

end CountsIn

/-! ### Selections -/

/-- All answers that the answerer gives take back nothing. -/
def Answerer.Counting (ask : Answerer) : Prop := ∀ q, Counts (ask q)

variable {src : Sources} {ask : Answerer}

theorem countsIn_selectFacts (goal : Term) (env : EnvId) : CountsIn (selectFacts src goal env) := by
  unfold selectFacts
  exact .of_quiet (Quiet.get.bind fun w => quiet_newEnv.bind fun e => .pure _)

theorem countsIn_mapRelation (hask : ask.Counting) (relation : String) (items : List Term) :
    CountsIn (mapRelation ask relation items) := by
  induction items with
  | nil => exact .of_quiet (.pure [])
  | cons item items ih =>
    unfold mapRelation
    refine (CountsIn.of_quiet quiet_freshVar).bind fun out => (CountsIn.lift (hask _)).bind fun results => ?_
    split
    · exact ih.bind fun rest => .of_quiet (.pure _)
    · exact .of_quiet .failure

theorem countsIn_selectMapped (hask : ask.Counting) (args : List Term) (env : EnvId) :
    CountsIn (selectMapped ask args env) := by
  unfold selectMapped
  refine (CountsIn.of_quiet (.getM _)).bind fun t => (CountsIn.of_quiet (.getM _)).bind fun relation => ?_
  refine (CountsIn.of_quiet (.getM _)).bind fun t => (CountsIn.of_quiet (quiet_input t env)).bind fun list => ?_
  refine (CountsIn.of_quiet (.getM _)).bind fun items => ?_
  refine (countsIn_mapRelation hask relation items).bind fun results => ?_
  exact .of_quiet ((Quiet.getM _).bind fun output => .pure _)

theorem counts_findAll (hask : ask.Counting) (config : Config) (template goal : Term) :
    Counts (ask.findAll config template goal) := (hask _).bind fun _ => counts_pure _

theorem counts_count (hask : ask.Counting) (template goal : Term) : Counts (ask.count template goal) :=
  (hask _).bind fun _ => counts_pure _

theorem counts_findFirst? (hask : ask.Counting) (template goal : Term) : Counts (ask.findFirst? template goal) :=
  (hask _).bind fun _ => counts_pure _

theorem counts_holds (hask : ask.Counting) (goal : Term) : Counts (ask.holds goal) :=
  (counts_findFirst? hask _ goal).bind fun _ => counts_pure _

theorem countsIn_selectAggregate (hask : ask.Counting) (f : String) (args : List Term) (env : EnvId) :
    CountsIn (selectAggregate src ask f args env) := by
  unfold selectAggregate
  refine (CountsIn.of_quiet (.getM _)).bind fun t => (CountsIn.of_quiet (quiet_input t env)).bind fun template => ?_
  refine (CountsIn.of_quiet (.getM _)).bind fun t => (CountsIn.of_quiet (quiet_input t env)).bind fun goal => ?_
  dsimp only
  split
  · refine (CountsIn.lift (counts_findAll hask _ _ _)).bind fun answers => ?_
    exact .of_quiet ((Quiet.pure _).bind fun value => (Quiet.getM _).bind fun output => .pure _)
  · refine (CountsIn.lift (counts_count hask _ _)).bind fun value => ?_
    exact .of_quiet ((Quiet.getM _).bind fun output => .pure _)

theorem countsIn_selectValue (hask : ask.Counting) (args : List Term) (env : EnvId) :
    CountsIn (selectValue ask args env) := by
  unfold selectValue
  refine (CountsIn.of_quiet (.getM _)).bind fun t => (CountsIn.of_quiet (quiet_input t env)).bind fun expr => ?_
  refine (CountsIn.lift (hask _)).bind fun values => ?_
  exact .of_quiet ((Quiet.getM _).bind fun value => (Quiet.getM _).bind fun output => .pure _)

theorem countsIn_selectComputed (hask : ask.Counting) (f : String) (args : List Term) (env : EnvId) :
    CountsIn (selectComputed src ask f args env) := by
  unfold selectComputed
  split
  · exact countsIn_selectValue hask _ env
  · exact .of_quiet (quiet_selectGroups _ env)
  · exact .of_quiet (quiet_selectMatches _ env)
  · exact countsIn_selectMapped hask _ env
  · split
    · exact countsIn_selectAggregate hask _ _ env
    · exact .of_quiet (quiet_selectCall _ _ env)

/-! ### Steps of the machine -/

namespace Machine

theorem counts_reportGoal (config : Config) (event : String) (s : Store) (goal : Term) (env : EnvId) :
    Counts (reportGoal config event s goal env) := by
  unfold reportGoal
  split
  · exact counts_ite (counts_report _) (counts_pure _)
  · exact counts_pure _

theorem counts_cursorReport (config : Config) (event : String) (s : Store) (c : Cursor) :
    Counts (c.report config event s) :=
  counts_ite (counts_reportGoal _ _ _ _ _) (counts_pure _)

theorem counts_count (c : Cursor) : Counts c.count := counts_ite (counts_pure _) counts_instantiate

theorem counts_tryCandidates (c : Cursor) (next : Agenda) (otherwise : Alternatives) (candidates : List Term)
    (w : Workspace) : Counts (tryCandidates src c next otherwise candidates w) := by
  obtain ⟨s, names⟩ := w
  induction candidates with
  | nil => exact (counts_cursorReport _ _ _ c).bind fun _ => counts_pure _
  | cons t rest ih =>
    generalize h : s.unify c.target c.env t c.candidateEnv = r
    obtain ⟨ok, s'⟩ := r
    cases ok with
    | true =>
      rw [tryCandidates_of_unify h]
      exact (counts_count c).bind fun _ => (counts_cursorReport _ _ _ c).bind fun _ => counts_pure _
    | false =>
      rw [tryCandidates_of_not_unify (congrArg Prod.fst h)]
      exact (counts_count c).bind fun _ => ih

theorem counts_tryRules (x : Expansion) (next : Agenda) (otherwise : Alternatives) (rules : List Term)
    (w : Workspace) : Counts (tryRules src x next otherwise rules w) := by
  obtain ⟨s, names⟩ := w
  induction rules with
  | nil => exact (counts_reportGoal _ _ _ _ _).bind fun _ => counts_pure _
  | cons t rest ih =>
    cases hrule : t.asRule with
    | some rule =>
      obtain ⟨head, body⟩ := rule
      generalize h : s.unify head x.ruleEnv x.goal x.env = r
      obtain ⟨ok, s'⟩ := r
      cases ok with
      | true =>
        rw [tryRules_of_head hrule h]
        exact counts_infer.bind fun _ => counts_pure _
      | false =>
        rw [tryRules_of_not_head hrule (congrArg Prod.fst h)]
        exact counts_infer.bind fun _ => ih
    | none =>
      generalize h : s.unify x.goal x.env t x.ruleEnv = r
      obtain ⟨ok, s'⟩ := r
      cases ok with
      | true =>
        rw [tryRules_of_sentence hrule h]
        exact counts_infer.bind fun _ => (counts_reportGoal _ _ _ _ _).bind fun _ => counts_pure _
      | false =>
        rw [tryRules_of_not_sentence hrule (congrArg Prod.fst h)]
        exact counts_infer.bind fun _ => ih

theorem counts_select {selecting : Selecting Selection} (h : CountsIn selecting) (origin : Cursor.Origin) (env : EnvId)
    (next : Agenda) (otherwise : Alternatives) (w : Workspace) :
    Counts (select src origin env selecting next otherwise w) := by
  unfold select
  refine Counts.bind (h w) fun r => ?_
  obtain ⟨selection, w'⟩ := r
  cases selection with
  | none => exact counts_pure _
  | some selection => exact counts_tryCandidates _ _ _ _ _

theorem counts_expand (goal : Term) (env : EnvId) (next : Agenda) (otherwise : Alternatives) (w : Workspace) :
    Counts (expand src goal env next otherwise w) := by
  unfold expand
  exact (counts_reportGoal _ _ _ _ _).bind fun _ => counts_tryRules _ _ _ _ _

theorem counts_proveResolved (hask : ask.Counting) (goal : Term) (env : EnvId) (next : Agenda)
    (otherwise : Alternatives) (w : Workspace) : Counts (proveResolved src ask goal env next otherwise w) := by
  unfold proveResolved
  split
  · exact counts_pure _
  · exact counts_pure _
  · dsimp only
    split <;> exact counts_pure _
  · dsimp only
    split <;> exact counts_pure _
  · refine Counts.bind (CountsIn.of_quiet (quiet_inputs env _) w) fun r => ?_
    obtain ⟨values, w'⟩ := r
    cases values <;> exact counts_pure _
  · exact counts_pure _
  · exact counts_pure _
  · exact counts_pure _
  · exact counts_select (.of_quiet (quiet_selectMembers _ _ env)) _ _ _ _ _
  · exact counts_select (.of_quiet (quiet_selectDataset _ _ env)) _ _ _ _ _
  · exact counts_select (countsIn_selectComputed hask _ _ env) _ _ _ _ _
  · exact counts_expand _ _ _ _ _
  · exact (counts_reportGoal _ _ _ _ _).bind fun _ => counts_select (countsIn_selectFacts goal env) _ _ _ _ _

theorem counts_advance (next : Agenda) (otherwise : Alternatives) (w : Workspace) :
    Counts (advance src next otherwise w) := by
  unfold advance
  split
  · exact counts_pure _
  · exact counts_pure _
  · exact counts_pure _
  · exact (counts_reportGoal _ _ _ _ _).bind fun _ => counts_pure _
  · exact counts_pure _

theorem counts_retreat (otherwise : Alternatives) (w : Workspace) : Counts (retreat src otherwise w) := by
  unfold retreat
  split
  · exact counts_pure _
  · exact counts_pure _
  · exact (counts_reportGoal _ _ _ _ _).bind fun _ => counts_pure _
  · exact counts_pure _
  · exact counts_pure _
  · exact counts_pure _
  · exact counts_tryCandidates _ _ _ _ _
  · exact counts_tryRules _ _ _ _ _

theorem counts_step (hask : ask.Counting) (m : Machine) : Counts (step src ask m) := by
  unfold step
  split
  · exact counts_proveResolved hask _ _ _ _ _
  · exact counts_advance _ _ _
  · exact counts_retreat _ _

end Machine

/-! ### Values -/

theorem countsOption_applyDefinitions (hask : ask.Counting) (f : String) (call : Term) (sentences : List Term)
    (isDefined : Bool) : CountsOption (applyDefinitions ask f call sentences isDefined) := by
  induction sentences generalizing isDefined with
  | nil =>
    unfold applyDefinitions
    split
    · exact .failure
    · exact .pure _
  | cons sentence rest ih =>
    unfold applyDefinitions
    split
    · exact ih _
    · dsimp only
      split
      · exact ih _
      · refine (CountsOption.lift counts_infer).bind fun _ => (CountsOption.lift (hask _)).bind fun values => ?_
        split
        · exact .pure _
        · exact ih _

theorem countsOption_applyFunctor (hask : ask.Counting) (f : String) (values : List Term) :
    CountsOption (applyFunctor src ask f values) := by
  unfold applyFunctor
  split
  · exact .getM _
  · split
    · exact .getM _
    · split
      · exact .getM _
      · exact countsOption_applyDefinitions hask _ _ _ _

theorem countsOption_valuesOf {ts : List Term} (h : ∀ t ∈ ts, CountsOption (valueOf src ask t)) :
    CountsOption (valuesOf src ask ts) := by
  induction ts with
  | nil =>
    unfold valuesOf
    exact .pure _
  | cons t ts ih =>
    unfold valuesOf
    refine (h t List.mem_cons_self).bind fun v => CountsOption.bind ?_ fun vs => .pure _
    exact ih fun u hu => h u (List.mem_cons_of_mem t hu)

theorem countsOption_valueOfBranch (hask : ask.Counting) :
    (ts : List Term) → (∀ t ∈ ts, CountsOption (valueOf src ask t)) → CountsOption (valueOfBranch src ask ts)
  | [], _ => by
    unfold valueOfBranch
    exact .failure
  | [_], _ => by
    unfold valueOfBranch
    exact .failure
  | condition :: value :: rest, h => by
    unfold valueOfBranch
    refine (CountsOption.lift (counts_holds hask condition)).bind fun holds => ?_
    split
    · exact h value (by simp)
    · exact countsOption_valueOfBranch hask rest fun t ht => h t (by simp [ht])

theorem countsOption_mapItems (hask : ask.Counting) (f : String) (items : List Term) :
    CountsOption (do return Term.list (← items.mapM fun item => applyFunctor src ask f [item])) :=
  (CountsOption.mapM (fun item => countsOption_applyFunctor hask f [item]) items).bind fun _ => .pure _

/-- A functor applied to every element of the list that the first argument stands for. -/
def mapped (src : Sources) (ask : Answerer) (f : String) : List Term → OptionT Metered Term
  | list :: _ => do
    let items ← (← valueOf src ask list).items?.getM
    return .list (← items.mapM fun item => applyFunctor src ask f [item])
  | [] => failure

theorem countsOption_mapped (hask : ask.Counting) (f : String) {args : List Term}
    (h : ∀ t ∈ args, CountsOption (valueOf src ask t)) : CountsOption (mapped src ask f args) := by
  cases args with
  | nil => exact .failure
  | cons list _ =>
    refine (h list List.mem_cons_self).bind fun list => (CountsOption.getM _).bind fun items => ?_
    exact countsOption_mapItems hask f items

theorem countsOption_compound (hask : ask.Counting) (f : String) {args : List Term}
    (h : ∀ t ∈ args, CountsOption (valueOf src ask t)) : CountsOption (valueOf src ask (.compound f args)) := by
  unfold valueOf
  refine (CountsOption.lift (counts_isSpent src.config)).bind fun spent => ?_
  split
  · exact .failure
  · split
    · refine (h _ (by simp)).bind fun f => (CountsOption.getM _).bind fun f => ?_
      exact countsOption_mapped hask f fun t ht => h t (by simp [ht])
    · exact (CountsOption.lift (counts_findAll hask _ _ _)).bind fun answers => .pure _
    · exact .lift (counts_count hask _ _)
    · exact counts_findFirst? hask _ _
    · exact countsOption_valueOfBranch hask _ h
    · split
      · exact .failure
      · exact (countsOption_valuesOf h).bind fun values => countsOption_applyFunctor hask _ _

mutual
theorem countsOption_valueOf (hask : ask.Counting) : (t : Term) → CountsOption (valueOf src ask t)
  | .var _ => by
    unfold valueOf
    exact .failure
  | .sym _ => by
    unfold valueOf
    exact .pure _
  | .compound f args => countsOption_compound hask f (countsOption_valueOf_of_mem hask args)

theorem countsOption_valueOf_of_mem (hask : ask.Counting) :
    (ts : List Term) → ∀ t ∈ ts, CountsOption (valueOf src ask t)
  | [] => by simp
  | u :: us => List.forall_mem_cons.2 ⟨countsOption_valueOf hask u, countsOption_valueOf_of_mem hask us⟩
end

/-! ### Searches -/

namespace Search

theorem counts_run (hask : ask.Counting) (n : Nat) (m : Machine) : Counts (run src ask n m) := by
  induction n generalizing m with
  | zero => exact counts_throw _
  | succ n ih =>
    unfold run
    refine (counts_isSpent src.config).bind fun spent => ?_
    split
    · exact counts_pure _
    · split
      · exact counts_pure _
      · exact counts_pure _
      · exact (Machine.counts_step hask m).bind fun m => ih m

theorem counts_next (hask : ask.Counting) (s : Search) : Counts (s.next src ask) := by
  unfold next
  dsimp only
  split
  · exact counts_pure _
  · refine (counts_run hask _ _).bind fun outcome => ?_
    cases outcome <;> exact counts_pure _

theorem counts_pull (hask : ask.Counting) (n : Nat) (s : Search) (found : List Term) :
    Counts (s.pull src ask n found) := by
  induction n generalizing s found with
  | zero => exact counts_pure _
  | succ n ih =>
    unfold pull
    refine (counts_next hask s).bind fun r => ?_
    obtain ⟨answer, s⟩ := r
    cases answer with
    | none => exact counts_pure _
    | some t => exact ih s (t :: found)

theorem counts_take (hask : ask.Counting) (n : Nat) (s : Search) : Counts (s.take src ask n) :=
  (counts_pull hask n s []).bind fun _ => counts_pure _

end Search

/-- Answering questions takes back nothing, at any depth. -/
theorem counts_consultAt (src : Sources) (n : Nat) : (consultAt src n).Counting := by
  induction n with
  | zero => exact fun _ => counts_throw _
  | succ n ih =>
    intro q
    cases q with
    | all template goal => exact Search.counts_take ih _ _
    | first template goal => exact (Search.counts_next ih _).bind fun _ => counts_pure _
    | value expr => exact Counts.bind (countsOption_valueOf ih expr) fun _ => counts_pure _

end Deduction
