import Deduction.Proofs.Search.Hypothetical

/-!
# Higher limits

A computation that ends before the limit was before it all the time. So under a higher limit it does the same, down to
the last count (`Lasts`): the meter is looked at again before anything that was concluded from a question that was cut
short could become an answer. The answers of a search are then the first answers of the search under the higher limit,
and all of them if it ended before its limit (`answers_of_limit_le`).
-/

namespace Deduction

variable {α β : Type} {limit : Nat}

/-- What the first computation does before the limit, the second one does too. -/
def Lasts (limit : Nat) (x y : Metered α) : Prop :=
  ∀ ⦃m a m'⦄, x.run m = .ok (a, m') → m'.spent < limit → y.run m = .ok (a, m')

namespace Lasts

theorem refl (x : Metered α) : Lasts limit x x := fun _ _ _ hx _ => hx

theorem bind {x y : Metered α} {f g : α → Metered β} (h : Lasts limit x y) (hf : ∀ a, Counts (f a))
    (hfg : ∀ a, Lasts limit (f a) (g a)) : Lasts limit (x >>= f) (y >>= g) := by
  intro m b m' hx hm
  obtain ⟨a, m₁, hx, hfa⟩ := Metered.run_bind_eq_ok.1 hx
  have hm₁ := Nat.lt_of_le_of_lt (hf a hfa) hm
  exact Metered.run_bind_eq_ok.2 ⟨a, m₁, h hx hm₁, hfg a hfa hm⟩

/-- The results go on in the same way. -/
theorem bind_left {x y : Metered α} {f : α → Metered β} (h : Lasts limit x y) (hf : ∀ a, Counts (f a)) :
    Lasts limit (x >>= f) (y >>= f) := h.bind hf fun a => refl (f a)

/-- What is done once the limit is reached does not matter: before it, the higher limit is not reached either. -/
theorem unlessSpent {config config' : Config} {x x' y y' : Metered α} (hle : config.limit ≤ config'.limit)
    (hx : Counts x) (h : Lasts config.limit x' y') :
    Lasts config.limit (Meter.isSpent config >>= fun spent => if spent = true then x else x')
      (Meter.isSpent config' >>= fun spent => if spent = true then y else y') := by
  intro m a m' hrun hm
  obtain ⟨spent, m₁, hspent, hrun⟩ := Metered.run_bind_eq_ok.1 hrun
  cases hspent
  split at hrun
  · rename_i hspent
    have := hx hrun
    simp only [decide_eq_true_iff] at hspent
    omega
  · rename_i hspent
    have hspent' : ¬config'.limit ≤ m.spent := by
      simp only [decide_eq_true_iff] at hspent
      omega
    refine Metered.run_bind_eq_ok.2 ⟨false, m, ?_, h hrun hm⟩
    change Except.ok (decide (config'.limit ≤ m.spent), m) = _
    rw [decide_eq_false hspent']

end Lasts

/-! ### Computations that may have no result -/

/-- What the first computation does before the limit, if only to find that there is no result, the second one does
too. -/
def LastsOption (limit : Nat) (x y : OptionT Metered α) : Prop := Lasts limit x.run y.run

namespace LastsOption

theorem refl (x : OptionT Metered α) : LastsOption limit x x := Lasts.refl _

theorem lift {x y : Metered α} (h : Lasts limit x y) :
    LastsOption limit (liftM x : OptionT Metered α) (liftM y) :=
  Lasts.bind_left (f := fun a => pure (some a)) h fun _ => counts_pure _

theorem bind {x y : OptionT Metered α} {f g : α → OptionT Metered β} (h : LastsOption limit x y)
    (hf : ∀ a, CountsOption (f a)) (hfg : ∀ a, LastsOption limit (f a) (g a)) :
    LastsOption limit (x >>= f) (y >>= g) := by
  unfold LastsOption
  rw [OptionT.run_bind, OptionT.run_bind]
  refine Lasts.bind h (fun a => ?_) fun a => ?_
  · cases a with
    | none => exact counts_pure none
    | some a => exact hf a
  · cases a with
    | none => exact .refl _
    | some a => exact hfg a

theorem mapM {f g : α → OptionT Metered β} (hf : ∀ a, CountsOption (f a)) (hfg : ∀ a, LastsOption limit (f a) (g a))
    (as : List α) : LastsOption limit (as.mapM f) (as.mapM g) := by
  induction as with
  | nil => exact refl _
  | cons a as ih =>
    rw [List.mapM_cons, List.mapM_cons]
    refine (hfg a).bind (fun b => ?_) fun b => ih.bind (fun bs => .pure _) fun bs => refl _
    exact (CountsOption.mapM hf as).bind fun bs => .pure _

/-- Once the limit is reached there is no value. -/
theorem unlessSpent {config config' : Config} {x y : OptionT Metered α} (hle : config.limit ≤ config'.limit)
    (h : LastsOption config.limit x y) :
    LastsOption config.limit
      (liftM (Meter.isSpent config) >>= fun spent => if spent = true then Alternative.failure else x)
      (liftM (Meter.isSpent config') >>= fun spent => if spent = true then Alternative.failure else y) := by
  have hrun (config : Config) (z : OptionT Metered α) :
      ((liftM (Meter.isSpent config) : OptionT Metered Bool) >>= fun spent =>
          if spent = true then Alternative.failure else z).run =
        Meter.isSpent config >>= fun spent => if spent = true then Pure.pure none else z.run := by
    have hlift : (liftM (Meter.isSpent config) : OptionT Metered Bool).run = some <$> Meter.isSpent config := rfl
    rw [OptionT.run_bind, Option.elimM, hlift, bind_map_left]
    apply bind_congr
    intro spent
    cases spent <;> rfl
  unfold LastsOption
  rw [hrun, hrun]
  exact Lasts.unlessSpent hle (counts_pure none) h

end LastsOption

/-! ### Computations in a workspace -/

/-- What the first computation does in a workspace before the limit, the second one does too. -/
def LastsIn (limit : Nat) (x y : Selecting α) : Prop := ∀ w, Lasts limit (x.run.run w) (y.run.run w)

namespace LastsIn

theorem refl (x : Selecting α) : LastsIn limit x x := fun _ => .refl _

theorem lift {x y : Metered α} (h : Lasts limit x y) : LastsIn limit (liftM x : Selecting α) (liftM y) := by
  intro w
  rw [Selecting.run_liftM, Selecting.run_liftM]
  exact h.bind_left fun _ => counts_pure _

theorem bind {x y : Selecting α} {f g : α → Selecting β} (h : LastsIn limit x y) (hf : ∀ a, CountsIn (f a))
    (hfg : ∀ a, LastsIn limit (f a) (g a)) : LastsIn limit (x >>= f) (y >>= g) := by
  intro w
  rw [OptionT.run_bind, OptionT.run_bind, Option.elimM, Option.elimM, StateT.run_bind, StateT.run_bind]
  refine Lasts.bind (h w) (fun r => ?_) fun r => ?_
  · obtain ⟨a, w₁⟩ := r
    cases a with
    | none => exact counts_pure _
    | some a => exact hf a w₁
  · obtain ⟨a, w₁⟩ := r
    cases a with
    | none => exact .refl _
    | some a => exact hfg a w₁

/-- What comes before a question counts nothing. -/
theorem bind_quiet {x : Selecting α} {f g : α → Selecting β} (hx : Quiet x) (hfg : ∀ a, LastsIn limit (f a) (g a)) :
    LastsIn limit (x >>= f) (x >>= g) := by
  intro w
  obtain ⟨⟨a, w₁⟩, hrun, -⟩ := hx w
  rw [OptionT.run_bind, OptionT.run_bind, Option.elimM, Option.elimM, StateT.run_bind, StateT.run_bind, hrun,
    pure_bind, pure_bind]
  cases a with
  | none => exact .refl _
  | some a => exact hfg a w₁

theorem bind_of_quiet {x y : Selecting α} {f : α → Selecting β} (h : LastsIn limit x y) (hf : ∀ a, Quiet (f a)) :
    LastsIn limit (x >>= f) (y >>= f) := h.bind (fun a => .of_quiet (hf a)) fun _ => refl _

end LastsIn

/-! ### Questions within a goal -/

/-- The answers that the first answerer gives before the limit, the second one gives too. -/
structure Answerer.Lasts (limit : Nat) (ask ask' : Answerer) : Prop where
  counting : ask.Counting
  lasts : ∀ q, Deduction.Lasts limit (ask q) (ask' q)

variable {src : Sources} {ask ask' : Answerer}

section

variable (h : ask.Lasts limit ask')

include h

theorem lasts_findAll (config : Config) (template goal : Term) :
    Lasts limit (ask.findAll config template goal) (ask'.findAll config template goal) :=
  (h.lasts _).bind_left fun _ => counts_pure _

theorem lasts_count (template goal : Term) : Lasts limit (ask.count template goal) (ask'.count template goal) :=
  (h.lasts _).bind_left fun _ => counts_pure _

theorem lasts_findFirst? (template goal : Term) :
    Lasts limit (ask.findFirst? template goal) (ask'.findFirst? template goal) :=
  (h.lasts _).bind_left fun _ => counts_pure _

theorem lasts_holds (goal : Term) : Lasts limit (ask.holds goal) (ask'.holds goal) :=
  (lasts_findFirst? h _ goal).bind_left fun _ => counts_pure _

theorem lastsIn_mapRelation (relation : String) (items : List Term) :
    LastsIn limit (mapRelation ask relation items) (mapRelation ask' relation items) := by
  induction items with
  | nil => exact .refl _
  | cons item items ih =>
    unfold mapRelation
    refine .bind_quiet quiet_freshVar fun out => (LastsIn.lift (h.lasts _)).bind (fun results => ?_) fun results => ?_
    · cases results with
      | nil => exact .of_quiet .failure
      | cons result _ => exact (countsIn_mapRelation h.counting relation items).bind fun rest => .of_quiet (.pure _)
    · cases results with
      | nil => exact .refl _
      | cons result _ => exact ih.bind_of_quiet fun rest => .pure _

theorem lastsIn_selectMapped (args : List Term) (env : EnvId) :
    LastsIn limit (selectMapped ask args env) (selectMapped ask' args env) := by
  unfold selectMapped
  refine .bind_quiet (.getM _) fun t => .bind_quiet (.getM _) fun relation => ?_
  refine .bind_quiet (.getM _) fun t => .bind_quiet (quiet_input t env) fun list => ?_
  refine .bind_quiet (.getM _) fun items => (lastsIn_mapRelation h relation items).bind_of_quiet fun results => ?_
  exact (Quiet.getM _).bind fun output => .pure _

theorem lastsIn_selectAggregate (f : String) (args : List Term) (env : EnvId) :
    LastsIn limit (selectAggregate src ask f args env) (selectAggregate src ask' f args env) := by
  unfold selectAggregate
  refine .bind_quiet (.getM _) fun t => .bind_quiet (quiet_input t env) fun template => ?_
  refine .bind_quiet (.getM _) fun t => .bind_quiet (quiet_input t env) fun goal => ?_
  dsimp only
  split
  · refine (LastsIn.lift (lasts_findAll h _ _ _)).bind_of_quiet fun answers => ?_
    exact (Quiet.pure _).bind fun value => (Quiet.getM _).bind fun output => .pure _
  · refine (LastsIn.lift (lasts_count h _ _)).bind_of_quiet fun value => ?_
    exact (Quiet.getM _).bind fun output => .pure _

theorem lastsIn_selectValue (args : List Term) (env : EnvId) :
    LastsIn limit (selectValue ask args env) (selectValue ask' args env) := by
  unfold selectValue
  refine .bind_quiet (.getM _) fun t => .bind_quiet (quiet_input t env) fun expr => ?_
  refine (LastsIn.lift (h.lasts _)).bind_of_quiet fun values => ?_
  exact (Quiet.getM _).bind fun value => (Quiet.getM _).bind fun output => .pure _

theorem lastsIn_selectComputed (f : String) (args : List Term) (env : EnvId) :
    LastsIn limit (selectComputed src ask f args env) (selectComputed src ask' f args env) := by
  unfold selectComputed
  split
  · exact lastsIn_selectValue h _ env
  · exact .refl _
  · exact .refl _
  · exact lastsIn_selectMapped h _ env
  · split
    · exact lastsIn_selectAggregate h _ _ env
    · exact .refl _

/-! ### Questions within an expression -/

theorem lastsOption_applyDefinitions (f : String) (call : Term) (sentences : List Term) (isDefined : Bool) :
    LastsOption limit (applyDefinitions ask f call sentences isDefined)
      (applyDefinitions ask' f call sentences isDefined) := by
  induction sentences generalizing isDefined with
  | nil => exact .refl _
  | cons sentence rest ih =>
    unfold applyDefinitions
    split
    · exact ih _
    · dsimp only
      split
      · exact ih _
      · refine (LastsOption.refl _).bind (fun _ => ?_) fun _ => ?_
        · refine (CountsOption.lift (h.counting _)).bind fun values => ?_
          cases values with
          | nil => exact countsOption_applyDefinitions h.counting _ _ _ _
          | cons value _ => exact .pure _
        · refine (LastsOption.lift (h.lasts _)).bind (fun values => ?_) fun values => ?_
          · cases values with
            | nil => exact countsOption_applyDefinitions h.counting _ _ _ _
            | cons value _ => exact .pure _
          · cases values with
            | nil => exact ih _
            | cons value _ => exact .refl _

theorem lastsOption_applyFunctor (f : String) (values : List Term) :
    LastsOption limit (applyFunctor src ask f values) (applyFunctor src ask' f values) := by
  unfold applyFunctor
  split
  · exact .refl _
  · split
    · exact .refl _
    · split
      · exact .refl _
      · exact lastsOption_applyDefinitions h _ _ _ _

end

/-! ### Values under a higher limit -/

/-- The sources, asked under another limit. -/
def Sources.withLimit (src : Sources) (limit : Nat) : Sources := { src with config := { src.config with limit } }

/-- What a higher limit has to satisfy, and what it has to leave of the answers to questions. -/
structure Sources.Raises (src : Sources) (ask : Answerer) (limit : Nat) (ask' : Answerer) : Prop where
  limit_le : src.config.limit ≤ limit
  ask_lasts : ask.Lasts src.config.limit ask'

section

variable (h : src.Raises ask limit ask')

include h

theorem lastsOption_valuesOf {ts : List Term}
    (hts : ∀ t ∈ ts, LastsOption src.config.limit (valueOf src ask t) (valueOf (src.withLimit limit) ask' t)) :
    LastsOption src.config.limit (valuesOf src ask ts) (valuesOf (src.withLimit limit) ask' ts) := by
  induction ts with
  | nil =>
    unfold valuesOf
    exact .refl _
  | cons t ts ih =>
    have hcounts : CountsOption (valuesOf src ask ts) :=
      countsOption_valuesOf fun u _ => countsOption_valueOf h.ask_lasts.counting u
    unfold valuesOf
    refine (hts t List.mem_cons_self).bind (fun v => hcounts.bind fun vs => .pure _) fun v => ?_
    exact (ih fun u hu => hts u (List.mem_cons_of_mem t hu)).bind (fun vs => .pure _) fun vs => .refl _

theorem lastsOption_valueOfBranch :
    (ts : List Term) →
      (∀ t ∈ ts, LastsOption src.config.limit (valueOf src ask t) (valueOf (src.withLimit limit) ask' t)) →
      LastsOption src.config.limit (valueOfBranch src ask ts) (valueOfBranch (src.withLimit limit) ask' ts)
  | [], _ => by
    unfold valueOfBranch
    exact .refl _
  | [_], _ => by
    unfold valueOfBranch
    exact .refl _
  | condition :: value :: rest, hts => by
    have hask := h.ask_lasts.counting
    unfold valueOfBranch
    refine (LastsOption.lift (lasts_holds h.ask_lasts condition)).bind (fun holds => ?_) fun holds => ?_
    · split
      · exact countsOption_valueOf hask value
      · exact countsOption_valueOfBranch hask rest fun t _ => countsOption_valueOf hask t
    · split
      · exact hts value (by simp)
      · exact lastsOption_valueOfBranch rest fun t ht => hts t (by simp [ht])

theorem lastsOption_mapped (f : String) {args : List Term}
    (hargs : ∀ t ∈ args, LastsOption src.config.limit (valueOf src ask t) (valueOf (src.withLimit limit) ask' t)) :
    LastsOption src.config.limit (mapped src ask f args) (mapped (src.withLimit limit) ask' f args) := by
  cases args with
  | nil => exact .refl _
  | cons list _ =>
    have hask := h.ask_lasts
    refine (hargs list List.mem_cons_self).bind (fun t => ?_) fun t => ?_
    · exact (CountsOption.getM _).bind fun items => countsOption_mapItems hask.counting f items
    · refine (LastsOption.refl _).bind (fun items => countsOption_mapItems hask.counting f items) fun items => ?_
      refine (LastsOption.mapM (fun item => ?_) (fun item => ?_) items).bind (fun _ => .pure _) fun _ => .refl _
      · exact countsOption_applyFunctor hask.counting f [item]
      · exact lastsOption_applyFunctor hask f [item]

theorem lastsOption_compound (f : String) {args : List Term}
    (hargs : ∀ t ∈ args, LastsOption src.config.limit (valueOf src ask t) (valueOf (src.withLimit limit) ask' t)) :
    LastsOption src.config.limit (valueOf src ask (.compound f args))
      (valueOf (src.withLimit limit) ask' (.compound f args)) := by
  have hask := h.ask_lasts
  have hle : src.config.limit ≤ (src.withLimit limit).config.limit := h.limit_le
  unfold valueOf
  refine LastsOption.unlessSpent hle ?_
  split
  · rename_i function args
    refine (hargs function List.mem_cons_self).bind (fun t => ?_) fun t => ?_
    · refine (CountsOption.getM _).bind fun f => ?_
      exact countsOption_mapped hask.counting f fun t _ => countsOption_valueOf hask.counting t
    · refine (LastsOption.refl _).bind (fun f => ?_) fun f => ?_
      · exact countsOption_mapped hask.counting f fun t _ => countsOption_valueOf hask.counting t
      · exact lastsOption_mapped h f fun u hu => hargs u (List.mem_cons_of_mem _ hu)
  · exact (LastsOption.lift (lasts_findAll hask _ _ _)).bind (fun _ => .pure _) fun _ => .refl _
  · exact .lift (lasts_count hask _ _)
  · exact lasts_findFirst? hask _ _
  · exact lastsOption_valueOfBranch h _ hargs
  · split
    · exact .refl _
    · exact (lastsOption_valuesOf h hargs).bind (fun values => countsOption_applyFunctor hask.counting _ _)
        fun values => lastsOption_applyFunctor hask _ _

end

mutual
/-- The value of an expression. -/
theorem lastsOption_valueOf (h : src.Raises ask limit ask') :
    (t : Term) → LastsOption src.config.limit (valueOf src ask t) (valueOf (src.withLimit limit) ask' t)
  | .var _ => by
    unfold valueOf
    exact .refl _
  | .sym _ => by
    unfold valueOf
    exact .refl _
  | .compound f args => lastsOption_compound h f (lastsOption_valueOf_of_mem h args)

theorem lastsOption_valueOf_of_mem (h : src.Raises ask limit ask') :
    (ts : List Term) →
      ∀ t ∈ ts, LastsOption src.config.limit (valueOf src ask t) (valueOf (src.withLimit limit) ask' t)
  | [] => by simp
  | u :: us => List.forall_mem_cons.2 ⟨lastsOption_valueOf h u, lastsOption_valueOf_of_mem h us⟩
end

/-! ### Steps of the machine -/

namespace Machine

theorem tryCandidates_withLimit (c : Cursor) (next : Agenda) (otherwise : Alternatives) (candidates : List Term)
    (w : Workspace) :
    tryCandidates (src.withLimit limit) c next otherwise candidates w =
      tryCandidates src c next otherwise candidates w := by
  obtain ⟨s, names⟩ := w
  induction candidates generalizing s with
  | nil => rfl
  | cons t rest ih => simp only [tryCandidates, ih]; rfl

theorem tryRules_withLimit (x : Expansion) (next : Agenda) (otherwise : Alternatives) (rules : List Term)
    (w : Workspace) :
    tryRules (src.withLimit limit) x next otherwise rules w = tryRules src x next otherwise rules w := by
  obtain ⟨s, names⟩ := w
  induction rules generalizing s with
  | nil => rfl
  | cons t rest ih => simp only [tryRules, ih]; rfl

theorem select_withLimit (origin : Cursor.Origin) (env : EnvId) (selecting : Selecting Selection) (next : Agenda)
    (otherwise : Alternatives) (w : Workspace) :
    select (src.withLimit limit) origin env selecting next otherwise w =
      select src origin env selecting next otherwise w := by
  unfold select
  simp only [tryCandidates_withLimit]

theorem expand_withLimit (goal : Term) (env : EnvId) (next : Agenda) (otherwise : Alternatives) (w : Workspace) :
    expand (src.withLimit limit) goal env next otherwise w = expand src goal env next otherwise w := by
  unfold expand
  simp only [tryRules_withLimit]
  rfl

/-- The machine itself does not look at the limit. -/
theorem step_withLimit (ask : Answerer) (m : Machine) : step (src.withLimit limit) ask m = step src ask m := by
  obtain ⟨control, w⟩ := m
  cases control with
  | prove goal env next otherwise =>
    unfold step proveResolved
    simp only [select_withLimit, expand_withLimit]
    rfl
  | proved next otherwise =>
    cases next <;> rfl
  | failed otherwise =>
    unfold step retreat
    simp only [tryCandidates_withLimit, tryRules_withLimit]
    rfl

variable {limit : Nat}

theorem lasts_select {x y : Selecting Selection} (h : LastsIn limit x y) (origin : Cursor.Origin) (env : EnvId)
    (next : Agenda) (otherwise : Alternatives) (w : Workspace) :
    Lasts limit (select src origin env x next otherwise w) (select src origin env y next otherwise w) := by
  unfold select
  refine (h w).bind_left fun r => ?_
  obtain ⟨selection, w'⟩ := r
  cases selection with
  | none => exact counts_pure _
  | some selection => exact counts_tryCandidates _ _ _ _ _

theorem lasts_proveResolved (hask : ask.Lasts limit ask') (goal : Term) (env : EnvId) (next : Agenda)
    (otherwise : Alternatives) (w : Workspace) :
    Lasts limit (proveResolved src ask goal env next otherwise w) (proveResolved src ask' goal env next otherwise w) := by
  unfold proveResolved
  split
  case h_11 f args _ => exact lasts_select (lastsIn_selectComputed hask f args env) _ _ _ _ _
  all_goals exact .refl _

/-- One step of the machine. -/
theorem lasts_step (hask : ask.Lasts limit ask') (m : Machine) : Lasts limit (step src ask m) (step src ask' m) := by
  unfold step
  split
  · exact lasts_proveResolved hask _ _ _ _ _
  · exact .refl _
  · exact .refl _

end Machine

/-! ### Searches -/

namespace Search

section

variable (h : src.Raises ask limit ask')

include h

theorem lasts_run (n : Nat) (m : Machine) :
    Lasts src.config.limit (run src ask n m) (run (src.withLimit limit) ask' n m) := by
  induction n generalizing m with
  | zero => exact .refl _
  | succ n ih =>
    have hle : src.config.limit ≤ (src.withLimit limit).config.limit := h.limit_le
    unfold run
    refine Lasts.unlessSpent hle (counts_pure _) ?_
    split
    · exact .refl _
    · exact .refl _
    · rw [Machine.step_withLimit]
      exact (Machine.lasts_step h.ask_lasts m).bind (counts_run h.ask_lasts.counting n) ih

theorem lasts_next (s : Search) :
    Lasts src.config.limit (s.next src ask) (s.next (src.withLimit limit) ask') := by
  unfold next
  dsimp only
  split
  · exact .refl _
  · refine (lasts_run h stepBound s.machine).bind_left fun outcome => ?_
    cases outcome <;> exact counts_pure _

theorem lasts_pull (n : Nat) (s : Search) (found : List Term) :
    Lasts src.config.limit (s.pull src ask n found) (s.pull (src.withLimit limit) ask' n found) := by
  induction n generalizing s found with
  | zero => exact .refl _
  | succ n ih =>
    unfold pull
    refine (lasts_next h s).bind (fun r => ?_) fun r => ?_
    · obtain ⟨answer, s⟩ := r
      cases answer with
      | none => exact counts_pure _
      | some t => exact counts_pull h.ask_lasts.counting n s _
    · obtain ⟨answer, s⟩ := r
      cases answer with
      | none => exact .refl _
      | some t => exact ih s (t :: found)

theorem lasts_take (n : Nat) (s : Search) :
    Lasts src.config.limit (s.take src ask n) (s.take (src.withLimit limit) ask' n) :=
  (lasts_pull h n s []).bind_left fun _ => counts_pure _

end

end Search

/-- Questions that are answered before the limit are answered in the same way under a higher one, at any depth. -/
theorem lasts_consultAt (hle : src.config.limit ≤ limit) (n : Nat) :
    (consultAt src n).Lasts src.config.limit (consultAt (src.withLimit limit) n) := by
  induction n with
  | zero => exact ⟨counts_consultAt src 0, fun _ => .refl _⟩
  | succ n ih =>
    have h : src.Raises (consultAt src n) limit (consultAt (src.withLimit limit) n) := ⟨hle, ih⟩
    refine ⟨counts_consultAt src (n + 1), fun q => ?_⟩
    cases q with
    | all template goal => exact Search.lasts_take h _ _
    | first template goal => exact (Search.lasts_next h _).bind_left fun _ => counts_pure _
    | value expr => exact Lasts.bind_left (lastsOption_valueOf h expr) fun _ => counts_pure _

/-! ### Answers one at a time -/

namespace Solutions

/-- The query, asked under another limit. -/
def withLimit (s : Solutions) (limit : Nat) : Solutions := { s with sources := s.sources.withLimit limit }

variable {s s' : Solutions}

/-- An answer that was found before the limit is found under a higher one, and so is that there is none. -/
theorem next_withLimit (hle : s.sources.config.limit ≤ limit) {answer : Option Term} (hs : s.next = .ok (answer, s'))
    (hs' : s'.limitReached = false) : (s.withLimit limit).next = .ok (answer, s'.withLimit limit) := by
  obtain ⟨hrun, hsources⟩ := next_eq_ok hs
  have hend : s'.search.status ≠ .limitReached := by simpa [limitReached] using hs'
  have hraised : (s.search.next (s.sources.withLimit limit) (s.sources.withLimit limit).consult).run s.meter =
      .ok ((answer, s'.search), s'.meter) := by
    by_cases hstatus : s.search.status = .running
    · have hask := lasts_consultAt hle stepBound
      exact Search.lasts_next ⟨hle, hask⟩ s.search hrun (Search.spent_lt_of_next hrun hstatus hend)
    · unfold Search.next at hrun ⊢
      rw [if_pos hstatus] at hrun ⊢
      exact hrun
  unfold next withLimit
  dsimp only
  rw [hraised, hsources]
  rfl

theorem answers_withLimit (hle : s.sources.config.limit ≤ limit) {n : Nat} {a : List (Option Term)}
    (hs : s.answers n = .ok (a, s')) (hs' : s'.limitReached = false) :
    (s.withLimit limit).answers n = .ok (a, s'.withLimit limit) := by
  induction n generalizing s a with
  | zero =>
    cases hs
    rfl
  | succ n ih =>
    obtain ⟨answer, s₁, rest, hnext, hrest, rfl⟩ := answers_succ_eq_ok hs
    have hs₁ : s₁.limitReached = false := by
      rw [Bool.eq_false_iff]
      intro hlimit
      rw [limitReached_of_answers hrest hlimit] at hs'
      cases hs'
    have hle₁ : s₁.sources.config.limit ≤ limit := (next_eq_ok hnext).2 ▸ hle
    exact answers_succ (next_withLimit hle hnext hs₁) (ih hle₁ hrest)

/-- Once there is no answer there are none any more. -/
theorem answers_of_ended (hs : s.search.status ≠ .running) {n : Nat} {a : List (Option Term)}
    (h : s.answers n = .ok (a, s')) : a = List.replicate n none := by
  induction n generalizing s a with
  | zero =>
    cases h
    rfl
  | succ n ih =>
    obtain ⟨answer, s₁, rest, hnext, hrest, rfl⟩ := answers_succ_eq_ok h
    obtain ⟨rfl, hsearch⟩ := next_of_ended hs hnext
    rw [ih (hsearch ▸ hs) hrest, List.replicate_succ]

/-- The answers that were found before the limit are the first answers under a higher limit. -/
theorem exists_found (hle : s.sources.config.limit ≤ limit) {n : Nat} {a : List (Option Term)}
    (hs : s.answers n = .ok (a, s')) :
    ∃ found k t, a = List.map some found ++ List.replicate k none ∧
      (s.withLimit limit).answers found.length = .ok (found.map some, t) := by
  induction n generalizing s a with
  | zero =>
    cases hs
    exact ⟨[], 0, _, rfl, rfl⟩
  | succ n ih =>
    obtain ⟨answer, s₁, rest, hnext, hrest, rfl⟩ := answers_succ_eq_ok hs
    obtain ⟨hrun, hsources⟩ := next_eq_ok hnext
    cases answer with
    | none =>
      have hended : s₁.search.status ≠ .running := Search.status_of_next_none hrun
      refine ⟨[], n + 1, _, ?_, rfl⟩
      rw [answers_of_ended hended hrest, List.replicate_succ]
      rfl
    | some t =>
      have hs₁ : s₁.limitReached = false := by
        unfold limitReached
        rw [Search.status_of_next_some hrun]
        rfl
      have hle₁ : s₁.sources.config.limit ≤ limit := hsources ▸ hle
      obtain ⟨found, k, t', rfl, hfound⟩ := ih hle₁ hrest
      exact ⟨t :: found, k, t', rfl, answers_succ (next_withLimit hle hnext hs₁) hfound⟩

end Solutions

/-- The answers of a query are the first answers of the same query under any higher limit. If the query did not reach
its limit, the query under the higher limit gives just the same answers, and does not reach its limit either. -/
theorem answers_of_limit_le (src : Sources) {limit : Nat} (hle : src.config.limit ≤ limit) (template query : Term)
    (n : Nat) {a : List (Option Term)} {s : Solutions} (hs : (src.solutions template query).answers n = .ok (a, s)) :
    (∃ found k t, a = List.map some found ++ List.replicate k none ∧
      ((src.withLimit limit).solutions template query).answers found.length = .ok (found.map some, t)) ∧
    (s.limitReached = false → ∃ t, ((src.withLimit limit).solutions template query).answers n = .ok (a, t) ∧
      t.search.status = s.search.status ∧ t.limitReached = false) := by
  refine ⟨Solutions.exists_found hle hs, fun hs' => ?_⟩
  exact ⟨s.withLimit limit, Solutions.answers_withLimit hle hs hs', rfl, hs'⟩

/-- The fact that there is a lamp at the place. -/
def lamp (place : String) : Term := .compound "lamp" [.sym place]

/-- Every place that has a lamp, with the list of all of them, asked under a limit. -/
def lamps (limit : Nat) : Solutions :=
  Sources.solutions { facts := .ofList .full [lamp "hall", lamp "yard"], config := { limit } }
    (.compound "among" [.var "X", .var "L"])
    (.compound "and"
      [.compound "lamp" [.var "X"], .compound "setofall" [.var "Y", .compound "lamp" [.var "Y"], .var "L"]])

/-- The answer for a place when the list has both of them. -/
def amongBoth (place : String) : Term := .compound "among" [.sym place, .list [.sym "hall", .sym "yard"]]

/-- Under the limit 5 the second list is cut short, and the second place is no answer. Under the limit 9 both are, and
then under the limit 20 as well. -/
theorem answers_of_limit_le_lamps :
    (∃ s found k t, (lamps 5).answers 2 = .ok ([some (amongBoth "hall"), none], s) ∧
      [some (amongBoth "hall"), none] = List.map some found ++ List.replicate k none ∧
      (lamps 9).answers found.length = .ok (found.map some, t)) ∧
    ∃ s t, (lamps 9).answers 3 = .ok ([some (amongBoth "hall"), some (amongBoth "yard"), none], s) ∧
      (lamps 20).answers 3 = .ok ([some (amongBoth "hall"), some (amongBoth "yard"), none], t) ∧
      t.search.status = s.search.status ∧ t.limitReached = false := by
  constructor
  · obtain ⟨s, hs, -⟩ := Solutions.exists_of_answers (x := (lamps 5).answers 2)
      (a := [some (amongBoth "hall"), none]) (b := true) (by decide +kernel)
    obtain ⟨⟨found, k, t, ha, hfound⟩, -⟩ := answers_of_limit_le _ (show 5 ≤ 9 by decide) _ _ 2 hs
    exact ⟨s, found, k, t, hs, ha, hfound⟩
  · obtain ⟨s, hs, hs'⟩ := Solutions.exists_of_answers (x := (lamps 9).answers 3)
      (a := [some (amongBoth "hall"), some (amongBoth "yard"), none]) (b := false) (by decide +kernel)
    obtain ⟨-, hwhole⟩ := answers_of_limit_le _ (show 9 ≤ 20 by decide) _ _ 3 hs
    obtain ⟨t, ht, hstatus, ht'⟩ := hwhole hs'
    exact ⟨s, t, hs, ht, hstatus, ht'⟩

end Deduction
