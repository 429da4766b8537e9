import Deduction.Proofs.Search.Stepwise

/-!
# Computations that are interrupted

A computation may be interrupted as soon as variables lead round in the store that it has come to. Up to there it does what
it does otherwise (`Curtails`). If that goes for the answers to the questions that a search puts, it goes for the steps of
the search, and if it goes for the steps, it goes for the answers of the search (`curtails_consultBy`).
-/

namespace Deduction

variable {α β : Type}

/-- The first computation is the second one, unless it is interrupted for variables that lead round. -/
def Curtails (x y : Metered α) : Prop := ∀ m, x.run m = .error .endless ∨ x.run m = y.run m

namespace Curtails

theorem refl (x : Metered α) : Curtails x x := fun _ => .inr rfl

theorem throw (y : Metered α) : Curtails (throw .endless) y := fun _ => .inl rfl

theorem bind {x y : Metered α} {f g : α → Metered β} (h : Curtails x y) (hfg : ∀ a, Curtails (f a) (g a)) :
    Curtails (x >>= f) (y >>= g) := by
  intro m
  rw [StateT.run_bind, StateT.run_bind]
  rcases h m with hx | hx
  · left
    rw [hx]
    rfl
  · rw [hx]
    cases y.run m with
    | error e => exact .inr rfl
    | ok r => exact hfg r.1 r.2

theorem map {x y : Metered α} (h : Curtails x y) (f : α → β) : Curtails (f <$> x) (f <$> y) := by
  rw [map_eq_pure_bind, map_eq_pure_bind]
  exact h.bind fun _ => .refl _

end Curtails

/-! ### Computations that may have no result -/

/-- The first computation is the second one, unless it is interrupted. -/
def CurtailsOption (x y : OptionT Metered α) : Prop := Curtails x.run y.run

namespace CurtailsOption

theorem refl (x : OptionT Metered α) : CurtailsOption x x := Curtails.refl _

theorem lift {x y : Metered α} (h : Curtails x y) : CurtailsOption (liftM x : OptionT Metered α) (liftM y) :=
  h.map some

theorem bind {x y : OptionT Metered α} {f g : α → OptionT Metered β} (h : CurtailsOption x y)
    (hfg : ∀ a, CurtailsOption (f a) (g a)) : CurtailsOption (x >>= f) (y >>= g) := by
  unfold CurtailsOption
  rw [OptionT.run_bind, OptionT.run_bind]
  refine Curtails.bind h fun a => ?_
  cases a with
  | none => exact .refl _
  | some a => exact hfg a

/-- What comes first is the same. -/
theorem bind_right (x : OptionT Metered α) {f g : α → OptionT Metered β} (hfg : ∀ a, CurtailsOption (f a) (g a)) :
    CurtailsOption (x >>= f) (x >>= g) := (refl x).bind hfg

/-- What follows is the same. -/
theorem bind_left {x y : OptionT Metered α} (h : CurtailsOption x y) (f : α → OptionT Metered β) :
    CurtailsOption (x >>= f) (y >>= f) := h.bind fun _ => refl _

theorem mapM {f g : α → OptionT Metered β} (hfg : ∀ a, CurtailsOption (f a) (g a)) (as : List α) :
    CurtailsOption (as.mapM f) (as.mapM g) := by
  induction as with
  | nil => exact refl _
  | cons a as ih =>
    rw [List.mapM_cons, List.mapM_cons]
    exact (hfg a).bind fun b => ih.bind_left _

end CurtailsOption

/-! ### Computations in a workspace -/

/-- In every workspace the first computation is the second one, unless it is interrupted. -/
def CurtailsIn (x y : Selecting α) : Prop := ∀ w, Curtails (x.run.run w) (y.run.run w)

namespace CurtailsIn

theorem refl (x : Selecting α) : CurtailsIn x x := fun _ => .refl _

theorem lift {x y : Metered α} (h : Curtails x y) : CurtailsIn (liftM x : Selecting α) (liftM y) := by
  intro w
  rw [Selecting.run_liftM, Selecting.run_liftM]
  exact h.bind fun _ => .refl _

theorem bind {x y : Selecting α} {f g : α → Selecting β} (h : CurtailsIn x y) (hfg : ∀ a, CurtailsIn (f a) (g a)) :
    CurtailsIn (x >>= f) (y >>= g) := by
  intro w
  rw [OptionT.run_bind, OptionT.run_bind, Option.elimM, Option.elimM, StateT.run_bind, StateT.run_bind]
  refine Curtails.bind (h w) fun r => ?_
  obtain ⟨a, w₁⟩ := r
  cases a with
  | none => exact .refl _
  | some a => exact hfg a w₁

/-- What comes first is the same. -/
theorem bind_right (x : Selecting α) {f g : α → Selecting β} (hfg : ∀ a, CurtailsIn (f a) (g a)) :
    CurtailsIn (x >>= f) (x >>= g) := (refl x).bind hfg

/-- What follows is the same. -/
theorem bind_left {x y : Selecting α} (h : CurtailsIn x y) (f : α → Selecting β) : CurtailsIn (x >>= f) (y >>= f) :=
  h.bind fun _ => refl _

end CurtailsIn

/-! ### Questions within a goal -/

/-- The first answerer answers every question as the second one does, unless it is interrupted. -/
def Answerer.Curtails (ask ask' : Answerer) : Prop := ∀ q, Deduction.Curtails (ask q) (ask' q)

variable {src : Sources} {ask ask' : Answerer}

section

variable (h : ask.Curtails ask')

include h

theorem curtails_findAll (config : Config) (template goal : Term) :
    Curtails (ask.findAll config template goal) (ask'.findAll config template goal) := (h _).bind fun _ => .refl _

theorem curtails_count (template goal : Term) : Curtails (ask.count template goal) (ask'.count template goal) :=
  (h _).bind fun _ => .refl _

theorem curtails_findFirst? (template goal : Term) :
    Curtails (ask.findFirst? template goal) (ask'.findFirst? template goal) := (h _).bind fun _ => .refl _

theorem curtails_holds (goal : Term) : Curtails (ask.holds goal) (ask'.holds goal) :=
  (curtails_findFirst? h _ goal).bind fun _ => .refl _

theorem curtailsIn_mapRelation (relation : String) (items : List Term) :
    CurtailsIn (mapRelation ask relation items) (mapRelation ask' relation items) := by
  induction items with
  | nil => exact .refl _
  | cons item items ih =>
    unfold mapRelation
    refine .bind_right _ fun out => (CurtailsIn.lift (h _)).bind fun results => ?_
    cases results with
    | nil => exact .refl _
    | cons result _ => exact ih.bind_left _

theorem curtailsIn_selectMapped (args : List Term) (env : EnvId) :
    CurtailsIn (selectMapped ask args env) (selectMapped ask' args env) := by
  unfold selectMapped
  refine .bind_right _ fun t => .bind_right _ fun relation => .bind_right _ fun t => .bind_right _ fun list => ?_
  exact .bind_right _ fun items => (curtailsIn_mapRelation h relation items).bind_left _

theorem curtailsIn_selectAggregate (f : String) (args : List Term) (env : EnvId) :
    CurtailsIn (selectAggregate src ask f args env) (selectAggregate src ask' f args env) := by
  unfold selectAggregate
  refine .bind_right _ fun t => .bind_right _ fun template => .bind_right _ fun t => .bind_right _ fun goal => ?_
  dsimp only
  split
  · exact (CurtailsIn.lift (curtails_findAll h _ _ _)).bind_left _
  · exact (CurtailsIn.lift (curtails_count h _ _)).bind_left _

theorem curtailsIn_selectValue (args : List Term) (env : EnvId) :
    CurtailsIn (selectValue ask args env) (selectValue ask' args env) := by
  unfold selectValue
  exact .bind_right _ fun t => .bind_right _ fun expr => (CurtailsIn.lift (h _)).bind_left _

theorem curtailsIn_selectComputed (f : String) (args : List Term) (env : EnvId) :
    CurtailsIn (selectComputed src ask f args env) (selectComputed src ask' f args env) := by
  unfold selectComputed
  split
  · exact curtailsIn_selectValue h _ env
  · exact .refl _
  · exact .refl _
  · exact curtailsIn_selectMapped h _ env
  · split
    · exact curtailsIn_selectAggregate h _ _ env
    · exact .refl _

/-! ### Questions within an expression -/

theorem curtailsOption_applyDefinitions (f : String) (call : Term) (sentences : List Term) (isDefined : Bool) :
    CurtailsOption (applyDefinitions ask f call sentences isDefined) (applyDefinitions ask' f call sentences isDefined) := by
  induction sentences generalizing isDefined with
  | nil => exact .refl _
  | cons sentence rest ih =>
    unfold applyDefinitions
    split
    · exact ih _
    · dsimp only
      split
      · exact ih _
      · refine .bind_right _ fun _ => (CurtailsOption.lift (h _)).bind fun values => ?_
        cases values with
        | nil => exact ih _
        | cons value _ => exact .refl _

theorem curtailsOption_applyFunctor (f : String) (values : List Term) :
    CurtailsOption (applyFunctor src ask f values) (applyFunctor src ask' f values) := by
  unfold applyFunctor
  split
  · exact .refl _
  · split
    · exact .refl _
    · split
      · exact .refl _
      · exact curtailsOption_applyDefinitions h _ _ _ _

theorem curtailsOption_mapped (f : String) {args : List Term}
    (hargs : ∀ t ∈ args, CurtailsOption (valueOf src ask t) (valueOf src ask' t)) :
    CurtailsOption (mapped src ask f args) (mapped src ask' f args) := by
  cases args with
  | nil => exact .refl _
  | cons list _ =>
    refine (hargs list List.mem_cons_self).bind fun t => .bind_right _ fun items => ?_
    exact (CurtailsOption.mapM (fun item => curtailsOption_applyFunctor h f [item]) items).bind_left _

omit h in
theorem curtailsOption_valuesOf {ts : List Term} (hts : ∀ t ∈ ts, CurtailsOption (valueOf src ask t) (valueOf src ask' t)) :
    CurtailsOption (valuesOf src ask ts) (valuesOf src ask' ts) := by
  induction ts with
  | nil =>
    unfold valuesOf
    exact .refl _
  | cons t ts ih =>
    unfold valuesOf
    refine (hts t List.mem_cons_self).bind fun v => ?_
    exact (ih fun u hu => hts u (List.mem_cons_of_mem t hu)).bind_left _

theorem curtailsOption_valueOfBranch :
    (ts : List Term) → (∀ t ∈ ts, CurtailsOption (valueOf src ask t) (valueOf src ask' t)) →
      CurtailsOption (valueOfBranch src ask ts) (valueOfBranch src ask' ts)
  | [], _ => by
    unfold valueOfBranch
    exact .refl _
  | [_], _ => by
    unfold valueOfBranch
    exact .refl _
  | condition :: value :: rest, hts => by
    unfold valueOfBranch
    refine (CurtailsOption.lift (curtails_holds h condition)).bind fun holds => ?_
    split
    · exact hts value (by simp)
    · exact curtailsOption_valueOfBranch rest fun t ht => hts t (by simp [ht])

theorem curtailsOption_compound (f : String) {args : List Term}
    (hargs : ∀ t ∈ args, CurtailsOption (valueOf src ask t) (valueOf src ask' t)) :
    CurtailsOption (valueOf src ask (.compound f args)) (valueOf src ask' (.compound f args)) := by
  unfold valueOf
  refine .bind_right _ fun spent => ?_
  split
  · exact .refl _
  split
  · rename_i function args
    refine (hargs function List.mem_cons_self).bind fun t => .bind_right _ fun f => ?_
    exact curtailsOption_mapped h f fun u hu => hargs u (List.mem_cons_of_mem _ hu)
  · exact (CurtailsOption.lift (curtails_findAll h _ _ _)).bind_left _
  · exact .lift (curtails_count h _ _)
  · exact curtails_findFirst? h _ _
  · exact curtailsOption_valueOfBranch h _ hargs
  · split
    · exact .refl _
    · exact (curtailsOption_valuesOf hargs).bind fun values => curtailsOption_applyFunctor h _ _

end

mutual
/-- The value of an expression. -/
theorem curtailsOption_valueOf (h : ask.Curtails ask') :
    (t : Term) → CurtailsOption (valueOf src ask t) (valueOf src ask' t)
  | .var _ => by
    unfold valueOf
    exact .refl _
  | .sym _ => by
    unfold valueOf
    exact .refl _
  | .compound f args => curtailsOption_compound h f (curtailsOption_valueOf_of_mem h args)

theorem curtailsOption_valueOf_of_mem (h : ask.Curtails ask') :
    (ts : List Term) → ∀ t ∈ ts, CurtailsOption (valueOf src ask t) (valueOf src ask' t)
  | [] => by simp
  | u :: us => List.forall_mem_cons.2 ⟨curtailsOption_valueOf h u, curtailsOption_valueOf_of_mem h us⟩
end

/-! ### Steps of the machine -/

namespace Machine

theorem curtails_select {x y : Selecting Selection} (h : CurtailsIn x y) (origin : Cursor.Origin) (env : EnvId)
    (next : Agenda) (otherwise : Alternatives) (w : Workspace) :
    Curtails (select src origin env x next otherwise w) (select src origin env y next otherwise w) :=
  (h w).bind fun _ => .refl _

theorem curtails_proveResolved (h : ask.Curtails ask') (goal : Term) (env : EnvId) (next : Agenda)
    (otherwise : Alternatives) (w : Workspace) :
    Curtails (proveResolved src ask goal env next otherwise w) (proveResolved src ask' goal env next otherwise w) := by
  unfold proveResolved
  split
  case h_11 f args _ => exact curtails_select (curtailsIn_selectComputed h f args env) _ _ _ _ _
  all_goals exact .refl _

/-- One step of the machine. -/
theorem curtails_step (h : ask.Curtails ask') (m : Machine) : Curtails (step src ask m) (step src ask' m) := by
  unfold step
  split
  · exact curtails_proveResolved h _ _ _ _ _
  · exact .refl _
  · exact .refl _

end Machine

/-! ### Searches by their steps -/

namespace Search

variable {config : Config} {step step' : Machine → Metered Machine} (hstep : ∀ m, Curtails (step m) (step' m))

include hstep

theorem curtails_runBy (n : Nat) (m : Machine) : Curtails (runBy config step n m) (runBy config step' n m) := by
  induction n generalizing m with
  | zero => exact .refl _
  | succ n ih =>
    unfold runBy
    refine (Curtails.refl _).bind fun spent => ?_
    split
    · exact .refl _
    split
    · exact .refl _
    · exact .refl _
    · exact (hstep _).bind ih

theorem curtails_nextBy (bound : Nat) (s : Search) : Curtails (s.nextBy config step bound) (s.nextBy config step' bound) := by
  unfold nextBy
  split
  · exact (curtails_runBy hstep bound s.machine).map _
  · exact .refl _

theorem curtails_pullBy (bound n : Nat) (s : Search) (found : List Term) :
    Curtails (s.pullBy config step bound n found) (s.pullBy config step' bound n found) := by
  induction n generalizing s found with
  | zero => exact .refl _
  | succ n ih =>
    unfold pullBy
    refine (curtails_nextBy hstep bound s).bind fun r => ?_
    obtain ⟨answer, s⟩ := r
    cases answer with
    | none => exact .refl _
    | some t => exact ih s (t :: found)

end Search

/-- If the steps are the same unless they are interrupted, as long as that goes for the questions that they put, it goes for
the answers to questions at any depth. -/
theorem curtails_consultBy {step step' : Answerer → Machine → Metered Machine}
    (hstep : ∀ {ask ask' : Answerer}, ask.Curtails ask' → ∀ m, Curtails (step ask m) (step' ask' m)) (bound n : Nat) :
    (consultBy src step bound n).Curtails (consultBy src step' bound n) := by
  induction n with
  | zero => exact fun _ => .refl _
  | succ n ih =>
    intro q
    cases q with
    | all template goal => exact (Search.curtails_pullBy (hstep ih) bound bound _ _).bind fun _ => .refl _
    | first template goal => exact (Search.curtails_nextBy (hstep ih) bound _).bind fun _ => .refl _
    | value expr => exact Curtails.bind (curtailsOption_valueOf ih expr) fun _ => .refl _

end Deduction
