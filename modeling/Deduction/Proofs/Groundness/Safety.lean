import Deduction.Analysis.Safety
import Deduction.Proofs.Datalog.Program
import Deduction.Proofs.Variables
import Deduction.Proofs.Words

/-!
# What goals bind

The walk over a body takes it that a disjunction binds all its variables, whichever way it is proved, and that the template
of an aggregate is bound if its variables occur in the goal of the aggregate. What a goal binds on every way
(`bindGoalSurely`) can be less. It carries over to the instances of the goal (`IsBasic.bindGoalSurely_instantiate`), and to
where more is bound before it (`bindGoalsSurely_mono`).
-/

namespace Deduction.Term

variable {v w f a : String} {t g template goal result : Term} {args ts rest : List Term}
  {bound bound' b : List String} {σ : String → Term} {agg : Bool}

/-! ### Basic goals -/

mutual
/-- Is the goal made of atoms on ordinary relations by means of `same`, `distinct`, `not`, `and` and `or`, and possibly of
aggregates? -/
def isBasicGoal (agg : Bool) : Term → Bool
  | var _ => false
  | sym a => a = "true" || a = "false" || isRelation a
  | compound f args =>
    if f = "not" || f = "and" || f = "or" then areBasicGoals agg args
    else if isAggregate f then
      match args with
      | _ :: goal :: _ :: _ => agg && isBasicGoal agg goal
      | _ => false
    else f = "same" || f = "distinct" || isRelation f

def areBasicGoals (agg : Bool) : List Term → Bool
  | [] => true
  | t :: ts => isBasicGoal agg t && areBasicGoals agg ts
end

/-- The kinds of basic goals. -/
inductive IsBasic (agg : Bool) : Term → Prop
  | symbol {a : String} (ha : a = "true" ∨ a = "false" ∨ isRelation a = true) : IsBasic agg (sym a)
  | atom {f : String} {args : List Term} (hf : isRelation f = true) : IsBasic agg (compound f args)
  | same {args : List Term} : IsBasic agg (compound "same" args)
  | distinct {args : List Term} : IsBasic agg (compound "distinct" args)
  | negation {args : List Term} (hargs : ∀ g ∈ args, IsBasic agg g) : IsBasic agg (compound "not" args)
  | conjunction {args : List Term} (hargs : ∀ g ∈ args, IsBasic agg g) : IsBasic agg (compound "and" args)
  | disjunction {args : List Term} (hargs : ∀ g ∈ args, IsBasic agg g) : IsBasic agg (compound "or" args)
  | aggregate {f : String} {template goal result : Term} {rest : List Term} (hf : isAggregate f = true)
      (hagg : agg = true) (hgoal : IsBasic agg goal) :
      IsBasic agg (compound f (template :: goal :: result :: rest))

mutual
theorem isBasic_of_isBasicGoal : (t : Term) → t.isBasicGoal agg = true → IsBasic agg t
  | var _, h => by cases h
  | sym a, h => .symbol (by simpa [isBasicGoal, or_assoc] using h)
  | compound f args, h => by
    unfold isBasicGoal at h
    by_cases hconnective : (f = "not" || f = "and" || f = "or") = true
    · rw [if_pos hconnective] at h
      have hargs := isBasic_of_areBasicGoals args h
      simp only [Bool.or_eq_true, decide_eq_true_iff] at hconnective
      rcases hconnective with (rfl | rfl) | rfl
      · exact .negation hargs
      · exact .conjunction hargs
      · exact .disjunction hargs
    · rw [if_neg hconnective] at h
      by_cases hf : isAggregate f = true
      · rw [if_pos hf] at h
        match args, h with
        | _ :: goal :: _ :: _, h =>
          rw [Bool.and_eq_true] at h
          exact .aggregate hf h.1 (isBasic_of_isBasicGoal goal h.2)
      · rw [if_neg hf] at h
        simp only [Bool.or_eq_true, decide_eq_true_iff] at h
        rcases h with (rfl | rfl) | hrelation
        · exact .same
        · exact .distinct
        · exact .atom hrelation

theorem isBasic_of_areBasicGoals : (ts : List Term) → areBasicGoals agg ts = true → ∀ t ∈ ts, IsBasic agg t
  | [], _ => by simp
  | t :: ts, h => by
    unfold areBasicGoals at h
    rw [Bool.and_eq_true] at h
    exact List.forall_mem_cons.2 ⟨isBasic_of_isBasicGoal t h.1, isBasic_of_areBasicGoals ts h.2⟩
end

/-- A goal stays basic when terms are put in the place of variables. -/
theorem IsBasic.of_fills {words : List String} {u : Term} (h : IsBasic agg g) (hu : g.Fills words u) :
    IsBasic agg u := by
  have hall {args args' : List Term} (hargs : List.Forall₂ (Fills words) args args')
      (ih : ∀ g ∈ args, ∀ {u}, g.Fills words u → IsBasic agg u) : ∀ u ∈ args', IsBasic agg u := by
    intro u hu
    obtain ⟨t, ht, htu⟩ := exists_left_of_forall₂ hargs hu
    exact ih t ht htu
  induction h generalizing u with
  | symbol ha =>
    cases hu
    exact .symbol ha
  | atom hf =>
    cases hu
    exact .atom hf
  | same =>
    cases hu
    exact .same
  | distinct =>
    cases hu
    exact .distinct
  | negation _ ih =>
    cases hu with
    | compound _ hargs => exact .negation (hall hargs ih)
  | conjunction _ ih =>
    cases hu with
    | compound _ hargs => exact .conjunction (hall hargs ih)
  | disjunction _ ih =>
    cases hu with
    | compound _ hargs => exact .disjunction (hall hargs ih)
  | aggregate hf hagg _ ih =>
    cases hu with
    | compound _ hargs =>
      cases hargs with
      | cons _ hargs =>
        cases hargs with
        | cons hgoal hargs =>
          cases hargs with
          | cons _ _ => exact .aggregate hf hagg (ih hgoal)

/-! ### What goals bind on every way -/

mutual
/-- The variables that are bound after a goal, on whichever way it is proved. A disjunction binds what is bound after each
of its goals, `same` binds its terms if one of them was bound before, and the goal of `setofall` has to bind the
template. -/
def bindGoalSurely : Term → List String → Option (List String)
  | compound f args, bound =>
    if f = "not" || f = "distinct" then some bound
    else if f = "same" then
      match args with
      | x :: y :: _ => if x.isCovered bound || y.isCovered bound then some (bindAll [x, y] bound) else none
      | _ => some bound
    else if f = "and" then bindGoalsSurely args bound
    else if f = "or" then
      (bindEachSurely args bound).map fun ways => (bindAll args bound).filter fun v => ways.all (·.contains v)
    else if isAggregate f then
      match args with
      | template :: goal :: result :: _ =>
        if f ≠ "setofall" || (bindGoalSurely goal []).any template.isCovered then some (bindAll [result] bound) else none
      | _ => none
    else some (bindAll args bound)
  | _, bound => some bound

/-- The variables that are bound after goals were run from left to right, on whichever way. -/
def bindGoalsSurely : List Term → List String → Option (List String)
  | [], bound => some bound
  | goal :: goals, bound => (bindGoalSurely goal bound).bind (bindGoalsSurely goals)

/-- The variables that are bound after each of the goals, as if it was the only one. -/
def bindEachSurely : List Term → List String → Option (List (List String))
  | [], _ => some []
  | goal :: goals, bound => do return (← bindGoalSurely goal bound) :: (← bindEachSurely goals bound)
end

/-- On whichever way the body of a rule is run, it binds every variable of the head. -/
def isSurelySafe (t : Term) : Bool :=
  match t.asRule with
  | some (head, body) => (bindGoalsSurely body []).any head.isCovered
  | none => true

theorem mem_bindAll : v ∈ bindAll ts bound ↔ v ∈ bound ∨ ∃ t ∈ ts, v ∈ t.vars := mem_addVarsList ts bound

theorem isCovered_iff : t.isCovered bound = true ↔ ∀ v ∈ t.vars, v ∈ bound := by
  unfold isCovered
  simp [List.all_eq_true]

theorem bindGoalSurely_atom (hf : isRelation f = true) (args : List Term) (bound : List String) :
    bindGoalSurely (compound f args) bound = some (bindAll args bound) := by
  have hne (w : String) (hw : w ∈ reservedWords) : f ≠ w := ne_of_isRelation hf hw
  have hcomputation := isComputation_of_isRelation hf
  unfold Goal.isComputation at hcomputation
  simp only [Bool.or_eq_false_iff] at hcomputation
  unfold bindGoalSurely
  rw [if_neg (by simp [hne "not" (by decide), hne "distinct" (by decide)]), if_neg (hne "same" (by decide)),
    if_neg (hne "and" (by decide)), if_neg (hne "or" (by decide)), if_neg (by simp [hcomputation])]

theorem bindGoalSurely_test (hf : f = "not" ∨ f = "distinct") (args : List Term) (bound : List String) :
    bindGoalSurely (compound f args) bound = some bound := by
  unfold bindGoalSurely
  rw [if_pos (by simpa using hf)]

theorem bindGoalSurely_same {x y : Term} : bindGoalSurely (compound "same" (x :: y :: rest)) bound = some b ↔
    ((∀ v ∈ x.vars, v ∈ bound) ∨ ∀ v ∈ y.vars, v ∈ bound) ∧ bindAll [x, y] bound = b := by
  unfold bindGoalSurely
  rw [if_neg (by decide), if_pos rfl, Option.ite_none_right_eq_some, Bool.or_eq_true, isCovered_iff, isCovered_iff,
    Option.some.injEq]

theorem bindGoalSurely_and (args : List Term) (bound : List String) :
    bindGoalSurely (compound "and" args) bound = bindGoalsSurely args bound := by
  unfold bindGoalSurely
  rw [if_neg (by decide), if_neg (by decide), if_pos rfl]

theorem bindGoalSurely_or : bindGoalSurely (compound "or" args) bound = some b ↔
    ∃ ways, bindEachSurely args bound = some ways ∧
      ((bindAll args bound).filter fun v => ways.all (·.contains v)) = b := by
  unfold bindGoalSurely
  rw [if_neg (by decide), if_neg (by decide), if_neg (by decide), if_pos rfl, Option.map_eq_some_iff]

theorem bindGoalSurely_aggregate (hf : isAggregate f = true) :
    bindGoalSurely (compound f (template :: goal :: result :: rest)) bound = some b ↔
      (f = "setofall" → ∃ b₀, bindGoalSurely goal [] = some b₀ ∧ ∀ v ∈ template.vars, v ∈ b₀) ∧
        bindAll [result] bound = b := by
  have hne (w : String) (hw : isAggregate w = false) : f ≠ w := by
    rintro rfl
    rw [hf] at hw
    cases hw
  rw [bindGoalSurely, if_neg (by simp [hne "not" (by decide), hne "distinct" (by decide)]), if_neg (hne "same" (by decide)),
    if_neg (hne "and" (by decide)), if_neg (hne "or" (by decide)), if_pos hf]
  dsimp only
  rw [Option.ite_none_right_eq_some, Option.some.injEq, Bool.or_eq_true, Option.any_eq_true]
  simp only [isCovered_iff, decide_eq_true_iff, ne_eq, imp_iff_not_or]

theorem bindGoalsSurely_cons : bindGoalsSurely (g :: ts) bound = some b ↔
    ∃ b₁, bindGoalSurely g bound = some b₁ ∧ bindGoalsSurely ts b₁ = some b := by
  rw [bindGoalsSurely, Option.bind_eq_some_iff]

theorem bindGoalsSurely_singleton : bindGoalsSurely [g] bound = some b ↔ bindGoalSurely g bound = some b := by
  rw [bindGoalsSurely_cons]
  exact ⟨fun ⟨_, hg, hb⟩ => Option.some.inj hb ▸ hg, fun hg => ⟨b, hg, rfl⟩⟩

theorem bindEachSurely_eq_some {ways : List (List String)} : bindEachSurely ts bound = some ways ↔
    List.Forall₂ (fun g b => bindGoalSurely g bound = some b) ts ways := by
  induction ts generalizing ways with
  | nil =>
    rw [bindEachSurely, Option.some.injEq, List.forall₂_nil_left_iff]
    exact eq_comm
  | cons g ts ih =>
    simp only [bindEachSurely, Option.bind_eq_bind, Option.bind_eq_some_iff, Option.pure_def, Option.some.injEq,
      List.forall₂_cons_left_iff, ih]
    constructor
    · rintro ⟨b, hb, ways, hways, rfl⟩
      exact ⟨b, ways, hb, hways, rfl⟩
    · rintro ⟨b, ways, hb, hways, rfl⟩
      exact ⟨b, hb, ways, hways, rfl⟩

/-- What is bound after a disjunction is bound after each of its goals. -/
theorem exists_of_bindGoalSurely_or (h : bindGoalSurely (compound "or" args) bound = some b) (hg : g ∈ args) :
    ∃ b₁, bindGoalSurely g bound = some b₁ ∧ ∀ v ∈ b, v ∈ b₁ := by
  obtain ⟨ways, hways, rfl⟩ := bindGoalSurely_or.1 h
  obtain ⟨b₁, hmem, hb₁⟩ := exists_left_of_forall₂ (bindEachSurely_eq_some.1 hways).flip hg
  refine ⟨b₁, hb₁, fun v hv => ?_⟩
  have hall := (List.mem_filter.1 hv).2
  rw [List.all_eq_true] at hall
  exact List.contains_iff_mem.1 (hall b₁ hmem)

/-- The goals bind variables of theirs and leave those bound that were. -/
structure Binds (goals : List Term) (bound b : List String) : Prop where
  kept : ∀ v ∈ bound, v ∈ b
  own : ∀ v ∈ b, v ∈ bound ∨ ∃ g ∈ goals, v ∈ g.vars

theorem binds_nil (goals : List Term) (bound : List String) : Binds goals bound bound :=
  ⟨fun _ hv => hv, fun _ hv => .inl hv⟩

theorem binds_bindAll (ts : List Term) (bound : List String) : Binds ts bound (bindAll ts bound) where
  kept _ hv := mem_bindAll.2 (.inl hv)
  own _ hv := mem_bindAll.1 hv

theorem Binds.compound (h : Binds ts bound b) (hts : ∀ t ∈ ts, t ∈ args) (f : String) :
    Binds [.compound f args] bound b where
  kept := h.kept
  own v hv := (h.own v hv).imp_right fun ⟨t, ht, hvt⟩ =>
    ⟨_, List.mem_singleton_self _, mem_vars_compound.2 ⟨t, hts t ht, hvt⟩⟩

theorem binds_bindGoalsSurely (hgoals : ∀ g ∈ ts, ∀ bound b, bindGoalSurely g bound = some b → Binds [g] bound b)
    (h : bindGoalsSurely ts bound = some b) : Binds ts bound b := by
  induction ts generalizing bound with
  | nil =>
    cases h
    exact binds_nil [] _
  | cons g ts ih =>
    obtain ⟨b₁, hfirst, hrest⟩ := bindGoalsSurely_cons.1 h
    rw [List.forall_mem_cons] at hgoals
    have hg := hgoals.1 bound b₁ hfirst
    have hts := ih hgoals.2 hrest
    refine ⟨fun v hv => hts.kept v (hg.kept v hv), fun v hv => ?_⟩
    rcases hts.own v hv with hv | ⟨u, hu, hvu⟩
    · rcases hg.own v hv with hv | ⟨u, hu, hvu⟩
      · exact .inl hv
      · exact .inr ⟨g, List.mem_cons_self, List.mem_singleton.1 hu ▸ hvu⟩
    · exact .inr ⟨u, List.mem_cons_of_mem _ hu, hvu⟩

theorem IsBasic.binds (hg : IsBasic agg g) (h : bindGoalSurely g bound = some b) : Binds [g] bound b := by
  induction hg generalizing bound b with
  | symbol =>
    cases h
    exact binds_nil _ _
  | @atom f args hf =>
    rw [bindGoalSurely_atom hf] at h
    exact Option.some.inj h ▸ (binds_bindAll args bound).compound (fun _ ht => ht) f
  | @same args =>
    match args with
    | [] | [_] =>
      cases h
      exact binds_nil _ _
    | x :: y :: rest =>
      obtain ⟨-, rfl⟩ := bindGoalSurely_same.1 h
      exact (binds_bindAll [x, y] bound).compound (by simp) _
  | distinct | negation =>
    rw [bindGoalSurely_test (by decide)] at h
    exact Option.some.inj h ▸ binds_nil _ _
  | conjunction _ ih =>
    rw [bindGoalSurely_and] at h
    exact (binds_bindGoalsSurely (fun g hg _ _ => ih g hg) h).compound (fun _ ht => ht) _
  | @disjunction args _ ih =>
    obtain ⟨ways, hways, rfl⟩ := bindGoalSurely_or.1 h
    have hargs := (binds_bindAll args bound).compound (fun _ ht => ht) "or"
    refine ⟨fun v hv => List.mem_filter.2 ⟨hargs.kept v hv, ?_⟩, fun v hv => hargs.own v (List.mem_filter.1 hv).1⟩
    rw [List.all_eq_true]
    intro way hway
    obtain ⟨g, hg, hb⟩ := exists_left_of_forall₂ (bindEachSurely_eq_some.1 hways) hway
    exact List.contains_iff_mem.2 ((ih g hg hb).kept v hv)
  | @aggregate f template goal result rest hf =>
    obtain ⟨-, rfl⟩ := (bindGoalSurely_aggregate hf).1 h
    exact (binds_bindAll [result] bound).compound (by simp) f

/-! ### Instances -/

/-- The values of the first variables are made of the second ones. -/
def Carries (σ : String → Term) (bound bound' : List String) : Prop := ∀ v ∈ bound, ∀ w ∈ (σ v).vars, w ∈ bound'

theorem Carries.vars_instantiate (h : Carries σ bound bound') (ht : ∀ v ∈ t.vars, v ∈ bound) :
    ∀ w ∈ (t.instantiate σ).vars, w ∈ bound' := by
  intro w hw
  obtain ⟨v, hv, hwv⟩ := (mem_vars_instantiate t).1 hw
  exact h v (ht v hv) w hwv

theorem Carries.bindAll (h : Carries σ bound bound') (ts : List Term) :
    Carries σ (bindAll ts bound) (bindAll (ts.map (instantiate σ)) bound') := by
  intro v hv w hw
  rcases mem_bindAll.1 hv with hv | ⟨t, ht, hvt⟩
  · exact mem_bindAll.2 (.inl (h v hv w hw))
  · exact mem_bindAll.2 (.inr ⟨_, List.mem_map_of_mem ht, (mem_vars_instantiate t).2 ⟨v, hvt, hw⟩⟩)

theorem carries_nil (σ : String → Term) : Carries σ [] [] := fun v hv => by cases hv

/-- What an instance of a goal binds. -/
def BindsAlike (σ : String → Term) (g : Term) : Prop := ∀ {bound bound' b : List String}, bindGoalSurely g bound = some b →
  Carries σ bound bound' → ∃ b', bindGoalSurely (g.instantiate σ) bound' = some b' ∧ Carries σ b b'

theorem bindGoalsSurely_instantiate (hgoals : ∀ g ∈ ts, BindsAlike σ g) (h : bindGoalsSurely ts bound = some b)
    (hσ : Carries σ bound bound') :
    ∃ b', bindGoalsSurely (ts.map (instantiate σ)) bound' = some b' ∧ Carries σ b b' := by
  induction ts generalizing bound bound' with
  | nil =>
    cases h
    exact ⟨bound', rfl, hσ⟩
  | cons g ts ih =>
    obtain ⟨b₁, hfirst, hrest⟩ := bindGoalsSurely_cons.1 h
    rw [List.forall_mem_cons] at hgoals
    obtain ⟨b₁', hfirst', hσ₁⟩ := hgoals.1 hfirst hσ
    obtain ⟨b', hrest', hσ'⟩ := ih hgoals.2 hrest hσ₁
    exact ⟨b', bindGoalsSurely_cons.2 ⟨b₁', hfirst', hrest'⟩, hσ'⟩

theorem bindEachSurely_instantiate {ways : List (List String)} (hgoals : ∀ g ∈ ts, BindsAlike σ g)
    (h : bindEachSurely ts bound = some ways) (hσ : Carries σ bound bound') :
    ∃ ways', bindEachSurely (ts.map (instantiate σ)) bound' = some ways' ∧ List.Forall₂ (Carries σ) ways ways' := by
  simp only [bindEachSurely_eq_some] at h ⊢
  induction h with
  | nil => exact ⟨[], .nil, .nil⟩
  | cons hg _ ih =>
    rw [List.forall_mem_cons] at hgoals
    obtain ⟨b', hb', hσ'⟩ := hgoals.1 hg hσ
    obtain ⟨ways', hways', hall⟩ := ih hgoals.2
    exact ⟨b' :: ways', .cons hb' hways', .cons hσ' hall⟩

theorem IsBasic.bindGoalSurely_instantiate (hg : IsBasic agg g) (σ : String → Term) : BindsAlike σ g := by
  induction hg with
  | symbol =>
    intro bound bound' b h hσ
    cases h
    exact ⟨bound', rfl, hσ⟩
  | @atom f args hf =>
    intro bound bound' b h hσ
    rw [bindGoalSurely_atom hf] at h
    rw [instantiate_compound_eq]
    exact ⟨_, bindGoalSurely_atom hf _ _, Option.some.inj h ▸ hσ.bindAll args⟩
  | @same args =>
    intro bound bound' b h hσ
    rw [instantiate_compound_eq]
    match args with
    | [] | [_] =>
      cases h
      exact ⟨bound', rfl, hσ⟩
    | x :: y :: rest =>
      obtain ⟨hcovered, rfl⟩ := bindGoalSurely_same.1 h
      refine ⟨_, bindGoalSurely_same.2 ⟨?_, rfl⟩, hσ.bindAll [x, y]⟩
      exact hcovered.imp hσ.vars_instantiate hσ.vars_instantiate
  | distinct | negation =>
    intro bound bound' b h hσ
    rw [bindGoalSurely_test (by decide)] at h
    rw [instantiate_compound_eq]
    exact ⟨bound', bindGoalSurely_test (by decide) _ _, Option.some.inj h ▸ hσ⟩
  | conjunction _ ih =>
    intro bound bound' b h hσ
    rw [bindGoalSurely_and] at h
    rw [instantiate_compound_eq, bindGoalSurely_and]
    exact bindGoalsSurely_instantiate ih h hσ
  | @disjunction args _ ih =>
    intro bound bound' b h hσ
    obtain ⟨ways, hways, rfl⟩ := bindGoalSurely_or.1 h
    obtain ⟨ways', hways', hall⟩ := bindEachSurely_instantiate ih hways hσ
    rw [instantiate_compound_eq]
    refine ⟨_, bindGoalSurely_or.2 ⟨ways', hways', rfl⟩, fun v hv w hw => ?_⟩
    obtain ⟨hv, hbound⟩ := List.mem_filter.1 hv
    rw [List.all_eq_true] at hbound
    refine List.mem_filter.2 ⟨hσ.bindAll args v hv w hw, List.all_eq_true.2 fun way' hway' => ?_⟩
    obtain ⟨way, hway, hcarries⟩ := exists_left_of_forall₂ hall hway'
    exact List.contains_iff_mem.2 (hcarries v (List.contains_iff_mem.1 (hbound way hway)) w hw)
  | @aggregate f template goal result rest hf _ _ ih =>
    intro bound bound' b h hσ
    obtain ⟨hcovered, rfl⟩ := (bindGoalSurely_aggregate hf).1 h
    rw [instantiate_compound_eq]
    refine ⟨_, (bindGoalSurely_aggregate hf).2 ⟨fun hset => ?_, rfl⟩, hσ.bindAll [result]⟩
    obtain ⟨b₀, hb₀, htemplate⟩ := hcovered hset
    obtain ⟨b₀', hb₀', hσ₀⟩ := ih hb₀ (carries_nil σ)
    exact ⟨b₀', hb₀', hσ₀.vars_instantiate htemplate⟩

mutual
theorem instantiate_var : (t : Term) → t.instantiate var = t
  | var _ => rfl
  | sym _ => rfl
  | compound f args => by rw [instantiate_compound, instantiateList_var args]

theorem instantiateList_var : (ts : List Term) → instantiateList var ts = ts
  | [] => rfl
  | t :: ts => by rw [instantiateList, instantiate_var t, instantiateList_var ts]
end

/-- Where more is bound before, more is bound after. -/
theorem bindGoalsSurely_mono (hgoals : ∀ g ∈ ts, IsBasic agg g) (h : bindGoalsSurely ts bound = some b)
    (hbound : ∀ v ∈ bound, v ∈ bound') : ∃ b', bindGoalsSurely ts bound' = some b' ∧ ∀ v ∈ b, v ∈ b' := by
  -- The goals are instances of themselves.
  have hcarries : Carries var bound bound' := fun v hv w hw => mem_vars_var.1 hw ▸ hbound v hv
  obtain ⟨b', hb', hσ⟩ := bindGoalsSurely_instantiate (fun g hg => (hgoals g hg).bindGoalSurely_instantiate var) h hcarries
  rw [← instantiateList_eq_map, instantiateList_var] at hb'
  exact ⟨b', hb', fun v hv => hσ v hv v (mem_vars_var.2 rfl)⟩

/-- A question with ground answers: the goal binds the variables of the template on every way. -/
def IsGroundQuestion (template goal : Term) : Prop :=
  ∃ b, bindGoalSurely goal [] = some b ∧ ∀ v ∈ template.vars, v ∈ b

theorem IsGroundQuestion.instantiate (h : IsGroundQuestion template goal) (hgoal : goal.IsBasic agg)
    (σ : String → Term) : IsGroundQuestion (template.instantiate σ) (goal.instantiate σ) := by
  obtain ⟨b, hb, hcovers⟩ := h
  obtain ⟨b', hb', hσ⟩ := hgoal.bindGoalSurely_instantiate σ hb (carries_nil σ)
  exact ⟨b', hb', hσ.vars_instantiate hcovers⟩

/-! ### Where the walk is right -/

mutual
/-- Is the goal a conjunction of goals other than disjunctions and `setofall`? -/
def isStraightGoal : Term → Bool
  | compound f args => f ≠ "or" && f ≠ "setofall" && (f ≠ "and" || areStraightGoals args)
  | _ => true

def areStraightGoals : List Term → Bool
  | [] => true
  | t :: ts => isStraightGoal t && areStraightGoals ts
end

theorem bindGoal_atom (hf : isRelation f = true) (args : List Term) (bound : List String) :
    bindGoal (compound f args) bound = some (bindAll args bound) := by
  have hne (w : String) (hw : w ∈ reservedWords) : f ≠ w := ne_of_isRelation hf hw
  have hcomputation := isComputation_of_isRelation hf
  unfold Goal.isComputation at hcomputation
  simp only [Bool.or_eq_false_iff, decide_eq_false_iff_not] at hcomputation
  have hmatches : f ≠ "matches" := by
    rintro rfl
    revert hf
    decide
  have htest : isTest f = false := by
    simp [isTest, hne "not" (by decide), hne "same" (by decide), hne "distinct" (by decide), hne "mutex" (by decide)]
  have hother : isComputation f = false := by simp [isComputation, hcomputation]
  unfold bindGoal
  rw [if_neg (by simp [htest]), if_neg (hne "and" (by decide)), if_neg (by simp [hcomputation]), if_neg hmatches,
    if_neg (hne "member" (by decide)), if_neg (by simp [hother])]

theorem bindGoal_test_eq_some (hf : isTest f = true) :
    bindGoal (compound f args) bound = some b ↔ (∀ t ∈ args, ∀ v ∈ t.vars, v ∈ bound) ∧ bound = b := by
  have houtputs : bindAll [] bound = bound := rfl
  unfold bindGoal
  rw [if_pos hf, bindOutputs, houtputs, areCovered, Option.ite_none_right_eq_some, List.all_eq_true, Option.some.injEq]
  simp only [isCovered_iff]

theorem bindGoal_and (args : List Term) (bound : List String) :
    bindGoal (compound "and" args) bound = bindGoals args bound := by
  unfold bindGoal
  rw [if_neg (by decide), if_pos rfl]

theorem bindGoal_countofall (h : bindGoal (compound "countofall" (template :: goal :: result :: rest)) bound = some b) :
    bindAll [result] bound = b := by
  rw [bindGoal, if_neg (by decide), if_neg (by decide), if_pos (by decide)] at h
  exact Option.some.inj (Option.ite_none_right_eq_some.1 h).2

/-- The walk says no more than what is bound on every way. -/
def WalksRight (g : Term) : Prop := ∀ {bound bound' b : List String}, bindGoal g bound = some b →
  (∀ v ∈ bound, v ∈ bound') → ∃ b', bindGoalSurely g bound' = some b' ∧ ∀ v ∈ b, v ∈ b'

theorem walksRight_all (hgoals : ∀ g ∈ ts, WalksRight g) (h : bindGoals ts bound = some b)
    (hbound : ∀ v ∈ bound, v ∈ bound') : ∃ b', bindGoalsSurely ts bound' = some b' ∧ ∀ v ∈ b, v ∈ b' := by
  induction ts generalizing bound bound' with
  | nil =>
    cases h
    exact ⟨bound', rfl, hbound⟩
  | cons g ts ih =>
    rw [bindGoals, Option.bind_eq_some_iff] at h
    obtain ⟨b₁, hfirst, hrest⟩ := h
    rw [List.forall_mem_cons] at hgoals
    obtain ⟨b₁', hfirst', hb₁⟩ := hgoals.1 hfirst hbound
    obtain ⟨b', hrest', hb⟩ := ih hgoals.2 hrest hb₁
    exact ⟨b', bindGoalsSurely_cons.2 ⟨b₁', hfirst', hrest'⟩, hb⟩

theorem areStraightGoals_iff : areStraightGoals ts = true ↔ ∀ t ∈ ts, t.isStraightGoal = true := by
  induction ts with
  | nil => simp [areStraightGoals]
  | cons t ts ih => rw [areStraightGoals, Bool.and_eq_true, ih, List.forall_mem_cons]

theorem IsBasic.walksRight (hg : IsBasic agg g) (hstraight : g.isStraightGoal = true) : WalksRight g := by
  have hmore (ts : List Term) {bound bound' : List String} (hbound : ∀ v ∈ bound, v ∈ bound') :
      ∀ v ∈ bindAll ts bound, v ∈ bindAll ts bound' :=
    fun v hv => mem_bindAll.2 ((mem_bindAll.1 hv).imp_left (hbound v))
  induction hg with
  | symbol =>
    intro bound bound' b h hbound
    cases h
    exact ⟨bound', rfl, hbound⟩
  | @atom f args hf =>
    intro bound bound' b h hbound
    rw [bindGoal_atom hf] at h
    exact ⟨_, bindGoalSurely_atom hf args bound', Option.some.inj h ▸ hmore args hbound⟩
  | @same args =>
    intro bound bound' b h hbound
    obtain ⟨hcovered, rfl⟩ := (bindGoal_test_eq_some (by decide)).1 h
    match args with
    | [] | [_] => exact ⟨bound', rfl, hbound⟩
    | x :: y :: rest =>
      -- The walk asks that both terms be bound before, which is more than it takes.
      have hx : ∀ v ∈ x.vars, v ∈ bound' := fun v hv => hbound v (hcovered x List.mem_cons_self v hv)
      exact ⟨_, bindGoalSurely_same.2 ⟨.inl hx, rfl⟩, fun v hv => mem_bindAll.2 (.inl (hbound v hv))⟩
  | distinct | negation =>
    intro bound bound' b h hbound
    obtain ⟨-, rfl⟩ := (bindGoal_test_eq_some (by decide)).1 h
    exact ⟨bound', bindGoalSurely_test (by decide) _ _, hbound⟩
  | @conjunction args _ ih =>
    intro bound bound' b h hbound
    have hargs : areStraightGoals args = true := by simpa [isStraightGoal] using hstraight
    rw [bindGoal_and] at h
    rw [bindGoalSurely_and]
    exact walksRight_all (fun g hg => ih g hg (areStraightGoals_iff.1 hargs g hg)) h hbound
  | disjunction => simp [isStraightGoal] at hstraight
  | @aggregate f template goal result rest hf =>
    intro bound bound' b h hbound
    have hset : f ≠ "setofall" := by
      rintro rfl
      simp [isStraightGoal] at hstraight
    have hcount : f = "countofall" := by simpa [isAggregate, hset] using hf
    subst hcount
    refine ⟨_, (bindGoalSurely_aggregate hf).2 ⟨fun heq => absurd heq hset, rfl⟩, ?_⟩
    exact bindGoal_countofall h ▸ hmore [result] hbound

theorem body_of_asRule {head : Term} (h : t.asRule = some (head, ts)) : t.body = ts := by
  unfold body
  rw [h]
  rfl

/-- Safe rules without disjunctions and `setofall` bind the variables of their heads on every way. -/
theorem isSurelySafe_of_isSafe (hsafe : t.isSafe = true) (hbasic : areBasicGoals agg t.body = true)
    (hstraight : areStraightGoals t.body = true) : t.isSurelySafe = true := by
  unfold isSurelySafe
  cases hrule : t.asRule with
  | none => rfl
  | some rule =>
    obtain ⟨head, goals⟩ := rule
    rw [body_of_asRule hrule] at hbasic hstraight
    unfold isSafe at hsafe
    simp only [hrule] at hsafe
    unfold isSafeRule at hsafe
    split at hsafe
    · rename_i b hb
      have hgoals (g : Term) (hg : g ∈ goals) : WalksRight g :=
        (isBasic_of_areBasicGoals goals hbasic g hg).walksRight (areStraightGoals_iff.1 hstraight g hg)
      obtain ⟨b', hb', hmore⟩ := walksRight_all hgoals hb fun _ hv => hv
      simp only [hb', Option.any_some, isCovered_iff]
      exact fun v hv => hmore v (isCovered_iff.1 hsafe v hv)
    · cases hsafe

end Deduction.Term
