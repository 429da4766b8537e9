import Deduction.Proofs.Search.Within

/-!
# Goals that are written out

A goal is written out if no variable stands where a goal is wanted, neither in a connective nor in a question within the
goal. If expressions are evaluated, then data could hold questions as well, so the words that questions are put with must
not come up in data. Written goals form a language that searches do not lead out of (`closed_written`).
-/

namespace Deduction

/-- Functors of goals that are made of goals. -/
def isConnective (f : String) : Bool := f = "and" || f = "or" || f = "not"

/-- The words that an expression needs to put a question, those of the sentences that stand beside the rules, and those
of the builtins that could make such words. -/
def questionWords : List String :=
  ["setofall", "countofall", "choose", "if", "map", "definition", "handler", "transition"] ++ wordMakers

/-- The words that data must not hold. -/
def dataWords (evaluates : Bool) : List String := if evaluates then questionWords else []

/-- Is the goal that a relation makes of data an ordinary goal? -/
def isPlainRelation (evaluates : Bool) (r : String) : Bool :=
  !isConnective r && !isAggregate r && r ≠ "evaluate" && r ≠ "map" && !(dataWords evaluates).contains r

/-- Are the terms data? -/
def areData (evaluates : Bool) (ts : List Term) : Bool := ts.all fun t => t.Avoids (dataWords evaluates)

/-- Is the first term a relation that makes ordinary goals, and are the others data? -/
def isWrittenMapping (evaluates : Bool) : List Term → Bool
  | relation :: rest => relation.asSymbol.any (isPlainRelation evaluates) && areData evaluates rest
  | [] => true

mutual
/-- Is the goal written out? -/
def isWrittenGoal (evaluates : Bool) : Term → Bool
  | .var _ => false
  | .sym a => !(dataWords evaluates).contains a
  | .compound f args =>
    if isConnective f then areWrittenGoals evaluates args
    else if isAggregate f then isWrittenQuestion evaluates args
    else if f = "evaluate" then evaluates && isWrittenEvaluation evaluates args
    else if f = "map" then isWrittenMapping evaluates args
    else !(dataWords evaluates).contains f && areData evaluates args

def areWrittenGoals (evaluates : Bool) : List Term → Bool
  | [] => true
  | t :: ts => isWrittenGoal evaluates t && areWrittenGoals evaluates ts

/-- Is the second term a goal that is written out, and are the others data? -/
def isWrittenQuestion (evaluates : Bool) : List Term → Bool
  | template :: goal :: rest => areData evaluates (template :: rest) && isWrittenGoal evaluates goal
  | terms => areData evaluates terms

/-- Is the first term an expression that is written out, and are the others data? -/
def isWrittenEvaluation (evaluates : Bool) : List Term → Bool
  | expr :: rest => isWrittenExpr evaluates expr && areData evaluates rest
  | [] => true

/-- Is every goal in the expression written out? -/
def isWrittenExpr (evaluates : Bool) : Term → Bool
  | .var _ => true
  | .sym a => !(dataWords evaluates).contains a
  | .compound f args =>
    if f = "if" then areWrittenBranches evaluates args
    else if isAggregate f || f = "choose" then isWrittenQuestion evaluates args
    else (f = "map" || !(dataWords evaluates).contains f) && areWrittenExprs evaluates args

def areWrittenExprs (evaluates : Bool) : List Term → Bool
  | [] => true
  | t :: ts => isWrittenExpr evaluates t && areWrittenExprs evaluates ts

/-- Are the conditions goals that are written out, and the values expressions? -/
def areWrittenBranches (evaluates : Bool) : List Term → Bool
  | condition :: value :: rest =>
    isWrittenGoal evaluates condition && isWrittenExpr evaluates value && areWrittenBranches evaluates rest
  | terms => areData evaluates terms
end

/-- The goals and expressions that are written out. -/
def written (evaluates : Bool) : Language where
  words := dataWords evaluates
  goal t := isWrittenGoal evaluates t = true
  expr t := evaluates = true ∧ isWrittenExpr evaluates t = true

/-- All goals of the sources are written out, and their data are without the words that questions are put with, if
expressions are evaluated. -/
structure Sources.WrittenOut (src : Sources) (evaluates : Bool) : Prop where
  fact : ∀ t ∈ src.facts.toList, t.Avoids (dataWords evaluates)
  added : ∀ overlay ∈ src.overlay, ∀ t ∈ overlay.adds.toList, t.Avoids (dataWords evaluates)
  dataset : ∀ name, ∀ dataset ∈ src.dataset? name, ∀ t ∈ dataset.toList, t.Avoids (dataWords evaluates)
  rule : ∀ t ∈ src.rules.toList, (written evaluates).Rule t
  definition : evaluates = true → ∀ t ∈ src.rules.toList, ∀ head body, t.asDefinition = some (head, body) →
    head.Avoids questionWords ∧ isWrittenExpr true body = true

variable {evaluates : Bool} {t u : Term} {ts us args : List Term} {f : String}

theorem areData_iff : areData evaluates ts = true ↔ ∀ t ∈ ts, t.Avoids (dataWords evaluates) := by
  unfold areData
  simp

/-! ### Terms in the place of variables -/

theorem areData_fills (h : List.Forall₂ (Term.Fills (dataWords evaluates)) ts us) (hts : areData evaluates ts = true) :
    areData evaluates us = true := by
  rw [areData_iff] at hts ⊢
  induction h with
  | nil => exact hts
  | cons hfills _ ih =>
    rw [List.forall_mem_cons] at hts ⊢
    exact ⟨hfills.avoids hts.1, ih hts.2⟩

theorem isWrittenMapping_fills (h : List.Forall₂ (Term.Fills (dataWords evaluates)) ts us)
    (hts : isWrittenMapping evaluates ts = true) : isWrittenMapping evaluates us = true := by
  cases h with
  | nil => rfl
  | cons hfills hrest =>
    unfold isWrittenMapping at hts ⊢
    rw [Bool.and_eq_true] at hts ⊢
    refine ⟨?_, areData_fills hrest hts.2⟩
    cases hfills with
    | var v hu => cases hts.1
    | sym a => exact hts.1
    | compound f hargs => cases hts.1

mutual
/-- Data are expressions without any goal. -/
theorem isWrittenExpr_of_avoids : (t : Term) → t.Avoids questionWords → isWrittenExpr true t = true
  | .var _, _ => by simp [isWrittenExpr]
  | .sym a, h => by simpa [isWrittenExpr, dataWords] using Term.avoids_sym.1 h
  | .compound f args, h => by
    obtain ⟨hf, hargs⟩ := Term.avoids_compound.1 h
    have hne (w : String) (hw : w ∈ questionWords) : f ≠ w := fun heq => hf (heq ▸ hw)
    have haggregate : isAggregate f = false := by
      unfold isAggregate
      simp [hne "setofall" (by decide), hne "countofall" (by decide)]
    have hwords : (dataWords true).contains f = false := by simpa [dataWords] using hf
    unfold isWrittenExpr
    rw [if_neg (hne "if" (by decide)), if_neg (by simp [haggregate, hne "choose" (by decide)]), hwords,
      areWrittenExprs_of_avoids args hargs]
    simp

theorem areWrittenExprs_of_avoids : (ts : List Term) → (∀ t ∈ ts, t.Avoids questionWords) →
    areWrittenExprs true ts = true
  | [], _ => rfl
  | t :: ts, h => by
    rw [List.forall_mem_cons] at h
    unfold areWrittenExprs
    rw [isWrittenExpr_of_avoids t h.1, areWrittenExprs_of_avoids ts h.2]
    rfl
end

mutual
theorem isWrittenGoal_fills : (t u : Term) → t.Fills (dataWords evaluates) u → isWrittenGoal evaluates t = true →
    isWrittenGoal evaluates u = true
  | .var _, _, _, ht => by simp [isWrittenGoal] at ht
  | .sym _, _, .sym _, ht => ht
  | .compound f args, _, .compound _ h, ht => by
    unfold isWrittenGoal at ht ⊢
    split at ht
    · rename_i hf
      rw [if_pos hf]
      exact areWrittenGoals_fills args _ h ht
    rename_i hconnective
    rw [if_neg hconnective]
    split at ht
    · rename_i hf
      rw [if_pos hf]
      exact isWrittenQuestion_fills args _ h ht
    rename_i haggregate
    rw [if_neg haggregate]
    split at ht
    · rename_i hf
      rw [if_pos hf]
      rw [Bool.and_eq_true] at ht ⊢
      exact ⟨ht.1, isWrittenEvaluation_fills args _ ht.1 h ht.2⟩
    rename_i hevaluate
    rw [if_neg hevaluate]
    split at ht
    · rename_i hf
      rw [if_pos hf]
      exact isWrittenMapping_fills h ht
    · rename_i hmap
      rw [if_neg hmap]
      rw [Bool.and_eq_true] at ht ⊢
      exact ⟨ht.1, areData_fills h ht.2⟩

theorem areWrittenGoals_fills : (ts us : List Term) → List.Forall₂ (Term.Fills (dataWords evaluates)) ts us →
    areWrittenGoals evaluates ts = true → areWrittenGoals evaluates us = true
  | [], _, .nil, h => h
  | t :: ts, _, .cons hfills hrest, h => by
    unfold areWrittenGoals at h ⊢
    rw [Bool.and_eq_true] at h ⊢
    exact ⟨isWrittenGoal_fills t _ hfills h.1, areWrittenGoals_fills ts _ hrest h.2⟩

theorem isWrittenQuestion_fills : (ts us : List Term) → List.Forall₂ (Term.Fills (dataWords evaluates)) ts us →
    isWrittenQuestion evaluates ts = true → isWrittenQuestion evaluates us = true
  | [], _, .nil, h => h
  | [_], _, .cons hfills .nil, h => by
    unfold isWrittenQuestion at h ⊢
    exact areData_fills (.cons hfills .nil) h
  | template :: goal :: rest, _, .cons hfills (.cons hgoal hrest), h => by
    unfold isWrittenQuestion at h ⊢
    rw [Bool.and_eq_true] at h ⊢
    exact ⟨areData_fills (.cons hfills hrest) h.1, isWrittenGoal_fills goal _ hgoal h.2⟩

theorem isWrittenEvaluation_fills : (ts us : List Term) → evaluates = true →
    List.Forall₂ (Term.Fills (dataWords evaluates)) ts us →
    isWrittenEvaluation evaluates ts = true → isWrittenEvaluation evaluates us = true
  | [], _, _, .nil, h => h
  | t :: ts, _, hev, .cons hfills hrest, h => by
    unfold isWrittenEvaluation at h ⊢
    rw [Bool.and_eq_true] at h ⊢
    exact ⟨isWrittenExpr_fills t _ hev hfills h.1, areData_fills hrest h.2⟩

theorem isWrittenExpr_fills : (t u : Term) → evaluates = true → t.Fills (dataWords evaluates) u →
    isWrittenExpr evaluates t = true → isWrittenExpr evaluates u = true
  | .var _, u, hev, .var _ h, _ => by
    subst hev
    exact isWrittenExpr_of_avoids u h
  | .sym _, _, _, .sym _, ht => ht
  | .compound f args, _, hev, .compound _ h, ht => by
    unfold isWrittenExpr at ht ⊢
    split at ht
    · rename_i hf
      rw [if_pos hf]
      exact areWrittenBranches_fills args _ hev h ht
    rename_i hif
    rw [if_neg hif]
    split at ht
    · rename_i hf
      rw [if_pos hf]
      exact isWrittenQuestion_fills args _ h ht
    · rename_i hquestion
      rw [if_neg hquestion]
      rw [Bool.and_eq_true] at ht ⊢
      exact ⟨ht.1, areWrittenExprs_fills args _ hev h ht.2⟩

theorem areWrittenExprs_fills : (ts us : List Term) → evaluates = true →
    List.Forall₂ (Term.Fills (dataWords evaluates)) ts us →
    areWrittenExprs evaluates ts = true → areWrittenExprs evaluates us = true
  | [], _, _, .nil, h => h
  | t :: ts, _, hev, .cons hfills hrest, h => by
    unfold areWrittenExprs at h ⊢
    rw [Bool.and_eq_true] at h ⊢
    exact ⟨isWrittenExpr_fills t _ hev hfills h.1, areWrittenExprs_fills ts _ hev hrest h.2⟩

theorem areWrittenBranches_fills : (ts us : List Term) → evaluates = true →
    List.Forall₂ (Term.Fills (dataWords evaluates)) ts us →
    areWrittenBranches evaluates ts = true → areWrittenBranches evaluates us = true
  | [], _, _, .nil, h => h
  | [_], _, _, .cons hfills .nil, h => by
    unfold areWrittenBranches at h ⊢
    exact areData_fills (.cons hfills .nil) h
  | condition :: value :: rest, _, hev,
      .cons hcondition (.cons hvalue hrest), h => by
    unfold areWrittenBranches at h ⊢
    rw [Bool.and_eq_true, Bool.and_eq_true] at h ⊢
    exact ⟨⟨isWrittenGoal_fills condition _ hcondition h.1.1,
      isWrittenExpr_fills value _ hev hvalue h.1.2⟩, areWrittenBranches_fills rest _ hev hrest h.2⟩
end

/-! ### What written goals and expressions are made of -/

theorem isWrittenGoal_of_mem (h : areWrittenGoals evaluates ts = true) (ht : t ∈ ts) : isWrittenGoal evaluates t = true := by
  induction ts with
  | nil => cases ht
  | cons u ts ih =>
    unfold areWrittenGoals at h
    rw [Bool.and_eq_true] at h
    rcases List.mem_cons.1 ht with rfl | ht
    · exact h.1
    · exact ih h.2 ht

theorem isWrittenExpr_of_mem (h : areWrittenExprs evaluates ts = true) (ht : t ∈ ts) : isWrittenExpr evaluates t = true := by
  induction ts with
  | nil => cases ht
  | cons u ts ih =>
    unfold areWrittenExprs at h
    rw [Bool.and_eq_true] at h
    rcases List.mem_cons.1 ht with rfl | ht
    · exact h.1
    · exact ih h.2 ht

/-- The second term of a question is a goal, and those around it are data. -/
theorem question_of_isWritten (h : isWrittenQuestion evaluates ts = true) :
    (∀ t ∈ ts[0]?, t.Avoids (dataWords evaluates)) ∧ (∀ t ∈ ts[1]?, isWrittenGoal evaluates t = true) ∧
      ∀ t ∈ ts[2]?, t.Avoids (dataWords evaluates) := by
  match ts with
  | [] => simp
  | [template] =>
    unfold isWrittenQuestion at h
    simpa using areData_iff.1 h
  | template :: goal :: rest =>
    unfold isWrittenQuestion at h
    rw [Bool.and_eq_true, areData_iff, List.forall_mem_cons] at h
    obtain ⟨⟨htemplate, hrest⟩, hgoal⟩ := h
    refine ⟨by simpa using htemplate, by simpa using hgoal, fun t ht => hrest t ?_⟩
    exact List.mem_of_getElem? (i := 0) ht

/-- A goal that is no connective, no question and no evaluation holds data only. -/
theorem avoids_of_isWritten (h : isWrittenGoal evaluates (.compound f args) = true) (hconnective : isConnective f = false)
    (haggregate : isAggregate f = false) (hevaluate : f ≠ "evaluate") (hmap : f ≠ "map") :
    (Term.compound f args).Avoids (dataWords evaluates) := by
  unfold isWrittenGoal at h
  rw [if_neg (by simp [hconnective]), if_neg (by simp [haggregate]), if_neg hevaluate, if_neg hmap, Bool.and_eq_true,
    areData_iff] at h
  exact Term.avoids_compound.2 ⟨by simpa using h.1, h.2⟩

theorem goals_of_isWritten (h : isWrittenGoal evaluates (.compound f args) = true) (hconnective : isConnective f = true) :
    ∀ g ∈ args, isWrittenGoal evaluates g = true := by
  unfold isWrittenGoal at h
  rw [if_pos hconnective] at h
  exact fun g hg => isWrittenGoal_of_mem h hg

/-- A plain relation makes a written goal of data. -/
theorem isWrittenGoal_apply {r : String} {ts : List Term} (hr : isPlainRelation evaluates r = true)
    (hts : ∀ t ∈ ts, t.Avoids (dataWords evaluates)) : isWrittenGoal evaluates (.apply r ts) = true := by
  simp only [isPlainRelation, Bool.and_eq_true, Bool.not_eq_true', decide_eq_true_eq] at hr
  obtain ⟨⟨⟨⟨hconnective, haggregate⟩, hevaluate⟩, hmap⟩, hword⟩ := hr
  unfold Term.apply
  split
  · unfold isWrittenGoal
    rw [hword]
    rfl
  · unfold isWrittenGoal
    rw [if_neg (by simp [hconnective]), if_neg (by simp [haggregate]), if_neg hevaluate, if_neg hmap, hword,
      areData_iff.2 hts]
    rfl

theorem isPlainRelation_of_mapping {r : String} (h : isWrittenMapping evaluates ts = true) (hr : ts[0]? = some (.sym r)) :
    isPlainRelation evaluates r = true := by
  cases ts with
  | nil => cases hr
  | cons relation rest =>
    cases hr
    unfold isWrittenMapping at h
    rw [Bool.and_eq_true] at h
    exact h.1

theorem written_computes (h : isWrittenGoal evaluates (.compound f args) = true) (hconnective : isConnective f = false) :
    (written evaluates).Computes f args where
  evaluate hf := by
    subst hf
    unfold isWrittenGoal at h
    rw [if_neg (by decide), if_neg (by decide), if_pos rfl, Bool.and_eq_true] at h
    obtain ⟨hev, h⟩ := h
    cases args with
    | nil => simp
    | cons e rest =>
      unfold isWrittenEvaluation at h
      rw [Bool.and_eq_true, areData_iff] at h
      refine ⟨fun t ht => ?_, fun t ht => h.2 t (List.mem_of_getElem? (i := 0) ht)⟩
      cases ht
      exact ⟨hev, h.1⟩
  map hf := by
    subst hf
    unfold isWrittenGoal at h
    rw [if_neg (by decide), if_neg (by decide), if_neg (by decide), if_pos rfl] at h
    cases args with
    | nil => simp
    | cons relation rest =>
      unfold isWrittenMapping at h
      rw [Bool.and_eq_true, areData_iff] at h
      refine ⟨fun t ht => h.2 t (List.mem_of_getElem? (i := 0) ht), fun t ht => h.2 t (List.mem_of_getElem? (i := 1) ht), ?_⟩
      intro r item v hr hitem
      cases hr
      refine isWrittenGoal_apply h.1 ?_
      exact List.forall_mem_cons.2 ⟨hitem, List.forall_mem_singleton.2 (Term.avoids_var v)⟩
  aggregate hf := by
    unfold isWrittenGoal at h
    rw [if_neg (by simp [hconnective]), if_pos hf] at h
    exact question_of_isWritten h
  call hevaluate hmap haggregate := Term.avoids_compound.1 (avoids_of_isWritten h hconnective haggregate hevaluate hmap)

/-- Whatever kind of goal a written goal is, its parts are goals, expressions and data. -/
theorem written_admits (rules : Theory) (ht : isWrittenGoal evaluates t = true) :
    (written evaluates).Admits t (Goal.ofTerm rules t) := by
  have hrelation (r : String) (h : t.Avoids (dataWords evaluates)) :
      (written evaluates).Admits t (Goal.ofRelation rules r) := by
    unfold Goal.ofRelation
    split <;> exact h
  match t with
  | .var v => simp [isWrittenGoal] at ht
  | .sym a =>
    have ha : (Term.sym a).Avoids (dataWords evaluates) := by simpa [isWrittenGoal] using ht
    unfold Goal.ofTerm
    split <;> first | trivial | exact hrelation _ ha
  | .compound f args =>
    -- the arguments of goals that are no connectives, questions or evaluations
    have hdata (hconnective : isConnective f = false) (haggregate : isAggregate f = false) (hevaluate : f ≠ "evaluate")
        (hmap : f ≠ "map") : ∀ t ∈ args, t.Avoids (dataWords evaluates) :=
      (Term.avoids_compound.1 (avoids_of_isWritten ht hconnective haggregate hevaluate hmap)).2
    unfold Goal.ofTerm
    split
    all_goals rename_i heq
    all_goals cases heq
    · -- same
      split
      · have h := hdata (by decide) (by decide) (by decide) (by decide)
        exact ⟨h _ (by simp), h _ (by simp)⟩
      · trivial
    · -- distinct
      split
      · have h := hdata (by decide) (by decide) (by decide) (by decide)
        exact ⟨h _ (by simp), h _ (by simp)⟩
      · trivial
    · exact hdata (by decide) (by decide) (by decide) (by decide)
    · -- member
      split
      · have h := hdata (by decide) (by decide) (by decide) (by decide)
        exact ⟨h _ (by simp), h _ (by simp)⟩
      · trivial
    · -- not
      have h := goals_of_isWritten ht (by decide)
      split
      · exact h _ (by simp)
      · trivial
    · exact goals_of_isWritten ht (by decide)
    · exact goals_of_isWritten ht (by decide)
    · exact hdata (by decide) (by decide) (by decide) (by decide) _ (by simp)
    · -- a goal that computes a value, or one on a relation
      rename_i hnot hand hor _
      have hconnective : isConnective f = false := by
        unfold isConnective
        simp [show f ≠ "and" from hand, show f ≠ "or" from hor, show f ≠ "not" from hnot]
      split
      · exact written_computes ht hconnective
      · rename_i hcomputation
        unfold Goal.isComputation at hcomputation
        simp only [Bool.or_eq_true, decide_eq_true_eq, not_or, Bool.not_eq_true] at hcomputation
        obtain ⟨⟨⟨hevaluate, hmap⟩, haggregate⟩, -⟩ := hcomputation
        exact hrelation f (avoids_of_isWritten ht hconnective haggregate hevaluate hmap)

/-! ### The language of written goals -/

theorem isSpareWord_of_mem_dataWords : ∀ w ∈ dataWords evaluates, isSpareWord w = true := by
  cases evaluates <;> decide

/-- A builtin whose name data may hold makes data of data. -/
theorem avoids_callBuiltin_of_data {values : List Term} {surroundings : Surroundings} (hf : f ∉ dataWords evaluates)
    (hvalues : ∀ t ∈ values, t.Avoids (dataWords evaluates)) (h : callBuiltin f values surroundings = some t) :
    t.Avoids (dataWords evaluates) := by
  cases evaluates with
  | false => exact Term.avoids_nil_words t
  | true =>
    have hmaker : f ∉ wordMakers := fun hmem => hf (List.mem_append_right _ hmem)
    exact avoids_callBuiltin isSpareWord_of_mem_dataWords hmaker hvalues h

theorem areWrittenBranches_branches (hev : evaluates = true) : (ts : List Term) →
    areWrittenBranches evaluates ts = true → (written evaluates).Branches ts
  | [], _ => trivial
  | [_], _ => trivial
  | condition :: value :: rest, h => by
    unfold areWrittenBranches at h
    rw [Bool.and_eq_true, Bool.and_eq_true] at h
    exact ⟨h.1.1, ⟨hev, h.1.2⟩, areWrittenBranches_branches hev rest h.2⟩

theorem written_evaluates (hev : evaluates = true) (h : isWrittenExpr evaluates (.compound f args) = true) :
    (written evaluates).Evaluates f args where
  map hf t ht := by
    subst hf
    unfold isWrittenExpr at h
    rw [if_neg (by decide), if_neg (by decide), Bool.and_eq_true] at h
    exact ⟨hev, isWrittenExpr_of_mem h.2 ht⟩
  find hf template goal rest hargs := by
    subst hargs
    have hif : f ≠ "if" := by
      rintro rfl
      revert hf
      decide
    unfold isWrittenExpr at h
    rw [if_neg hif, if_pos (by simpa using hf)] at h
    obtain ⟨htemplate, hgoal, -⟩ := question_of_isWritten h
    exact ⟨htemplate template rfl, hgoal goal rfl⟩
  branch hf := by
    unfold isWrittenExpr at h
    rw [if_pos hf] at h
    exact areWrittenBranches_branches hev args h
  call hmap haggregate hchoose hif := by
    unfold isWrittenExpr at h
    rw [if_neg hif, if_neg (by simp [haggregate, hchoose]), Bool.and_eq_true] at h
    have hword : f ∉ dataWords evaluates := by simpa [hmap] using h.1
    exact ⟨hword, fun t ht => ⟨hev, isWrittenExpr_of_mem h.2 ht⟩⟩

/-- Searches among sources whose goals are written out do not lead out of the language of written goals. -/
theorem closed_written {src : Sources} (h : src.WrittenOut evaluates) : (written evaluates).Closed src where
  spare := isSpareWord_of_mem_dataWords
  builtin _ hf _ _ _ hvalues hv := avoids_callBuiltin_of_data hf hvalues hv
  goal_fills t u ht hfills := isWrittenGoal_fills t u hfills ht
  goal_value v t hv _ := by
    change isWrittenGoal evaluates (.var v) = true at hv
    simp [isWrittenGoal] at hv
  goal_admits t ht := written_admits src.rules ht
  expr_fills t u ht hfills := ⟨ht.1, isWrittenExpr_fills t u ht.1 hfills ht.2⟩
  expr_sym a ha := by
    have hword : a ∉ dataWords evaluates := by simpa [isWrittenExpr] using ha.2
    exact hword
  expr_evaluates _ _ h := written_evaluates h.1 h.2
  fact := h.fact
  added := h.added
  dataset := h.dataset
  rule := h.rule
  definition e he t ht head body hdefinition := by
    have hev := he.1
    subst hev
    obtain ⟨hhead, hbody⟩ := h.definition rfl t ht head body hdefinition
    exact ⟨hhead, rfl, hbody⟩

end Deduction
