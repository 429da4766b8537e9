import Deduction.Program
import Deduction.Search.Goal
import Deduction.Proofs.Instances
import Deduction.Proofs.Sentences
import Deduction.Proofs.Theory.Narrowing
import Deduction.Proofs.Variables

/-!
# Datalog programs

A Datalog program is made of ground facts and of rules between atoms without compound arguments. What follows from it
is its least model: the instances of heads whose bodies follow, over a universe of values for the variables.

The relations that have rules are answered by the side of the rules alone. Nothing of the program is lost by that: all
clauses of such a relation are on the side of the rules, and all clauses of any other relation are facts
(`mem_rules_of_defines`, `mem_facts_of_not_defines`).
-/

namespace Deduction

/-! ### Atoms and clauses -/

/-- Words with a meaning of their own as goals, or as the functors of sentences. -/
def reservedWords : List String :=
  ["true", "false", "same", "distinct", "mutex", "member", "not", "and", "or", "rule", "handler", "transition",
    "definition"]

/-- Is the word the name of an ordinary relation? -/
def isRelation (f : String) : Bool := !reservedWords.contains f && !Goal.isComputation f

namespace Term

/-- An atom of an ordinary relation, whose arguments are variables and symbols. -/
def isAtom : Term → Bool
  | var _ => false
  | sym a => isRelation a
  | compound f args => isRelation f && args.all fun t => !t.isCompound

/-- The goals under which the head of a sentence holds; a fact has none. -/
def body (t : Term) : List Term := t.asRule.elim [] Prod.snd

/-- A ground fact, or a rule between atoms. -/
def isClause (t : Term) : Bool :=
  match t.asRule with
  | some (head, body) => head.isAtom && body.all isAtom
  | none => t.isAtom && t.isGround

/-- The symbols that are arguments in a clause. -/
def constants (t : Term) : List String := (t.headOrSelf :: t.body).flatMap fun a => a.args.filterMap asSymbol

end Term

/-- A universe for sentences: values for their variables, at least one, and the constants of the sentences among
them. -/
structure IsUniverse (U : Term → Prop) (sentences : List Term) : Prop where
  nonempty : ∃ t, U t
  constant : ∀ t ∈ sentences, ∀ a ∈ t.constants, U (.sym a)

/-- The least Herbrand model: what follows from the clauses of a program. -/
inductive LeastModel (U : Term → Prop) (program : List Term) : Term → Prop
  | intro {clause : Term} {σ : String → Term} (hclause : clause ∈ program) (hσ : ∀ v, U (σ v))
      (hbody : ∀ goal ∈ clause.body, LeastModel U program (goal.instantiate σ)) :
      LeastModel U program (clause.headOrSelf.instantiate σ)

/-- The sources that answer from the two sides of a program: an index of all symbols for the facts, and of the
relations of the heads for the rules. -/
def Sources.ofProgram (program : List Term) (config : Config) (datasets : List (String × Theory)) : Sources where
  facts := .ofList .full (splitProgram program).1
  rules := .ofList .rule (splitProgram program).2
  datasets := datasets
  config := config

/-! ### Instances -/

section Instances

mutual
/-- The value of a term is the instance by the values of the environment. -/
theorem Valuation.read_eq_instantiate (θ : Valuation) (env : EnvId) :
    (t : Term) → θ.read env t = t.instantiate fun v => θ v env
  | .var _ => rfl
  | .sym _ => rfl
  | .compound f args => by rw [read, Term.instantiate, readList_eq_instantiateList θ env args]

theorem Valuation.readList_eq_instantiateList (θ : Valuation) (env : EnvId) :
    (ts : List Term) → θ.readList env ts = Term.instantiateList (fun v => θ v env) ts
  | [] => rfl
  | t :: ts => by
    rw [readList, Term.instantiateList, read_eq_instantiate θ env t, readList_eq_instantiateList θ env ts]
end

namespace Term

variable {t : Term} {f v : String} {σ : String → Term}

/-- Values for the variables leave the functor of an atom. -/
theorem functor_instantiate (h : t.isAtom = true) (σ : String → Term) : (t.instantiate σ).functor? = t.functor? := by
  cases t with
  | var v => cases h
  | sym a => rfl
  | compound f args => rw [instantiate_compound]; rfl

/-! ### Atoms as goals and as sentences -/

theorem exists_relation_of_isAtom (h : t.isAtom = true) : ∃ f, t.functor? = some f ∧ isRelation f = true := by
  cases t with
  | var v => cases h
  | sym a => exact ⟨a, rfl, h⟩
  | compound f args =>
    rw [isAtom, Bool.and_eq_true] at h
    exact ⟨f, rfl, h.1⟩

end Term

theorem ne_of_isRelation {f w : String} (h : isRelation f = true) (hw : w ∈ reservedWords) : f ≠ w := by
  rintro rfl
  unfold isRelation at h
  rw [List.contains_iff_mem.2 hw] at h
  cases h

theorem isComputation_of_isRelation {f : String} (h : isRelation f = true) : Goal.isComputation f = false := by
  unfold isRelation at h
  rw [Bool.and_eq_true, Bool.not_eq_true'] at h
  simpa using h.2

theorem isWrapper_of_isRelation {f : String} (h : isRelation f = true) : isWrapper f = false := by
  have hne (w : String) (hw : w ∈ reservedWords) : f ≠ w := ne_of_isRelation h hw
  simp [isWrapper, hne "not" (by decide), hne "rule" (by decide), hne "definition" (by decide), hne "handler" (by decide)]

namespace Term

variable {t : Term} {f : String}

/-- What has the functor of an ordinary relation is no sentence of a kind of its own. -/
theorem isRuleSentence_of_isRelation (hf : t.functor? = some f) (hrel : isRelation f = true) :
    t.asRule = none ∧ t.isRuleSentence = false := by
  have hne (w : String) (hw : w ∈ reservedWords) : f ≠ w := ne_of_isRelation hrel hw
  have hpair {w : String} (hw : w ∈ reservedWords) : t.asPair w = none := by
    cases hpair : t.asPair w with
    | none => rfl
    | some pair => exact absurd (Option.some.inj ((eq_of_asPair hpair ▸ hf).symm)) (hne w hw)
  have hrule : t.asRule = none := by
    cases hrule : t.asRule with
    | none => rfl
    | some rule => exact absurd (Option.some.inj ((eq_of_asRule hrule ▸ hf).symm)) (hne "rule" (by decide))
  refine ⟨hrule, ?_⟩
  unfold isRuleSentence isRule asHandler asTransition asDefinition
  rw [hrule, hpair (by decide), hpair (by decide), hpair (by decide)]
  rfl

/-- A goal on an ordinary relation is answered by the rules or by the facts of that relation. -/
theorem ofTerm_of_isRelation (rules : Theory) (hf : t.functor? = some f) (hrel : isRelation f = true) :
    Goal.ofTerm rules t = Goal.ofRelation rules f := by
  have hne (w : String) (hw : w ∈ reservedWords) : f ≠ w := ne_of_isRelation hrel hw
  cases t with
  | var v => cases hf
  | sym a =>
    obtain rfl : a = f := Option.some.inj hf
    unfold Goal.ofTerm
    split
    case h_4 heq =>
      cases heq
      rfl
    all_goals
      rename_i heq
      cases heq
    all_goals exact absurd rfl (hne _ (by decide))
  | compound k args =>
    obtain rfl : k = f := Option.some.inj hf
    unfold Goal.ofTerm
    split
    case h_13 heq =>
      cases heq
      rw [isComputation_of_isRelation hrel, if_neg Bool.false_ne_true]
    all_goals
      rename_i heq
      cases heq
    all_goals exact absurd rfl (hne _ (by decide))

/-- An atom is answered by the rules or by the facts of its relation. -/
theorem ofTerm_of_isAtom (rules : Theory) (h : t.isAtom = true) (hf : t.functor? = some f) :
    Goal.ofTerm rules t = Goal.ofRelation rules f := by
  obtain ⟨g, hg, hrel⟩ := exists_relation_of_isAtom h
  obtain rfl : g = f := Option.some.inj (hg.symm.trans hf)
  exact ofTerm_of_isRelation rules hf hrel

/-- An atom is no sentence of a kind of its own. -/
theorem isRuleSentence_of_isAtom (h : t.isAtom = true) : t.asRule = none ∧ t.isRuleSentence = false := by
  obtain ⟨f, hf, hrel⟩ := exists_relation_of_isAtom h
  exact isRuleSentence_of_isRelation hf hrel

theorem headOrSelf_of_isAtom (h : t.isAtom = true) : t.headOrSelf = t := by
  unfold headOrSelf
  rw [(isRuleSentence_of_isAtom h).1]

/-- An atom is about its own relation. -/
theorem operator_of_isAtom (h : t.isAtom = true) : t.operator? = t.functor? := by
  obtain ⟨f, hf, hrel⟩ := exists_relation_of_isAtom h
  rw [hf, operator?_of_functor? hf (isWrapper_of_isRelation hrel)]

/-- The head and the goals of a clause are atoms. -/
theorem isAtom_of_isClause (h : t.isClause = true) :
    t.headOrSelf.isAtom = true ∧ ∀ goal ∈ t.body, goal.isAtom = true := by
  unfold isClause at h
  unfold headOrSelf body
  cases hrule : t.asRule with
  | some rule =>
    simp only [hrule, Bool.and_eq_true, List.all_eq_true] at h
    exact h
  | none =>
    simp only [hrule, Bool.and_eq_true] at h
    exact ⟨h.1, fun _ hgoal => by cases hgoal⟩

theorem asRule_of_isRule (h : t.isRule = false) : t.asRule = none := by
  unfold isRule at h
  simpa using h

theorem headOrSelf_of_isRule (h : t.isRule = false) : t.headOrSelf = t := by
  unfold headOrSelf
  rw [asRule_of_isRule h]

theorem isRuleSentence_of_isClause (h : t.isClause = true) : t.isRuleSentence = t.isRule := by
  unfold isClause at h
  cases hrule : t.asRule with
  | some rule => simp [isRuleSentence, isRule, hrule]
  | none =>
    simp only [hrule, Bool.and_eq_true] at h
    rw [(isRuleSentence_of_isAtom h.1).2, isRule, hrule]
    rfl

/-- A clause is about the relation of its head. -/
theorem operator_of_isClause (h : t.isClause = true) : t.operator? = t.headOrSelf.functor? := by
  have hhead := (isAtom_of_isClause h).1
  cases hrule : t.asRule with
  | some rule =>
    obtain ⟨head, body⟩ := rule
    have ht : t = rule head body := by
      unfold asRule at hrule
      split at hrule
      · rename_i f head' body'
        split at hrule
        · rename_i hf
          cases hrule
          rw [hf, Term.rule]
        · cases hrule
      · cases hrule
    have hself : t.headOrSelf = head := by rw [headOrSelf, hrule]
    rw [hself] at hhead ⊢
    rw [← operator_of_isAtom hhead, ht]
    rfl
  | none =>
    have hself : t.headOrSelf = t := by rw [headOrSelf, hrule]
    rw [hself] at hhead ⊢
    exact operator_of_isAtom hhead

end Term

/-- An atom is no variable that could be bound. -/
theorem Store.resolve_of_isAtom (s : Store) {t : Term} (h : t.isAtom = true) (env : EnvId) :
    s.resolve t env = ⟨t, env⟩ := by
  cases t with
  | var v => cases h
  | sym a => exact s.resolve_sym a env
  | compound f args => exact s.resolve_compound f args env

/-! ### The two sides of a program -/

section Split

variable {program : List Term} {t : Term} {f : String}

/-- The relations that have rules in a program. -/
def ruledRelations (program : List Term) : List String :=
  (program.filter Term.isRuleSentence).filterMap Term.ruleRelation?

theorem mem_ruledRelations_iff : f ∈ ruledRelations program ↔ ∃ u ∈ program, u.ruleRelation? = some f := by
  unfold ruledRelations
  rw [List.mem_filterMap]
  constructor
  · rintro ⟨u, hu, hf⟩
    exact ⟨u, List.mem_of_mem_filter hu, hf⟩
  · rintro ⟨u, hu, hf⟩
    exact ⟨u, List.mem_filter.2 ⟨hu, Term.isRuleSentence_of_ruleRelation hf⟩, hf⟩

theorem mem_facts_split : t ∈ (splitProgram program).1 ↔
    (t ∈ program ∧ t.isRuleSentence = false) ∧ ∀ f, t.functor? = some f → f ∉ ruledRelations program := by
  unfold splitProgram ruledRelations
  simp only [List.partition_eq_filter_filter, List.mem_filter, Function.comp_apply, Bool.not_eq_true',
    Option.any_eq_false, List.contains_eq_mem, decide_eq_false_iff_not]

theorem mem_rules_split : t ∈ (splitProgram program).2 ↔
    t ∈ program ∧ (t.isRuleSentence = true ∨
      t.isRuleSentence = false ∧ ∃ f, t.functor? = some f ∧ f ∈ ruledRelations program) := by
  unfold splitProgram ruledRelations
  simp only [List.partition_eq_filter_filter, List.mem_filter, Function.comp_apply, Bool.not_eq_true',
    Option.any_eq_true, List.contains_eq_mem, decide_eq_true_iff, List.mem_append]
  tauto

theorem mem_ruledRelations (h : program.all Term.isClause = true) : f ∈ ruledRelations program ↔
    ∃ t ∈ program, t.isRule = true ∧ t.headOrSelf.functor? = some f := by
  rw [List.all_eq_true] at h
  unfold ruledRelations
  simp only [List.mem_filterMap, List.mem_filter]
  constructor
  · rintro ⟨t, ⟨ht, hrule⟩, hf⟩
    rw [Term.isRuleSentence_of_isClause (h t ht)] at hrule
    refine ⟨t, ht, hrule, ?_⟩
    obtain ⟨⟨head, body⟩, hr⟩ := Option.isSome_iff_exists.1 hrule
    simpa [Term.ruleRelation?, Term.headOrSelf, hr] using hf
  · rintro ⟨t, ht, hrule, hf⟩
    refine ⟨t, ⟨ht, Term.isRuleSentence_of_isClause (h t ht) ▸ hrule⟩, ?_⟩
    obtain ⟨⟨head, body⟩, hr⟩ := Option.isSome_iff_exists.1 hrule
    simpa [Term.ruleRelation?, Term.headOrSelf, hr] using hf

/-- A relation is answered by the rules if it has a rule. -/
theorem defines_iff (h : program.all Term.isClause = true) :
    (Theory.ofList .rule (splitProgram program).2).defines f = true ↔ f ∈ ruledRelations program := by
  have hclause (t : Term) (ht : t ∈ program) : t.isClause = true := List.all_eq_true.1 h t ht
  have hoperator (t : Term) (ht : t ∈ (Theory.ofList .rule (splitProgram program).2).toList) :
      t.operator? = t.headOrSelf.functor? := by
    rw [Theory.toList_ofList, mem_rules_split] at ht
    exact Term.operator_of_isClause (hclause t ht.1)
  rw [(Theory.Reachable.ofList _ _).indexed.defines_iff (Theory.mode_insertAll _ _) hoperator, Theory.toList_ofList]
  constructor
  · rintro ⟨t, ht, hf⟩
    obtain ⟨hmem, hrule | ⟨hfact, g, hg, hruled⟩⟩ := mem_rules_split.1 ht
    · exact (mem_ruledRelations h).2 ⟨t, hmem, Term.isRuleSentence_of_isClause (hclause t hmem) ▸ hrule, hf⟩
    · rw [Term.isRuleSentence_of_isClause (hclause t hmem)] at hfact
      have hself : t.headOrSelf = t := Term.headOrSelf_of_isRule hfact
      rw [hself, hg] at hf
      exact Option.some.inj hf ▸ hruled
  · intro hruled
    obtain ⟨t, hmem, hrule, hf⟩ := (mem_ruledRelations h).1 hruled
    rw [← Term.isRuleSentence_of_isClause (hclause t hmem)] at hrule
    exact ⟨t, mem_rules_split.2 ⟨hmem, Or.inl hrule⟩, hf⟩

theorem mem_of_mem_rules (ht : t ∈ (splitProgram program).2) : t ∈ program := (mem_rules_split.1 ht).1

theorem mem_of_mem_facts (ht : t ∈ (splitProgram program).1) : t ∈ program := (mem_facts_split.1 ht).1.1

/-- All clauses of a relation that has rules are on the side of the rules. -/
theorem mem_rules_of_defines (h : program.all Term.isClause = true) (ht : t ∈ program)
    (hf : t.headOrSelf.functor? = some f)
    (hdefines : (Theory.ofList .rule (splitProgram program).2).defines f = true) : t ∈ (splitProgram program).2 := by
  rw [mem_rules_split]
  refine ⟨ht, ?_⟩
  cases hrule : t.isRuleSentence with
  | true => exact Or.inl rfl
  | false =>
    rw [Term.isRuleSentence_of_isClause (List.all_eq_true.1 h t ht)] at hrule
    have hself : t.headOrSelf = t := Term.headOrSelf_of_isRule hrule
    exact Or.inr ⟨rfl, f, hself ▸ hf, (defines_iff h).1 hdefines⟩

theorem Term.isGround_of_mem_facts (h : program.all Term.isClause = true) (ht : t ∈ (splitProgram program).1) :
    t.isGround = true ∧ t.headOrSelf = t := by
  have hclause := List.all_eq_true.1 h t (mem_of_mem_facts ht)
  have hfact := (mem_facts_split.1 ht).1.2
  rw [isRuleSentence_of_isClause hclause] at hfact
  refine ⟨?_, headOrSelf_of_isRule hfact⟩
  unfold isClause at hclause
  rw [asRule_of_isRule hfact] at hclause
  exact ((Bool.and_eq_true _ _).mp hclause).2

/-- All clauses of any other relation are facts. -/
theorem mem_facts_of_not_defines (h : program.all Term.isClause = true) (ht : t ∈ program)
    (hf : t.headOrSelf.functor? = some f)
    (hdefines : (Theory.ofList .rule (splitProgram program).2).defines f = false) : t ∈ (splitProgram program).1 := by
  have hruled : f ∉ ruledRelations program := by
    intro hmem
    rw [← defines_iff h, hdefines] at hmem
    cases hmem
  have hclause := Term.isRuleSentence_of_isClause (List.all_eq_true.1 h t ht)
  cases hrule : t.isRule with
  | true => exact absurd ((mem_ruledRelations h).2 ⟨t, ht, hrule, hf⟩) hruled
  | false =>
    have hself : t.headOrSelf = t := Term.headOrSelf_of_isRule hrule
    refine mem_facts_split.2 ⟨⟨ht, hclause.trans hrule⟩, fun g hg => ?_⟩
    rw [hself, hg] at hf
    exact Option.some.inj hf ▸ hruled

/-- The rules that are tried for an atom are clauses of the program. -/
theorem mem_of_mem_lookupIn_rules {s : Store} {goal : Term} {env : EnvId}
    (ht : t ∈ (Theory.ofList .rule (splitProgram program).2).lookupIn s goal env) : t ∈ program := by
  rw [Theory.lookupIn_eq (Theory.Reachable.ofList _ _).indexed, Theory.toList_ofList, List.mem_filter] at ht
  exact mem_of_mem_rules ht.1

/-- The facts that are tried for an atom are clauses of the program. -/
theorem mem_of_mem_lookupIn_facts (h : program.all Term.isClause = true) {s : Store} {goal : Term} {env : EnvId}
    (ht : t ∈ (Theory.ofList .full (splitProgram program).1).lookupIn s goal env) :
    t ∈ program ∧ t.asRule = none := by
  rw [Theory.lookupIn_eq (Theory.Reachable.ofList _ _).indexed, Theory.toList_ofList, List.mem_filter] at ht
  have hmem := mem_of_mem_facts ht.1
  have hfact := (mem_facts_split.1 ht.1).1.2
  rw [Term.isRuleSentence_of_isClause (List.all_eq_true.1 h t hmem)] at hfact
  exact ⟨hmem, Term.asRule_of_isRule hfact⟩

/-- All clauses of a relation that has rules are tried for an atom of it. -/
theorem mem_lookupIn_rules (h : program.all Term.isClause = true) {s : Store} {goal : Term} {env : EnvId}
    (hgoal : goal.isAtom = true) (hf : goal.functor? = some f) (ht : t ∈ program) (hhead : t.headOrSelf.functor? = some f)
    (hdefines : (Theory.ofList .rule (splitProgram program).2).defines f = true) :
    t ∈ (Theory.ofList .rule (splitProgram program).2).lookupIn s goal env := by
  rw [Theory.lookupIn_eq (Theory.Reachable.ofList _ _).indexed, Theory.toList_ofList, List.mem_filter]
  refine ⟨mem_rules_of_defines h ht hhead hdefines, ?_⟩
  have hmode : (Theory.ofList .rule (splitProgram program).2).mode = .rule := Theory.mode_insertAll _ _
  have hresolve : s.resolve goal env = ⟨goal, env⟩ := Store.resolve_of_isAtom s hgoal env
  have hkey : (Theory.ofList .rule (splitProgram program).2).queryKeyIn s goal env = some f := by
    unfold Theory.queryKeyIn Theory.queryKey
    rw [hmode, hresolve, Term.headOrSelf_of_isAtom hgoal, hf]
  unfold Theory.admits
  rw [hkey, Option.all_some, hmode]
  cases hindexable : isIndexable f with
  | false => rfl
  | true =>
    have hmem : f ∈ IndexMode.rule.keys t := Theory.mem_functorKeys hhead hindexable
    simp [hmem]

end Split

end Instances

end Deduction
