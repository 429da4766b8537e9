import Deduction.Analysis.Diagnostic
import Deduction.Proofs.Analysis.Strata
import Deduction.Proofs.Sentences

/-!
# Negation within strata

What the check for negation looks at in a goal of a body is its outermost shape: the relation of the goal under a `not`,
and all relations of the goal under an aggregate. Relations under a `not` that stands deeper, or that surrounds a
conjunction, it does not see. In sentences where it sees everything that is negated or collected, no relation depends on
itself through a negation once all of them are accepted (`negations_stratified`).
-/

namespace Deduction

namespace Term

mutual
/-- The relations that a goal mentions inside a `not` or inside the goal of an aggregate, at any depth. -/
def negated : Term → List String
  | compound f args =>
    if f = "not" then
      match args with
      | goal :: _ => goal.mentions
      | [] => []
    else if isUpdateMarker f then
      match args with
      | goal :: _ => negated goal
      | [] => []
    else if f = "rule" || f = "and" || f = "or" then negatedList args
    else if isAggregate f then
      match args with
      | _ :: goal :: _ => goal.mentions
      | _ => []
    else []
  | _ => []

def negatedList : List Term → List String
  | [] => []
  | t :: ts => negated t ++ negatedList ts
end

/-- The relations that the check for negation compares with the head when it comes to a goal of a body. -/
def examined : Term → List String
  | compound f args =>
    if f = "not" then (args.take 1).filterMap operator?
    else if isAggregate f then mentions (compound f args)
    else []
  | _ => []

/-- Everything that a goal of the body negates or collects is in view of the check. -/
def showsNegated (t : Term) : Bool :=
  match t.asRule with
  | some (_, body) => body.all fun goal => goal.negated.all goal.examined.contains
  | none => true

mutual
/-- What is negated is mentioned. -/
theorem mentions_of_negated {b : String} : (goal : Term) → b ∈ goal.negated → b ∈ goal.mentions
  | var _, h | sym _, h => by
    unfold negated at h
    cases h
  | compound f args, h => by
    unfold negated at h
    unfold mentions
    by_cases hnot : f = "not"
    · rw [if_pos hnot] at h
      rw [if_pos (by simp [hnot])]
      exact h
    rw [if_neg hnot] at h
    by_cases hmark : isUpdateMarker f = true
    · rw [if_pos hmark] at h
      rw [if_pos (by simp [hmark])]
      match args, h with
      | goal :: _, h => exact mentions_of_negated goal h
    rw [if_neg hmark] at h
    rw [if_neg (by simp [hnot, hmark])]
    by_cases hconn : (f = "rule" || f = "and" || f = "or") = true
    · rw [if_pos hconn] at h ⊢
      exact mentionsList_of_negatedList args h
    rw [if_neg hconn] at h ⊢
    by_cases hagg : isAggregate f = true
    · rw [if_pos hagg] at h ⊢
      exact h
    · rw [if_neg hagg] at h
      cases h

theorem mentionsList_of_negatedList {b : String} : (goals : List Term) → b ∈ negatedList goals → b ∈ mentionsList goals
  | [], h => h
  | goal :: goals, h => by
    unfold negatedList at h
    unfold mentionsList
    rcases List.mem_append.1 h with h | h
    · exact List.mem_append_left _ (mentions_of_negated goal h)
    · exact List.mem_append_right _ (mentionsList_of_negatedList goals h)
end

theorem mem_mentionsList {b : String} {goals : List Term} : b ∈ mentionsList goals ↔ ∃ goal ∈ goals, b ∈ goal.mentions := by
  induction goals with
  | nil => simp [mentionsList]
  | cons goal goals ih => simp [mentionsList, ih]

theorem mentions_rule (head : Term) (body : List Term) : (rule head body).mentions = mentionsList (head :: body) := by
  unfold rule mentions
  rw [if_neg (by decide), if_pos (by decide)]

/-- An aggregate shows everything that it collects. -/
theorem negated_aggregate {f : String} {args : List Term} (hf : isAggregate f = true) :
    (compound f args).negated = (compound f args).examined := by
  have hcases : f = "setofall" ∨ f = "countofall" := by simpa [isAggregate] using hf
  rcases hcases with rfl | rfl <;> rcases args with _ | ⟨template, _ | ⟨goal, rest⟩⟩ <;> rfl

/-- The negation of a goal shows what the goal mentions, if that is its relation at most. -/
theorem negated_negation {goal : Term} (hgoal : goal.mentions ⊆ goal.operator?.toList) :
    goal.negation.negated ⊆ goal.negation.examined := by
  intro b hb
  have hoperator : b ∈ goal.operator?.toList := hgoal hb
  rw [Option.mem_toList] at hoperator
  exact List.mem_filterMap.2 ⟨goal, List.mem_singleton_self goal, hoperator⟩

/-- A rule shows all that it negates or collects if its goals are positive, negations of single atoms, or aggregates. -/
theorem showsNegated_rule {head : Term} {body : List Term}
    (h : ∀ goal ∈ body, goal.negated = [] ∨ (∃ g, goal = negation g ∧ g.mentions ⊆ g.operator?.toList) ∨
      ∃ f args, goal = compound f args ∧ isAggregate f = true) : (rule head body).showsNegated = true := by
  have hrule : (rule head body).asRule = some (head, body) := rfl
  unfold showsNegated
  rw [hrule]
  refine List.all_eq_true.2 fun goal hgoal => List.all_eq_true.2 fun b hb => List.contains_iff_mem.2 ?_
  rcases h goal hgoal with hpositive | ⟨g, rfl, hg⟩ | ⟨f, args, rfl, hf⟩
  · rw [hpositive] at hb
    cases hb
  · exact negated_negation hg hb
  · rw [← negated_aggregate hf]
    exact hb

end Term

theorem mem_relationsOf {sentences : List Term} {b : String} :
    b ∈ relationsOf sentences ↔ ∃ t ∈ sentences, b ∈ t.mentions := by
  unfold relationsOf
  rw [List.mem_eraseDups, List.mem_flatMap]

/-- A sentence that is a rule mentions what its body mentions. -/
theorem mem_relationsOf_of_body {sentences : List Term} {t head goal : Term} {body : List Term} {b : String}
    (ht : t ∈ sentences) (hrule : t.asRule = some (head, body)) (hgoal : goal ∈ body) (hb : b ∈ goal.mentions) :
    b ∈ relationsOf sentences := by
  refine mem_relationsOf.2 ⟨t, ht, ?_⟩
  rw [Term.eq_of_asRule hrule]
  rw [Term.mentions_rule]
  exact Term.mem_mentionsList.2 ⟨goal, List.mem_cons_of_mem _ hgoal, hb⟩

namespace Strata

variable {sentences : List Term} {a b : String}

theorem isAtOrAbove_eq_true {strata : Strata} {n : Nat} {r : String} :
    strata.isAtOrAbove n r = true ↔ ∃ m, strata.stratum? r = some m ∧ n ≤ m := by
  unfold isAtOrAbove
  cases strata.stratum? r <;> simp

/-- The check accepts a goal if everything that it looks at is below the head. -/
theorem isGoalStratified_iff {strata : Strata} {n : Nat} {goal : Term} :
    strata.isGoalStratified n goal = true ↔ ∀ b ∈ goal.examined, strata.isAtOrAbove n b = false := by
  cases goal with
  | var _ => simp [isGoalStratified, Term.examined]
  | sym _ => simp [isGoalStratified, Term.examined]
  | compound f args =>
    unfold isGoalStratified Term.examined
    dsimp only
    by_cases hnot : f = "not"
    · rw [if_pos hnot, if_pos hnot, Bool.not_eq_true', List.any_eq_false]
      simp only [List.mem_filterMap]
      constructor
      · rintro h b ⟨goal, hgoal, hoperator⟩
        have hbelow := h goal hgoal
        unfold isGoalAtOrAbove at hbelow
        rw [hoperator] at hbelow
        exact Bool.eq_false_iff.2 hbelow
      · intro h goal hgoal
        unfold isGoalAtOrAbove
        cases hoperator : goal.operator? with
        | none => exact Bool.false_ne_true
        | some b => exact Bool.eq_false_iff.1 (h b ⟨goal, hgoal, hoperator⟩)
    · rw [if_neg hnot, if_neg hnot]
      by_cases hagg : isAggregate f = true
      · rw [if_pos hagg, if_pos hagg, Bool.not_eq_true', List.any_eq_false]
        simp only [mem_relationsOf, List.mem_singleton, exists_eq_left, Bool.not_eq_true]
      · simp [hagg]

/-- In an accepted rule, what the check looks at does not share a stratum with the head. -/
theorem not_mutual_of_isNegationStratified {t head goal : Term} {body : List Term} {n : Nat}
    (haccept : (ofSentences sentences).isNegationStratified t = true) (hrule : t.asRule = some (head, body))
    (ha : head.operator? = some a) (hn : (ofSentences sentences).stratum? a = some n) (hgoal : goal ∈ body)
    (hb : b ∈ goal.examined) (hrelation : b ∈ relationsOf sentences) : ¬ ReachesIn sentences a b := by
  intro hreach
  obtain ⟨m, hm⟩ := exists_stratum? hrelation
  have hle : n ≤ m := stratum_le hreach hn hm
  unfold isNegationStratified at haccept
  rw [hrule] at haccept
  dsimp only at haccept
  have hhead : (ofSentences sentences).headStratum? head = some n := by
    unfold headStratum?
    rw [ha, Option.bind_some, hn]
  rw [hhead] at haccept
  have hbelow := isGoalStratified_iff.1 (List.all_eq_true.1 haccept goal hgoal) b hb
  rw [isAtOrAbove_eq_true.2 ⟨m, hm, hle⟩] at hbelow
  cases hbelow

/-- If the check accepts all sentences, and sees all that their rules negate or collect, then no relation depends on
itself through a negation or an aggregate. -/
theorem negations_stratified (sentences : List Term) (hshown : ∀ t ∈ sentences, t.showsNegated = true)
    (haccept : ∀ t ∈ sentences, (ofSentences sentences).isNegationStratified t = true) :
    ¬ ∃ t ∈ sentences, ∃ head body a b, t.asRule = some (head, body) ∧ head.operator? = some a ∧
      (∃ goal ∈ body, b ∈ goal.negated) ∧ ReachesIn sentences b a ∧ ReachesIn sentences a b := by
  rintro ⟨t, ht, head, body, a, b, hrule, ha, ⟨goal, hgoal, hb⟩, hba, hab⟩
  have hrelation := mem_relationsOf_of_body ht hrule hgoal (Term.mentions_of_negated goal hb)
  have hexamined : b ∈ goal.examined := by
    have hshow := hshown t ht
    unfold Term.showsNegated at hshow
    rw [hrule] at hshow
    have hall := List.all_eq_true.1 (List.all_eq_true.1 hshow goal hgoal) b hb
    exact List.contains_iff_mem.1 hall
  -- The head is a relation too: either it is the negated one, or something leads to it.
  have hhead : a ∈ relationsOf sentences := by
    rcases Relation.ReflTransGen.cases_tail hba with rfl | ⟨c, -, hfeeds⟩
    · exact hrelation
    · exact hfeeds.2.1
  obtain ⟨n, hn⟩ := exists_stratum? hhead
  exact not_mutual_of_isNegationStratified (haccept t ht) hrule ha hn hgoal hexamined hrelation hab

/-- A rule over the complement of another relation, whose own rule is recursive without negation. -/
def complement : List Term :=
  [.rule (.compound "path" [.var "X", .var "Y"]) [.compound "edge" [.var "X", .var "Y"]],
    .rule (.compound "path" [.var "X", .var "Y"])
      [.compound "edge" [.var "X", .var "Z"], .compound "path" [.var "Z", .var "Y"]],
    .rule (.compound "apart" [.var "X", .var "Y"])
      [.compound "node" [.var "X"], .compound "node" [.var "Y"], .negation (.compound "path" [.var "X", .var "Y"]),
        .compound "countofall" [.var "Z", .compound "path" [.var "X", .var "Z"], .var "N"]]]

theorem negations_stratified_complement :
    ((∀ t ∈ complement, t.showsNegated = true) ∧
        ∀ t ∈ complement, (ofSentences complement).isNegationStratified t = true) ∧
      ¬ ∃ t ∈ complement, ∃ head body a b, t.asRule = some (head, body) ∧ head.operator? = some a ∧
        (∃ goal ∈ body, b ∈ goal.negated) ∧ ReachesIn complement b a ∧ ReachesIn complement a b := by
  have hshown : ∀ t ∈ complement, t.showsNegated = true := by decide +kernel
  have haccept : ∀ t ∈ complement, (ofSentences complement).isNegationStratified t = true := by decide +kernel
  exact ⟨⟨hshown, haccept⟩, negations_stratified complement hshown haccept⟩

/-- A negated conjunction that holds the relation of the head goes unseen, and so does a negation in a disjunction. -/
example :
    let hidden : List Term :=
      [.rule (.compound "p" [.var "X"]) [.compound "q" [.var "X"],
        .negation (.compound "and" [.compound "r" [.var "X"], .compound "p" [.var "X"]])]]
    (∀ t ∈ hidden, (ofSentences hidden).isNegationStratified t = true) ∧ ∀ t ∈ hidden, t.showsNegated = false := by
  decide +kernel

end Strata

end Deduction
