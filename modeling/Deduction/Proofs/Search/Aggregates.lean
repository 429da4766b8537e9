import Deduction.Proofs.Dedup
import Deduction.Search.Computation
import Deduction.Search.Value

/-!
# Counting answers

Answers are listed without repeats in the order in which they were found, and counted by their distinct terms in the order
of terms. Whichever way the settings remove repeats, a goal or an expression that counts answers gives the number of those
that one that lists them has (`policies_agree`).
-/

namespace Deduction

variable {src : Sources} (ask : Answerer) (hkeep : src.config.dedup ≠ .keep)

/-- How many items a list has, as a number. -/
def countItems? (t : Term) : Option Term := t.items?.map fun items => .number (Float.ofNat items.length)

theorem countItems?_list (items : List Term) : countItems? (.list items) = some (.number (Float.ofNat items.length)) := by
  rw [countItems?, Term.items?_list, Option.map_some]

include hkeep in
theorem count_eq (template goal : Term) :
    ask.count template goal = ask.findAll src.config template goal >>= fun listed =>
      pure (.number (Float.ofNat listed.length)) := by
  unfold Answerer.count Answerer.findAll
  simp only [bind_assoc, pure_bind, (DedupPolicy.isFirsts_apply hkeep _).length_eq]

include hkeep in
theorem valueOf_countofall (args : List Term) :
    valueOf src ask (.compound "countofall" args) =
      valueOf src ask (.compound "setofall" args) >>= fun listed => (countItems? listed).getM := by
  unfold valueOf
  rw [bind_assoc]
  refine bind_congr fun spent => ?_
  cases spent with
  | true => rfl
  | false =>
    rcases args with _ | ⟨template, _ | ⟨goal, rest⟩⟩
    · rfl
    · rfl
    · simp [count_eq ask hkeep, countItems?_list]

include hkeep in
theorem selectComputed_countofall (args : List Term) (env : EnvId) :
    selectComputed src ask "countofall" args env =
      selectComputed src ask "setofall" args env >>= fun listed =>
        (listed.candidates.mapM countItems?).getM >>= fun counts => pure { listed with candidates := counts } := by
  simp only [selectComputed, isAggregate]
  simp [selectAggregate, count_eq ask hkeep, countItems?_list]

/-- All ways to remove repeats agree: sorting keeps what comparison does, the first occurrences in their order, whichever
policy asks for it, and there are as many distinct terms, which are the same ones in strictly increasing order. What
counts the answers of a goal therefore gives the number of those that are listed. -/
theorem policies_agree {policy : DedupPolicy} (hkeep : policy ≠ .keep) (terms : List Term) :
    (∀ kept, Dedup.IsFirsts terms kept ↔ kept = Dedup.byComparison terms) ∧
    Dedup.bySorting terms = Dedup.byComparison terms ∧
    policy.apply terms = Dedup.byComparison terms ∧
    (Dedup.distinct terms).Pairwise (fun t u => t.cmp u = .lt) ∧
    (∀ t, t ∈ Dedup.distinct terms ↔ t ∈ terms) ∧
    (policy.apply terms).length = (Dedup.distinct terms).length ∧
    ∀ (src : Sources) (ask : Answerer) (args : List Term), src.config.dedup = policy →
      (valueOf src ask (.compound "countofall" args) =
        valueOf src ask (.compound "setofall" args) >>= fun listed => (countItems? listed).getM) ∧
      ∀ env, selectComputed src ask "countofall" args env =
        selectComputed src ask "setofall" args env >>= fun listed =>
          (listed.candidates.mapM countItems?).getM >>= fun counts => pure { listed with candidates := counts } := by
  refine ⟨fun kept => Dedup.isFirsts_iff, Dedup.isFirsts_iff.1 (Dedup.isFirsts_bySorting terms),
    DedupPolicy.apply_eq_byComparison hkeep terms, Dedup.pairwise_distinct terms, fun t => Dedup.mem_distinct,
    (DedupPolicy.isFirsts_apply hkeep terms).length_eq, fun src ask args hpolicy => ?_⟩
  rw [← hpolicy] at hkeep
  exact ⟨valueOf_countofall ask hkeep args, selectComputed_countofall ask hkeep args⟩

/-- Three answers of which two are equal. -/
def repeatedAnswers : List Term := [.sym "b", .sym "a", .sym "b"]

/-- With sorting above two answers, two are listed and two are counted. -/
theorem policies_agree_repeated :
    DedupPolicy.adaptive 2 ≠ .keep ∧
    (DedupPolicy.adaptive 2).apply repeatedAnswers = [.sym "b", .sym "a"] ∧
    (Dedup.distinct repeatedAnswers).length = 2 ∧
    valueOf { config := { dedup := .adaptive 2 } } (fun _ => pure repeatedAnswers)
        (.compound "countofall" [.var "X", .compound "p" [.var "X"]]) =
      valueOf { config := { dedup := .adaptive 2 } } (fun _ => pure repeatedAnswers)
        (.compound "setofall" [.var "X", .compound "p" [.var "X"]]) >>= fun listed => (countItems? listed).getM := by
  have hkeep : DedupPolicy.adaptive 2 ≠ .keep := by decide
  obtain ⟨-, -, happly, -, -, hlength, hcounted⟩ := policies_agree hkeep repeatedAnswers
  have hkept : Dedup.byComparison repeatedAnswers = [.sym "b", .sym "a"] := by decide
  exact ⟨hkeep, happly.trans hkept, by rw [← hlength, happly, hkept]; rfl, (hcounted _ _ _ rfl).1⟩

end Deduction
