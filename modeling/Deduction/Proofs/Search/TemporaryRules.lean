import Deduction.Proofs.Search.Lookups
import Deduction.Proofs.Theory.Places

/-!
# Rules for the time of a query

Rules that are only there for the time of a query stand behind the stored ones, and they are taken away one by one when
the query has its answer. However the rules were edited before, nothing of them is left then, and the answer is the one
that the stored rules with the further ones at the end give (`Sources.withRules_restores`).
-/

namespace Deduction.Sources

open Theory (Edit edited)

variable (src : Sources) (mode : IndexMode) (edits : List Edit) (temporary : List Term)

/-- Inserting further rules is as good as putting all rules into a theory without holes, the further ones at the end. -/
theorem relisted_insertAll :
    ((edited mode edits).insertAll temporary).Relisted (.ofList mode ((edited mode edits).toList ++ temporary)) := by
  refine ((Theory.reachable_edited mode edits).insertAll temporary).relisted (.ofList mode _) ?_ ?_
  · rw [Theory.mode_insertAll, Theory.mode_edited, Theory.ofList, Theory.mode_insertAll]
  · rw [Theory.toList_insertAll, Theory.toList_ofList]

/-- Whatever is asked with further rules for the time of the query, the rules have the same places and holes afterwards, the
same number of entries and the same index as before. The answers, and what they take on the meter, are those of the same
query to a theory that holds the stored rules and the further ones after them. -/
theorem withRules_restores :
    ∃ after : Theory, after.SameAs (edited mode edits) ∧
      let stored : Sources := { src with rules := edited mode edits }
      let extended : Sources := { src with rules := .ofList mode ((edited mode edits).toList ++ temporary) }
      let restored : Sources := { src with rules := after }
      (∀ (α : Type) (query : Sources → Metered α), stored.withRules temporary query =
        (·, restored) <$> query { src with rules := (edited mode edits).insertAll temporary }) ∧
      ∀ template goal,
        stored.withRules temporary (·.findAll template goal) = (·, restored) <$> extended.findAll template goal ∧
        stored.withRules temporary (·.findFirst? template goal) = (·, restored) <$> extended.findFirst? template goal ∧
        stored.withRules temporary (·.holds goal) = (·, restored) <$> extended.holds goal := by
  have hsame := (Theory.kept_edited mode edits).removeAll_append temporary
  rw [Theory.append_eq] at hsame
  refine ⟨_, hsame, ?_⟩
  intro stored extended restored
  let inserted : Sources := { src with rules := (edited mode edits).insertAll temporary }
  have hquery (α : Type) (query : Sources → Metered α) :
      stored.withRules temporary query = (·, restored) <$> query inserted := by
    unfold withRules
    rw [Theory.append_eq, map_eq_pure_bind]
  have hrules : inserted.rules.Relisted extended.rules := relisted_insertAll mode edits temporary
  have hconsult : inserted.consult = extended.consult := (consult_relisted hrules).symm
  refine ⟨hquery, fun template goal => ⟨?_, ?_, ?_⟩⟩
  · rw [hquery, findAll, findAll, hconsult]
  · rw [hquery, findFirst?, findFirst?, hconsult]
  · rw [hquery, holds, holds, hconsult]

end Deduction.Sources
