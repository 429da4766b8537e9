import Deduction.Proofs.Search.Avoiding
import Deduction.Proofs.Variants.Builtins

/-!
# Sources that make no texts

Some builtins show variables as texts, or read variables from texts. Goals, expressions and data in which their names do
not come up form a language that searches do not lead out of (`closed_textless`): nothing depends on how a variable is
spelled then, but for those that are invented.
-/

namespace Deduction

/-- The builtins that show variables as texts or read them from texts, and those that could make their names. -/
def textMakers : List String := textWords ++ wordMakers

/-- The goals and expressions, and all data, in which no text is made of variables or read as one. -/
def textless : Language := ⟨textMakers, Term.Avoids textMakers, Term.Avoids textMakers⟩

/-- Neither the rules nor the data of the sources make texts of variables or read them from texts. -/
structure Sources.Textless (src : Sources) : Prop where
  fact : ∀ t ∈ src.facts.toList, t.Avoids textMakers
  added : ∀ overlay ∈ src.overlay, ∀ t ∈ overlay.adds.toList, t.Avoids textMakers
  dataset : ∀ name, ∀ dataset ∈ src.dataset? name, ∀ t ∈ dataset.toList, t.Avoids textMakers
  rule : ∀ t ∈ src.rules.toList, t.Avoids textMakers

/-- Sources that make no texts keep to the language. -/
theorem closed_textless {src : Sources} (h : src.Textless) : textless.Closed src := by
  refine Language.closed_avoiding (by decide) (fun f hf values surroundings v hvalues hv => ?_) ⟨h.fact, h.added, h.dataset, ?_, ?_⟩
  · exact avoids_callBuiltin (by decide) (fun hword => hf (List.mem_append_right _ hword)) hvalues hv
  · exact fun t ht => Language.avoiding_rule (h.rule t ht)
  · intro t ht head body hdefinition
    have havoids := h.rule t ht
    rw [Term.eq_of_asDefinition hdefinition] at havoids
    obtain ⟨-, hparts⟩ := Term.avoids_compound.1 havoids
    exact ⟨hparts head (by simp), hparts body (by simp)⟩

end Deduction
