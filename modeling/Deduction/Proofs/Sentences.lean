import Deduction.Term.Sentence

/-!
# Shapes of sentences

What a sentence is, read off from one of its views, and what it is about.
-/

namespace Deduction.Term

variable {t head body x y : Term} {f g r : String} {goals : List Term}

/-! ### Views -/

theorem eq_of_asRule (h : t.asRule = some (head, goals)) : t = rule head goals := by
  match t with
  | var v => cases h
  | sym a => cases h
  | compound f [] => cases h
  | compound f (x :: ts) =>
    rw [asRule, Option.ite_none_right_eq_some] at h
    obtain ⟨rfl, h⟩ := h
    cases h
    rfl

theorem eq_of_asPair (h : t.asPair f = some (x, y)) : t = compound f [x, y] := by
  match t with
  | var v => cases h
  | sym a => cases h
  | compound g [] => cases h
  | compound g [_] => cases h
  | compound g [u, v] =>
    rw [asPair, Option.ite_none_right_eq_some] at h
    obtain ⟨rfl, h⟩ := h
    cases h
    rfl
  | compound g (_ :: _ :: _ :: _) => cases h

theorem eq_of_asDefinition (h : t.asDefinition = some (head, body)) : t = definition head body := eq_of_asPair h

theorem isRuleSentence_of_ruleRelation (h : t.ruleRelation? = some r) : t.isRuleSentence = true := by
  obtain ⟨rule, hrule, -⟩ := Option.bind_eq_some_iff.1 h
  unfold isRuleSentence isRule
  rw [hrule]
  rfl

/-! ### What a sentence is about -/

/-- A sentence about a relation that is no wrapper is about its own functor. -/
theorem operator?_of_functor? (h : t.functor? = some f) (hf : isWrapper f = false) : t.operator? = some f := by
  match t with
  | var v => cases h
  | sym a => exact h
  | compound g [] => exact h
  | compound g (u :: us) =>
    have hg : ¬ isWrapper g = true := by rw [Option.some.inj h, hf]; exact Bool.false_ne_true
    unfold operator? subject
    rw [if_neg hg]
    exact h

/-- A rule is about the relation of its head. -/
theorem operator?_of_asRule (h : t.asRule = some (head, goals)) (hf : head.functor? = some f) (hw : isWrapper f = false) :
    t.operator? = some f := by
  have hrule : isWrapper "rule" = true := by decide
  rw [eq_of_asRule h]
  unfold operator? rule subject
  rw [if_pos hrule]
  exact operator?_of_functor? hf hw

theorem operator?_of_ruleRelation (h : t.ruleRelation? = some f) (hw : isWrapper f = false) : t.operator? = some f := by
  obtain ⟨⟨head, goals⟩, hrule, hhead⟩ := Option.bind_eq_some_iff.1 h
  exact operator?_of_asRule hrule hhead hw

end Deduction.Term
