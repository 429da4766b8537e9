import Deduction.Proofs.Search.Avoiding
import Deduction.Proofs.Search.Lockstep

/-!
# Searches apart from a relation

A search is apart from a relation if no goal on it comes up: it comes to its end even if it is to be interrupted at such a
goal (`Machine.stepApart`). Sources that are alike but for the relation give the same answers then (`alike_consultApart`).
-/

namespace Deduction

/-- The goals that are not on the relation, and any data. -/
def Language.apart (relation : String) : Language := ⟨[], fun goal => goal.functor? ≠ some relation, fun _ => True⟩

namespace Machine

/-- Is the machine about to prove a goal on the relation? -/
def isOn (relation : String) (m : Machine) : Bool :=
  match m.control with
  | .prove goal env _ _ => (m.work.store.resolve goal env).term.functor? = some relation
  | _ => false

/-- One step of the machine, unless it is about to prove a goal on the relation. -/
def stepApart (relation : String) (src : Sources) (ask : Answerer) (m : Machine) : Metered Machine :=
  if m.isOn relation then throw .stepBound else step src ask m

variable {relation : String} {src src' : Sources} {ask ask' : Answerer} {limit : Nat}

theorem comesTo_of_not_isOn {m : Machine} (h : m.isOn relation ≠ true) : m.ComesTo (.apart relation) := by
  obtain ⟨control, w⟩ := m
  rintro goal env next otherwise hprove hon
  dsimp only at hprove
  subst hprove
  exact h (decide_eq_true hon)

theorem stepsAlike_stepApart (hsrc : src.Alike (.apart relation) src') (hask : ask.Alike (.avoiding []) limit ask') :
    StepsAlike (.avoiding []) limit (stepApart relation src ask) (step src' ask') where
  left m := counts_ite (counts_throw _) (counts_step hask.left m)
  right := counts_step hask.right
  agree m m' h hm := by
    unfold stepApart
    split
    · exact agree_throw_left _ _
    · rename_i hon
      exact agree_step (Language.closed_avoiding_nil src) hsrc hask h hm (comesTo_of_not_isOn hon)

end Machine

/-- Answers a question, unless a goal on the relation comes up. -/
def Sources.consultApart (src : Sources) (relation : String) : Answerer :=
  consultBy src (Machine.stepApart relation src) stepBound stepBound

theorem Language.answers_avoiding_nil (ask : Answerer) : (avoiding []).Answers ask :=
  fun q _ => (Ensures.any (ask q)).imp fun _ _ t _ => Term.avoids_nil_words t

/-- Where no goal on the relation comes up, sources that are alike but for the relation give the same answers. -/
theorem alike_consultApart {relation : String} {src src' : Sources} (hsrc : src.Alike (.apart relation) src') :
    (src.consultApart relation).Alike (.avoiding []) src.config.limit src'.consult := by
  unfold Sources.consultApart Sources.consult
  rw [← consultWithin_stepBound, ← consultBy_step]
  exact alike_consultBy (Language.closed_avoiding_nil src) List.not_mem_nil hsrc.toDefineAlike
    (fun n => Language.answers_avoiding_nil _) (fun _ _ => Machine.stepsAlike_stepApart hsrc) stepBound

end Deduction
