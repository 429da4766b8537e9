import Deduction.Proofs.Sentences
import Deduction.Proofs.Theory.Lists
import Deduction.Session

/-!
# Loading a program

Where a sentence goes depends on the sentences that are there, and not on how they are indexed: sources without an index
that the same sentences are loaded into hold the same terms in the same order (`Sources.alike_load`). The sentences of a
program end up on one side or the other, and facts come to the side of the rules only if their relation has rules there
(`Sources.loaded_load`).
-/

namespace Deduction

/-! ### Theories that hold the same terms -/

/-- The theories hold the same terms in the same order. Their indexes may be of different kinds. -/
structure Theory.SameTerms (th th' : Theory) : Prop where
  left : th.Reachable
  right : th'.Reachable
  toList_eq : th.toList = th'.toList

namespace Theory.SameTerms

variable {th th' : Theory}

theorem save (h : th.SameTerms th') (t : Term) :
    (th.save t).1 = (th'.save t).1 ∧ (th.save t).2.SameTerms (th'.save t).2 := by
  have hleft := h.left.indexed.actsAsList
  have hright := h.right.indexed.actsAsList
  have heq := h.toList_eq
  by_cases ht : t ∈ th.toList
  · rw [hleft.save_of_mem t ht, hright.save_of_mem t (heq ▸ ht)]
    exact ⟨rfl, h⟩
  · obtain ⟨hnew, hlist⟩ := hleft.save_of_not_mem t ht
    obtain ⟨hnew', hlist'⟩ := hright.save_of_not_mem t (heq ▸ ht)
    exact ⟨hnew.trans hnew'.symm, h.left.save t, h.right.save t, by rw [hlist, hlist', heq]⟩

theorem removeFirst (h : th.SameTerms th') (t : Term) : (th.removeFirst t).2.SameTerms (th'.removeFirst t).2 := by
  have hleft := h.left.indexed.actsAsList
  have hright := h.right.indexed.actsAsList
  have heq := h.toList_eq
  refine ⟨h.left.removeFirst t, h.right.removeFirst t, ?_⟩
  by_cases ht : t ∈ th.toList
  · rw [(hleft.removeFirst_of_mem t ht).2, (hright.removeFirst_of_mem t (heq ▸ ht)).2, heq]
  · rw [hleft.removeFirst_of_not_mem t ht, hright.removeFirst_of_not_mem t (heq ▸ ht), heq]

theorem sentences (h : th.SameTerms th') (relation : String) : th.sentences relation = th'.sentences relation := by
  unfold Theory.sentences
  rw [h.toList_eq]

end Theory.SameTerms

namespace Theory

variable {th : Theory} {t u : Term}

theorem mem_save (h : th.Reachable) : u ∈ (th.save t).2.toList ↔ u ∈ th.toList ∨ u = t := by
  by_cases ht : t ∈ th.toList
  · rw [h.indexed.actsAsList.save_of_mem t ht]
    constructor
    · exact Or.inl
    · rintro (hu | rfl)
      · exact hu
      · exact ht
  · rw [(h.indexed.actsAsList.save_of_not_mem t ht).2, List.mem_append, List.mem_singleton]

theorem mem_of_mem_removeFirst (h : th.Reachable) (hu : u ∈ (th.removeFirst t).2.toList) : u ∈ th.toList := by
  by_cases ht : t ∈ th.toList
  · rw [(h.indexed.actsAsList.removeFirst_of_mem t ht).2] at hu
    exact List.mem_of_mem_erase hu
  · rwa [h.indexed.actsAsList.removeFirst_of_not_mem t ht] at hu

theorem mode_save (th : Theory) (t : Term) : (th.save t).2.mode = th.mode := by
  unfold save
  split <;> rfl

end Theory

/-! ### Loading into sources that hold the same terms -/

namespace Sources

/-- The sources hold the same sentences. Their indexes may be of different kinds. -/
structure SameTerms (src src' : Sources) : Prop where
  facts : src.facts.SameTerms src'.facts
  rules : src.rules.SameTerms src'.rules

variable {src src' : Sources} {t u : Term} {sentences : List Term} {r : String}

namespace SameTerms

theorem isView (h : src.SameTerms src') (relation : String) : src.rules.isView relation = src'.rules.isView relation := by
  unfold Theory.isView
  rw [h.rules.sentences]

theorem addFact (h : src.SameTerms src') (t : Term) :
    (src.addFact t).1 = (src'.addFact t).1 ∧ (src.addFact t).2.SameTerms (src'.addFact t).2 := by
  have htakes : src.rules.takesFact t = src'.rules.takesFact t := by
    unfold Theory.takesFact
    congr 1
    funext relation
    exact h.isView relation
  unfold Sources.addFact
  rw [htakes]
  split
  · exact ⟨(h.rules.save t).1, h.facts, (h.rules.save t).2⟩
  · exact ⟨(h.facts.save t).1, (h.facts.save t).2, h.rules⟩

theorem moveFacts (h : src.SameTerms src') (facts : List Term) :
    (facts.foldl moveFact src).SameTerms (facts.foldl moveFact src') := by
  induction facts generalizing src src' with
  | nil => exact h
  | cons fact facts ih => exact ih ⟨h.facts.removeFirst fact, (h.rules.save fact).2⟩

theorem addRule (h : src.SameTerms src') (t : Term) :
    (src.addRule t).1 = (src'.addRule t).1 ∧ (src.addRule t).2.SameTerms (src'.addRule t).2 := by
  have hfacts : t.ruleRelation?.elim [] src.factsOf = t.ruleRelation?.elim [] src'.factsOf := by
    congr 1
    funext relation
    unfold factsOf
    rw [h.facts.sentences]
  have hmoved := h.moveFacts (t.ruleRelation?.elim [] src.factsOf)
  unfold Sources.addRule
  rw [← hfacts]
  exact ⟨(hmoved.rules.save t).1, hmoved.facts, (hmoved.rules.save t).2⟩

theorem addSentence (h : src.SameTerms src') (t : Term) :
    (src.addSentence t).1 = (src'.addSentence t).1 ∧ (src.addSentence t).2.SameTerms (src'.addSentence t).2 := by
  unfold Sources.addSentence
  split
  · exact h.addRule t
  · exact h.addFact t

/-- The same sentences are new to both. -/
theorem load (h : src.SameTerms src') (summary : LoadSummary) (sentences : List Term) :
    (sentences.foldl loadSentence (summary, src)).1 = (sentences.foldl loadSentence (summary, src')).1 ∧
      (sentences.foldl loadSentence (summary, src)).2.SameTerms (sentences.foldl loadSentence (summary, src')).2 := by
  induction sentences generalizing src src' summary with
  | nil => exact ⟨rfl, h⟩
  | cons t sentences ih =>
    obtain ⟨hnew, hsame⟩ := h.addSentence t
    rw [List.foldl_cons, List.foldl_cons]
    unfold loadSentence
    dsimp only
    rw [hnew]
    exact ih hsame _

end SameTerms

/-! ### Where the sentences go -/

/-- These sentences were loaded into the sources. Whatever is among the facts is a fact, and a fact is on the side of the
rules only if its relation has rules there. -/
structure Holds (sentences : List Term) (src : Sources) : Prop where
  reachable : src.facts.Reachable ∧ src.rules.Reachable
  fact : ∀ t ∈ src.facts.toList, t ∈ sentences ∧ t.isRuleSentence = false
  rule : ∀ t ∈ src.rules.toList, t ∈ sentences
  moved : ∀ t ∈ src.rules.toList, t.isRuleSentence = false →
    ∃ r, t.functor? = some r ∧ ∃ u ∈ src.rules.toList, u.ruleRelation? = some r
  stored : ∀ t ∈ sentences, t.isRuleSentence = true → t ∈ src.rules.toList

theorem Holds.of_empty {facts rules : IndexMode} (hfacts : src.facts = { mode := facts })
    (hrules : src.rules = { mode := rules }) : Holds [] src where
  reachable := ⟨hfacts ▸ .empty facts, hrules ▸ .empty rules⟩
  fact _ ht := by rw [hfacts] at ht; cases ht
  rule _ ht := by rw [hrules] at ht; cases ht
  moved _ ht := by rw [hrules] at ht; cases ht
  stored _ ht := by cases ht

theorem holds_empty (config : Config) (indexed : Bool) : Holds [] (empty config indexed) := .of_empty rfl rfl

theorem exists_of_takesFact {rules : Theory} (h : rules.takesFact t = true) :
    ∃ r, t.functor? = some r ∧ ∃ u ∈ rules.toList, u.ruleRelation? = some r := by
  unfold Theory.takesFact at h
  obtain ⟨r, hr, hview⟩ := (Option.any_eq_true _ _).1 h
  unfold Theory.isView at hview
  obtain ⟨u, hu, hrelation⟩ := List.any_eq_true.1 hview
  exact ⟨r, hr, u, List.mem_of_mem_filter hu, of_decide_eq_true hrelation⟩

theorem Holds.addFact (h : Holds sentences src) (ht : t.isRuleSentence = false) :
    Holds (sentences ++ [t]) (src.addFact t).2 := by
  have hfacts (u : Term) (hu : u ∈ src.facts.toList) := h.fact u hu
  have hstored (u : Term) (hu : u ∈ sentences ++ [t]) (hrule : u.isRuleSentence = true) : u ∈ src.rules.toList := by
    rcases List.mem_append.1 hu with hu | hu
    · exact h.stored u hu hrule
    · rw [List.mem_singleton.1 hu, ht] at hrule
      cases hrule
  unfold Sources.addFact
  split
  · rename_i htakes
    refine ⟨⟨h.reachable.1, h.reachable.2.save t⟩, fun u hu => ?_, fun u hu => ?_, fun u hu hfact => ?_, fun u hu hrule => ?_⟩
    · exact ⟨List.mem_append_left _ (hfacts u hu).1, (hfacts u hu).2⟩
    · rw [Theory.mem_save h.reachable.2] at hu
      rcases hu with hu | rfl
      · exact List.mem_append_left _ (h.rule u hu)
      · simp
    · have hmoved : ∃ r, u.functor? = some r ∧ ∃ v ∈ src.rules.toList, v.ruleRelation? = some r := by
        rw [Theory.mem_save h.reachable.2] at hu
        rcases hu with hu | rfl
        · exact h.moved u hu hfact
        · exact exists_of_takesFact htakes
      obtain ⟨r, hr, v, hv, hrelation⟩ := hmoved
      exact ⟨r, hr, v, (Theory.mem_save h.reachable.2).2 (.inl hv), hrelation⟩
    · exact (Theory.mem_save h.reachable.2).2 (.inl (hstored u hu hrule))
  · refine ⟨⟨h.reachable.1.save t, h.reachable.2⟩, fun u hu => ?_, fun u hu => ?_, h.moved, hstored⟩
    · rw [Theory.mem_save h.reachable.1] at hu
      rcases hu with hu | rfl
      · exact ⟨List.mem_append_left _ (hfacts u hu).1, (hfacts u hu).2⟩
      · exact ⟨by simp, ht⟩
    · exact List.mem_append_left _ (h.rule u hu)

/-- Facts that are moved leave the one side for the other. -/
theorem mem_moveFacts (hreachable : src.facts.Reachable ∧ src.rules.Reachable) (facts : List Term) :
    (facts.foldl moveFact src).facts.Reachable ∧ (facts.foldl moveFact src).rules.Reachable ∧
      (∀ u ∈ (facts.foldl moveFact src).facts.toList, u ∈ src.facts.toList) ∧
        ∀ u, u ∈ (facts.foldl moveFact src).rules.toList ↔ u ∈ src.rules.toList ∨ u ∈ facts := by
  induction facts generalizing src with
  | nil => exact ⟨hreachable.1, hreachable.2, fun _ hu => hu, fun _ => by simp⟩
  | cons fact facts ih =>
    have hmoved : (src.moveFact fact).facts.Reachable ∧ (src.moveFact fact).rules.Reachable :=
      ⟨hreachable.1.removeFirst fact, hreachable.2.save fact⟩
    obtain ⟨hfacts, hrules, hleft, hmem⟩ := ih hmoved
    refine ⟨hfacts, hrules, fun u hu => Theory.mem_of_mem_removeFirst hreachable.1 (hleft u hu), fun u => ?_⟩
    rw [List.foldl_cons, hmem u, List.mem_cons, ← or_assoc]
    exact or_congr_left (Theory.mem_save hreachable.2)

theorem mem_factsOf (h : u ∈ src.factsOf r) : u ∈ src.facts.toList ∧ u.functor? = some r := by
  obtain ⟨hu, hr⟩ := List.mem_filter.1 h
  exact ⟨List.mem_of_mem_filter hu, of_decide_eq_true hr⟩

theorem Holds.addRule (h : Holds sentences src) (ht : t.isRuleSentence = true) :
    Holds (sentences ++ [t]) (src.addRule t).2 := by
  have hfacts (u : Term) (hu : u ∈ t.ruleRelation?.elim [] src.factsOf) :
      ∃ r, t.ruleRelation? = some r ∧ u ∈ src.facts.toList ∧ u.functor? = some r := by
    cases hr : t.ruleRelation? with
    | none =>
      rw [hr] at hu
      cases hu
    | some r =>
      rw [hr] at hu
      exact ⟨r, rfl, mem_factsOf hu⟩
  obtain ⟨hleft, hright, hstay, hmem⟩ := mem_moveFacts h.reachable (t.ruleRelation?.elim [] src.factsOf)
  have hrules (u : Term) : u ∈ (src.addRule t).2.rules.toList ↔
      (u ∈ src.rules.toList ∨ u ∈ t.ruleRelation?.elim [] src.factsOf) ∨ u = t :=
    (Theory.mem_save hright).trans (or_congr_left (hmem u))
  refine ⟨⟨hleft, hright.save t⟩, fun u hu => ?_, fun u hu => ?_, fun u hu hfact => ?_, fun u hu hrule => ?_⟩
  · obtain ⟨hu, hfact⟩ := h.fact u (hstay u hu)
    exact ⟨List.mem_append_left _ hu, hfact⟩
  · rcases (hrules u).1 hu with (hu | hu) | rfl
    · exact List.mem_append_left _ (h.rule u hu)
    · obtain ⟨r, -, hu, -⟩ := hfacts u hu
      exact List.mem_append_left _ (h.fact u hu).1
    · simp
  · rcases (hrules u).1 hu with (hu | hu) | rfl
    · obtain ⟨r, hr, v, hv, hrelation⟩ := h.moved u hu hfact
      exact ⟨r, hr, v, (hrules v).2 (.inl (.inl hv)), hrelation⟩
    · obtain ⟨r, hr, -, hfunctor⟩ := hfacts u hu
      exact ⟨r, hfunctor, t, (hrules t).2 (.inr rfl), hr⟩
    · rw [ht] at hfact
      cases hfact
  · apply (hrules u).2
    rcases List.mem_append.1 hu with hu | hu
    · exact .inl (.inl (h.stored u hu hrule))
    · exact .inr (List.mem_singleton.1 hu)

theorem Holds.addSentence (h : Holds sentences src) (t : Term) : Holds (sentences ++ [t]) (src.addSentence t).2 := by
  unfold Sources.addSentence
  split
  · rename_i ht
    exact h.addRule ht
  · rename_i ht
    exact h.addFact (Bool.eq_false_iff.2 ht)

/-- Loading adds the sentences to those that were there. -/
theorem Holds.load (h : Holds sentences src) (summary : LoadSummary) (more : List Term) :
    Holds (sentences ++ more) (more.foldl loadSentence (summary, src)).2 := by
  induction more generalizing sentences src summary with
  | nil => rwa [List.append_nil]
  | cons t more ih =>
    have hrest := ih (h.addSentence t)
    rw [List.append_assoc, List.singleton_append] at hrest
    exact hrest _

/-! ### What loading leaves as it was -/

/-- The sources differ in their sentences only. -/
structure SameSetup (src src' : Sources) : Prop where
  overlay : src'.overlay = src.overlay
  datasets : src'.datasets = src.datasets
  config : src'.config = src.config
  mode : src'.rules.mode = src.rules.mode

theorem SameSetup.trans {src'' : Sources} (h : src.SameSetup src') (h' : src'.SameSetup src'') : src.SameSetup src'' :=
  ⟨h'.overlay.trans h.overlay, h'.datasets.trans h.datasets, h'.config.trans h.config, h'.mode.trans h.mode⟩

theorem sameSetup_moveFacts (src : Sources) (facts : List Term) : src.SameSetup (facts.foldl moveFact src) := by
  induction facts generalizing src with
  | nil => exact ⟨rfl, rfl, rfl, rfl⟩
  | cons fact facts ih =>
    have hmove : src.SameSetup (src.moveFact fact) := ⟨rfl, rfl, rfl, src.rules.mode_save fact⟩
    exact hmove.trans (ih _)

theorem sameSetup_addFact (src : Sources) (t : Term) : src.SameSetup (src.addFact t).2 := by
  unfold addFact
  split
  · exact ⟨rfl, rfl, rfl, src.rules.mode_save t⟩
  · exact ⟨rfl, rfl, rfl, rfl⟩

theorem sameSetup_addRule (src : Sources) (t : Term) : src.SameSetup (src.addRule t).2 := by
  have hmoved := src.sameSetup_moveFacts (t.ruleRelation?.elim [] src.factsOf)
  exact hmoved.trans ⟨rfl, rfl, rfl, Theory.mode_save _ t⟩

theorem sameSetup_addSentence (src : Sources) (t : Term) : src.SameSetup (src.addSentence t).2 := by
  unfold addSentence
  split
  · exact src.sameSetup_addRule t
  · exact src.sameSetup_addFact t

theorem sameSetup_load (src : Sources) (summary : LoadSummary) (sentences : List Term) :
    src.SameSetup (sentences.foldl loadSentence (summary, src)).2 := by
  induction sentences generalizing src summary with
  | nil => exact ⟨rfl, rfl, rfl, rfl⟩
  | cons t sentences ih => exact (src.sameSetup_addSentence t).trans (ih _ _)

end Sources

end Deduction
