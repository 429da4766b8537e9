import Mathlib.Data.List.Nodup
import Deduction.Proofs.Datalog.Program
import Deduction.Proofs.Program

/-!
# Revisions of a program

Sentences are added to a program and removed from it one by one, or loaded from texts. Neither side holds a sentence
twice then, and the facts of a relation that has rules are not on the side of the facts (`Sources.Revised.isTidy`). But
goals are answered from the side of the rules as soon as anything there is about their relation. So facts are out of sight
where others of their relation are on the side of the rules without a rule of it, as they are left behind there when its
last rule is removed, and nowhere else (`Sources.Revised.mem_sideFor`).
-/

namespace Deduction

variable {t u : Term} {r : String}

/-- The head of a rule has the relation of the rule, and another sentence has its own. -/
theorem Term.functor?_headOrSelf {f : String} (hf : f ≠ "rule") :
    t.headOrSelf.functor? = some f ↔ t.ruleRelation? = some f ∨ t.functor? = some f := by
  unfold headOrSelf ruleRelation?
  cases hrule : t.asRule with
  | none => simp
  | some rule =>
    obtain ⟨head, goals⟩ := rule
    rw [eq_of_asRule hrule]
    simp [functor?, Term.rule, hf.symm]

/-! ### Theories without repetitions -/

namespace Theory

variable {th : Theory}

theorem toList_removeFirst (h : th.Reachable) (t : Term) : (th.removeFirst t).2.toList = th.toList.erase t := by
  by_cases ht : t ∈ th.toList
  · exact (h.indexed.actsAsList.removeFirst_of_mem t ht).2
  · rw [h.indexed.actsAsList.removeFirst_of_not_mem t ht, List.erase_of_not_mem ht]

theorem toList_removeLast (h : th.Reachable) (t : Term) :
    (th.removeLast t).2.toList = (th.toList.reverse.erase t).reverse := by
  by_cases ht : t ∈ th.toList
  · exact (h.indexed.actsAsList.removeLast_of_mem t ht).2
  · have hreverse : t ∉ th.toList.reverse := fun hmem => ht (List.mem_reverse.1 hmem)
    rw [h.indexed.actsAsList.removeLast_of_not_mem t ht, List.erase_of_not_mem hreverse, List.reverse_reverse]

theorem mem_of_mem_removeLast (h : th.Reachable) (hu : u ∈ (th.removeLast t).2.toList) : u ∈ th.toList := by
  rw [toList_removeLast h, List.mem_reverse] at hu
  exact List.mem_reverse.1 (List.mem_of_mem_erase hu)

theorem nodup_removeLast (h : th.Reachable) (hnodup : th.toList.Nodup) (t : Term) : (th.removeLast t).2.toList.Nodup := by
  rw [toList_removeLast h, List.nodup_reverse]
  exact (List.nodup_reverse.2 hnodup).erase t

theorem nodup_save (h : th.Reachable) (hnodup : th.toList.Nodup) (t : Term) : (th.save t).2.toList.Nodup := by
  by_cases ht : t ∈ th.toList
  · rwa [h.indexed.actsAsList.save_of_mem t ht]
  · rw [(h.indexed.actsAsList.save_of_not_mem t ht).2]
    exact List.nodup_append.2 ⟨hnodup, List.nodup_singleton t, by
      rintro x hx y hy rfl
      exact ht (List.mem_singleton.1 hy ▸ hx)⟩

/-- The rules of a relation are about the relation, unless it is a wrapper. -/
theorem isView_iff (hr : isWrapper r = false) : th.isView r = true ↔ ∃ u ∈ th.toList, u.ruleRelation? = some r := by
  unfold isView sentences
  rw [List.any_eq_true]
  constructor
  · rintro ⟨u, hu, hrelation⟩
    exact ⟨u, List.mem_of_mem_filter hu, of_decide_eq_true hrelation⟩
  · rintro ⟨u, hu, hrelation⟩
    obtain ⟨⟨head, body⟩, hrule, hhead⟩ := Option.bind_eq_some_iff.1 hrelation
    refine ⟨u, List.mem_filter.2 ⟨hu, decide_eq_true ?_⟩, decide_eq_true hrelation⟩
    exact Term.operator?_of_asRule hrule hhead hr

end Theory

namespace Sources

variable {src : Sources}

/-! ### Revisions -/

/-- Something that is done to the program of a session. -/
inductive Revision where
  | addFact (t : Term)
  | removeFact (t : Term)
  | addRule (t : Term)
  | removeRule (t : Term)
  | load (text : String)

/-- The sources after a revision. A text that does not read changes nothing. -/
def revise (src : Sources) : Revision → Sources
  | .addFact t => (src.addFact t).2
  | .removeFact t => (src.removeFact t).2
  | .addRule t => (src.addRule t).2
  | .removeRule t => (src.removeRule t).2
  | .load text =>
    match src.load text with
    | .ok (_, src) => src
    | .error _ => src

/-- What is added as a fact is no rule sentence. -/
def Revision.IsProper : Revision → Prop
  | .addFact t => t.isRuleSentence = false
  | _ => True

/-- The sources come about by revisions of a program without sentences. -/
inductive Revised : Sources → Prop
  | empty (config : Config) (indexed : Bool) : Revised (.empty config indexed)
  | revise {src : Sources} (h : Revised src) {x : Revision} (hx : x.IsProper) : Revised (src.revise x)

theorem Revised.foldl (h : src.Revised) {revisions : List Revision} (hx : ∀ x ∈ revisions, x.IsProper) :
    (revisions.foldl Sources.revise src).Revised := by
  induction revisions generalizing src with
  | nil => exact h
  | cons x revisions ih =>
    rw [List.forall_mem_cons] at hx
    exact ih (h.revise hx.1) hx.2

/-- What stays as it is when a sentence is added stays as it is when a text is loaded. -/
theorem revise_load {P : Sources → Prop} (hadd : ∀ src t, P src → P (src.addSentence t).2) (h : P src) (text : String) :
    P (src.revise (.load text)) := by
  have hfold (sentences : List Term) (summary : LoadSummary) (src : Sources) (h : P src) :
      P (sentences.foldl loadSentence (summary, src)).2 := by
    induction sentences generalizing src summary with
    | nil => exact h
    | cons t sentences ih => exact ih _ _ (hadd src t h)
  have hload : src.load text = (readData text).map fun sentences => sentences.foldl loadSentence ({}, src) := by
    unfold Sources.load
    cases readData text <;> rfl
  change P (match src.load text with
    | .ok (_, src) => src
    | .error _ => src)
  rw [hload]
  cases readData text with
  | error e => exact h
  | ok sentences => exact hfold sentences {} src h

theorem sameSetup_revise (src : Sources) (x : Revision) : src.SameSetup (src.revise x) := by
  cases x with
  | addFact t => exact src.sameSetup_addFact t
  | removeFact t =>
    change src.SameSetup (src.removeFact t).2
    unfold removeFact
    split
    · exact ⟨rfl, rfl, rfl, rfl⟩
    · exact ⟨rfl, rfl, rfl, Theory.mode_removeCompact _ _⟩
  | addRule t => exact src.sameSetup_addRule t
  | removeRule t => exact ⟨rfl, rfl, rfl, Theory.mode_removeCompact _ _⟩
  | load text =>
    exact revise_load (P := src.SameSetup) (fun src' t h => h.trans (src'.sameSetup_addSentence t)) ⟨rfl, rfl, rfl, rfl⟩ text

/-- Rules are indexed by the relations of their heads, or not at all. -/
theorem Revised.mode (h : src.Revised) : src.rules.mode = .rule ∨ src.rules.mode = .none := by
  induction h with
  | empty config indexed =>
    cases indexed with
    | true => exact .inl rfl
    | false => exact .inr rfl
  | @revise src _ x _ ih => rwa [(src.sameSetup_revise x).mode]

/-! ### What revisions keep -/

/-- No sentence is on the same side twice, what is on the side of the facts are facts, and these have no relations that
have rules. -/
structure IsTidy (src : Sources) : Prop where
  facts : src.facts.Reachable
  rules : src.rules.Reachable
  plain : ∀ t ∈ src.facts.toList, t.isRuleSentence = false
  nodup_facts : src.facts.toList.Nodup
  nodup_rules : src.rules.toList.Nodup
  apart : ∀ t ∈ src.facts.toList, ∀ r, t.functor? = some r → isWrapper r = false →
    ∀ u ∈ src.rules.toList, u.ruleRelation? ≠ some r

/-- Facts that are moved are gone from the side of the facts. -/
theorem mem_facts_moveFacts (hfacts : src.facts.Reachable) (hnodup : src.facts.toList.Nodup) (moved : List Term) :
    (moved.foldl moveFact src).facts.toList.Nodup ∧
      ∀ u, u ∈ (moved.foldl moveFact src).facts.toList ↔ u ∈ src.facts.toList ∧ u ∉ moved := by
  induction moved generalizing src with
  | nil => exact ⟨hnodup, fun u => by simp⟩
  | cons fact moved ih =>
    have herase : (src.moveFact fact).facts.toList = src.facts.toList.erase fact := Theory.toList_removeFirst hfacts fact
    have hmoved : (src.moveFact fact).facts.Reachable := hfacts.removeFirst fact
    obtain ⟨hrest, hmem⟩ := ih hmoved (herase ▸ hnodup.erase fact)
    refine ⟨hrest, fun u => ?_⟩
    rw [List.foldl_cons, hmem, herase, hnodup.mem_erase_iff, List.mem_cons, not_or]
    tauto

theorem nodup_rules_moveFacts (hrules : src.rules.Reachable) (hnodup : src.rules.toList.Nodup) (moved : List Term) :
    (moved.foldl moveFact src).rules.toList.Nodup := by
  induction moved generalizing src with
  | nil => exact hnodup
  | cons fact moved ih => exact ih (hrules.save fact) (Theory.nodup_save hrules hnodup fact)

namespace IsTidy

theorem of_empty {facts rules : IndexMode} (hfacts : src.facts = { mode := facts }) (hrules : src.rules = { mode := rules }) :
    src.IsTidy where
  facts := hfacts ▸ .empty facts
  rules := hrules ▸ .empty rules
  plain t ht := by rw [hfacts] at ht; cases ht
  nodup_facts := by rw [hfacts]; exact List.nodup_nil
  nodup_rules := by rw [hrules]; exact List.nodup_nil
  apart t ht := by rw [hfacts] at ht; cases ht

variable (h : src.IsTidy)

include h

theorem addFact (ht : t.isRuleSentence = false) : (src.addFact t).2.IsTidy := by
  unfold Sources.addFact
  split
  · refine ⟨h.facts, h.rules.save t, h.plain, h.nodup_facts, Theory.nodup_save h.rules h.nodup_rules t, ?_⟩
    intro v hv s hs hw u hu hrelation
    rcases (Theory.mem_save h.rules).1 hu with hu | rfl
    · exact h.apart v hv s hs hw u hu hrelation
    · rw [Term.isRuleSentence_of_ruleRelation hrelation] at ht
      cases ht
  · rename_i htakes
    refine ⟨h.facts.save t, h.rules, fun v hv => ?_, Theory.nodup_save h.facts h.nodup_facts t, h.nodup_rules, ?_⟩
    · rcases (Theory.mem_save h.facts).1 hv with hv | rfl
      · exact h.plain v hv
      · exact ht
    · intro v hv s hs hw u hu hrelation
      rcases (Theory.mem_save h.facts).1 hv with hv | rfl
      · exact h.apart v hv s hs hw u hu hrelation
      · apply htakes
        unfold Theory.takesFact
        rw [hs]
        exact (Theory.isView_iff hw).2 ⟨u, hu, hrelation⟩

theorem removeRule (t : Term) : (src.removeRule t).2.IsTidy :=
  ⟨h.facts, h.rules.removeLast t, h.plain, h.nodup_facts, Theory.nodup_removeLast h.rules h.nodup_rules t,
    fun v hv s hs hw u hu => h.apart v hv s hs hw u (Theory.mem_of_mem_removeLast h.rules hu)⟩

theorem removeFact (t : Term) : (src.removeFact t).2.IsTidy := by
  have hfacts : (src.facts.removeLast t).2.Reachable := h.facts.removeLast t
  have hnodup := Theory.nodup_removeLast h.facts h.nodup_facts t
  have hmem (u : Term) (hu : u ∈ (src.facts.removeLast t).2.toList) := Theory.mem_of_mem_removeLast h.facts hu
  unfold Sources.removeFact
  split
  · rename_i facts hremoved
    rw [hremoved] at hfacts hnodup hmem
    exact ⟨hfacts, h.rules, fun v hv => h.plain v (hmem v hv), hnodup, h.nodup_rules, fun v hv => h.apart v (hmem v hv)⟩
  · exact h.removeRule t

theorem addRule (t : Term) : (src.addRule t).2.IsTidy := by
  obtain ⟨hfacts, hrules, -, hmem⟩ := mem_moveFacts ⟨h.facts, h.rules⟩ (t.ruleRelation?.elim [] src.factsOf)
  obtain ⟨hnodup, hleft⟩ := mem_facts_moveFacts h.facts h.nodup_facts (t.ruleRelation?.elim [] src.factsOf)
  have hnodup' := nodup_rules_moveFacts h.rules h.nodup_rules (t.ruleRelation?.elim [] src.factsOf)
  refine ⟨hfacts, hrules.save t, fun v hv => h.plain v ((hleft v).1 hv).1, hnodup, Theory.nodup_save hrules hnodup' t, ?_⟩
  intro v hv s hs hw u hu hrelation
  obtain ⟨hstored, hmoved⟩ := (hleft v).1 hv
  have hrule := Term.isRuleSentence_of_ruleRelation hrelation
  rcases (Theory.mem_save hrules).1 hu with hu | rfl
  · rcases (hmem u).1 hu with hu | hu
    · exact h.apart v hstored s hs hw u hu hrelation
    · -- What was moved are facts.
      have hplain : u.isRuleSentence = false := by
        cases hr : t.ruleRelation? with
        | none =>
          rw [hr] at hu
          cases hu
        | some r =>
          rw [hr] at hu
          exact h.plain u (mem_factsOf hu).1
      rw [hrule] at hplain
      cases hplain
  · -- The facts of the relation of the new rule were moved.
    apply hmoved
    rw [hrelation]
    refine List.mem_filter.2 ⟨List.mem_filter.2 ⟨hstored, decide_eq_true ?_⟩, decide_eq_true hs⟩
    exact Term.operator?_of_functor? hs hw

theorem addSentence (t : Term) : (src.addSentence t).2.IsTidy := by
  unfold Sources.addSentence
  split
  · exact h.addRule t
  · rename_i ht
    exact h.addFact (Bool.eq_false_iff.2 ht)

end IsTidy

theorem Revised.isTidy (h : src.Revised) : src.IsTidy := by
  induction h with
  | empty config indexed => exact .of_empty rfl rfl
  | @revise src _ x hx ih =>
    cases x with
    | addFact t => exact ih.addFact hx
    | removeFact t => exact ih.removeFact t
    | addRule t => exact ih.addRule t
    | removeRule t => exact ih.removeRule t
    | load text => exact revise_load (fun _ t h => h.addSentence t) ih text

/-! ### The side that goals are answered from -/

/-- The side that a goal on the relation is answered from. -/
def sideFor (src : Sources) (relation : String) : Theory :=
  match Goal.ofRelation src.rules relation with
  | .view => src.rules
  | _ => src.facts

theorem sideFor_eq (src : Sources) (relation : String) :
    src.sideFor relation = if src.rules.defines relation then src.rules else src.facts := by
  unfold sideFor Goal.ofRelation
  cases src.rules.defines relation <;> rfl

/-- Facts of the relation are on the side of the rules, though the relation has no rules. -/
def Strands (src : Sources) (relation : String) : Prop :=
  src.rules.isView relation = false ∧ ∃ t ∈ src.rules.toList, t.isRuleSentence = false ∧ t.functor? = some relation

/-- Where the index does not tell, the sentences about the relation are its rules and its facts: it is not the subject of
a handler, a definition or a negation. -/
def IsPlainAbout (src : Sources) (relation : String) : Prop :=
  src.rules.mode = .none ∨ isIndexable relation = false →
    ∀ t ∈ src.rules.toList, t.operator? = some relation → t.ruleRelation? = some relation ∨ t.functor? = some relation

/-- Rules and facts of a relation on the side of the rules are there for the goals on the relation. -/
theorem Revised.defines_of_mem (h : src.Revised) (hr : isRelation r = true) (ht : t ∈ src.rules.toList)
    (habout : t.ruleRelation? = some r ∨ t.functor? = some r) : src.rules.defines r = true := by
  have hwrapper := isWrapper_of_isRelation hr
  by_cases hscan : src.rules.mode = .none ∨ isIndexable r = false
  · refine (Theory.defines_of_not_indexed hscan).2 ⟨t, ht, ?_⟩
    rcases habout with hrelation | hfunctor
    · exact Term.operator?_of_ruleRelation hrelation hwrapper
    · exact Term.operator?_of_functor? hfunctor hwrapper
  · rw [not_or, Bool.not_eq_false] at hscan
    rw [h.isTidy.rules.indexed.defines_of_indexable (h.mode.resolve_right hscan.1) hscan.2]
    exact ⟨t, ht, (Term.functor?_headOrSelf (ne_of_isRelation hr (by decide))).2 habout⟩

/-- The side of the rules has something about a relation if the relation has rules, or else if facts of it are there. -/
theorem Revised.defines_iff (h : src.Revised) (hr : isRelation r = true) (habout : src.IsPlainAbout r) :
    src.rules.defines r = true ↔ src.rules.isView r = true ∨ src.Strands r := by
  have hwrapper := isWrapper_of_isRelation hr
  constructor
  · intro hdefines
    have hmem : ∃ t ∈ src.rules.toList, t.ruleRelation? = some r ∨ t.functor? = some r := by
      by_cases hscan : src.rules.mode = .none ∨ isIndexable r = false
      · obtain ⟨t, ht, hoperator⟩ := (Theory.defines_of_not_indexed hscan).1 hdefines
        exact ⟨t, ht, habout hscan t ht hoperator⟩
      · rw [not_or, Bool.not_eq_false] at hscan
        rw [h.isTidy.rules.indexed.defines_of_indexable (h.mode.resolve_right hscan.1) hscan.2] at hdefines
        obtain ⟨t, ht, hhead⟩ := hdefines
        exact ⟨t, ht, (Term.functor?_headOrSelf (ne_of_isRelation hr (by decide))).1 hhead⟩
    obtain ⟨t, ht, hrelation | hfunctor⟩ := hmem
    · exact .inl ((Theory.isView_iff hwrapper).2 ⟨t, ht, hrelation⟩)
    · cases hview : src.rules.isView r with
      | true => exact .inl rfl
      | false => exact .inr ⟨hview, t, ht, (Term.isRuleSentence_of_isRelation hfunctor hr).2, hfunctor⟩
  · rintro (hview | ⟨-, t, ht, -, hfunctor⟩)
    · obtain ⟨t, ht, hrelation⟩ := (Theory.isView_iff hwrapper).1 hview
      exact h.defines_of_mem hr ht (.inl hrelation)
    · exact h.defines_of_mem hr ht (.inr hfunctor)

/-- However a program was revised, a fact on the side of the facts is there for the goals on its relation, and so is one
on the side of the rules, unless other facts of the relation were left on the side of the rules without any rule. These are
the only relations that the side of the rules has something about while there are facts of them on the side of the facts. -/
theorem Revised.mem_sideFor (h : src.Revised) (hr : isRelation r = true) (habout : src.IsPlainAbout r) :
    (∀ t ∈ src.sentences, t.functor? = some r →
      (t ∈ (src.sideFor r).toList ↔ t ∈ src.rules.toList ∨ ¬ src.Strands r)) ∧
    (¬ src.Strands r → src.rules.defines r = true → ∀ t ∈ src.facts.toList, t.functor? ≠ some r) := by
  have hwrapper := isWrapper_of_isRelation hr
  have hview {t : Term} (ht : t ∈ src.facts.toList) (hf : t.functor? = some r) : ¬ src.rules.isView r = true := by
    intro hview
    obtain ⟨u, hu, hrelation⟩ := (Theory.isView_iff hwrapper).1 hview
    exact h.isTidy.apart t ht r hf hwrapper u hu hrelation
  refine ⟨fun t ht hf => ?_, fun hstrands hdefines t ht hf => ?_⟩
  · rw [sideFor_eq]
    by_cases hrules : t ∈ src.rules.toList
    · simp [h.defines_of_mem hr hrules (.inr hf), hrules]
    · have hfacts : t ∈ src.facts.toList := (List.mem_append.1 ht).resolve_right hrules
      have hdefines : src.rules.defines r = true ↔ src.Strands r :=
        (h.defines_iff hr habout).trans (or_iff_right (hview hfacts hf))
      by_cases hstrands : src.Strands r
      · simp [hdefines.2 hstrands, hrules, hstrands]
      · simp [Bool.eq_false_iff.2 fun hd => hstrands (hdefines.1 hd), hfacts, hstrands]
  · rcases (h.defines_iff hr habout).1 hdefines with hdefined | hstrand
    · exact hview ht hf hdefined
    · exact hstrands hstrand

/-- What is in the hall is inside, and so is the cat. When the rule was removed, it is said that the dog is inside, too. -/
def strayed : List Revision :=
  [.addFact (.compound "at" [.sym "box", .sym "hall"]),
    .addRule (.rule (.compound "inside" [.var "X"]) [.compound "at" [.var "X", .sym "hall"]]),
    .addFact (.compound "inside" [.sym "cat"]),
    .removeRule (.rule (.compound "inside" [.var "X"]) [.compound "at" [.var "X", .sym "hall"]]),
    .addFact (.compound "inside" [.sym "dog"])]

/-- The box and the cat are seen, and the dog is out of sight. -/
theorem mem_sideFor_strayed :
    .compound "at" [.sym "box", .sym "hall"] ∈ ((strayed.foldl revise (.empty {} true)).sideFor "at").toList ∧
      .compound "inside" [.sym "cat"] ∈ ((strayed.foldl revise (.empty {} true)).sideFor "inside").toList ∧
      .compound "inside" [.sym "dog"] ∉ ((strayed.foldl revise (.empty {} true)).sideFor "inside").toList := by
  have hrevised : (strayed.foldl revise (.empty {} true)).Revised := by
    refine Revised.foldl (.empty {} true) ?_
    simp [strayed, Revision.IsProper]
    decide
  have hmode : (strayed.foldl revise (.empty {} true)).rules.mode ≠ .none := by decide +kernel
  have hkey (r : String) (hr : isIndexable r = true) : (strayed.foldl revise (.empty {} true)).IsPlainAbout r := by
    rintro (hnone | hindexable)
    · exact absurd hnone hmode
    · rw [hr] at hindexable
      cases hindexable
  have hat := hrevised.mem_sideFor (r := "at") (by decide) (hkey "at" (by decide))
  have hinside := hrevised.mem_sideFor (r := "inside") (by decide) (hkey "inside" (by decide))
  refine ⟨(hat.1 _ ?_ rfl).2 (.inr ?_), (hinside.1 _ ?_ rfl).2 (.inl ?_), fun hdog => ?_⟩
  · decide +kernel
  · unfold Strands
    decide +kernel
  · decide +kernel
  · decide +kernel
  · have hmem : .compound "inside" [.sym "dog"] ∈ (strayed.foldl revise (.empty {} true)).sentences := by decide +kernel
    rcases (hinside.1 _ hmem rfl).1 hdog with hrules | hstrands
    · revert hrules
      decide +kernel
    · apply hstrands
      unfold Strands
      decide +kernel

end Sources

end Deduction
