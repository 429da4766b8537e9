import Deduction.Proofs.Program
import Deduction.Proofs.Search.Hypothetical

/-!
# Indexes do not show

A program that is loaded with an index and one that is loaded without answer every query alike (`answers_indexed`). A
lookup by a key leaves out only what does not fit. But whether rules or facts answer a goal is read off the keys in the
one case, and off what each sentence is about in the other, and the two say the same only of programs that are clear
about it (`Impartial`): a handler or a definition counts as a rule of the relation that it is about where there is no
index, and of the relations `handler` and `definition` where there is one. And where variables lead round, a lookup by a
key may go on and on with following one that a lookup without keys passes over.
-/

namespace Deduction

/-! ### Programs that are clear about their relations -/

/-- The functors of handlers and definitions, and the builtins that could make them up from texts. -/
def asideWords : List String := ["handler", "definition"] ++ wordMakers

namespace Term

/-- Handlers and definitions: no goals are answered by them. -/
def isAside (t : Term) : Bool := t.asHandler.isSome || t.asDefinition.isSome

end Term

/-- What the relations of the goals are does not depend on the index. -/
structure Impartial (sentences : List Term) (template query : Term) : Prop where
  /-- The head of a rule is about a relation. -/
  heads : ∀ t ∈ sentences, ∀ rule ∈ t.asRule, ∃ r ∈ rule.1.functor?, isWrapper r = false
  /-- A relation that handlers or definitions are about has rules, or it has no facts. -/
  subjects : ∀ t ∈ sentences, t.isAside = true → ∀ r ∈ t.operator?,
    (∃ u ∈ sentences, u.ruleRelation? = some r) ∨ ∀ u ∈ sentences, u.isRuleSentence = false → u.functor? ≠ some r
  /-- Where there are handlers or definitions, their functors do not come up in other places. -/
  words : (∃ t ∈ sentences, t.isAside = true) → template.Avoids asideWords ∧ query.Avoids asideWords ∧
    ∀ t ∈ sentences, t.Avoids asideWords ∨ t.isAside = true ∧ ∀ u ∈ t.args, u.Avoids asideWords

namespace Impartial

variable {sentences : List Term} {template query t goal : Term} {src src' : Sources} {r : String}

/-! ### What the sentences are about -/

theorem isRuleSentence_cases (t : Term) : t.isRuleSentence = false ∨ (∃ head body, t.asRule = some (head, body)) ∨
    (∃ condition action, t = .transition condition action) ∨ t.isAside = true := by
  by_cases hrule : t.isRule = true
  · exact .inr (.inl (by simpa [Term.isRule, Option.isSome_iff_exists] using hrule))
  by_cases htransition : t.asTransition.isSome = true
  · obtain ⟨⟨condition, action⟩, h⟩ := Option.isSome_iff_exists.1 htransition
    exact .inr (.inr (.inl ⟨condition, action, Term.eq_of_asPair h⟩))
  by_cases haside : t.isAside = true
  · exact .inr (.inr (.inr haside))
  · left
    unfold Term.isAside at haside
    unfold Term.isRuleSentence
    simp_all

theorem functor_of_isAside (h : t.isAside = true) : ∃ f args, t = .compound f args ∧ (f = "handler" ∨ f = "definition") := by
  unfold Term.isAside at h
  rcases Bool.or_eq_true_iff.1 h with h | h
  · obtain ⟨⟨x, y⟩, hxy⟩ := Option.isSome_iff_exists.1 h
    exact ⟨"handler", [x, y], Term.eq_of_asPair hxy, .inl rfl⟩
  · obtain ⟨⟨x, y⟩, hxy⟩ := Option.isSome_iff_exists.1 h
    exact ⟨"definition", [x, y], Term.eq_of_asPair hxy, .inr rfl⟩

theorem isRuleSentence_of_isAside (h : t.isAside = true) : t.isRuleSentence = true := by
  unfold Term.isAside at h
  unfold Term.isRuleSentence
  rcases Bool.or_eq_true_iff.1 h with h | h <;> simp [h]

theorem headOrSelf_of_ne {f : String} (h : t.functor? = some f) (hf : f ≠ "rule") : t.headOrSelf = t := by
  unfold Term.headOrSelf
  cases hrule : t.asRule with
  | none => rfl
  | some rule =>
    rw [Term.eq_of_asRule hrule] at h
    exact absurd (Option.some.inj h).symm hf

variable (h : Impartial sentences template query)

include h

theorem ruleRelation (ht : t ∈ sentences) (hr : t.ruleRelation? = some r) :
    t.headOrSelf.functor? = some r ∧ t.operator? = some r ∧ isWrapper r = false := by
  obtain ⟨⟨head, body⟩, hrule, hr⟩ := Option.bind_eq_some_iff.1 hr
  obtain ⟨r', hr', hwrapper⟩ := h.heads t ht (head, body) hrule
  obtain rfl : r = r' := Option.some.inj (hr.symm.trans hr')
  refine ⟨?_, Term.operator?_of_asRule hrule hr hwrapper, hwrapper⟩
  unfold Term.headOrSelf
  rw [hrule]
  exact hr

/-- A sentence on the side of the rules is about the functor of its head, unless it is a handler or a definition. -/
theorem head_cases (hholds : src.Holds sentences) (ht : t ∈ src.rules.toList) :
    ∃ g, t.headOrSelf.functor? = some g ∧ g ≠ "rule" ∧
      (t.operator? = some g ∧ isWrapper g = false ∨ t.isAside = true ∧ g ∈ asideWords) := by
  have hmem := hholds.rule t ht
  have hne {g : String} (hg : isWrapper g = false) : g ≠ "rule" := by
    rintro rfl
    exact absurd hg (by decide)
  rcases isRuleSentence_cases t with hfact | ⟨head, body, hrule⟩ | ⟨condition, action, rfl⟩ | haside
  · obtain ⟨r, hr, u, hu, hrelation⟩ := hholds.moved t ht hfact
    obtain ⟨-, -, hwrapper⟩ := h.ruleRelation (hholds.rule u hu) hrelation
    rw [headOrSelf_of_ne hr (hne hwrapper)]
    exact ⟨r, hr, hne hwrapper, .inl ⟨Term.operator?_of_functor? hr hwrapper, hwrapper⟩⟩
  · obtain ⟨r, hr, hwrapper⟩ := h.heads t hmem (head, body) hrule
    have hrelation : t.ruleRelation? = some r := Option.bind_eq_some_iff.2 ⟨(head, body), hrule, hr⟩
    obtain ⟨hhead, hoperator, -⟩ := h.ruleRelation hmem hrelation
    exact ⟨r, hhead, hne hwrapper, .inl ⟨hoperator, hwrapper⟩⟩
  · have hwrapper : isWrapper "transition" = false := by decide
    exact ⟨"transition", rfl, by decide, .inl ⟨Term.operator?_of_functor? rfl hwrapper, hwrapper⟩⟩
  · obtain ⟨f, args, rfl, hf⟩ := functor_of_isAside haside
    have hrule : f ≠ "rule" := by rcases hf with rfl | rfl <;> decide
    rw [headOrSelf_of_ne rfl hrule]
    exact ⟨f, rfl, hrule, .inr ⟨haside, by rcases hf with rfl | rfl <;> decide⟩⟩

end Impartial

/-! ### Where the relations are read off -/

theorem functor?_of_isGround {t : Term} (h : t.isGround = true) : ∃ f, t.functor? = some f := by
  cases t with
  | var v => cases h
  | sym a => exact ⟨a, rfl⟩
  | compound f args => exact ⟨f, rfl⟩

theorem isGround_of_isSafe {t : Term} (h : t.isSafe = true) (hfact : t.isRuleSentence = false) : t.isGround = true := by
  unfold Term.isRuleSentence at hfact
  simp only [Bool.or_eq_false_iff, Term.isRule, Option.isSome_eq_false_iff, Option.isNone_iff_eq_none] at hfact
  obtain ⟨⟨⟨hrule, hhandler⟩, htransition⟩, hdefinition⟩ := hfact
  unfold Term.isSafe at h
  rwa [hrule, hhandler, htransition, hdefinition] at h

/-- The words that no goal has in a program with handlers or definitions. -/
def wordsKeptOut (sentences : List Term) : List String := if sentences.any Term.isAside then asideWords else []

namespace Impartial

variable {sentences : List Term} {template query t goal : Term} {src src' : Sources} {r : String}

theorem wordsKeptOut_of_mem (ht : t ∈ sentences) (haside : t.isAside = true) : wordsKeptOut sentences = asideWords :=
  if_pos (List.any_eq_true.2 ⟨t, ht, haside⟩)

/-- A goal on a relation that the word is the functor of. -/
theorem not_mem_of_avoids (hgoal : goal.Avoids (wordsKeptOut sentences)) (hr : goal.functor? = some r) :
    r ∉ wordsKeptOut sentences := by
  cases goal with
  | var v => cases hr
  | sym a => exact Option.some.inj hr ▸ Term.avoids_sym.1 hgoal
  | compound f args => exact Option.some.inj hr ▸ (Term.avoids_compound.1 hgoal).1

/-- A goal either has a meaning of its own or is on the relation that is its functor. -/
theorem ofTerm_cases (goal : Term) :
    (∀ rules rules', Goal.ofTerm rules goal = Goal.ofTerm rules' goal ∧ Goal.ofTerm rules goal ≠ .view) ∨
    ∃ r, goal.functor? = some r ∧ ∀ rules, Goal.ofTerm rules goal = Goal.ofRelation rules r := by
  unfold Goal.ofTerm
  split
  case h_4 s _ _ => exact .inr ⟨s, rfl, fun _ => rfl⟩
  case h_13 f args _ _ _ _ _ _ _ _ =>
    by_cases hf : Goal.isComputation f = true
    · exact .inl fun _ _ => by simp [if_pos hf]
    · exact .inr ⟨f, rfl, fun _ => if_neg hf⟩
  all_goals exact .inl fun _ _ => ⟨rfl, by first | split <;> simp | simp⟩

/-- The sources with an index and those without, after the sentences were loaded. -/
structure Loaded (sentences : List Term) (src src' : Sources) : Prop where
  same : src.SameTerms src'
  holds : src.Holds sentences
  mode : src.rules.mode = .rule
  mode' : src'.rules.mode = .none
  overlay : src.overlay = none ∧ src'.overlay = none
  datasets : src.datasets = [] ∧ src'.datasets = []
  config : src.config = src'.config

theorem loaded_load (config : Config) (sentences : List Term) :
    Loaded sentences (sentences.foldl Sources.loadSentence ({}, .empty config true)).2
      (sentences.foldl Sources.loadSentence ({}, .empty config false)).2 := by
  have hempty : (Sources.empty config true).SameTerms (Sources.empty config false) :=
    ⟨⟨.empty _, .empty _, rfl⟩, ⟨.empty _, .empty _, rfl⟩⟩
  have hsetup := Sources.sameSetup_load (.empty config true) {} sentences
  have hsetup' := Sources.sameSetup_load (.empty config false) {} sentences
  refine ⟨(hempty.load {} sentences).2, ?_, hsetup.mode, hsetup'.mode, ⟨hsetup.overlay, hsetup'.overlay⟩,
    ⟨hsetup.datasets, hsetup'.datasets⟩, hsetup.config.trans hsetup'.config.symm⟩
  exact (Sources.holds_empty config true).load {} sentences

theorem Loaded.admits_right (hload : Loaded sentences src src') (key : Option String) : src'.rules.admits key t = true := by
  unfold Theory.admits
  rw [hload.mode']
  cases key <;> rfl

variable (h : Impartial sentences template query) (hload : Loaded sentences src src')

include h hload

/-- What the index takes for a relation with rules is one without the index, too, unless its functor is kept out. -/
theorem defines_right (hr : r ∉ wordsKeptOut sentences) (hleft : src.rules.defines r = true) :
    src'.rules.defines r = true := by
  have hlist : src'.rules.toList = src.rules.toList := hload.same.rules.toList_eq.symm
  rw [Theory.defines_of_not_indexed (.inl hload.mode'), hlist]
  by_cases hkey : isIndexable r = true
  · obtain ⟨t, ht, hhead⟩ := (hload.holds.reachable.2.indexed.defines_of_indexable hload.mode hkey).1 hleft
    obtain ⟨g, hg, -, hcases⟩ := h.head_cases hload.holds ht
    obtain rfl : r = g := Option.some.inj (hhead.symm.trans hg)
    rcases hcases with ⟨hoperator, -⟩ | ⟨haside, hword⟩
    · exact ⟨t, ht, hoperator⟩
    · rw [wordsKeptOut_of_mem (hload.holds.rule t ht) haside] at hr
      exact absurd hword hr
  · exact (Theory.defines_of_not_indexed (.inr (Bool.eq_false_iff.2 hkey))).1 hleft

/-- If a relation has rules only where there is no index, a handler or a definition is about it, and nothing else is. -/
theorem unused_of_defines (hleft : src.rules.defines r = false) (hright : src'.rules.defines r = true) :
    (∀ t ∈ src.facts.toList, t.functor? ≠ some r) ∧ ∀ t ∈ src.rules.toList, t.headOrSelf.functor? ≠ some r := by
  have hlist : src'.rules.toList = src.rules.toList := hload.same.rules.toList_eq.symm
  rw [Theory.defines_of_not_indexed (.inl hload.mode'), hlist] at hright
  obtain ⟨t, ht, hoperator⟩ := hright
  have hkey : isIndexable r = true := by
    by_contra hkey
    rw [(Theory.defines_of_not_indexed (.inr (Bool.eq_false_iff.2 hkey))).2 ⟨t, ht, hoperator⟩] at hleft
    cases hleft
  have hnone (u : Term) (hu : u ∈ src.rules.toList) : u.headOrSelf.functor? ≠ some r := by
    intro hhead
    rw [(hload.holds.reachable.2.indexed.defines_of_indexable hload.mode hkey).2 ⟨u, hu, hhead⟩] at hleft
    cases hleft
  refine ⟨fun u hu hfunctor => ?_, hnone⟩
  obtain ⟨g, hg, -, hcases⟩ := h.head_cases hload.holds ht
  rcases hcases with ⟨hg', -⟩ | ⟨haside, -⟩
  · rw [hoperator] at hg'
    exact hnone t ht (hg.trans hg'.symm)
  · rcases h.subjects t (hload.holds.rule t ht) haside r hoperator with ⟨v, hv, hrelation⟩ | hfacts
    · have hrule : v.isRuleSentence = true := by
        obtain ⟨rule, hrule, -⟩ := Option.bind_eq_some_iff.1 hrelation
        simp [Term.isRuleSentence, Term.isRule, hrule]
      exact hnone v (hload.holds.stored v hv hrule) (h.ruleRelation hv hrelation).1
    · obtain ⟨hmem, hfact⟩ := hload.holds.fact u hu
      exact hfacts u hmem hfact hfunctor

/-! ### The sources are alike -/

omit h in
theorem mem_of_mem_factsFor {s : Store} {env : EnvId} (ht : t ∈ src.factsFor s goal env) : t ∈ src.facts.toList := by
  unfold Sources.factsFor at ht
  rw [hload.overlay.1] at ht
  exact Theory.mem_of_mem_lookupIn ht

/-- Where the two take a goal for different kinds, nothing fits it. -/
theorem goals_alike (hground : ∀ t ∈ src.facts.toList, t.isGround = true)
    (hgoal : goal.Avoids (wordsKeptOut sentences)) :
    Goal.ofTerm src.rules goal = Goal.ofTerm src'.rules goal ∨ src.Hopeless goal ∧ src'.Hopeless goal := by
  rcases ofTerm_cases goal with hsame | ⟨r, hr, hrelation⟩
  · exact .inl (hsame _ _).1
  have hword := not_mem_of_avoids hgoal hr
  cases hleft : src.rules.defines r with
  | true =>
    left
    rw [hrelation, hrelation, Goal.ofRelation, Goal.ofRelation, hleft, h.defines_right hload hword hleft]
  | false =>
    cases hright : src'.rules.defines r with
    | false =>
      left
      rw [hrelation, hrelation, Goal.ofRelation, Goal.ofRelation, hleft, hright]
    | true =>
      right
      obtain ⟨hfacts, hrules⟩ := h.unused_of_defines hload hleft hright
      constructor
      · refine .base (by rw [hrelation, Goal.ofRelation, hleft]; rfl) fun s env cenv t ht u _ => ?_
        have hmem := mem_of_mem_factsFor hload ht
        obtain ⟨g, hg⟩ := functor?_of_isGround (hground t hmem)
        exact u.unify_of_functor_ne hr hg fun hrg => hfacts t hmem (hrg ▸ hg)
      · refine .view (by rw [hrelation, Goal.ofRelation, hright]; rfl) fun t ht => ?_
        rw [← hload.same.rules.toList_eq] at ht
        obtain ⟨g, hg, -⟩ := h.head_cases hload.holds ht
        exact ⟨r, g, hr, hg, fun hrg => hrules t ht (hrg ▸ hg)⟩

/-- A lookup by the relation of a goal leaves out only sentences about others. -/
theorem rules_alike (hview : Goal.ofTerm src.rules goal = .view) (s : Store) (env : EnvId) :
    SameExcept goal.Passes (src.rules.lookupIn s goal env) (src'.rules.lookupIn s goal env) := by
  have hindexed := hload.same.rules.left.indexed
  rcases ofTerm_cases goal with hsame | ⟨r, hr, hrelation⟩
  · exact absurd hview (hsame _ src.rules).2
  have hdefines : src.rules.defines r = true := by
    rw [hrelation, Goal.ofRelation] at hview
    by_contra hnot
    rw [if_neg hnot] at hview
    cases hview
  have hrule : r ≠ "rule" := by
    rintro rfl
    obtain ⟨t, ht, hhead⟩ := (hindexed.defines_of_indexable hload.mode (by decide)).1 hdefines
    obtain ⟨g, hg, hne, -⟩ := h.head_cases hload.holds ht
    exact hne (Option.some.inj (hg.symm.trans hhead))
  have hkey : src.rules.queryKeyIn s goal env = some r := by
    have hresolve : (s.resolve goal env).term = goal := by
      cases goal with
      | var v => cases hr
      | sym a => rw [Store.resolve_sym]
      | compound f args => rw [Store.resolve_compound]
    unfold Theory.queryKeyIn Theory.queryKey
    rw [hload.mode, hresolve]
    dsimp only
    rw [headOrSelf_of_ne hr hrule, hr]
  rw [Theory.lookupIn_eq hindexed, Theory.lookupIn_eq hload.same.rules.right.indexed, ← hload.same.rules.toList_eq, hkey]
  refine .filter fun t ht hne => ?_
  obtain ⟨g, hg, -⟩ := h.head_cases hload.holds ht
  refine ⟨r, g, hr, hg, ?_⟩
  -- a sentence about the relation itself has it for a key
  rintro rfl
  apply hne
  rw [hload.admits_right]
  unfold Theory.admits
  rw [Option.all_some, hload.mode]
  by_cases hindexable : isIndexable r = true
  · have hmem : r ∈ IndexMode.rule.keys t := Theory.mem_functorKeys hg hindexable
    simp [hmem]
  · simp [hindexable]

omit h in
/-- Definitions are found by their functor. -/
theorem definitions_alike : SameExcept (fun t => t.asDefinition = none) (src.rules.lookup (.pattern "definition" 2))
    (src'.rules.lookup (.pattern "definition" 2)) := by
  rw [Theory.lookup_eq hload.same.rules.left.indexed, Theory.lookup_eq hload.same.rules.right.indexed,
    ← hload.same.rules.toList_eq]
  refine .filter fun t _ hne => ?_
  by_contra hdefinition
  obtain ⟨⟨head, body⟩, ht⟩ := Option.ne_none_iff_exists'.1 hdefinition
  apply hne
  rw [hload.admits_right]
  unfold Theory.admits Theory.queryKey
  rw [hload.mode, Term.eq_of_asDefinition ht]
  rfl

/-- The sources with an index and those without are alike. -/
theorem alike_loaded (hground : ∀ t ∈ src.facts.toList, t.isGround = true) :
    src.Alike (.avoiding (wordsKeptOut sentences)) src' where
  config := hload.config
  definitions := definitions_alike hload
  datasets := hload.datasets.1.trans hload.datasets.2.symm
  goals _ hgoal := h.goals_alike hload hground hgoal
  rules _ _ hview s env := h.rules_alike hload hview s env
  facts s goal env cenv := by
    unfold Sources.factsFor
    rw [hload.overlay.1, hload.overlay.2, Theory.lookupIn_eq hload.same.facts.left.indexed,
      Theory.lookupIn_eq hload.same.facts.right.indexed, ← hload.same.facts.toList_eq]
    exact .filter fun t ht hne => src.facts.unfit_of_ne src'.facts (hground t ht) hne

/-- Nothing leads out of the language without the words that are kept out. -/
theorem closed_loaded : (Language.avoiding (wordsKeptOut sentences)).Closed src := by
  by_cases hany : sentences.any Term.isAside = true
  swap
  · rw [wordsKeptOut, if_neg hany]
    exact Language.closed_avoiding_nil src
  obtain ⟨-, -, hwords⟩ := h.words (List.any_eq_true.1 hany)
  rw [wordsKeptOut, if_pos hany]
  refine Language.closed_avoiding (by decide) (fun f hf values surroundings v hvalues hv => ?_) ⟨fun t ht => ?_, ?_, ?_, ?_, ?_⟩
  · exact avoids_callBuiltin (by decide) (fun hword => hf (List.mem_append_right _ hword)) hvalues hv
  · obtain ⟨hmem, hfact⟩ := hload.holds.fact t ht
    rcases hwords t hmem with havoids | ⟨haside, -⟩
    · exact havoids
    · rw [isRuleSentence_of_isAside haside] at hfact
      cases hfact
  · rw [hload.overlay.1]
    simp
  · unfold Sources.dataset?
    rw [hload.datasets.1]
    simp
  · intro t ht
    rcases hwords t (hload.holds.rule t ht) with havoids | ⟨haside, -⟩
    · exact Language.avoiding_rule havoids
    · obtain ⟨f, args, rfl, hf⟩ := functor_of_isAside haside
      refine ⟨fun head body hrule => ?_, fun _ => .inr ⟨f, args, rfl, ?_⟩⟩
      · have hfunctor : f = "rule" := (Term.compound.inj (Term.eq_of_asRule hrule)).1
        rcases hf with rfl | rfl <;> exact absurd hfunctor (by decide)
      · rcases hf with rfl | rfl <;> decide
  · intro t ht head body hdefinition
    have hmem := hload.holds.rule t ht
    obtain rfl := Term.eq_of_asDefinition hdefinition
    rcases hwords _ hmem with havoids | ⟨-, hargs⟩
    · exact absurd (by decide) (Term.avoids_compound.1 havoids).1
    · exact ⟨hargs head (by simp [Term.definition, Term.args]), hargs body (by simp [Term.definition, Term.args])⟩

end Impartial

/-! ### Answers -/

/-- A program of safe sentences that is loaded with an index gives the same answers, one by one, as one that is loaded
without, as long as neither query reaches the limit and neither comes to a store in which variables lead round. -/
theorem answers_indexed (config : Config) {sentences : List Term} {template query : Term}
    (hsafe : ∀ t ∈ sentences, t.isSafe = true) (h : Impartial sentences template query) (n : Nat)
    {a b : List (Option Term)} {s t : Solutions}
    (hs : (Sources.solutions (sentences.foldl Sources.loadSentence ({}, .empty config true)).2 template
      query).answersStraight stepBound n = .ok (a, s))
    (ht : (Sources.solutions (sentences.foldl Sources.loadSentence ({}, .empty config false)).2 template
      query).answersStraight stepBound n = .ok (b, t))
    (hs' : s.limitReached = false) (ht' : t.limitReached = false) : a = b ∧ s.search.status = t.search.status := by
  have hload := Impartial.loaded_load config sentences
  have hground (t : Term) (ht : t ∈ (sentences.foldl Sources.loadSentence ({}, .empty config true)).2.facts.toList) :
      t.isGround = true := by
    obtain ⟨hmem, hfact⟩ := hload.holds.fact t ht
    exact isGround_of_isSafe (hsafe t hmem) hfact
  have htrue : "true" ∉ wordsKeptOut sentences := by
    unfold wordsKeptOut
    split
    · decide
    · exact List.not_mem_nil
  have hasked : template.Avoids (wordsKeptOut sentences) ∧ query.Avoids (wordsKeptOut sentences) := by
    unfold wordsKeptOut
    split
    · rename_i hany
      obtain ⟨htemplate, hquery, -⟩ := h.words (List.any_eq_true.1 hany)
      exact ⟨htemplate, hquery⟩
    · exact ⟨Term.avoids_nil_words _, Term.avoids_nil_words _⟩
  have hstart : (Search.start config template query).Within (.avoiding (wordsKeptOut sentences)) :=
    Search.within_start hasked.1 hasked.2
  have hconfig := (Sources.sameSetup_load (.empty config true) {} sentences).config
  have hconfig' := (Sources.sameSetup_load (.empty config false) {} sentences).config
  have halike : (Sources.solutions (sentences.foldl Sources.loadSentence ({}, .empty config true)).2 template query).Alike
      (.avoiding (wordsKeptOut sentences))
      (Sources.solutions (sentences.foldl Sources.loadSentence ({}, .empty config false)).2 template query) := by
    refine ⟨h.closed_loaded hload, htrue, h.alike_loaded hload hground, ?_, ?_⟩
    · unfold Sources.solutions
      rw [hconfig, hconfig']
      exact Search.alike_start _ _ _
    · unfold Sources.solutions
      rw [hconfig]
      exact hstart
  obtain ⟨hanswers, hend⟩ := halike.answers (Solutions.answers_of_answersStraight hs)
    (Solutions.answers_of_answersStraight ht) hs' ht'
  exact ⟨hanswers, hend.search_alike.status_eq⟩

/-- The box and the ball are in the hall, and what is in the hall is inside. Leaving is an update of what is inside, a
place is defined for what is lost, and there is something to be done with everything that is inside. -/
def leaving : List Term :=
  [located "box" "hall", located "ball" "hall",
    .rule (.compound "inside" [.var "X"]) [.compound "at" [.var "X", .sym "hall"]],
    .handler (.compound "inside" [.var "X"]) (.compound "leave" [.var "X"]),
    .definition (.compound "place" [.var "X"]) (.var "X"),
    .transition (.compound "inside" [.var "X"]) (.compound "carry" [.var "X"])]

/-- What is inside, asked with or without an index. -/
def insideOf (indexed : Bool) : Solutions :=
  Sources.solutions (leaving.foldl Sources.loadSentence ({}, .empty {} indexed)).2 (.var "X")
    (.compound "inside" [.var "X"])

/-- With and without an index, the box and the ball are inside. -/
theorem answers_indexed_leaving :
    ∃ s t, (insideOf true).answersStraight stepBound 3 = .ok ([some (.sym "box"), some (.sym "ball"), none], s) ∧
      (insideOf false).answersStraight stepBound 3 = .ok ([some (.sym "box"), some (.sym "ball"), none], t) ∧
      s.search.status = t.search.status := by
  have hsafe : ∀ t ∈ leaving, t.isSafe = true := by decide
  have hleaving : Impartial leaving (.var "X") (.compound "inside" [.var "X"]) := by
    refine ⟨?_, ?_, fun _ => ⟨?_, ?_, ?_⟩⟩ <;> decide
  obtain ⟨s, hs, hs'⟩ := Solutions.exists_of_answers (x := (insideOf true).answersStraight stepBound 3)
    (a := [some (.sym "box"), some (.sym "ball"), none]) (b := false) (by decide +kernel)
  obtain ⟨t, ht, ht'⟩ := Solutions.exists_of_answers (x := (insideOf false).answersStraight stepBound 3)
    (a := [some (.sym "box"), some (.sym "ball"), none]) (b := false) (by decide +kernel)
  have hend := answers_indexed {} hsafe hleaving 3 hs ht hs' ht'
  exact ⟨s, t, hs, ht, hend.2⟩

end Deduction
