import Deduction.Proofs.Program.Revisions

/-!
# Splitting a program

A program can be split at once, with the facts of relations that have rules moved over to the rules, or its sentences can
be added one by one, in any order: the same facts and the same rules are there in the end, each once
(`Sources.mem_addSentences_perm`).
-/

namespace Deduction

variable {t : Term} {sentences : List Term} {src : Sources}

/-! ### Splitting at once -/

/-- The relation of the fact has a rule among the sentences. -/
def HasRule (sentences : List Term) (t : Term) : Prop :=
  ∃ r, t.functor? = some r ∧ ∃ u ∈ sentences, u.ruleRelation? = some r

theorem hasRule_iff : HasRule sentences t ↔ ∃ r, t.functor? = some r ∧ r ∈ ruledRelations sentences :=
  exists_congr fun _ => and_congr_right fun _ => mem_ruledRelations_iff.symm

/-- The facts of a program that is split are those of relations without rules. -/
theorem mem_splitProgram_facts :
    t ∈ (splitProgram sentences).1 ↔ t ∈ sentences ∧ t.isRuleSentence = false ∧ ¬ HasRule sentences t := by
  rw [mem_facts_split, and_assoc, hasRule_iff]
  simp

/-- The rules of a program that is split are its rule sentences, and the facts of relations with rules. -/
theorem mem_splitProgram_rules :
    t ∈ (splitProgram sentences).2 ↔ t ∈ sentences ∧ (t.isRuleSentence = true ∨ HasRule sentences t) := by
  rw [mem_rules_split, ← hasRule_iff]
  cases t.isRuleSentence <;> simp

/-! ### Adding one by one -/

namespace Sources

/-- The sources with the sentences added one by one. -/
def addSentences (src : Sources) (sentences : List Term) : Sources :=
  sentences.foldl (fun src t => (src.addSentence t).2) src

theorem mem_sentences : t ∈ src.sentences ↔ t ∈ src.facts.toList ∨ t ∈ src.rules.toList := List.mem_append

theorem IsTidy.mem_sentences_addFact (h : src.IsTidy) {u : Term} :
    u ∈ (src.addFact t).2.sentences ↔ u ∈ src.sentences ∨ u = t := by
  unfold Sources.addFact
  split
  · rw [mem_sentences, mem_sentences, Theory.mem_save h.rules, or_assoc]
  · rw [mem_sentences, mem_sentences, Theory.mem_save h.facts, or_right_comm]

theorem IsTidy.mem_sentences_addRule (h : src.IsTidy) {u : Term} :
    u ∈ (src.addRule t).2.sentences ↔ u ∈ src.sentences ∨ u = t := by
  obtain ⟨-, hrules, -, hmem⟩ := mem_moveFacts ⟨h.facts, h.rules⟩ (t.ruleRelation?.elim [] src.factsOf)
  obtain ⟨-, hleft⟩ := mem_facts_moveFacts h.facts h.nodup_facts (t.ruleRelation?.elim [] src.factsOf)
  have hmoved : u ∈ t.ruleRelation?.elim [] src.factsOf → u ∈ src.facts.toList := by
    cases t.ruleRelation? with
    | none => exact fun hu => absurd hu List.not_mem_nil
    | some r => exact fun hu => (mem_factsOf hu).1
  have hrule : u ∈ (src.addRule t).2.rules.toList ↔
      (u ∈ src.rules.toList ∨ u ∈ t.ruleRelation?.elim [] src.factsOf) ∨ u = t :=
    (Theory.mem_save hrules).trans (or_congr_left (hmem u))
  have hfact : u ∈ (src.addRule t).2.facts.toList ↔
      u ∈ src.facts.toList ∧ u ∉ t.ruleRelation?.elim [] src.factsOf := hleft u
  rw [mem_sentences, mem_sentences, hrule, hfact]
  by_cases hu : u ∈ t.ruleRelation?.elim [] src.factsOf
  · simp [hu, hmoved hu]
  · simp [hu, or_assoc]

/-- No sentence is lost, and none comes up that was not added. -/
theorem IsTidy.mem_sentences_addSentence (h : src.IsTidy) {u : Term} :
    u ∈ (src.addSentence t).2.sentences ↔ u ∈ src.sentences ∨ u = t := by
  unfold Sources.addSentence
  split
  · exact h.mem_sentences_addRule
  · exact h.mem_sentences_addFact

/-- These sentences were added one by one to sources without sentences. -/
structure Added (sentences : List Term) (src : Sources) : Prop where
  tidy : src.IsTidy
  holds : src.Holds sentences
  kept : ∀ t ∈ sentences, t ∈ src.sentences

namespace Added

theorem of_empty {facts rules : IndexMode} (hfacts : src.facts = { mode := facts }) (hrules : src.rules = { mode := rules }) :
    src.Added [] where
  tidy := .of_empty hfacts hrules
  holds := .of_empty hfacts hrules
  kept _ ht := absurd ht List.not_mem_nil

theorem addSentence (h : src.Added sentences) (t : Term) : (src.addSentence t).2.Added (sentences ++ [t]) where
  tidy := h.tidy.addSentence t
  holds := h.holds.addSentence _
  kept u hu := by
    rw [List.mem_append, List.mem_singleton] at hu
    exact h.tidy.mem_sentences_addSentence.2 (hu.imp_left (h.kept u))

theorem addSentences (h : src.Added sentences) (more : List Term) : (src.addSentences more).Added (sentences ++ more) := by
  induction more generalizing sentences src with
  | nil => rwa [List.append_nil]
  | cons t more ih =>
    have hrest := ih (h.addSentence t)
    rwa [List.append_assoc] at hrest

variable (h : src.Added sentences) (hheads : ∀ t ∈ sentences, ∀ r, t.ruleRelation? = some r → isWrapper r = false)

include h hheads

theorem mem_facts : t ∈ src.facts.toList ↔ t ∈ sentences ∧ t.isRuleSentence = false ∧ ¬ HasRule sentences t := by
  constructor
  · intro ht
    obtain ⟨hmem, hplain⟩ := h.holds.fact t ht
    refine ⟨hmem, hplain, ?_⟩
    rintro ⟨r, hr, u, hu, hrelation⟩
    have hrule := h.holds.stored u hu (Term.isRuleSentence_of_ruleRelation hrelation)
    exact h.tidy.apart t ht r hr (hheads u hu r hrelation) u hrule hrelation
  · rintro ⟨hmem, hplain, hnone⟩
    rcases mem_sentences.1 (h.kept t hmem) with ht | ht
    · exact ht
    · obtain ⟨r, hr, u, hu, hrelation⟩ := h.holds.moved t ht hplain
      exact absurd ⟨r, hr, u, h.holds.rule u hu, hrelation⟩ hnone

theorem mem_rules : t ∈ src.rules.toList ↔ t ∈ sentences ∧ (t.isRuleSentence = true ∨ HasRule sentences t) := by
  constructor
  · intro ht
    refine ⟨h.holds.rule t ht, ?_⟩
    cases hrule : t.isRuleSentence with
    | true => exact .inl rfl
    | false =>
      obtain ⟨r, hr, u, hu, hrelation⟩ := h.holds.moved t ht hrule
      exact .inr ⟨r, hr, u, h.holds.rule u hu, hrelation⟩
  · rintro ⟨hmem, hside⟩
    rcases mem_sentences.1 (h.kept t hmem) with ht | ht
    · obtain ⟨-, hplain, hnone⟩ := (h.mem_facts hheads).1 ht
      rw [hplain] at hside
      exact absurd (hside.resolve_left Bool.false_ne_true) hnone
    · exact ht

end Added

/-- In whatever order the sentences are added and whatever the indexes are, no sentence is on the same side twice, and the
facts and the rules are those of the program that is split. In particular the facts of a relation with rules are on the
side of the rules, whether they come before a rule or after it. -/
theorem mem_addSentences_perm (facts rules : IndexMode) {added : List Term} (hperm : added.Perm sentences)
    (hheads : ∀ t ∈ sentences, ∀ r, t.ruleRelation? = some r → isWrapper r = false) :
    let src := addSentences { facts := { mode := facts }, rules := { mode := rules } } added
    src.facts.toList.Nodup ∧ src.rules.toList.Nodup ∧
      (∀ t, t ∈ src.facts.toList ↔ t ∈ (splitProgram sentences).1) ∧
      (∀ t, t ∈ src.rules.toList ↔ t ∈ (splitProgram sentences).2) ∧
      ∀ t ∈ sentences, HasRule sentences t → t ∈ src.rules.toList ∧ t ∉ src.facts.toList := by
  intro src
  have hadded : src.Added added := (Added.of_empty rfl rfl).addSentences added
  have hheads' : ∀ t ∈ added, ∀ r, t.ruleRelation? = some r → isWrapper r = false := fun t ht =>
    hheads t (hperm.mem_iff.1 ht)
  have hrule (t : Term) : HasRule added t ↔ HasRule sentences t := by
    unfold HasRule
    simp only [hperm.mem_iff]
  have hfacts (t : Term) : t ∈ src.facts.toList ↔ t ∈ (splitProgram sentences).1 := by
    rw [hadded.mem_facts hheads', mem_splitProgram_facts, hrule, hperm.mem_iff]
  have hrules (t : Term) : t ∈ src.rules.toList ↔ t ∈ (splitProgram sentences).2 := by
    rw [hadded.mem_rules hheads', mem_splitProgram_rules, hrule, hperm.mem_iff]
  refine ⟨hadded.tidy.nodup_facts, hadded.tidy.nodup_rules, hfacts, hrules, fun t ht hdefined => ⟨?_, ?_⟩⟩
  · exact (hrules t).2 (mem_splitProgram_rules.2 ⟨ht, .inr hdefined⟩)
  · exact fun hfact => (mem_splitProgram_facts.1 ((hfacts t).1 hfact)).2.2 hdefined

/-- The cat is inside, and so is what is in the hall, and the cat again; the box is not inside the dog. Something is to be
done when something is inside. -/
def gathered : List Term :=
  [.compound "inside" [.sym "cat"],
    .rule (.compound "inside" [.var "X"]) [.compound "at" [.var "X", .sym "hall"]],
    .compound "at" [.sym "box", .sym "hall"],
    .compound "inside" [.sym "cat"],
    .negation (.compound "inside" [.sym "box", .sym "dog"]),
    .handler (.compound "inside" [.var "X"]) (.compound "leave" [.var "X"])]

/-- The cat is with the rules, from whichever end the sentences are added. -/
theorem mem_addSentences_perm_gathered :
    let src := addSentences { facts := { mode := .full }, rules := { mode := .rule } } gathered.reverse
    src.facts.toList.Nodup ∧ src.rules.toList.Nodup ∧ .compound "inside" [.sym "cat"] ∈ src.rules.toList ∧
      .compound "at" [.sym "box", .sym "hall"] ∈ src.facts.toList := by
  have hheads : ∀ t ∈ gathered, ∀ r, t.ruleRelation? = some r → isWrapper r = false := by
    simp only [gathered, List.forall_mem_cons]
    decide
  obtain ⟨hfacts, hrules, hmem, hmem', -⟩ :=
    mem_addSentences_perm .full .rule (List.reverse_perm gathered) hheads
  refine ⟨hfacts, hrules, (hmem' _).2 ?_, (hmem _).2 ?_⟩ <;> decide +kernel

end Sources

end Deduction
