import Deduction.Proofs.Dedup
import Deduction.Proofs.Program.Revisions
import Deduction.Update

/-!
# Updates of facts

An update that inserts or deletes a fact, and that no handler fits, is the change that it looks like. It is made on the side
of the facts, whatever the side of the rules holds. So a fact that is inserted is there for the goals on its relation if the
side of the rules has nothing about the relation, or holds the fact already; and a fact that is deleted is gone, unless it
is on the side of the rules (`Sources.Revised.execute_fact`).
-/

namespace Deduction

variable {src : Sources} {seed fact t : Term} {r : String}

/-! ### Expansion -/

theorem DedupPolicy.apply_singleton (policy : DedupPolicy) (t : Term) : policy.apply [t] = [t] := by
  by_cases hkeep : policy = .keep
  · rw [hkeep]
    rfl
  · rw [apply_eq_byComparison hkeep]
    rfl

/-- No handler among the rules fits the change. -/
def Theory.isUnhandled (rules : Theory) (change : Term) : Bool :=
  rules.toList.all fun t => t.asHandler.all fun (pattern, _) => (Bindings.matcher pattern change).isNone

theorem handledChanges_eq_nil (h : src.rules.isUnhandled seed = true) :
    handledChanges src.rules seed = [] := by
  unfold handledChanges
  rw [List.filterMap_eq_nil_iff]
  intro t ht
  have hmatch := List.all_eq_true.1 h t (Theory.mem_of_mem_lookup ht)
  cases hhandler : t.asHandler with
  | none => rfl
  | some rule =>
    obtain ⟨pattern, replacement⟩ := rule
    rw [hhandler, Option.all_some, Option.isNone_iff_eq_none] at hmatch
    simp [hmatch]

/-- A change with one argument that no handler fits stands for itself. -/
theorem Sources.expand_of_isUnhandled {mark : String} (hnot : mark ≠ "not") (hand : mark ≠ "and")
    (h : src.rules.isUnhandled (.compound mark [fact]) = true) :
    src.expand (.compound mark [fact]) = pure [.compound mark [fact]] := by
  have hexpand (n : Nat) : expandAt src (n + 1) 0 (.compound mark [fact]) = pure [.compound mark [fact]] := by
    unfold expandAt
    split
    case h_1 heq => exact absurd (Term.compound.inj heq).1 hnot
    case h_2 heq => exact absurd (Term.compound.inj heq).1 hand
    case h_3 heq => cases heq
    case h_4 => simp [handledChanges_eq_nil h]
  unfold expand
  rw [show stepBound = 4611686018427387903 + 1 from rfl, hexpand, pure_bind, DedupPolicy.apply_singleton]

/-! ### Facts that are inserted and deleted -/

theorem Term.asDatasetFact_of_isRelation (hf : fact.functor? = some r) (hr : isRelation r = true) :
    fact.asDatasetFact = none := by
  unfold asDatasetFact
  split
  · exact absurd (Option.some.inj hf).symm (ne_of_isRelation hr (by decide))
  · rfl

namespace Sources

theorem execute_of_expand {changes : List Term} (h : src.expand seed = pure changes) :
    src.execute seed = pure (src.applyChanges changes) := by
  unfold execute
  rw [h, pure_bind]

theorem applyChanges_insert (hfact : fact.asDatasetFact = none) :
    src.applyChanges [.compound "insert" [fact]] = ([], { src with facts := (src.facts.save fact).2 }) := by
  change (([], src.addTarget fact) : List Term × Sources) = _
  unfold addTarget edit
  rw [hfact]

theorem applyChanges_delete (hfact : fact.asDatasetFact = none) :
    src.applyChanges [.compound "delete" [fact]] = ([], { src with facts := (src.facts.removeFirst fact).2 }) := by
  change (([], src.removeTarget fact) : List Term × Sources) = _
  unfold removeTarget edit
  rw [hfact]

/-- An update that no handler fits inserts a fact on the side of the facts, or deletes it there, and leaves the side of the
rules as it is. The fact that was inserted is there for the goals on its relation, unless the side of the rules has something
else about the relation. The fact that was deleted is gone, unless it is on the side of the rules, and there is none on that
side if it has nothing about the relation. -/
theorem Revised.execute_fact (h : src.Revised) {f : Term} (hf : f.functor? = some r) (hr : isRelation r = true)
    (hinsert : src.rules.isUnhandled (.compound "insert" [f]) = true)
    (hdelete : src.rules.isUnhandled (.compound "delete" [f]) = true) :
    (∃ src', src.execute (.compound "insert" [f]) = pure ([], src') ∧ src'.rules = src.rules ∧
      f ∈ src'.facts.toList ∧
      (f ∈ (src'.sideFor r).toList ↔ src.rules.defines r = false ∨ f ∈ src.rules.toList)) ∧
    ∃ src', src.execute (.compound "delete" [f]) = pure ([], src') ∧ src'.rules = src.rules ∧
      (f ∈ src'.sentences ↔ f ∈ src.rules.toList) ∧
      (src.rules.defines r = false → f ∉ src'.sentences) := by
  have hdataset := Term.asDatasetFact_of_isRelation hf hr
  constructor
  · have hexpand := expand_of_isUnhandled (by decide) (by decide) hinsert
    refine ⟨_, (execute_of_expand hexpand).trans (congrArg pure (applyChanges_insert hdataset)), rfl, ?_⟩
    have hsaved : f ∈ (src.facts.save f).2.toList := (Theory.mem_save h.isTidy.facts).2 (.inr rfl)
    refine ⟨hsaved, ?_⟩
    rw [sideFor_eq]
    cases src.rules.defines r <;> simp [hsaved]
  · have hexpand := expand_of_isUnhandled (by decide) (by decide) hdelete
    refine ⟨_, (execute_of_expand hexpand).trans (congrArg pure (applyChanges_delete hdataset)), rfl, ?_⟩
    have hgone : f ∉ (src.facts.removeFirst f).2.toList := by
      rw [Theory.toList_removeFirst h.isTidy.facts]
      exact h.isTidy.nodup_facts.not_mem_erase
    have hleft : f ∈ Sources.sentences { src with facts := (src.facts.removeFirst f).2 } ↔ f ∈ src.rules.toList :=
      List.mem_append.trans (or_iff_right hgone)
    refine ⟨hleft, fun hdefines hmem => ?_⟩
    rw [h.defines_of_mem hr (hleft.1 hmem) (.inr hf)] at hdefines
    cases hdefines

/-- What is in the hall is inside, and so is the cat. What is lost is said to be sought. -/
def furnished : List Revision :=
  [.addFact (.compound "at" [.sym "box", .sym "hall"]),
    .addRule (.rule (.compound "inside" [.var "X"]) [.compound "at" [.var "X", .sym "hall"]]),
    .addFact (.compound "inside" [.sym "cat"]),
    .addRule (.handler (.compound "insert" [.compound "lost" [.var "X"]])
      (.compound "insert" [.compound "sought" [.var "X"]]))]

/-- The box can be taken away. The cat cannot, and of the dog, of which it is said that it is inside, nothing is seen. -/
theorem execute_fact_furnished :
    (∃ src, (furnished.foldl revise (.empty {} true)).execute
        (.compound "delete" [.compound "at" [.sym "box", .sym "hall"]]) = pure ([], src) ∧
      .compound "at" [.sym "box", .sym "hall"] ∉ src.sentences) ∧
    (∃ src, (furnished.foldl revise (.empty {} true)).execute
        (.compound "delete" [.compound "inside" [.sym "cat"]]) = pure ([], src) ∧
      .compound "inside" [.sym "cat"] ∈ src.sentences) ∧
    ∃ src, (furnished.foldl revise (.empty {} true)).execute
        (.compound "insert" [.compound "inside" [.sym "dog"]]) = pure ([], src) ∧
      .compound "inside" [.sym "dog"] ∉ (src.sideFor "inside").toList := by
  have hrevised : (furnished.foldl revise (.empty {} true)).Revised := by
    refine Revised.foldl (.empty {} true) ?_
    simp [furnished, Revision.IsProper]
    decide
  obtain ⟨-, src, hsrc, -, -, hgone⟩ := hrevised.execute_fact
    (f := .compound "at" [.sym "box", .sym "hall"]) rfl (by decide) (by decide +kernel) (by decide +kernel)
  obtain ⟨-, src', hsrc', -, hstays, -⟩ := hrevised.execute_fact
    (f := .compound "inside" [.sym "cat"]) rfl (by decide) (by decide +kernel) (by decide +kernel)
  obtain ⟨⟨src'', hsrc'', -, -, hside⟩, -⟩ := hrevised.execute_fact
    (f := .compound "inside" [.sym "dog"]) rfl (by decide) (by decide +kernel) (by decide +kernel)
  refine ⟨⟨src, hsrc, hgone (by decide +kernel)⟩, ⟨src', hsrc', hstays.2 (by decide +kernel)⟩, src'', hsrc'', ?_⟩
  rw [hside]
  decide +kernel

end Sources

end Deduction
