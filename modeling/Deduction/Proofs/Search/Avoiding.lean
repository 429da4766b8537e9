import Deduction.Proofs.Search.Language
import Deduction.Proofs.Sentences

/-!
# Words that are kept out

Goals, expressions and data without some words form a language. If no builtin that is called makes up one of the words,
searches do not lead out of it (`Language.closed_avoiding`). Without any words to be kept out, it is the language of all
terms (`Language.closed_avoiding_nil`).
-/

namespace Deduction.Language

/-- The goals and expressions, and all data, without the words. -/
def avoiding (words : List String) : Language := ⟨words, Term.Avoids words, Term.Avoids words⟩

variable {words : List String} {f : String} {args : List Term} {t : Term}

theorem avoiding_computes (hf : f ∉ words) (hargs : ∀ t ∈ args, t.Avoids words) : (avoiding words).Computes f args where
  evaluate _ := ⟨fun t ht => hargs t (List.mem_of_getElem? ht), fun t ht => hargs t (List.mem_of_getElem? ht)⟩
  map _ := by
    refine ⟨fun t ht => hargs t (List.mem_of_getElem? ht), fun t ht => hargs t (List.mem_of_getElem? ht), ?_⟩
    intro r item v hr hitem
    have hr : r ∉ words := Term.avoids_sym.1 (hargs _ (List.mem_of_getElem? hr))
    exact Term.avoids_apply hr (List.forall_mem_cons.2 ⟨hitem, List.forall_mem_singleton.2 (Term.avoids_var v)⟩)
  aggregate _ := ⟨fun t ht => hargs t (List.mem_of_getElem? ht), fun t ht => hargs t (List.mem_of_getElem? ht),
    fun t ht => hargs t (List.mem_of_getElem? ht)⟩
  call _ _ _ := ⟨hf, hargs⟩

/-- The parts of a goal are without the words if the goal is. -/
theorem avoiding_admits (rules : Theory) (ht : t.Avoids words) : (avoiding words).Admits t (Goal.ofTerm rules t) := by
  have hrelation (r : String) : (avoiding words).Admits t (Goal.ofRelation rules r) := by
    unfold Goal.ofRelation
    split <;> exact ht
  match t with
  | .var v => trivial
  | .sym a =>
    unfold Goal.ofTerm
    split <;> first | trivial | exact hrelation _
  | .compound f args =>
    obtain ⟨hf, hargs⟩ := Term.avoids_compound.1 ht
    unfold Goal.ofTerm
    split
    all_goals rename_i heq
    all_goals cases heq
    · -- same
      split
      · exact ⟨hargs _ (by simp), hargs _ (by simp)⟩
      · trivial
    · -- distinct
      split
      · exact ⟨hargs _ (by simp), hargs _ (by simp)⟩
      · trivial
    · exact hargs
    · -- member
      split
      · exact ⟨hargs _ (by simp), hargs _ (by simp)⟩
      · trivial
    · -- not
      split
      · exact hargs _ (by simp)
      · trivial
    · exact hargs
    · exact hargs
    · exact hargs _ (by simp)
    · split
      · exact avoiding_computes hf hargs
      · exact hrelation f

theorem avoiding_branches : (ts : List Term) → (∀ t ∈ ts, t.Avoids words) → (avoiding words).Branches ts
  | [], _ => trivial
  | [_], _ => trivial
  | condition :: value :: rest, h =>
    ⟨h condition (by simp), h value (by simp), avoiding_branches rest fun t ht => h t (by simp [ht])⟩

theorem avoiding_evaluates (hf : f ∉ words) (hargs : ∀ t ∈ args, t.Avoids words) :
    (avoiding words).Evaluates f args where
  map _ := hargs
  find _ template goal rest h := by
    subst h
    exact ⟨hargs template (by simp), hargs goal (by simp)⟩
  branch _ := avoiding_branches args hargs
  call _ _ _ _ := ⟨hf, hargs⟩

theorem avoiding_rule (ht : t.Avoids words) : (avoiding words).Rule t where
  rule head body h := by
    rw [Term.eq_of_asRule h] at ht
    exact List.forall_mem_cons.1 (Term.avoids_compound.1 ht).2
  sentence _ := .inl ht

/-- The sentences of sources that keep to the language. -/
structure Keeps (words : List String) (src : Sources) : Prop where
  fact : ∀ t ∈ src.facts.toList, t.Avoids words
  added : ∀ overlay ∈ src.overlay, ∀ t ∈ overlay.adds.toList, t.Avoids words
  dataset : ∀ name, ∀ dataset ∈ src.dataset? name, ∀ t ∈ dataset.toList, t.Avoids words
  rule : ∀ t ∈ src.rules.toList, (avoiding words).Rule t
  definition : ∀ t ∈ src.rules.toList, ∀ head body, t.asDefinition = some (head, body) →
    head.Avoids words ∧ body.Avoids words

/-- Searches among sentences without the words do not lead out of the language, if no builtin does. -/
theorem closed_avoiding {src : Sources} (hspare : ∀ w ∈ words, isSpareWord w = true)
    (hbuiltin : ∀ f ∉ words, ∀ values surroundings v, (∀ t ∈ values, t.Avoids words) →
      callBuiltin f values surroundings = some v → v.Avoids words)
    (h : Keeps words src) : (avoiding words).Closed src where
  spare := hspare
  builtin := hbuiltin
  goal_fills _ _ ht hfills := hfills.avoids ht
  goal_value _ _ _ ht := ht
  goal_admits _ ht := avoiding_admits src.rules ht
  expr_fills _ _ ht hfills := hfills.avoids ht
  expr_sym _ ha := Term.avoids_sym.1 ha
  expr_evaluates _ _ ht := avoiding_evaluates (Term.avoids_compound.1 ht).1 (Term.avoids_compound.1 ht).2
  fact := h.fact
  added := h.added
  dataset := h.dataset
  rule := h.rule
  definition _ _ := h.definition

/-- Where no word is kept out, every term is in the language. -/
theorem closed_avoiding_nil (src : Sources) : (avoiding []).Closed src := by
  have hterm (t : Term) : t.Avoids [] := Term.avoids_nil_words t
  refine closed_avoiding (by simp) (fun _ _ _ _ v _ _ => hterm v) ⟨?_, ?_, ?_, ?_, ?_⟩
  · exact fun t _ => hterm t
  · exact fun _ _ t _ => hterm t
  · exact fun _ _ _ t _ => hterm t
  · exact fun t _ => avoiding_rule (hterm t)
  · exact fun _ _ head body _ => ⟨hterm head, hterm body⟩

end Deduction.Language
