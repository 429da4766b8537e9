import Deduction.Proofs.Program.Changes
import Deduction.Proofs.Program.Expansion
import Deduction.Proofs.Search.Hypothetical
import Deduction.Proofs.Search.Lookups

/-!
# Simultaneous updates

The transitions among the rules are all expanded in the same sources, and their changes are applied at once. So as long as
no limit is reached, the order of the transitions does not matter, nor that of the parts of an update
(`Sources.updates_simultaneous`). The order of the transitions could be told only by a search for them, that is, by a goal
on their relation.
-/

namespace Deduction

variable {src src' : Sources} {rules rules' : Theory} {limit : Nat}

/-! ### Transitions in another order -/

def Term.isTransition (t : Term) : Bool := t.asTransition.isSome

theorem Term.eq_of_isTransition {t : Term} (h : t.isTransition = true) : ∃ x y, t = .compound "transition" [x, y] := by
  obtain ⟨⟨x, y⟩, ht⟩ := Option.isSome_iff_exists.1 h
  exact ⟨x, y, eq_of_asPair ht⟩

theorem handledChanges_reordered (h : rules.Reordered Term.isTransition rules') (change : Term) :
    handledChanges rules change = handledChanges rules' change := by
  refine h.filterMap_lookup (fun t ht => ?_) _
  obtain ⟨x, y, rfl⟩ := Term.eq_of_isTransition ht
  rfl

/-- Only a goal on their relation could tell the order of the transitions. -/
theorem Sources.alike_reordered (h : src.rules.Reordered Term.isTransition rules') :
    src.Alike (.apart "transition") { src with rules := rules' } where
  config := rfl
  definitions := .of_filter (h.lookup_others _) fun t ht => by
    obtain ⟨x, y, rfl⟩ := Term.eq_of_isTransition ht
    rfl
  datasets := rfl
  goals goal _ := .inl (h.ofTerm_eq goal)
  rules goal hgoal hview s env := .of_filter (h.lookupIn_others s goal env) fun t ht => by
    obtain ⟨x, y, rfl⟩ := Term.eq_of_isTransition ht
    cases hf : goal.functor? with
    | some f => exact ⟨f, "transition", hf, rfl, fun heq => hgoal (hf.trans (congrArg some heq))⟩
    | none =>
      cases goal with
      | var v => cases hview
      | sym a => cases hf
      | compound f args => cases hf
  facts _ _ _ _ := .refl _ _

namespace Sources

/-! ### Changes in another order -/

/-- The sources hold the same facts, and in the same datasets the same facts, in whatever order. -/
structure SameSets (src src' : Sources) : Prop where
  exists_iff : ∀ name, (src.dataset? name).isSome = true ↔ (src'.dataset? name).isSome = true
  mem_iff : ∀ home fact, fact ∈ (src.collection home).toList ↔ fact ∈ (src'.collection home).toList

/-- A dataset exists after edits if it did before or if a target belongs to it. -/
theorem isSome_dataset?_foldl_edit (f : Theory → Term → Theory) (targets : List Term) (src : Sources) (name : String) :
    ((targets.foldl (edit f) src).dataset? name).isSome = true ↔
      (src.dataset? name).isSome = true ∨ ∃ target ∈ targets, target.belongs.1 = some name := by
  induction targets generalizing src with
  | nil => simp
  | cons target targets ih =>
    have hedit : ((edit f src target).dataset? name).isSome = true ↔
        (src.dataset? name).isSome = true ∨ target.belongs.1 = some name := by
      unfold edit Term.belongs
      cases target.asDatasetFact with
      | none => simp [dataset?]
      | some fact =>
        rw [dataset?_addDataset]
        by_cases hname : name = fact.2
        · simp [hname]
        · simp [hname, Ne.symm hname]
    rw [List.foldl_cons, ih, hedit, or_assoc]
    simp

/-- A dataset exists after changes if it did before or if what is deleted or inserted belongs to it. -/
theorem isSome_dataset?_applyChanges (src : Sources) (changes : List Term) (name : String) :
    ((src.applyChanges changes).2.dataset? name).isSome = true ↔ (src.dataset? name).isSome = true ∨
      ∃ change ∈ changes, ∃ target, (change.Deletes target ∨ change.Inserts target) ∧ target.belongs.1 = some name := by
  unfold applyChanges
  dsimp only
  rw [addTarget, isSome_dataset?_foldl_edit, removeTarget, isSome_dataset?_foldl_edit, or_assoc]
  refine or_congr_right ?_
  simp only [List.mem_filterMap, List.mem_map]
  constructor
  · rintro (⟨target, ⟨_, ⟨change, hchange, rfl⟩, htarget⟩, hname⟩ |
      ⟨target, ⟨_, ⟨change, hchange, rfl⟩, htarget⟩, hname⟩)
    · exact ⟨change, hchange, target, .inl (Change.removed?_ofTerm.1 htarget), hname⟩
    · exact ⟨change, hchange, target, .inr (Change.added?_ofTerm.1 htarget), hname⟩
  · rintro ⟨change, hchange, target, htarget | htarget, hname⟩
    · exact .inl ⟨target, ⟨_, ⟨change, hchange, rfl⟩, Change.removed?_ofTerm.2 htarget⟩, hname⟩
    · exact .inr ⟨target, ⟨_, ⟨change, hchange, rfl⟩, Change.added?_ofTerm.2 htarget⟩, hname⟩

/-- The rules make no difference to applying changes, nor does the order of the changes. -/
theorem IsKept.sameSets_applyChanges (h : src.IsKept) (rules : Theory) {changes changes' : List Term}
    (hperm : changes.Perm changes') :
    (src.applyChanges changes).2.SameSets (({ src with rules := rules } : Sources).applyChanges changes').2 where
  exists_iff name := by
    rw [isSome_dataset?_applyChanges, isSome_dataset?_applyChanges]
    simp only [hperm.mem_iff]
    rfl
  mem_iff home fact := by
    have hkept : ({ src with rules := rules } : Sources).IsKept := by
      rintro (_ | name)
      · exact h none
      · exact h (some name)
    have hcollection : ({ src with rules := rules } : Sources).collection home = src.collection home := by
      cases home <;> rfl
    have hremoved : (removedFrom home changes).Perm (removedFrom home changes') :=
      ((hperm.map _).filterMap _).filterMap _
    have hadded : (addedTo home changes).Perm (addedTo home changes') := ((hperm.map _).filterMap _).filterMap _
    rw [h.mem_applyChanges, hkept.mem_applyChanges, hcollection, hadded.mem_iff, hremoved.diff_left]

/-! ### Updates -/

/-- The transitions among the rules. -/
def transitions (src : Sources) : List Term :=
  (src.rules.lookup (.pattern "transition" 2)).filter Term.isTransition

/-- The transition stands for the changes: its condition is answered, and its action is expanded for every answer, all by
the sources. -/
inductive Fires (src : Sources) (limit : Nat) : Term → List Term → Prop
  | intro {condition action : Term} {answers : List Term} (hanswers : Gives limit (src.findAll action condition) answers)
    {expansions : List (List Term)}
    (hexpansions : List.Forall₂ (fun answer => Gives limit (expandAt src (stepBound - 1) 0 answer)) answers expansions) :
    Fires src limit (.transition condition action) (src.config.dedup.apply expansions.flatten)

/-- The transitions come to their changes before the limit even if no goal on the relation may come up. -/
def UpdatesApart (src : Sources) (relation : String) : Prop :=
  ∃ changes, Gives src.config.limit (src.transitions.flatMapM (src.expandBy (src.consultApart relation))) changes

theorem gives_update {r : List Term × Sources} (h : Gives limit src.update r) :
    ∃ changes, Gives limit (src.transitions.flatMapM src.expand) changes ∧ r = src.applyChanges changes := by
  obtain ⟨changes, hchanges, h⟩ := h.bind fun _ => counts_pure _
  exact ⟨changes, hchanges, (gives_pure h).symm⟩

theorem gives_execute_and {parts : List Term} {r : List Term × Sources}
    (h : Gives limit (src.execute (.compound "and" parts)) r) :
    ∃ changes, Gives limit (parts.flatMapM (expandAt src (stepBound - 1) 0)) changes ∧
      r = src.applyChanges (src.config.dedup.apply changes) := by
  obtain ⟨changes, hchanges, h⟩ := h.bind fun _ => counts_pure _
  obtain ⟨expanded, hexpanded, hdedup⟩ := hchanges.bind fun _ => counts_pure _
  refine ⟨expanded, hexpanded, ?_⟩
  rw [gives_pure hdedup, gives_pure h]

/-- Transitions in another order have the same changes in another order, if no goal is on their relation. -/
theorem transitionChanges_reordered (h : src.rules.Reordered Term.isTransition rules')
    (hapart : src.UpdatesApart "transition") (hsrc' : src' = { src with rules := rules' }) {changes changes' : List Term}
    (hchanges : Gives src.config.limit (src.transitions.flatMapM src.expand) changes)
    (hchanges' : Gives src.config.limit (src'.transitions.flatMapM src'.expand) changes') : changes.Perm changes' := by
  subst hsrc'
  obtain ⟨interrupted, hinterrupted⟩ := hapart
  rw [← expandBy_expand] at hchanges hchanges'
  -- An interrupted run that comes to its end has the changes of a plain one, among the rules in either order.
  have hsame := alike_consultApart (.refl (.apart "transition") src)
  have heq : interrupted = changes :=
    (Agree.flatMapM (counts_expandBy hsame.left src) (counts_expandBy hsame.right src)
      (agree_expandBy hsame rfl fun _ => rfl) src.transitions).gives hinterrupted hchanges
  have halike := alike_reordered h
  have hask := alike_consultApart halike
  have hagree := agree_expandBy hask halike.config (handledChanges_reordered h)
  rw [← heq]
  exact perm_of_gives_flatMapM (counts_expandBy hask.left src) (counts_expandBy hask.right _) hagree
    ((h.lookup_perm _).filter _) hinterrupted hchanges'

theorem gives_expand_transition {t : Term} (ht : t.isTransition = true) {changes : List Term}
    (h : Gives limit (src.expand t) changes) : src.Fires limit t changes := by
  obtain ⟨condition, action, rfl⟩ := Term.eq_of_isTransition ht
  obtain ⟨expanded, hexpanded, hdedup⟩ := h.bind fun _ => counts_pure _
  have hcounts := counts_expandAt src (stepBound - 1) 0
  obtain ⟨answers, hanswers, hexpanded⟩ := Gives.bind (Counts.flatMapM hcounts) hexpanded
  obtain ⟨expansions, hexpansions, rfl⟩ := hexpanded.flatMapM hcounts
  rw [← gives_pure hdedup]
  exact .intro hanswers hexpansions

/-- An update is simultaneous. As long as it does not reach the limit, it leaves the same sets of facts if the transitions
among the rules are in another order, unless a goal on their relation comes up; and the order of the parts of an update
does not matter. What is applied are the changes of all transitions, or of all parts, each of them expanded by the sources
as they were. -/
theorem updates_simultaneous (h : src.IsKept) :
    (∀ rules', src.rules.Reordered Term.isTransition rules' → src.UpdatesApart "transition" → ∀ r r',
      Gives src.config.limit src.update r → Gives src.config.limit ({ src with rules := rules' } : Sources).update r' →
        r.2.SameSets r'.2) ∧
    (∀ parts parts', parts.Perm parts' → ∀ r r', Gives src.config.limit (src.execute (.compound "and" parts)) r →
      Gives src.config.limit (src.execute (.compound "and" parts')) r' → r.2.SameSets r'.2) ∧
    (∀ limit r, Gives limit src.update r →
      ∃ results, List.Forall₂ (src.Fires limit) src.transitions results ∧ r = src.applyChanges results.flatten) ∧
    ∀ limit parts r, Gives limit (src.execute (.compound "and" parts)) r →
      ∃ results, List.Forall₂ (fun part => Gives limit (expandAt src (stepBound - 1) 0 part)) parts results ∧
        r = src.applyChanges (src.config.dedup.apply results.flatten) := by
  refine ⟨fun rules' hrules hapart r r' hr hr' => ?_, fun parts parts' hparts r r' hr hr' => ?_, fun limit r hr => ?_,
    fun limit parts r hr => ?_⟩
  · obtain ⟨changes, hchanges, rfl⟩ := gives_update hr
    obtain ⟨changes', hchanges', rfl⟩ := gives_update hr'
    exact h.sameSets_applyChanges rules' (transitionChanges_reordered hrules hapart rfl hchanges hchanges')
  · obtain ⟨changes, hchanges, rfl⟩ := gives_execute_and hr
    obtain ⟨changes', hchanges', rfl⟩ := gives_execute_and hr'
    have hcounts := counts_expandAt src (stepBound - 1) 0
    have hperm := perm_of_gives_flatMapM hcounts hcounts (agree_expandAt src _ 0) hparts hchanges hchanges'
    exact h.sameSets_applyChanges src.rules (src.config.dedup.apply_perm hperm)
  · obtain ⟨changes, hchanges, rfl⟩ := gives_update hr
    have hexpand (t : Term) : Counts (src.expand t) := (counts_expandAt src _ _ t).bind fun _ => counts_pure _
    obtain ⟨results, hresults, rfl⟩ := hchanges.flatMapM hexpand
    refine ⟨results, ?_, rfl⟩
    have htransitions : ∀ t ∈ src.transitions, t.isTransition = true := fun t ht => (List.mem_filter.1 ht).2
    have hfires := (List.forall₂_and_left _ _).2 ⟨htransitions, hresults⟩
    exact hfires.imp fun t changes ht => gives_expand_transition ht.1 ht.2
  · obtain ⟨changes, hchanges, rfl⟩ := gives_execute_and hr
    obtain ⟨results, hresults, rfl⟩ := hchanges.flatMapM (counts_expandAt src (stepBound - 1) 0)
    exact ⟨results, hresults, rfl⟩

/-- What is inside leaves the hall. -/
def vacating : Term := .transition (.compound "inside" [.var "X"]) (.negation (.compound "at" [.var "X", .sym "hall"]))

/-- What is inside is carried into the yard. -/
def carrying : Term := .transition (.compound "inside" [.var "X"]) (.compound "carry" [.var "X"])

/-- What is in the hall is inside, and carrying something puts it in the yard. The transitions stand around the rule. -/
def carriage (before after : List Term) : Theory :=
  .ofList .rule (before ++ .rule (.compound "inside" [.var "X"]) [.compound "at" [.var "X", .sym "hall"]] :: after ++
    [.handler (.compound "carry" [.var "X"]) (.compound "insert" [.compound "at" [.var "X", .sym "yard"]])])

/-- Whether they leave the hall first or are carried first, the box and the ball are in the yard afterwards. -/
theorem updates_simultaneous_carriage :
    let src : Sources := { facts := hall, rules := carriage [vacating] [carrying] }
    ∃ r r', Gives src.config.limit src.update r ∧
      Gives src.config.limit ({ src with rules := carriage [carrying, vacating] [] } : Sources).update r' ∧
      r.2.facts.toList = [located "box" "yard", located "ball" "yard"] ∧ r.2.SameSets r'.2 ∧
      ∃ r r', Gives src.config.limit (src.execute (.compound "and" [vacating, carrying])) r ∧
        Gives src.config.limit (src.execute (.compound "and" [carrying, vacating])) r' ∧ r.2.SameSets r'.2 := by
  intro src
  have hkept : src.IsKept := by
    rintro (_ | name)
    · exact .ofList .full _
    · exact .empty .full
  obtain ⟨hupdate, hexecute, -⟩ := updates_simultaneous hkept
  have hreordered : src.rules.Reordered Term.isTransition (carriage [carrying, vacating] []) :=
    ⟨.ofList .rule _, .ofList .rule _, rfl, by decide +kernel, by decide +kernel⟩
  have hapart : src.UpdatesApart "transition" := by
    have hfour : ∃ changes, Gives src.config.limit
        (src.transitions.flatMapM (src.expandBy (src.consultApart "transition"))) changes ∧ changes.length = 4 :=
      exists_gives (by decide +kernel)
    exact hfour.imp fun _ h => h.1
  let yard : List Term := [located "box" "yard", located "ball" "yard"]
  have hgives {x : Metered (List Term × Sources)} (h : ((x.run {}).toOption.map fun r =>
      (r.1.2.facts.toList, decide (r.2.spent < src.config.limit))) = some (yard, true)) :
      ∃ r, Gives src.config.limit x r ∧ r.2.facts.toList = yard := exists_gives h
  obtain ⟨r, hr, hyard⟩ := hgives (x := src.update) (by decide +kernel)
  obtain ⟨r', hr', -⟩ := hgives (x := ({ src with rules := carriage [carrying, vacating] [] } : Sources).update)
    (by decide +kernel)
  obtain ⟨q, hq, -⟩ := hgives (x := src.execute (.compound "and" [vacating, carrying])) (by decide +kernel)
  obtain ⟨q', hq', -⟩ := hgives (x := src.execute (.compound "and" [carrying, vacating])) (by decide +kernel)
  refine ⟨r, r', hr, hr', hyard, hupdate _ hreordered hapart r r' hr hr', q, q', hq, hq', ?_⟩
  exact hexecute _ _ (.swap _ _ _) q q' hq hq'

end Sources

end Deduction
