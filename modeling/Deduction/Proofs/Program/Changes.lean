import Deduction.Proofs.Program.Revisions
import Deduction.Update

/-!
# Changes as sets

Changes are applied in two passes, those that remove and then those that add. What a collection of facts holds after them
is what it held before without what the changes remove, together with what they add (`Sources.applyChanges_sets`). So the
order of the changes does not matter, what is added is there whatever else is removed, and applying the same changes again
changes nothing.
-/

namespace Deduction

variable {src : Sources} {change target fact t : Term} {changes targets : List Term} {home : Option String}

/-! ### What a change says -/

namespace Term

/-- The change says that the target goes. -/
def Deletes (change target : Term) : Prop :=
  ∃ rest, change = .compound "delete" (target :: rest) ∨ change = .compound "not" (target :: rest)

/-- A symbol, or a compound that is not a change to something else. -/
inductive IsBare : Term → Prop
  | sym (a : String) : IsBare (.sym a)
  | compound {f : String} (args : List Term) (h : f ∉ ["delete", "not", "enqueue", "insert"]) : IsBare (.compound f args)

/-- The change says that the target is to be there: it inserts it, or it is the target itself. -/
def Inserts (change target : Term) : Prop :=
  (∃ rest, change = .compound "insert" (target :: rest)) ∨ change = target ∧ change.IsBare

/-- What the change puts out. -/
def enqueued? : Term → Option Term
  | .compound "enqueue" (t :: _) => some t
  | _ => none

/-- Where a target belongs, a dataset by its name or else the facts, and what it is called there. -/
def belongs (t : Term) : Option String × Term :=
  match t.asDatasetFact with
  | some (fact, name) => (some name, fact)
  | none => (none, t)

/-- The change says that a fact goes from where it belongs. -/
def DeletesFrom (change : Term) (home : Option String) (fact : Term) : Prop :=
  ∃ target, change.Deletes target ∧ target.belongs = (home, fact)

/-- The change says that a fact is to be where it belongs. -/
def InsertsInto (change : Term) (home : Option String) (fact : Term) : Prop :=
  ∃ target, change.Inserts target ∧ target.belongs = (home, fact)

end Term

theorem Term.isBare_of_unmarked (hvar : ∀ v, change = .var v → False) (hdelete : ∀ args, change = .compound "delete" args → False)
    (hnot : ∀ args, change = .compound "not" args → False) (henqueue : ∀ args, change = .compound "enqueue" args → False)
    (hinsert : ∀ args, change = .compound "insert" args → False) : change.IsBare := by
  cases change with
  | var v => exact absurd rfl (hvar v)
  | sym a => exact .sym a
  | compound f args =>
    refine .compound args ?_
    simp only [List.mem_cons, List.not_mem_nil, or_false, not_or]
    refine ⟨?_, ?_, ?_, ?_⟩ <;> rintro rfl
    · exact hdelete args rfl
    · exact hnot args rfl
    · exact henqueue args rfl
    · exact hinsert args rfl

namespace Change

theorem removed?_ofTerm : (ofTerm change).removed? = some target ↔ change.Deletes target := by
  unfold ofTerm Term.Deletes
  split
  case h_1 => simp [removed?]
  case h_2 args => cases args <;> simp [onFirst, removed?]
  case h_3 args => cases args <;> simp [onFirst, removed?]
  case h_4 args => cases args <;> simp [onFirst, removed?]
  case h_5 args => cases args <;> simp [onFirst, removed?]
  case h_6 hvar hdelete hnot henqueue hinsert =>
    constructor
    · intro h
      cases h
    · rintro ⟨rest, h | h⟩
      · exact absurd h (hdelete _)
      · exact absurd h (hnot _)

theorem added?_ofTerm : (ofTerm change).added? = some target ↔ change.Inserts target := by
  have hmarked {f : String} {args : List Term} (hf : f ∈ ["delete", "not", "enqueue", "insert"]) :
      ¬ Term.IsBare (.compound f args) := by
    rintro (_ | ⟨_, h⟩)
    exact h hf
  unfold ofTerm Term.Inserts
  split
  case h_1 v =>
    have hvar : ¬ Term.IsBare (.var v) := by
      rintro ⟨⟩
    simp [added?, hvar]
  case h_2 args => cases args <;> simp [onFirst, added?, hmarked]
  case h_3 args => cases args <;> simp [onFirst, added?, hmarked]
  case h_4 args => cases args <;> simp [onFirst, added?, hmarked]
  case h_5 args => cases args <;> simp [onFirst, added?, hmarked]
  case h_6 hvar hdelete hnot henqueue hinsert =>
    have hbare := Term.isBare_of_unmarked hvar hdelete hnot henqueue hinsert
    simp only [added?, Option.some.injEq, hbare, and_true]
    constructor
    · exact Or.inr
    · rintro (⟨rest, h⟩ | h)
      · exact absurd h (hinsert _)
      · exact h

theorem output?_ofTerm (change : Term) : (ofTerm change).output? = change.enqueued? := by
  unfold ofTerm
  split
  case h_1 => rfl
  case h_2 args => cases args <;> rfl
  case h_3 args => cases args <;> rfl
  case h_4 args => cases args <;> rfl
  case h_5 args => cases args <;> rfl
  case h_6 hvar hdelete hnot henqueue hinsert =>
    unfold Term.enqueued?
    split
    · exact absurd rfl (henqueue _)
    · rfl

end Change

namespace Sources

/-! ### Collections -/

/-- What is kept under the name of a dataset, or as facts. A dataset that does not exist is empty. -/
def collection (src : Sources) : Option String → Theory
  | some name => (src.dataset? name).getD .facts
  | none => src.facts

theorem dataset?_addDataset (src : Sources) (name : String) (dataset : Theory) (other : String) :
    (src.addDataset name dataset).dataset? other = if other = name then some dataset else src.dataset? other := by
  unfold dataset? addDataset removeDataset
  rw [List.lookup_cons]
  by_cases hname : other = name
  · simp [hname]
  · rw [beq_eq_false_iff_ne.2 hname, if_neg hname]
    simp only
    induction src.datasets with
    | nil => rfl
    | cons d datasets ih =>
      obtain ⟨n, th⟩ := d
      by_cases hn : n = name
      · rw [List.filter_cons_of_neg (by simpa using hn), List.lookup_cons, ih, beq_eq_false_iff_ne.2 (hn ▸ hname)]
      · rw [List.filter_cons_of_pos (by simpa using hn), List.lookup_cons, List.lookup_cons, ih]

/-- An edit is made in the collection that the target belongs to. -/
theorem collection_edit (f : Theory → Term → Theory) (src : Sources) (target : Term) (home : Option String) :
    (edit f src target).collection home =
      if target.belongs.1 = home then f (src.collection home) target.belongs.2 else src.collection home := by
  unfold edit Term.belongs
  cases target.asDatasetFact with
  | some fact =>
    obtain ⟨fact, name⟩ := fact
    cases home with
    | some other =>
      simp only [collection, dataset?_addDataset, Option.some.injEq]
      by_cases hname : other = name
      · simp [hname]
      · simp [hname, Ne.symm hname]
    | none => rfl
  | none =>
    cases home with
    | some other => rfl
    | none => rfl

end Sources

/-- What a target is called in a collection, if it belongs there. -/
def Term.factIn? (home : Option String) (target : Term) : Option Term :=
  if target.belongs.1 = home then some target.belongs.2 else none

theorem Term.factIn?_eq_some : target.factIn? home = some fact ↔ target.belongs = (home, fact) := by
  unfold factIn?
  rw [Option.ite_none_right_eq_some, Option.some.injEq, Prod.ext_iff]

namespace Sources

theorem collection_foldl_edit (f : Theory → Term → Theory) (targets : List Term) (src : Sources) (home : Option String) :
    (targets.foldl (edit f) src).collection home = (targets.filterMap (·.factIn? home)).foldl f (src.collection home) := by
  induction targets generalizing src with
  | nil => rfl
  | cons target targets ih =>
    rw [List.foldl_cons, ih, collection_edit]
    unfold Term.factIn?
    by_cases hhome : target.belongs.1 = home
    · simp [hhome]
    · simp [hhome]

/-- What changes remove from a collection, in order, as often as they do. -/
def removedFrom (home : Option String) (changes : List Term) : List Term :=
  ((changes.map Change.ofTerm).filterMap Change.removed?).filterMap (·.factIn? home)

/-- What changes add to a collection, in order. -/
def addedTo (home : Option String) (changes : List Term) : List Term :=
  ((changes.map Change.ofTerm).filterMap Change.added?).filterMap (·.factIn? home)

theorem mem_removedFrom : fact ∈ removedFrom home changes ↔ ∃ change ∈ changes, change.DeletesFrom home fact := by
  simp only [removedFrom, List.mem_filterMap, List.mem_map, Term.factIn?_eq_some, Term.DeletesFrom]
  constructor
  · rintro ⟨target, ⟨_, ⟨change, hchange, rfl⟩, hremoved⟩, hhome⟩
    exact ⟨change, hchange, target, Change.removed?_ofTerm.1 hremoved, hhome⟩
  · rintro ⟨change, hchange, target, hdeletes, hhome⟩
    exact ⟨target, ⟨_, ⟨change, hchange, rfl⟩, Change.removed?_ofTerm.2 hdeletes⟩, hhome⟩

theorem mem_addedTo : fact ∈ addedTo home changes ↔ ∃ change ∈ changes, change.InsertsInto home fact := by
  simp only [addedTo, List.mem_filterMap, List.mem_map, Term.factIn?_eq_some, Term.InsertsInto]
  constructor
  · rintro ⟨target, ⟨_, ⟨change, hchange, rfl⟩, hadded⟩, hhome⟩
    exact ⟨change, hchange, target, Change.added?_ofTerm.1 hadded, hhome⟩
  · rintro ⟨change, hchange, target, hinserts, hhome⟩
    exact ⟨target, ⟨_, ⟨change, hchange, rfl⟩, Change.added?_ofTerm.2 hinserts⟩, hhome⟩

theorem collection_applyChanges (src : Sources) (changes : List Term) (home : Option String) :
    (src.applyChanges changes).2.collection home =
      (addedTo home changes).foldl (fun th t => (th.save t).2)
        ((removedFrom home changes).foldl (fun th t => (th.removeFirst t).2) (src.collection home)) := by
  unfold applyChanges
  simp only
  rw [addTarget, collection_foldl_edit, removeTarget, collection_foldl_edit]
  rfl

end Sources

/-! ### Editing a theory many times -/

namespace Theory

variable {th : Theory} {terms : List Term}

theorem Reachable.foldl_removeFirst (h : th.Reachable) (terms : List Term) :
    (terms.foldl (fun th t => (th.removeFirst t).2) th).Reachable ∧
      (terms.foldl (fun th t => (th.removeFirst t).2) th).toList = th.toList.diff terms := by
  induction terms generalizing th with
  | nil => exact ⟨h, rfl⟩
  | cons t terms ih =>
    obtain ⟨hreach, hlist⟩ := ih (h.removeFirst t)
    refine ⟨hreach, ?_⟩
    rw [List.foldl_cons, hlist, toList_removeFirst h, List.diff_cons]

theorem Reachable.foldl_save (h : th.Reachable) (terms : List Term) :
    (terms.foldl (fun th t => (th.save t).2) th).Reachable ∧
      (∀ u, u ∈ (terms.foldl (fun th t => (th.save t).2) th).toList ↔ u ∈ th.toList ∨ u ∈ terms) ∧
      (th.toList.Nodup → (terms.foldl (fun th t => (th.save t).2) th).toList.Nodup) := by
  induction terms generalizing th with
  | nil => exact ⟨h, by simp, id⟩
  | cons t terms ih =>
    obtain ⟨hreach, hmem, hnodup⟩ := ih (h.save t)
    refine ⟨hreach, ?_, fun hth => hnodup (nodup_save h hth t)⟩
    intro u
    rw [List.foldl_cons, hmem, mem_save h, or_assoc, List.mem_cons]

end Theory

namespace Sources

/-- Every collection of facts comes about by insertions and removals. -/
def IsKept (src : Sources) : Prop := ∀ home, (src.collection home).Reachable

/-- A collection holds what it held without as many occurrences as are removed, and what is added. -/
theorem IsKept.mem_applyChanges (h : src.IsKept) (changes : List Term) (home : Option String) (fact : Term) :
    fact ∈ ((src.applyChanges changes).2.collection home).toList ↔
      fact ∈ (src.collection home).toList.diff (removedFrom home changes) ∨ fact ∈ addedTo home changes := by
  obtain ⟨hreach, hlist⟩ := (h home).foldl_removeFirst (removedFrom home changes)
  obtain ⟨-, hmem, -⟩ := hreach.foldl_save (addedTo home changes)
  rw [collection_applyChanges, hmem, hlist]

theorem IsKept.applyChanges (h : src.IsKept) (changes : List Term) : (src.applyChanges changes).2.IsKept := by
  intro home
  rw [collection_applyChanges]
  exact (((h home).foldl_removeFirst _).1.foldl_save _).1

/-- No collection of facts holds a fact twice. -/
def IsDistinct (src : Sources) : Prop := ∀ home, (src.collection home).toList.Nodup

theorem IsKept.distinct_applyChanges (h : src.IsKept) (hdistinct : src.IsDistinct) (changes : List Term) :
    (src.applyChanges changes).2.IsDistinct := by
  intro home
  obtain ⟨hreach, hlist⟩ := (h home).foldl_removeFirst (removedFrom home changes)
  rw [collection_applyChanges]
  apply (hreach.foldl_save _).2.2
  rw [hlist]
  exact (hdistinct home).diff

/-- Where no fact is held twice, removing is taking away. -/
theorem IsKept.mem_applyChanges_of_distinct (h : src.IsKept) (hdistinct : src.IsDistinct) (changes : List Term)
    (home : Option String) (fact : Term) :
    fact ∈ ((src.applyChanges changes).2.collection home).toList ↔
      (fact ∈ (src.collection home).toList ∧ ¬ ∃ change ∈ changes, change.DeletesFrom home fact) ∨
        ∃ change ∈ changes, change.InsertsInto home fact := by
  rw [h.mem_applyChanges, (hdistinct home).mem_sdiff_iff, mem_removedFrom, mem_addedTo]

/-- Applying changes takes away from each collection what they delete and then unites it with what they insert. No fact is
held twice afterwards, and what is enqueued is put out in order. So the order of the changes does not matter, nor that some
are repeated; an insertion wins over a deletion; and applying the changes again gives the same facts. -/
theorem applyChanges_sets (h : src.IsKept) (hdistinct : src.IsDistinct) (changes : List Term) :
    (∀ home, ((src.applyChanges changes).2.collection home).toList.Nodup) ∧
      (∀ home fact, fact ∈ ((src.applyChanges changes).2.collection home).toList ↔
        (fact ∈ (src.collection home).toList ∧ ¬ ∃ change ∈ changes, change.DeletesFrom home fact) ∨
          ∃ change ∈ changes, change.InsertsInto home fact) ∧
      (src.applyChanges changes).1 = changes.filterMap Term.enqueued? ∧
      (∀ changes', (∀ change, change ∈ changes' ↔ change ∈ changes) → ∀ home,
        ((src.applyChanges changes').2.collection home).toList.Perm
          ((src.applyChanges changes).2.collection home).toList) ∧
      (∀ home fact, (∃ change ∈ changes, change.InsertsInto home fact) →
        fact ∈ ((src.applyChanges changes).2.collection home).toList) ∧
      ∀ home, (((src.applyChanges changes).2.applyChanges changes).2.collection home).toList.Perm
        ((src.applyChanges changes).2.collection home).toList := by
  have hmem := h.mem_applyChanges_of_distinct hdistinct
  have hafter := h.distinct_applyChanges hdistinct
  refine ⟨hafter changes, hmem changes, ?_, ?_, ?_, ?_⟩
  · unfold applyChanges
    simp only [List.filterMap_map]
    exact List.filterMap_congr fun change _ => Change.output?_ofTerm change
  · intro changes' hsame home
    rw [List.perm_ext_iff_of_nodup (hafter changes' home) (hafter changes home)]
    intro fact
    rw [hmem changes', hmem changes]
    simp only [hsame]
  · intro home fact hinserts
    exact (hmem changes home fact).2 (.inr hinserts)
  · intro home
    have hkept := h.applyChanges changes
    rw [List.perm_ext_iff_of_nodup (hkept.distinct_applyChanges (hafter changes) changes home) (hafter changes home)]
    intro fact
    rw [hkept.mem_applyChanges_of_distinct (hafter changes), hmem changes]
    constructor
    · rintro (⟨hin, -⟩ | hinserts)
      · exact hin
      · exact .inr hinserts
    · rintro (⟨hin, hnot⟩ | hinserts)
      · exact .inl ⟨.inl ⟨hin, hnot⟩, hnot⟩
      · exact .inr hinserts

/-- The box is taken out of the hall and put into it, and the cat is said to sleep in a world of its own. -/
theorem applyChanges_sets_moved :
    let src : Sources := { facts := .ofList .full [.sym "box", .sym "dog"] }
    let changes : List Term := [.compound "insert" [.sym "box"], .compound "delete" [.sym "box"],
      .compound "not" [.sym "dog"], .compound "true" [.compound "sleeps" [.sym "cat"], .sym "dream"],
      .compound "enqueue" [.sym "done"]]
    (src.applyChanges changes).1 = [.sym "done"] ∧
      .sym "box" ∈ ((src.applyChanges changes).2.collection none).toList ∧
      .sym "dog" ∉ ((src.applyChanges changes).2.collection none).toList ∧
      .compound "sleeps" [.sym "cat"] ∈ ((src.applyChanges changes).2.collection (some "dream")).toList := by
  intro src changes
  have hkept : src.IsKept := by
    rintro (_ | name)
    · exact .ofList .full _
    · exact .empty .full
  have hdistinct : src.IsDistinct := by
    rintro (_ | name)
    · decide +kernel
    · exact List.nodup_nil
  obtain ⟨-, hmem, houtput, -, hinserts, -⟩ := applyChanges_sets hkept hdistinct changes
  refine ⟨houtput, hinserts none _ ?_, ?_, hinserts (some "dream") _ ?_⟩
  · exact ⟨_, List.mem_cons_self, .sym "box", .inl ⟨[], rfl⟩, rfl⟩
  · rw [hmem none, ← mem_removedFrom, ← mem_addedTo]
    decide +kernel
  · exact ⟨_, by simp [changes], .compound "true" [.compound "sleeps" [.sym "cat"], .sym "dream"],
      .inr ⟨rfl, .compound _ (by decide)⟩, rfl⟩

end Sources

end Deduction
