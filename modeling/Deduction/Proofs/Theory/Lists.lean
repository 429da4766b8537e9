import Mathlib.Data.List.Basic
import Deduction.Proofs.Theory.Edits

/-!
# Theories as lists

A theory behaves as the plain list of its terms in the order of insertion, whatever its index: terms are added at the
end, found by comparison, and taken out at the first or the last place where they are (`edited_actsAsList`). The edits
by term go through the index, which gives all places of a term (`Indexed.idsOf_eq`).
-/

namespace Deduction.Theory

variable {th : Theory} {t u : Term} {id id' : EntryId} {before after : List EntryId}

/-! ### Places of a term -/

/-- The places with a key are a part of all places, in their order. -/
theorem Indexed.idsFor_eq (h : th.Indexed) (key : Option String) :
    th.idsFor key = th.ids.filter fun id => (th.get? id).any (th.admits key) := by
  cases key with
  | none =>
    refine (List.filter_eq_self.2 fun id hid => ?_).symm
    obtain ⟨t, ht⟩ := Option.isSome_iff_exists.1 (mem_ids.1 hid)
    rw [ht]
    rfl
  | some key =>
    unfold idsFor keyIds admits
    dsimp only
    by_cases hall : (th.mode = .none || !isIndexable key) = true
    · refine (if_pos hall).trans (List.filter_eq_self.2 fun id hid => ?_).symm
      obtain ⟨t, ht⟩ := Option.isSome_iff_exists.1 (mem_ids.1 hid)
      rw [ht, Option.any_some, Option.all_some, hall, Bool.true_or]
    · have hbucket := h.bucket_eq key
      unfold bucket at hbucket
      rw [if_neg hall, hbucket]
      have hnot := Bool.eq_false_iff.2 hall
      simp only [Option.all_some, hnot, Bool.false_or]

theorem lookupIds_eq_idsFor (th : Theory) (query : Term) : th.lookupIds query = th.idsFor (th.queryKey query) := by
  unfold lookupIds queryKey
  cases th.mode <;> rfl

/-- The index gives all places of a term, in order. -/
theorem Indexed.idsOf_eq (h : th.Indexed) (t : Term) : th.idsOf t = th.ids.filter fun id => th.get? id = some t := by
  unfold idsOf
  rw [lookupIds_eq_idsFor, h.idsFor_eq, List.filter_filter]
  apply List.filter_congr
  intro id _
  by_cases hid : th.get? id = some t
  · rw [hid, Option.any_some, admits_queryKey]
    simp
  · simp [hid]

/-! ### Taking out one entry -/

/-- The terms at the places before and after an entry are left when it is removed. -/
theorem toList_remove_of_ids (hids : th.ids = before ++ id :: after) :
    (th.remove id).2.toList = before.filterMap th.get? ++ after.filterMap th.get? := by
  have hnodup := nodup_ids th
  rw [hids, List.nodup_append, List.nodup_cons] at hnodup
  obtain ⟨-, ⟨hafter, -⟩, hbefore⟩ := hnodup
  have hother (ids : List EntryId) (hid : id ∉ ids) :
      (ids.filter (· ≠ id)).filterMap (th.remove id).2.get? = ids.filterMap th.get? := by
    have hself : ids.filter (· ≠ id) = ids :=
      List.filter_eq_self.2 fun i hi => by simpa using ne_of_mem_of_not_mem hi hid
    rw [hself]
    refine List.filterMap_congr fun i hi => ?_
    rw [get?_remove, if_neg (ne_of_mem_of_not_mem hi hid)]
  rw [toList_eq, ids_remove, hids, List.filter_append, List.filter_cons_of_neg (by simp), List.filterMap_append,
    hother before fun hid => hbefore id hid id List.mem_cons_self rfl, hother after hafter]

theorem toList_of_ids (hids : th.ids = before ++ id :: after) (hid : th.get? id = some t) :
    th.toList = before.filterMap th.get? ++ t :: after.filterMap th.get? := by
  rw [toList_eq, hids, List.filterMap_append, List.filterMap_cons_some hid]

theorem remove_fst (th : Theory) (id : EntryId) : (th.remove id).1 = th.get? id := by
  unfold remove
  split
  · rename_i h
    exact h.symm
  · rename_i h
    exact h.symm

theorem remove_eq_self (h : th.get? id = none) : th.remove id = (none, th) := by
  unfold remove
  rw [h]

/-- Removing an entry takes its term out at the position that its place has among the places. -/
theorem toList_remove (h : th.get? id = some t) :
    th.toList[th.ids.idxOf id]? = some t ∧ (th.remove id).2.toList = th.toList.eraseIdx (th.ids.idxOf id) := by
  have hmem : id ∈ th.ids := mem_ids.2 (by rw [h]; rfl)
  obtain ⟨before, after, hids, hbefore⟩ := List.eq_append_cons_of_mem hmem
  have hlength : (before.filterMap th.get?).length = before.length := by
    rw [List.length_filterMap_eq_countP, List.countP_eq_length]
    intro i hi
    exact mem_ids.1 (hids ▸ List.mem_append_left _ hi)
  have hidx : th.ids.idxOf id = (before.filterMap th.get?).length := by
    rw [hids, List.idxOf_append_of_notMem hbefore, List.idxOf_cons_self, hlength, Nat.add_zero]
  rw [toList_remove_of_ids hids, toList_of_ids hids h, hidx]
  constructor
  · simp
  · rw [List.eraseIdx_append_of_length_le (Nat.le_refl _), Nat.sub_self, List.eraseIdx_cons_zero]

@[simp] theorem toList_compact (th : Theory) : th.compact.toList = th.toList := by
  unfold compact
  split
  · rfl
  · exact (toList_insertAll th.clear th.toList).trans (List.nil_append _)

/-! ### Taking out a term -/

theorem mem_toList_iff : t ∈ th.toList ↔ ∃ id ∈ th.ids, th.get? id = some t := by
  rw [toList_eq, List.mem_filterMap]

private theorem not_mem_of_filterMap {ids : List EntryId} (h : ∀ id ∈ ids, ¬ (th.get? id = some t)) :
    t ∉ ids.filterMap th.get? := by
  rw [List.mem_filterMap]
  rintro ⟨id, hid, hget⟩
  exact h id hid hget

/-- The first place of a term, with the places around it. -/
private theorem exists_first (h : th.Indexed) (ht : t ∈ th.toList) :
    ∃ before id after, th.ids = before ++ id :: after ∧ th.get? id = some t ∧ t ∉ before.filterMap th.get? ∧
      (th.idsOf t).head? = some id := by
  obtain ⟨i, hi, hget⟩ := mem_toList_iff.1 ht
  have hsome : (th.ids.find? fun id => th.get? id = some t).isSome = true :=
    List.find?_isSome.2 ⟨i, hi, decide_eq_true hget⟩
  obtain ⟨id, hfind⟩ := Option.isSome_iff_exists.1 hsome
  obtain ⟨hid, before, after, hids, hbefore⟩ := List.find?_eq_some_iff_append.1 hfind
  refine ⟨before, id, after, hids, of_decide_eq_true hid, not_mem_of_filterMap fun j hj => ?_, ?_⟩
  · simpa using hbefore j hj
  · rw [h.idsOf_eq, List.head?_filter, hfind]

/-- The last place of a term, with the places around it. -/
private theorem exists_last (h : th.Indexed) (ht : t ∈ th.toList) :
    ∃ before id after, th.ids = before ++ id :: after ∧ th.get? id = some t ∧ t ∉ after.filterMap th.get? ∧
      (th.idsOf t).getLast? = some id := by
  obtain ⟨i, hi, hget⟩ := mem_toList_iff.1 ht
  have hsome : (th.ids.reverse.find? fun id => th.get? id = some t).isSome = true :=
    List.find?_isSome.2 ⟨i, List.mem_reverse.2 hi, decide_eq_true hget⟩
  obtain ⟨id, hfind⟩ := Option.isSome_iff_exists.1 hsome
  obtain ⟨hid, after, before, hids, hafter⟩ := List.find?_eq_some_iff_append.1 hfind
  refine ⟨before.reverse, id, after.reverse, ?_, of_decide_eq_true hid, not_mem_of_filterMap fun j hj => ?_, ?_⟩
  · simpa using congrArg List.reverse hids
  · simpa using hafter j (List.mem_reverse.1 hj)
  · rw [h.idsOf_eq, List.getLast?_eq_head?_reverse, ← List.filter_reverse, List.head?_filter, hfind]

theorem idsOf_eq_nil (h : th.Indexed) (ht : t ∉ th.toList) : th.idsOf t = [] := by
  rw [h.idsOf_eq, List.filter_eq_nil_iff]
  intro id hid hget
  exact ht (mem_toList_iff.2 ⟨id, hid, of_decide_eq_true hget⟩)

theorem removeFirst_of_mem (h : th.Indexed) (ht : t ∈ th.toList) :
    (th.removeFirst t).1 = some t ∧ (th.removeFirst t).2.toList = th.toList.erase t := by
  obtain ⟨before, id, after, hids, hget, hbefore, hhead⟩ := exists_first h ht
  unfold removeFirst removeCompact
  rw [hhead]
  refine ⟨(remove_fst th id).trans hget, ?_⟩
  rw [toList_compact, toList_remove_of_ids hids, toList_of_ids hids hget, List.erase_append_right _ hbefore,
    List.erase_cons_head]

theorem removeLast_of_mem (h : th.Indexed) (ht : t ∈ th.toList) :
    (th.removeLast t).1 = some t ∧ (th.removeLast t).2.toList = (th.toList.reverse.erase t).reverse := by
  obtain ⟨before, id, after, hids, hget, hafter, hlast⟩ := exists_last h ht
  unfold removeLast removeCompact
  rw [hlast]
  refine ⟨(remove_fst th id).trans hget, ?_⟩
  have hreverse : t ∉ (after.filterMap th.get?).reverse := fun hmem => hafter (List.mem_reverse.1 hmem)
  rw [toList_compact, toList_remove_of_ids hids, toList_of_ids hids hget, List.reverse_append, List.reverse_cons,
    List.append_assoc, List.erase_append_right _ hreverse, List.singleton_append, List.erase_cons_head,
    List.reverse_append, List.reverse_reverse, List.reverse_reverse]

theorem removeFirst_of_not_mem (h : th.Indexed) (ht : t ∉ th.toList) : th.removeFirst t = (none, th) := by
  unfold removeFirst
  rw [idsOf_eq_nil h ht]
  rfl

theorem removeLast_of_not_mem (h : th.Indexed) (ht : t ∉ th.toList) : th.removeLast t = (none, th) := by
  unfold removeLast
  rw [idsOf_eq_nil h ht]
  rfl

/-! ### All operations -/

/-- The operations of a theory do to the list of its terms what their names say. -/
structure ActsAsList (th : Theory) : Prop where
  insert (t : Term) : (th.insert t).2.toList = th.toList ++ [t]
  get?_insert (t : Term) : (th.insert t).2.get? (th.insert t).1 = some t ∧ th.get? (th.insert t).1 = none ∧
    ∀ id, (th.get? id).isSome → (th.insert t).2.get? id = th.get? id
  contains (t : Term) : th.contains t = true ↔ t ∈ th.toList
  save_of_mem (t : Term) : t ∈ th.toList → th.save t = (false, th)
  save_of_not_mem (t : Term) : t ∉ th.toList → (th.save t).1 = true ∧ (th.save t).2.toList = th.toList ++ [t]
  removeFirst_of_mem (t : Term) : t ∈ th.toList →
    (th.removeFirst t).1 = some t ∧ (th.removeFirst t).2.toList = th.toList.erase t
  removeFirst_of_not_mem (t : Term) : t ∉ th.toList → th.removeFirst t = (none, th)
  removeLast_of_mem (t : Term) : t ∈ th.toList →
    (th.removeLast t).1 = some t ∧ (th.removeLast t).2.toList = (th.toList.reverse.erase t).reverse
  removeLast_of_not_mem (t : Term) : t ∉ th.toList → th.removeLast t = (none, th)
  remove_of_get? (id : EntryId) (t : Term) : th.get? id = some t →
    (th.remove id).1 = some t ∧ th.toList[th.ids.idxOf id]? = some t ∧
      (th.remove id).2.toList = th.toList.eraseIdx (th.ids.idxOf id)
  remove_of_hole (id : EntryId) : th.get? id = none → th.remove id = (none, th)
  get?_remove (id id' : EntryId) : id' ≠ id → (th.remove id).2.get? id' = th.get? id'
  define (terms : List Term) : (th.define terms).toList = terms

theorem Indexed.actsAsList (h : th.Indexed) : th.ActsAsList where
  insert t := toList_insert th t
  get?_insert t := by
    have hbeyond : th.get? th.entries.size = none := by simp [get?]
    refine ⟨(Theory.get?_insert th t _).trans (if_pos rfl), hbeyond, fun id hid => ?_⟩
    rw [Theory.get?_insert, if_neg]
    rintro rfl
    rw [hbeyond] at hid
    cases hid
  contains t := contains_iff h t
  save_of_mem t ht := by
    unfold save
    rw [if_pos ((contains_iff h t).2 ht)]
  save_of_not_mem t ht := by
    have hnot : ¬ th.contains t = true := fun hc => ht ((contains_iff h t).1 hc)
    unfold save
    rw [if_neg hnot]
    exact ⟨rfl, toList_insert th t⟩
  removeFirst_of_mem t := Theory.removeFirst_of_mem h
  removeFirst_of_not_mem t := Theory.removeFirst_of_not_mem h
  removeLast_of_mem t := Theory.removeLast_of_mem h
  removeLast_of_not_mem t := Theory.removeLast_of_not_mem h
  remove_of_get? id t hid := ⟨(remove_fst th id).trans hid, toList_remove hid⟩
  remove_of_hole id hid := remove_eq_self hid
  get?_remove id id' hne := by rw [Theory.get?_remove, if_neg hne]
  define terms := (toList_insertAll th.clear terms).trans (List.nil_append terms)

/-- Whatever its index and however it was edited, a theory behaves as the list of its terms. -/
theorem edited_actsAsList (mode : IndexMode) (edits : List Edit) : (edited mode edits).ActsAsList :=
  (kept_edited mode edits).indexed.actsAsList

/-- Of two equal terms the first or the last one goes, and the hole is closed up. -/
example : ((edited .full [.insertAll [.sym "a", .sym "b", .sym "a"], .removeLast (.sym "a")]).toList,
    (edited .rule [.insertAll [.sym "a", .sym "b", .sym "a"], .removeFirst (.sym "a")]).toList) =
    ([.sym "a", .sym "b"], [.sym "b", .sym "a"]) := by decide +kernel

end Deduction.Theory
