import Mathlib.Data.List.Basic
import Deduction.Proofs.Theory.Edits

/-!
# What a theory has at its places

A theory is told by what it has at its places. If it has at each place what another theory has there, unless a test fails,
then its terms are those of the other one that pass the test (`toList_of_get?`). In a theory that is kept up by edits, the
places settle everything else: how many there are, how many of them are holes, and the index (`Kept.sameAs`). So terms
that are added at the end and removed again one by one leave nothing behind (`Kept.removeAll_append`).
-/

namespace Deduction.Theory

variable {th th' : Theory} {id : EntryId} {key : String}

/-! ### Places and terms -/

theorem get?_of_size_le (h : th.entries.size ≤ id) : th.get? id = none := by
  unfold get?
  rw [Array.getElem?_eq_none h]
  rfl

theorem ids_eq_of_mem {ids : List EntryId} (hids : ids.Pairwise (· < ·))
    (hmem : ∀ id, id ∈ ids ↔ (th.get? id).isSome) : th.ids = ids := by
  have hperm : th.ids.Perm ids := by
    rw [List.perm_ext_iff_of_nodup (nodup_ids th) (hids.imp Nat.ne_of_lt)]
    exact fun id => mem_ids.trans (hmem id).symm
  exact hperm.eq_of_pairwise (fun _ _ _ _ hlt hgt => absurd hgt (Nat.lt_asymm hlt)) (pairwise_ids th) hids

/-- Where a theory has what passes a test of what another one has there, its terms are those that pass the test. -/
theorem toList_of_get? {p : Term → Bool} (h : ∀ id, th'.get? id = (th.get? id).filter p) :
    th'.toList = th.toList.filter p := by
  have hids : th'.ids = th.ids.filter fun id => (th.get? id).any p := by
    refine ids_eq_of_mem ((pairwise_ids th).filter _) fun id => ?_
    rw [List.mem_filter, mem_ids, h]
    cases hid : th.get? id with
    | none => simp
    | some t => simp [Option.filter_some, Option.isSome_iff_exists]
  rw [toList_eq, toList_eq, hids, List.filterMap_filter, List.filter_filterMap]
  congr 1
  funext id
  rw [h]
  cases th.get? id with
  | none => rfl
  | some t => cases hp : p t <;> simp [Option.filter_some, hp]

/-! ### What the places settle -/

/-- Two theories are the same in all that can be told of them: the places with their terms and holes, the number of the
entries, and what the index has for each key, and whether it has anything. -/
structure SameAs (th th' : Theory) : Prop where
  mode_eq : th.mode = th'.mode
  entries_eq : th.entries = th'.entries
  size_eq : th.size = th'.size
  ids_eq : th.ids = th'.ids
  index_eq : ∀ key : String, th.index[key]? = th'.index[key]?

private theorem size_entries_le (hlast : th'.entries.back? ≠ some none) (h : ∀ id, th.get? id = th'.get? id) :
    th'.entries.size ≤ th.entries.size := by
  by_contra hlt
  have hpos : 0 < th'.entries.size := by omega
  -- The last place is no hole, and the other theory has nothing there.
  have hhole : th.get? (th'.entries.size - 1) = none := get?_of_size_le (by omega)
  have hback : th'.entries.back? = some th'.entries[th'.entries.size - 1] := by
    rw [Array.back?_eq_getElem?, Array.getElem?_eq_getElem]
  rw [h] at hhole
  unfold get? at hhole
  rw [Array.getElem?_eq_getElem (Nat.sub_lt hpos Nat.one_pos), Option.join_some] at hhole
  exact hlast (hback.trans (congrArg some hhole))

/-- Without holes at the end, the entries are settled by the places. -/
theorem entries_eq_of_get? (hlast : th.entries.back? ≠ some none) (hlast' : th'.entries.back? ≠ some none)
    (h : ∀ id, th.get? id = th'.get? id) : th.entries = th'.entries := by
  have hsize : th.entries.size = th'.entries.size :=
    Nat.le_antisymm (size_entries_le hlast fun id => (h id).symm) (size_entries_le hlast' h)
  refine Array.ext hsize fun i hi hi' => ?_
  have hget := h i
  unfold get? at hget
  rwa [Array.getElem?_eq_getElem hi, Array.getElem?_eq_getElem hi', Option.join_some, Option.join_some] at hget

/-- The index has a bucket for a key if there are entries with the key, and else nothing. -/
theorem Kept.getElem?_index (h : th.Kept) (key : String) :
    th.index[key]? = if th.bucket key = [] then none else some (th.bucket key).toArray := by
  unfold bucket
  rw [Std.TreeMap.getD_eq_getD_getElem?]
  cases hkey : th.index[key]? with
  | none => rfl
  | some ids =>
    have hids := h.noneIdle key ids hkey
    rw [Option.getD_some, if_neg (by simpa using hids), Array.toArray_toList]

/-- Theories that are kept up are the same if they have the same at every place. -/
theorem Kept.sameAs (h : th.Kept) (h' : th'.Kept) (hmode : th.mode = th'.mode)
    (hget : ∀ id, th.get? id = th'.get? id) : th.SameAs th' := by
  have hids : th.ids = th'.ids := by
    refine ids_eq_of_mem (pairwise_ids th') fun id => ?_
    rw [hget]
    exact mem_ids
  have hbucket (key : String) : th.bucket key = th'.bucket key := by
    rw [h.indexed.bucket_eq, h'.indexed.bucket_eq, hids, hmode]
    simp only [hget]
  refine ⟨hmode, entries_eq_of_get? h.last h'.last hget, ?_, hids, fun key => ?_⟩
  · rw [h.size_eq, h'.size_eq, hids]
  · rw [h.getElem?_index, h'.getElem?_index, hbucket]

/-! ### Adding terms and removing them -/

theorem append_eq (th : Theory) (terms : List Term) :
    th.append terms = (List.range' th.entries.size terms.length, th.insertAll terms) := by
  induction terms generalizing th with
  | nil => rfl
  | cons t terms ih =>
    have hsize : (th.insert t).2.entries.size = th.entries.size + 1 := by simp [insert]
    have happend : th.append (t :: terms) =
        ((th.insert t).1 :: ((th.insert t).2.append terms).1, ((th.insert t).2.append terms).2) := rfl
    rw [happend, ih, hsize, List.length_cons, List.range'_succ]
    rfl

theorem get?_insertAll_of_lt (th : Theory) (terms : List Term) (h : id < th.entries.size) :
    (th.insertAll terms).get? id = th.get? id := by
  unfold insertAll
  induction terms generalizing th with
  | nil => rfl
  | cons t terms ih =>
    have hsize : (th.insert t).2.entries.size = th.entries.size + 1 := by simp [insert]
    rw [List.foldl_cons, ih _ (hsize ▸ Nat.lt_succ_of_lt h), get?_insert, if_neg (Nat.ne_of_lt h)]

theorem get?_removeAll (th : Theory) (ids : List EntryId) (id : EntryId) :
    (th.removeAll ids).get? id = if id ∈ ids then none else th.get? id := by
  unfold removeAll
  induction ids generalizing th with
  | nil => rfl
  | cons i ids ih =>
    rw [List.foldl_cons, ih, get?_remove]
    by_cases hid : id = i
    · simp [hid]
    · simp [hid]

theorem mode_removeAll (th : Theory) (ids : List EntryId) : (th.removeAll ids).mode = th.mode := by
  unfold removeAll
  induction ids generalizing th with
  | nil => rfl
  | cons id ids ih => rw [List.foldl_cons, ih, mode_remove]

theorem Kept.removeAll (h : th.Kept) (ids : List EntryId) : (th.removeAll ids).Kept := by
  unfold Theory.removeAll
  induction ids generalizing th with
  | nil => exact h
  | cons id ids ih => exact ih (h.remove id)

/-- Terms that are added at the end and removed again, the first one first, leave nothing behind. Until the last one is
removed they leave holes, and with the last one the holes at the end go, down to the entry that was the last one before. -/
theorem Kept.removeAll_append (h : th.Kept) (terms : List Term) :
    ((th.append terms).2.removeAll (th.append terms).1).SameAs th := by
  rw [append_eq]
  dsimp only
  have hsize := (size_insertAll th terms).2
  refine ((h.insertAll terms).removeAll _).sameAs h ?_ fun (id : Nat) => ?_
  · rw [mode_removeAll, mode_insertAll]
  · rw [get?_removeAll]
    by_cases hadded : id ∈ List.range' th.entries.size terms.length
    · have hbeyond := (List.mem_range'_1.1 hadded).1
      rw [if_pos hadded, get?_of_size_le hbeyond]
    · rw [if_neg hadded]
      rw [List.mem_range'_1] at hadded
      rcases Nat.lt_or_ge id th.entries.size with hlt | hge
      · exact get?_insertAll_of_lt th terms hlt
      · rw [get?_of_size_le hge]
        exact get?_of_size_le (by omega)

end Deduction.Theory
