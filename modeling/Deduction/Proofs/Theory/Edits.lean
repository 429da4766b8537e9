import Deduction.Proofs.Theory.Index

/-!
# Edits of a theory

The places of entries are used again, the index is kept up key by key, and holes are closed up now and then. Whatever
the edits were, nothing of that shows in what a theory holds: the entries are counted, the last place is no hole, and
the index has for each key the entries with that key and nothing for other keys (`edited_upkeep`).
-/

namespace Deduction.Theory

variable {th : Theory} {t : Term} {id id' : EntryId} {key : String}

/-! ### Holes at the end -/

private theorem back?_popWhile (entries : Array (Option Term)) :
    (entries.popWhile Option.isNone).back? ≠ some none := by
  induction entries using Array.popWhile.induct (p := Option.isNone) with
  | case1 entries hpos hlast ih =>
    rw [Array.popWhile, dif_pos hpos, if_pos hlast]
    exact ih
  | case2 entries hpos hlast =>
    rw [Array.popWhile, dif_pos hpos, if_neg hlast, Array.back?_eq_getElem?,
      Array.getElem?_eq_getElem (Nat.sub_lt hpos Nat.one_pos)]
    intro hnone
    exact hlast (by rw [Option.some.inj hnone]; rfl)
  | case3 entries hpos =>
    rw [Array.popWhile, dif_neg hpos, Array.back?_eq_getElem?, Array.getElem?_eq_none (by omega)]
    simp

/-! ### Keys without entries -/

/-- Something is kept for a key only if there are entries with that key. -/
def NoneIdle (index : Std.TreeMap String (Array EntryId)) : Prop :=
  ∀ (key : String) (ids : Array EntryId), index[key]? = some ids → ids ≠ #[]

private theorem NoneIdle.addToIndex {index : Std.TreeMap String (Array EntryId)} (h : NoneIdle index) (id : EntryId)
    (k : String) : NoneIdle (addToIndex id index k) := by
  intro key ids hids
  unfold Theory.addToIndex at hids
  rw [Std.TreeMap.getElem?_alter] at hids
  split at hids
  · rw [← Option.some.inj hids]
    simp
  · exact h key ids hids

private theorem NoneIdle.removeFromIndex {index : Std.TreeMap String (Array EntryId)} (h : NoneIdle index)
    (id : EntryId) (k : String) : NoneIdle (removeFromIndex id index k) := by
  intro key ids hids
  unfold Theory.removeFromIndex at hids
  rw [Std.TreeMap.getElem?_alter] at hids
  split at hids
  · obtain ⟨-, hempty⟩ := Option.filter_eq_some_iff.1 hids
    rintro rfl
    cases hempty
  · exact h key ids hids

private theorem NoneIdle.foldl {index : Std.TreeMap String (Array EntryId)} (h : NoneIdle index)
    {change : Std.TreeMap String (Array EntryId) → String → Std.TreeMap String (Array EntryId)}
    (hchange : ∀ index key, NoneIdle index → NoneIdle (change index key)) (keys : List String) :
    NoneIdle (keys.foldl change index) := by
  induction keys generalizing index with
  | nil => exact h
  | cons key keys ih => exact ih (hchange index key h)

/-! ### What every edit keeps -/

/-- Entries are counted, the last place is no hole, and the index has what it would have if it were made anew. -/
structure Kept (th : Theory) : Prop where
  indexed : th.Indexed
  size_eq : th.size = th.ids.length
  last : th.entries.back? ≠ some none
  noneIdle : NoneIdle th.index

theorem nodup_ids (th : Theory) : th.ids.Nodup := List.nodup_range.filter _

/-- The places of entries ascend. -/
theorem pairwise_ids (th : Theory) : th.ids.Pairwise (· < ·) := List.pairwise_lt_range.filter _

namespace Kept

theorem empty (mode : IndexMode) : Kept { mode } where
  indexed := .empty mode
  size_eq := rfl
  last := by simp
  noneIdle key ids hids := by simp at hids

theorem insert (h : th.Kept) (t : Term) : (th.insert t).2.Kept where
  indexed := h.indexed.insert t
  size_eq := by
    rw [ids_insert, List.length_append, ← h.size_eq]
    rfl
  last := by simp [Theory.insert]
  noneIdle := h.noneIdle.foldl (fun _ key hindex => hindex.addToIndex _ key) (th.mode.keys t)

theorem remove (h : th.Kept) (id : EntryId) : (th.remove id).2.Kept := by
  cases hid : th.get? id with
  | none =>
    rw [remove_of_get?_eq_none hid]
    exact h
  | some t =>
    have hmem : id ∈ th.ids := mem_ids.2 (by rw [hid]; rfl)
    refine ⟨h.indexed.remove id, ?_, ?_, ?_⟩
    · have hlength := List.length_erase_of_mem hmem
      rw [(nodup_ids th).erase_eq_filter] at hlength
      have hids : (th.remove id).2.ids = th.ids.filter (· != id) := by
        rw [ids_remove]
        congr 1
        funext i
        by_cases hi : i = id <;> simp [hi]
      rw [hids, hlength, ← h.size_eq, remove_of_get? hid]
    · rw [remove_of_get? hid]
      exact back?_popWhile _
    · rw [remove_of_get? hid]
      exact h.noneIdle.foldl (fun _ key hindex => hindex.removeFromIndex _ key) (th.mode.keys t)

theorem insertAll (h : th.Kept) (terms : List Term) : (th.insertAll terms).Kept := by
  unfold Theory.insertAll
  induction terms generalizing th with
  | nil => exact h
  | cons t terms ih => exact ih (h.insert t)

end Kept

namespace Reachable

/-- All theories that come about are kept up. -/
theorem kept (h : th.Reachable) : th.Kept := by
  induction h with
  | empty mode => exact .empty mode
  | insert _ t ih => exact ih.insert t
  | remove _ id ih => exact ih.remove id

theorem eliminate (h : th.Reachable) (object : String) : (th.eliminate object).2.Reachable := by
  have hfold (ids : List EntryId) (state : Nat × Theory) (hstate : state.2.Reachable) :
      (ids.foldl (removeAbout object) state).2.Reachable := by
    induction ids generalizing state with
    | nil => exact hstate
    | cons id ids ih =>
      apply ih
      unfold removeAbout
      dsimp only
      split
      · exact hstate.remove id
      · exact hstate
  exact (hfold (th.keyIds object) (0, th) h).compact

end Reachable

/-! ### Closing up holes -/

/-- How many places are holes. -/
def holes (th : Theory) : Nat := th.entries.size - th.size

theorem size_insertAll (th : Theory) (terms : List Term) :
    (th.insertAll terms).size = th.size + terms.length ∧
      (th.insertAll terms).entries.size = th.entries.size + terms.length := by
  unfold insertAll
  induction terms generalizing th with
  | nil => exact ⟨rfl, rfl⟩
  | cons t terms ih =>
    obtain ⟨hsize, hentries⟩ := ih (th.insert t).2
    have hpush : (th.insert t).2.entries.size = th.entries.size + 1 := by simp [insert]
    have hone : (th.insert t).2.size = th.size + 1 := rfl
    rw [List.foldl_cons, hsize, hentries, hpush, hone, List.length_cons]
    omega

theorem holes_compact_le (th : Theory) : th.compact.holes ≤ th.compact.size := by
  unfold compact
  split
  · assumption
  · obtain ⟨hsize, hentries⟩ := size_insertAll th.clear th.toList
    have hclear : th.clear.entries.size = 0 ∧ th.clear.size = 0 := ⟨rfl, rfl⟩
    unfold holes define
    omega

/-! ### Sequences of edits -/

/-- An edit of a theory. -/
inductive Edit where
  | insert (t : Term)
  | insertAll (terms : List Term)
  | save (t : Term)
  | remove (id : EntryId)
  | removeFirst (t : Term)
  | removeLast (t : Term)
  | eliminate (object : String)
  | clear
  | define (terms : List Term)

/-- The theory after an edit. -/
def edit (th : Theory) : Edit → Theory
  | .insert t => (th.insert t).2
  | .insertAll terms => th.insertAll terms
  | .save t => (th.save t).2
  | .remove id => (th.remove id).2
  | .removeFirst t => (th.removeFirst t).2
  | .removeLast t => (th.removeLast t).2
  | .eliminate object => (th.eliminate object).2
  | .clear => th.clear
  | .define terms => th.define terms

/-- The theory that edits make of an empty one. -/
def edited (mode : IndexMode) (edits : List Edit) : Theory := edits.foldl edit { mode }

/-- Does the edit close up holes? Removing by term does if the term is there. -/
def closesUp (th : Theory) : Edit → Bool
  | .removeFirst t => (th.removeFirst t).1.isSome
  | .removeLast t => (th.removeLast t).1.isSome
  | .eliminate _ => true
  | _ => false

/-- Every edit is made of insertions and removals. -/
theorem Reachable.edit (h : th.Reachable) (e : Edit) : (th.edit e).Reachable := by
  cases e with
  | insert t => exact h.insert t
  | insertAll terms => exact h.insertAll terms
  | save t => exact h.save t
  | remove id => exact h.remove id
  | removeFirst t => exact h.removeFirst t
  | removeLast t => exact h.removeLast t
  | eliminate object => exact h.eliminate object
  | clear => exact .empty th.mode
  | define terms => exact .ofList th.mode terms

theorem reachable_edited (mode : IndexMode) (edits : List Edit) : (edited mode edits).Reachable := by
  have hrun (edits : List Edit) (th : Theory) (h : th.Reachable) : (edits.foldl Theory.edit th).Reachable := by
    induction edits generalizing th with
    | nil => exact h
    | cons e edits ih => exact ih (th.edit e) (h.edit e)
  exact hrun edits { mode } (.empty mode)

theorem kept_edited (mode : IndexMode) (edits : List Edit) : (edited mode edits).Kept := (reachable_edited mode edits).kept

theorem mode_remove (th : Theory) (id : EntryId) : (th.remove id).2.mode = th.mode := by
  cases hid : th.get? id with
  | none => rw [remove_of_get?_eq_none hid]
  | some t => rw [remove_of_get? hid]

theorem mode_compact (th : Theory) : th.compact.mode = th.mode := by
  unfold compact
  split
  · rfl
  · exact mode_insertAll th.clear th.toList

theorem mode_removeCompact (th : Theory) (id : Option EntryId) : (th.removeCompact id).2.mode = th.mode := by
  cases id with
  | none => rfl
  | some id => exact (mode_compact _).trans (mode_remove th id)

theorem mode_edit (th : Theory) (e : Edit) : (th.edit e).mode = th.mode := by
  cases e with
  | insert t => rfl
  | insertAll terms => exact mode_insertAll th terms
  | save t =>
    unfold edit save
    dsimp only
    split <;> rfl
  | remove id => exact mode_remove th id
  | removeFirst t => exact mode_removeCompact th _
  | removeLast t => exact mode_removeCompact th _
  | eliminate object =>
    have hstep (ids : List EntryId) (state : Nat × Theory) :
        (ids.foldl (removeAbout object) state).2.mode = state.2.mode := by
      induction ids generalizing state with
      | nil => rfl
      | cons id ids ih =>
        rw [List.foldl_cons, ih]
        unfold removeAbout
        dsimp only
        split
        · exact mode_remove state.2 id
        · rfl
    exact (mode_compact _).trans (hstep (th.keyIds object) (0, th))
  | clear => rfl
  | define terms => exact mode_insertAll th.clear terms

theorem mode_edited (mode : IndexMode) (edits : List Edit) : (edited mode edits).mode = mode := by
  have hrun (edits : List Edit) (th : Theory) : (edits.foldl edit th).mode = th.mode := by
    induction edits generalizing th with
    | nil => rfl
    | cons e edits ih => exact (ih (th.edit e)).trans (mode_edit th e)
  exact hrun edits { mode }

theorem holes_edit_le {e : Edit} (h : th.closesUp e = true) : (th.edit e).holes ≤ (th.edit e).size := by
  have hremove (id : Option EntryId) (hid : (th.removeCompact id).1.isSome = true) :
      (th.removeCompact id).2.holes ≤ (th.removeCompact id).2.size := by
    cases id with
    | none => cases hid
    | some id => exact holes_compact_le (th.remove id).2
  cases e with
  | removeFirst t => exact hremove _ h
  | removeLast t => exact hremove _ h
  | eliminate object => exact holes_compact_le _
  | insert | insertAll | save | remove | clear | define => cases h

/-- Whatever the edits were: the entries are counted, the last place is no hole, the index has for each key the places of
the entries with that key, in order, and nothing for other keys. Right after an edit that closes up holes there are not
more of them than entries. -/
theorem edited_upkeep (mode : IndexMode) (edits : List Edit) :
    (edited mode edits).size = (edited mode edits).ids.length ∧
      (edited mode edits).entries.back? ≠ some none ∧
      (∀ key, (edited mode edits).bucket key =
          (edited mode edits).ids.filter fun id => ((edited mode edits).get? id).any fun t => key ∈ mode.keys t) ∧
      (∀ key, ((edited mode edits).bucket key).Pairwise (· < ·)) ∧
      (∀ key, key ∈ (edited mode edits).index → (edited mode edits).bucket key ≠ []) ∧
      ∀ e, (edited mode edits).closesUp e = true →
        (edited mode (edits ++ [e])).holes ≤ (edited mode (edits ++ [e])).size := by
  have hkept := kept_edited mode edits
  have hbucket := hkept.indexed.bucket_eq
  rw [mode_edited] at hbucket
  refine ⟨hkept.size_eq, hkept.last, hbucket, fun key => ?_, fun key hkey => ?_, fun e he => ?_⟩
  · rw [hbucket]
    exact (pairwise_ids _).filter _
  · obtain ⟨ids, hids⟩ := Option.isSome_iff_exists.1 (Std.TreeMap.isSome_getElem?_iff_mem.2 hkey)
    unfold bucket
    rw [Std.TreeMap.getD_eq_getD_getElem?, hids, Option.getD_some, ne_eq, Array.toList_eq_nil_iff]
    exact hkept.noneIdle key ids hids
  · have hlast : edited mode (edits ++ [e]) = (edited mode edits).edit e := by
      unfold edited
      rw [List.foldl_append]
      rfl
    rw [hlast]
    exact holes_edit_le he

end Deduction.Theory
