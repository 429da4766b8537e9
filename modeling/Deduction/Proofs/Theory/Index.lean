import Deduction.Theory.Edit
import Std.Data.TreeMap.Lemmas

/-!
# The index of a theory

The index is kept up by every edit instead of being made anew, and removing an entry leaves a hole. In all theories that
come about in this way, the index has for each key exactly the entries with that key, in the order of insertion
(`Reachable.indexed`). A lookup that uses a key is therefore the list of the terms with a key taken out
(`Indexed.map_idsFor`).
-/

namespace Deduction

/-! ### Keys -/

theorem nodup_eraseDups {α : Type} [DecidableEq α] (l : List α) : l.eraseDups.Nodup := by
  induction hn : l.length using Nat.strongRecOn generalizing l with
  | ind n ih =>
    cases l with
    | nil => simp
    | cons a l =>
      rw [List.eraseDups_cons, List.nodup_cons]
      refine ⟨?_, ih _ ?_ _ rfl⟩
      · rw [List.mem_eraseDups, List.mem_filter]
        simp
      · have := List.length_filter_le (fun b => !b == a) l
        rw [List.length_cons] at hn
        omega

theorem IndexMode.nodup_keys (mode : IndexMode) (t : Term) : (mode.keys t).Nodup := by
  have hfunctor (u : Term) : (functorKeys u).Nodup := by
    unfold functorKeys
    cases u.functor?.filter isIndexable <;> simp
  cases mode with
  | full => exact nodup_eraseDups _
  | rule => exact hfunctor t.headOrSelf
  | shallow => exact hfunctor t
  | none => exact List.nodup_nil

namespace Theory

variable {th : Theory} {t : Term} {id id' : EntryId} {key : String}

/-! ### Buckets -/

/-- What the index has for a key. -/
def bucket (th : Theory) (key : String) : List EntryId := (th.index.getD key #[]).toList

private theorem getD_addToIndex (id : EntryId) (index : Std.TreeMap String (Array EntryId)) (k key : String) :
    ((addToIndex id index k).getD key #[]).toList =
      (index.getD key #[]).toList ++ if k = key then [id] else [] := by
  unfold addToIndex
  rw [Std.TreeMap.getD_alter]
  by_cases hk : k = key
  · subst hk
    simp [Std.TreeMap.getD_eq_getD_getElem?]
  · rw [if_neg (by simpa using hk), if_neg hk, List.append_nil]

private theorem getD_foldl_addToIndex {keys : List String} (hkeys : keys.Nodup) (id : EntryId)
    (index : Std.TreeMap String (Array EntryId)) (key : String) :
    ((keys.foldl (addToIndex id) index).getD key #[]).toList =
      (index.getD key #[]).toList ++ if key ∈ keys then [id] else [] := by
  induction keys generalizing index with
  | nil => simp
  | cons k keys ih =>
    rw [List.nodup_cons] at hkeys
    rw [List.foldl_cons, ih hkeys.2, getD_addToIndex, List.append_assoc]
    by_cases hk : k = key
    · subst hk
      simp [hkeys.1]
    · simp [hk, Ne.symm hk]

private theorem getD_removeFromIndex (id : EntryId) (index : Std.TreeMap String (Array EntryId)) (k key : String) :
    ((removeFromIndex id index k).getD key #[]).toList =
      (index.getD key #[]).toList.filter fun i => decide (k = key → i ≠ id) := by
  unfold removeFromIndex
  rw [Std.TreeMap.getD_alter]
  by_cases hk : k = key
  · subst hk
    rw [if_pos (by simp), Std.TreeMap.getD_eq_getD_getElem?]
    cases index[k]? with
    | none => simp
    | some ids =>
      have hfilter : (ids.filter (· ≠ id)).toList = ids.toList.filter fun i => decide (k = k → i ≠ id) := by simp
      rw [Option.map_some, Option.getD_some, ← hfilter, Option.filter_some]
      split
      · rfl
      · rename_i hempty
        have hnil : ids.filter (· ≠ id) = #[] := by simpa using hempty
        rw [hnil]
        rfl
  · rw [if_neg (by simpa using hk), List.filter_eq_self.2 (by simp [hk])]

private theorem getD_foldl_removeFromIndex (keys : List String) (id : EntryId)
    (index : Std.TreeMap String (Array EntryId)) (key : String) :
    ((keys.foldl (removeFromIndex id) index).getD key #[]).toList =
      (index.getD key #[]).toList.filter fun i => decide (key ∈ keys → i ≠ id) := by
  induction keys generalizing index with
  | nil =>
    rw [List.filter_eq_self.2 (by simp)]
    rfl
  | cons k keys ih =>
    rw [List.foldl_cons, ih, getD_removeFromIndex, List.filter_filter]
    apply List.filter_congr
    intro i _
    by_cases hk : k = key
    · subst hk
      by_cases hi : i = id <;> simp [hi]
    · simp [hk, Ne.symm hk]

/-! ### Entries after an edit -/

theorem get?_insert (th : Theory) (t : Term) (id : EntryId) :
    (th.insert t).2.get? id = if id = th.entries.size then some t else th.get? id := by
  unfold get? insert
  rw [Array.getElem?_push]
  by_cases hid : id = th.entries.size
  · rw [if_pos hid, if_pos hid]
    rfl
  · rw [if_neg hid, if_neg hid]

private theorem join_getElem?_popWhile (entries : Array (Option Term)) (id : EntryId) :
    ((entries.popWhile Option.isNone)[id]?).join = (entries[id]?).join := by
  induction entries using Array.popWhile.induct (p := Option.isNone) with
  | case1 entries hpos hlast ih =>
    rw [Array.popWhile, dif_pos hpos, if_pos hlast, ih, Array.getElem?_pop]
    split
    · rfl
    · rename_i hge
      by_cases hid : id = entries.size - 1
      · subst hid
        rw [Array.getElem?_eq_getElem (Nat.sub_lt hpos Nat.one_pos), Option.isNone_iff_eq_none.1 hlast]
        rfl
      · have hle : entries.size ≤ id := by
          have : entries.size - 1 ≠ id := Ne.symm hid
          exact Nat.le_of_pred_lt (Nat.lt_of_le_of_ne (Nat.le_of_not_lt hge) this)
        rw [Array.getElem?_eq_none hle]
  | case2 entries hpos hlast => rw [Array.popWhile, dif_pos hpos, if_neg hlast]
  | case3 entries hpos => rw [Array.popWhile, dif_neg hpos]

private theorem size_popWhile_le (entries : Array (Option Term)) :
    (entries.popWhile Option.isNone).size ≤ entries.size := by
  induction entries using Array.popWhile.induct (p := Option.isNone) with
  | case1 entries hpos hlast ih =>
    rw [Array.popWhile, dif_pos hpos, if_pos hlast]
    rw [Array.size_pop] at ih
    omega
  | case2 entries hpos hlast => exact Nat.le_of_eq (by rw [Array.popWhile, dif_pos hpos, if_neg hlast])
  | case3 entries hpos => exact Nat.le_of_eq (by rw [Array.popWhile, dif_neg hpos])

theorem remove_of_get?_eq_none (h : th.get? id = none) : (th.remove id).2 = th := by
  unfold remove
  rw [h]

theorem remove_of_get? (h : th.get? id = some t) :
    (th.remove id).2 = { th with
      entries := (th.entries.set! id none).popWhile Option.isNone
      size := th.size - 1
      index := (th.mode.keys t).foldl (removeFromIndex id) th.index } := by
  unfold remove
  rw [h]

theorem get?_remove (th : Theory) (id id' : EntryId) :
    (th.remove id).2.get? id' = if id' = id then none else th.get? id' := by
  cases h : th.get? id with
  | none =>
    rw [remove_of_get?_eq_none h]
    split
    · subst_vars
      exact h
    · rfl
  | some t =>
    rw [remove_of_get? h]
    unfold get?
    rw [join_getElem?_popWhile]
    simp only [Array.set!_eq_setIfInBounds, Array.getElem?_setIfInBounds]
    by_cases hid : id = id'
    · subst hid
      simp only [if_true]
      split <;> rfl
    · rw [if_neg hid, if_neg (Ne.symm hid)]

theorem size_entries_remove_le (th : Theory) (id : EntryId) : (th.remove id).2.entries.size ≤ th.entries.size := by
  cases h : th.get? id with
  | none => exact Nat.le_of_eq (by rw [remove_of_get?_eq_none h])
  | some t =>
    rw [remove_of_get? h]
    have := size_popWhile_le (th.entries.set! id none)
    simpa using this

/-! ### Places and terms -/

theorem mem_ids : id ∈ th.ids ↔ (th.get? id).isSome := by
  unfold ids
  rw [List.mem_filter, List.mem_range]
  constructor
  · rintro ⟨-, h⟩
    exact h
  · intro h
    refine ⟨?_, h⟩
    unfold get? at h
    by_cases hid : id < th.entries.size
    · exact hid
    · rw [Array.getElem?_eq_none (Nat.le_of_not_lt hid)] at h
      cases h

/-- Places beyond the entries may be counted in: nothing is there. -/
private theorem ids_eq_of_le {n : Nat} (h : th.entries.size ≤ n) :
    th.ids = (List.range n).filter fun id => (th.get? id).isSome := by
  obtain ⟨k, rfl⟩ := Nat.exists_eq_add_of_le h
  rw [List.range_add, List.filter_append, List.filter_map]
  have hnone : (List.range k).filter ((fun id => (th.get? id).isSome) ∘ fun i => th.entries.size + i) = [] := by
    rw [List.filter_eq_nil_iff]
    intro i _
    unfold get?
    rw [Function.comp_apply, Array.getElem?_eq_none (by omega)]
    simp
  rw [hnone, List.map_nil, List.append_nil]
  rfl

theorem ids_insert (th : Theory) (t : Term) : (th.insert t).2.ids = th.ids ++ [th.entries.size] := by
  have hsize : (th.insert t).2.entries.size = th.entries.size + 1 := by simp [insert]
  unfold ids
  rw [hsize, List.range_succ, List.filter_append]
  congr 1
  · apply List.filter_congr
    intro id hid
    rw [List.mem_range] at hid
    rw [get?_insert, if_neg (Nat.ne_of_lt hid)]
  · rw [List.filter_cons, get?_insert, if_pos rfl]
    rfl

theorem ids_remove (th : Theory) (id : EntryId) : (th.remove id).2.ids = th.ids.filter (· ≠ id) := by
  rw [ids_eq_of_le (size_entries_remove_le th id)]
  unfold ids
  rw [List.filter_filter]
  apply List.filter_congr
  intro id' _
  rw [get?_remove]
  by_cases hid : id' = id <;> simp [hid]

/-- The terms are those at the places that are not holes. -/
theorem toList_eq (th : Theory) : th.toList = th.ids.filterMap th.get? := by
  have hentries : th.entries.toList = (List.range th.entries.size).map th.get? := by
    apply List.ext_getElem
    · simp
    · intro i hi _
      have hi' : i < th.entries.size := by simpa using hi
      simp [get?, Array.getElem?_eq_getElem hi']
  unfold toList ids
  rw [hentries, List.filterMap_map, List.filterMap_filter]
  congr 1
  funext id
  rw [Function.comp_apply]
  cases th.get? id <;> simp

theorem toList_insert (th : Theory) (t : Term) : (th.insert t).2.toList = th.toList ++ [t] := by
  unfold toList insert
  simp

theorem toList_insertAll (th : Theory) (terms : List Term) : (th.insertAll terms).toList = th.toList ++ terms := by
  unfold insertAll
  induction terms generalizing th with
  | nil => simp
  | cons t terms ih => rw [List.foldl_cons, ih, toList_insert, List.append_assoc, List.singleton_append]

theorem toList_ofList (mode : IndexMode) (terms : List Term) : (ofList mode terms).toList = terms := by
  unfold ofList
  rw [toList_insertAll]
  simp [toList]

theorem mode_insertAll (th : Theory) (terms : List Term) : (th.insertAll terms).mode = th.mode := by
  unfold insertAll
  induction terms generalizing th with
  | nil => rfl
  | cons t terms ih => rw [List.foldl_cons, ih]; rfl

/-! ### The index -/

/-- The index has for each key the entries with that key, in order. -/
structure Indexed (th : Theory) : Prop where
  bucket_eq : ∀ key, th.bucket key = th.ids.filter fun id => (th.get? id).any fun t => key ∈ th.mode.keys t

namespace Indexed

theorem empty (mode : IndexMode) : Indexed { mode } where
  bucket_eq key := by simp [bucket, ids]

theorem insert (h : th.Indexed) (t : Term) : (th.insert t).2.Indexed where
  bucket_eq key := by
    have hold : th.ids.filter (fun id => ((th.insert t).2.get? id).any fun u => key ∈ th.mode.keys u) =
        th.ids.filter fun id => (th.get? id).any fun u => key ∈ th.mode.keys u := by
      apply List.filter_congr
      intro id hid
      have hlt : id < th.entries.size := List.mem_range.1 (List.mem_filter.1 hid).1
      rw [get?_insert, if_neg (Nat.ne_of_lt hlt)]
    have hmode : (th.insert t).2.mode = th.mode := rfl
    rw [ids_insert, List.filter_append, hmode, hold, ← h.bucket_eq key, List.filter_cons, get?_insert, if_pos rfl]
    unfold bucket Theory.insert
    rw [getD_foldl_addToIndex (th.mode.nodup_keys t)]
    simp

theorem remove (h : th.Indexed) (id : EntryId) : (th.remove id).2.Indexed where
  bucket_eq key := by
    cases hid : th.get? id with
    | none =>
      rw [remove_of_get?_eq_none hid]
      exact h.bucket_eq key
    | some t =>
      have hbucket : (th.remove id).2.bucket key = (th.bucket key).filter fun i => key ∈ th.mode.keys t → i ≠ id := by
        rw [remove_of_get? hid]
        exact getD_foldl_removeFromIndex _ _ _ _
      have hmode : (th.remove id).2.mode = th.mode := by rw [remove_of_get? hid]
      rw [hbucket, h.bucket_eq, ids_remove, hmode, List.filter_filter, List.filter_filter]
      apply List.filter_congr
      intro i _
      rw [get?_remove]
      by_cases hi : i = id
      · subst hi
        rw [hid]
        by_cases hkey : key ∈ th.mode.keys t <;> simp [hkey]
      · simp [hi]

end Indexed

/-! ### Theories that come about -/

/-- The theories that come about from an empty one by inserting terms and removing entries. -/
inductive Reachable : Theory → Prop
  | empty (mode : IndexMode) : Reachable { mode }
  | insert {th : Theory} (h : Reachable th) (t : Term) : Reachable (th.insert t).2
  | remove {th : Theory} (h : Reachable th) (id : EntryId) : Reachable (th.remove id).2

namespace Reachable

/-- However a theory was edited, its index is that of its entries. -/
theorem indexed (h : th.Reachable) : th.Indexed := by
  induction h with
  | empty mode => exact .empty mode
  | insert _ t ih => exact ih.insert t
  | remove _ id ih => exact ih.remove id

theorem insertAll (h : th.Reachable) (terms : List Term) : (th.insertAll terms).Reachable := by
  unfold Theory.insertAll
  induction terms generalizing th with
  | nil => exact h
  | cons t terms ih => exact ih (h.insert t)

theorem ofList (mode : IndexMode) (terms : List Term) : (Theory.ofList mode terms).Reachable :=
  (Reachable.empty mode).insertAll terms

theorem compact (h : th.Reachable) : th.compact.Reachable := by
  unfold Theory.compact
  split
  · exact h
  · exact (Reachable.empty th.mode).insertAll th.toList

theorem removeCompact (h : th.Reachable) (id : Option EntryId) : (th.removeCompact id).2.Reachable := by
  cases id with
  | none => exact h
  | some id => exact (h.remove id).compact

theorem removeFirst (h : th.Reachable) (t : Term) : (th.removeFirst t).2.Reachable := h.removeCompact _

theorem removeLast (h : th.Reachable) (t : Term) : (th.removeLast t).2.Reachable := h.removeCompact _

theorem save (h : th.Reachable) (t : Term) : (th.save t).2.Reachable := by
  unfold Theory.save
  split
  · exact h
  · exact h.insert t

end Reachable

/-! ### Lookups -/

theorem mem_of_get? {th : Theory} {id : EntryId} {t : Term} (h : th.get? id = some t) : t ∈ th.toList := by
  unfold get? at h
  rw [Option.join_eq_some_iff] at h
  exact List.mem_filterMap.2 ⟨some t, Array.mem_toList_iff.2 (Array.mem_of_getElem? h), rfl⟩

theorem mem_of_mem_lookup {th : Theory} {query t : Term} (h : t ∈ th.lookup query) : t ∈ th.toList := by
  obtain ⟨id, -, hid⟩ := List.mem_filterMap.1 h
  exact th.mem_of_get? hid

theorem mem_of_mem_lookupIn {th : Theory} {s : Store} {query t : Term} {env : EnvId}
    (h : t ∈ th.lookupIn s query env) : t ∈ th.toList := by
  obtain ⟨id, -, hid⟩ := List.mem_filterMap.1 h
  exact th.mem_of_get? hid

/-- The key that a lookup of a term goes by, if there is one. -/
def queryKey (th : Theory) (query : Term) : Option String :=
  match th.mode with
  | .none => none
  | .full => th.narrowest query.symbols
  | .rule => query.headOrSelf.functor?
  | .shallow => query.functor?

/-- The key that a lookup under the bindings of a store goes by. -/
def queryKeyIn (th : Theory) (s : Store) (query : Term) (env : EnvId) : Option String :=
  match th.mode with
  | .full => th.narrowest (boundSymbolsAt s allowance query env [])
  | _ => th.queryKey (s.resolve query env).term

/-- Is a term among those that a lookup by the key gives? -/
def admits (th : Theory) (key : Option String) (t : Term) : Bool :=
  key.all fun key => th.mode = .none || !isIndexable key || key ∈ th.mode.keys t

/-- The terms with a key are a part of all terms, in their order. -/
theorem Indexed.map_idsFor (h : th.Indexed) (key : Option String) :
    (th.idsFor key).filterMap th.get? = th.toList.filter (th.admits key) := by
  cases key with
  | none =>
    have hadmits (t : Term) (_ : t ∈ th.toList) : th.admits none t = true := rfl
    rw [List.filter_eq_self.2 hadmits, toList_eq]
    rfl
  | some key =>
    unfold idsFor keyIds admits
    rw [toList_eq]
    dsimp only
    by_cases hall : (th.mode = .none || !isIndexable key) = true
    · rw [if_pos hall, List.filter_eq_self.2]
      intro t _
      rw [Option.all_some, hall, Bool.true_or]
    · have hindexed := h.bucket_eq key
      unfold bucket at hindexed
      rw [if_neg hall, hindexed, List.filterMap_filter, List.filter_filterMap]
      congr 1
      funext id
      cases hid : th.get? id with
      | none => rfl
      | some t =>
        have hnot := Bool.eq_false_iff.2 hall
        simp only [Option.all_some, Option.any_some, hnot, Bool.false_or]
        rfl

theorem lookup_eq (h : th.Indexed) (query : Term) :
    th.lookup query = th.toList.filter (th.admits (th.queryKey query)) := by
  rw [← h.map_idsFor]
  unfold lookup lookupIds queryKey
  cases th.mode <;> rfl

theorem lookupIn_eq (h : th.Indexed) (s : Store) (query : Term) (env : EnvId) :
    th.lookupIn s query env = th.toList.filter (th.admits (th.queryKeyIn s query env)) := by
  rw [← h.map_idsFor]
  unfold lookupIn lookupIdsIn queryKeyIn queryKey lookupIds
  cases th.mode <;> rfl

/-! ### Terms that are looked up by their own keys -/

theorem narrowest_mem {symbols : List String} (h : th.narrowest symbols = some key) :
    key ∈ symbols ∧ isIndexable key = true := by
  unfold narrowest at h
  obtain ⟨hmem, hkey⟩ := List.mem_filter.1 (List.minOn?_mem h)
  exact ⟨hmem, hkey⟩

theorem mem_functorKeys (h : t.functor? = some key) (hkey : isIndexable key = true) :
    key ∈ IndexMode.functorKeys t := by
  unfold IndexMode.functorKeys
  rw [h, Option.filter_some, if_pos hkey]
  simp

theorem mem_functorKeys_iff (hkey : isIndexable key = true) : key ∈ IndexMode.functorKeys t ↔ t.functor? = some key := by
  constructor
  · intro hmem
    unfold IndexMode.functorKeys at hmem
    rw [Option.mem_toList, Option.filter_eq_some_iff] at hmem
    exact hmem.1
  · exact fun hf => mem_functorKeys hf hkey

/-- Without an index, and for a relation that is no key, all entries are looked at. -/
theorem defines_of_not_indexed {relation : String} (h : th.mode = .none ∨ isIndexable relation = false) :
    th.defines relation = true ↔ ∃ t ∈ th.toList, t.operator? = some relation := by
  unfold defines
  rw [if_neg]
  · simp
  · rcases h with h | h <;> simp [h]

/-- In a theory of rules, the index knows the relations of the heads. -/
theorem Indexed.defines_of_indexable (h : th.Indexed) (hmode : th.mode = .rule) {relation : String}
    (hindexable : isIndexable relation = true) :
    th.defines relation = true ↔ ∃ t ∈ th.toList, t.headOrSelf.functor? = some relation := by
  have hkeys (t : Term) : relation ∈ th.mode.keys t ↔ t.headOrSelf.functor? = some relation := by
    rw [hmode]
    exact mem_functorKeys_iff hindexable
  have hbucket := h.bucket_eq relation
  unfold bucket at hbucket
  unfold defines
  rw [hindexable, hmode, if_pos (by simp), Bool.not_eq_true', ← Bool.not_eq_true, Array.isEmpty_iff,
    ← Array.toList_eq_nil_iff, hbucket, List.filter_eq_nil_iff, toList_eq]
  simp only [List.mem_filterMap, Option.any_eq_true, decide_eq_true_iff, hkeys, Classical.not_forall,
    Classical.not_not, exists_prop]
  constructor
  · rintro ⟨id, hid, t, ht, hf⟩
    exact ⟨t, ⟨id, hid, ht⟩, hf⟩
  · rintro ⟨t, ⟨id, hid, ht⟩, hf⟩
    exact ⟨id, hid, t, ht, hf⟩

/-- Where every sentence is about the relation of its head, it makes no difference which relations are keys. -/
theorem Indexed.defines_iff (h : th.Indexed) (hmode : th.mode = .rule)
    (hoperator : ∀ t ∈ th.toList, t.operator? = t.headOrSelf.functor?) (relation : String) :
    th.defines relation = true ↔ ∃ t ∈ th.toList, t.headOrSelf.functor? = some relation := by
  cases hindexable : isIndexable relation with
  | true => exact h.defines_of_indexable hmode hindexable
  | false =>
    rw [defines_of_not_indexed (.inr hindexable)]
    constructor
    · rintro ⟨t, ht, hf⟩
      exact ⟨t, ht, hoperator t ht ▸ hf⟩
    · rintro ⟨t, ht, hf⟩
      exact ⟨t, ht, (hoperator t ht).trans hf⟩

/-- A term has whatever a query could be looked up by: the symbols, the functor, and the functor of the head. -/
structure Covers (symbols : List String) (query t : Term) : Prop where
  symbols : ∀ a ∈ symbols, a ∈ t.symbols
  functor : ∀ f, query.functor? = some f → t.functor? = some f
  head : ∀ f, query.headOrSelf.functor? = some f → t.headOrSelf.functor? = some f

/-- The key that a lookup goes by if these are the symbols of the query. -/
def keyAmong (th : Theory) (symbols : List String) (query : Term) : Option String :=
  match th.mode with
  | .none => none
  | .full => th.narrowest symbols
  | .rule => query.headOrSelf.functor?
  | .shallow => query.functor?

theorem queryKey_eq (th : Theory) (query : Term) : th.queryKey query = th.keyAmong query.symbols query := by
  unfold queryKey keyAmong
  cases th.mode <;> rfl

theorem queryKeyIn_eq (th : Theory) (s : Store) (query : Term) (env : EnvId) :
    th.queryKeyIn s query env =
      th.keyAmong (boundSymbolsAt s allowance query env []) (s.resolve query env).term := by
  unfold queryKeyIn queryKey keyAmong
  cases th.mode <;> rfl

/-- Whatever the mode of the index is, its key is one that the term has. -/
theorem Covers.admits {symbols : List String} {query : Term} (h : Covers symbols query t) (th : Theory) :
    th.admits (th.keyAmong symbols query) t = true := by
  have hfunctor (u : Term) (key : String) (hu : u.functor? = some key) :
      (!isIndexable key || decide (key ∈ IndexMode.functorKeys u)) = true := by
    cases hkey : isIndexable key with
    | false => rfl
    | true => simpa using mem_functorKeys hu hkey
  unfold Theory.admits
  rw [Option.all_eq_true]
  intro key hkey
  unfold keyAmong at hkey
  cases hmode : th.mode with
  | none => rfl
  | full =>
    rw [hmode] at hkey
    obtain ⟨hmem, hindexable⟩ := narrowest_mem hkey
    simp [IndexMode.keys, h.symbols key hmem, hindexable]
  | rule =>
    rw [hmode] at hkey
    exact hfunctor t.headOrSelf key (h.head key hkey)
  | shallow =>
    rw [hmode] at hkey
    exact hfunctor t key (h.functor key hkey)

/-- A term is among those that a lookup of it gives. -/
theorem admits_queryKey (th : Theory) (t : Term) : th.admits (th.queryKey t) t = true := by
  rw [queryKey_eq]
  exact Covers.admits ⟨fun _ h => h, fun _ h => h, fun _ h => h⟩ th

/-- Whether a term is there is found out exactly. -/
theorem contains_iff (h : th.Indexed) (t : Term) : th.contains t = true ↔ t ∈ th.toList := by
  unfold contains
  rw [lookup_eq h, List.contains_iff_mem, List.mem_filter]
  exact ⟨fun hm => hm.1, fun hm => ⟨hm, admits_queryKey th t⟩⟩

end Theory

end Deduction
