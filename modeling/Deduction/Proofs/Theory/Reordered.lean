import Deduction.Proofs.Theory.Index

/-!
# Terms in another order

Two theories may hold the same terms, where those of one kind stand in another order and at other places. The index has as
many entries for every key then, so lookups go by the same keys (`Reordered.queryKeyIn_eq`). They give the same terms in
the same order, but for those of the kind (`Reordered.lookupIn_others`).
-/

namespace Deduction.Theory

variable {th th' : Theory} {p : Term → Bool} {query : Term}

/-- The index has an entry for a key as often as a term has the key. -/
theorem Indexed.length_bucket (h : th.Indexed) (key : String) :
    (th.bucket key).length = th.toList.countP (key ∈ th.mode.keys ·) := by
  rw [h.bucket_eq, toList_eq, List.countP_filterMap, ← List.countP_eq_length_filter]
  refine List.countP_congr fun id _ => ?_
  cases th.get? id <;> rfl

/-- The theories hold the same terms, and in the same order those that are not of the kind. -/
structure Reordered (p : Term → Bool) (th th' : Theory) : Prop where
  left : th.Reachable
  right : th'.Reachable
  mode_eq : th.mode = th'.mode
  perm : th.toList.Perm th'.toList
  others : th.toList.filter (!p ·) = th'.toList.filter (!p ·)

namespace Reordered

variable (h : th.Reordered p th')

include h

/-! ### Keys -/

theorem size_index (key : String) : (th.index.getD key #[]).size = (th'.index.getD key #[]).size := by
  have hlength := h.perm.countP_eq (key ∈ th.mode.keys ·)
  rw [← h.left.indexed.length_bucket, h.mode_eq, ← h.right.indexed.length_bucket] at hlength
  exact hlength

theorem narrowest_eq (symbols : List String) : th.narrowest symbols = th'.narrowest symbols := by
  unfold narrowest
  simp only [h.size_index]

theorem keyAmong_eq (symbols : List String) (query : Term) : th.keyAmong symbols query = th'.keyAmong symbols query := by
  unfold keyAmong
  rw [h.mode_eq, h.narrowest_eq]

theorem queryKey_eq (query : Term) : th.queryKey query = th'.queryKey query := by
  rw [Theory.queryKey_eq, Theory.queryKey_eq, h.keyAmong_eq]

theorem queryKeyIn_eq (s : Store) (query : Term) (env : EnvId) :
    th.queryKeyIn s query env = th'.queryKeyIn s query env := by
  rw [Theory.queryKeyIn_eq, Theory.queryKeyIn_eq, h.keyAmong_eq]

theorem admits_eq (key : Option String) : th.admits key = th'.admits key := by
  funext t
  unfold admits
  rw [h.mode_eq]

/-! ### Relations -/

theorem defines_eq (relation : String) : th.defines relation = th'.defines relation := by
  have hany : (th.toList.any fun t => t.operator? = some relation) = th'.toList.any fun t => t.operator? = some relation :=
    h.perm.any_eq
  have hempty : (th.index.getD relation #[]).isEmpty = (th'.index.getD relation #[]).isEmpty := by
    unfold Array.isEmpty
    rw [h.size_index]
  unfold defines
  rw [h.mode_eq, hany, hempty]

/-! ### Lookups -/

theorem filter_others (f : Term → Bool) : (th.toList.filter f).filter (!p ·) = (th'.toList.filter f).filter (!p ·) := by
  have hcomm (l : List Term) : (l.filter f).filter (!p ·) = (l.filter (!p ·)).filter f := by
    simp only [List.filter_filter, Bool.and_comm]
  rw [hcomm, h.others, hcomm]

theorem lookup_perm (query : Term) : (th.lookup query).Perm (th'.lookup query) := by
  rw [lookup_eq h.left.indexed, lookup_eq h.right.indexed, h.queryKey_eq, h.admits_eq]
  exact h.perm.filter _

theorem lookup_others (query : Term) : (th.lookup query).filter (!p ·) = (th'.lookup query).filter (!p ·) := by
  rw [lookup_eq h.left.indexed, lookup_eq h.right.indexed, h.queryKey_eq, h.admits_eq]
  exact h.filter_others _

/-- What is read off from the other terms that are found is the same. -/
theorem filterMap_lookup {α : Type} {f : Term → Option α} (hf : ∀ t, p t = true → f t = none) (query : Term) :
    (th.lookup query).filterMap f = (th'.lookup query).filterMap f := by
  have hskip (terms : List Term) : (terms.filter (!p ·)).filterMap f = terms.filterMap f := by
    induction terms with
    | nil => rfl
    | cons t terms ih =>
      cases ht : p t with
      | true => rw [List.filter_cons_of_neg (by simp [ht]), List.filterMap_cons_none (hf t ht), ih]
      | false => rw [List.filter_cons_of_pos (by simp [ht]), List.filterMap_cons, List.filterMap_cons, ih]
  rw [← hskip, h.lookup_others, hskip]

theorem lookupIn_others (s : Store) (query : Term) (env : EnvId) :
    (th.lookupIn s query env).filter (!p ·) = (th'.lookupIn s query env).filter (!p ·) := by
  rw [lookupIn_eq h.left.indexed, lookupIn_eq h.right.indexed, h.queryKeyIn_eq, h.admits_eq]
  exact h.filter_others _

end Reordered

end Deduction.Theory
