import Mathlib.Data.List.Forall2
import Mathlib.Logic.Equiv.Basic
import Deduction.Proofs.Datalog.Program
import Deduction.Proofs.Theory.Index
import Deduction.Proofs.Variants.Terms

/-!
# Variants of rules

A variant of a sentence has other names for its variables, different ones for different variables. Such a renaming is
part of a permutation of all names, which spares the names that are neither given up nor given
(`Term.Variant.permuted`). An index does not tell theories apart whose sentences are variants: the same relations
are defined (`Theory.Variants.defines_eq`), and variants are found in the same places (`Theory.Variants.lookupIn`).
-/

namespace Deduction

variable {P : String → Prop} {π : Equiv.Perm String} {t u : Term} {σ : String → String} {vs : List String}

/-! ### Variants of sentences -/

/-- The second sentence is the first one with other names for its variables, different ones for different variables. The
names of the set are neither given up nor given. -/
def Term.Variant (P : String → Prop) (t u : Term) : Prop :=
  ∃ σ : String → String, (∀ v ∈ t.vars, ∀ w ∈ t.vars, σ v = σ w → v = w) ∧
    (∀ v ∈ t.vars, P v ∨ P (σ v) → σ v = v) ∧ u = t.instantiate fun v => .var (σ v)

/-- The second sentence is the first one after a permutation that spares the names of the set. -/
def Term.Permuted (P : String → Prop) (t u : Term) : Prop := ∃ π, Spares P π ∧ u = t.relabel π

/-- Names that are given to some variables, different ones to different variables, are given by a permutation of all
names. -/
theorem exists_permutation (hinj : ∀ v ∈ vs, ∀ w ∈ vs, σ v = σ w → v = w)
    (hspared : ∀ v ∈ vs, P v ∨ P (σ v) → σ v = v) : ∃ π : Equiv.Perm String, Spares P π ∧ ∀ v ∈ vs, π v = σ v := by
  induction vs with
  | nil => exact ⟨1, .one P, by simp⟩
  | cons v vs ih =>
    obtain ⟨π, hπ, hagree⟩ := ih
      (fun u hu w hw => hinj u (List.mem_cons_of_mem v hu) w (List.mem_cons_of_mem v hw))
      fun u hu => hspared u (List.mem_cons_of_mem v hu)
    by_cases hsame : π v = σ v
    · exact ⟨π, hπ, List.forall_mem_cons.2 ⟨hsame, hagree⟩⟩
    · -- The new name of the variable and the name it has so far change places.
      have hv : ¬ P v := fun hP => hsame ((hπ v hP).trans (hspared v List.mem_cons_self (Or.inl hP)).symm)
      have hnew : ¬ P (σ v) := fun hP => hv (hspared v List.mem_cons_self (Or.inr hP) ▸ hP)
      have hold : ¬ P (π v) := fun hP => hv (π.injective (hπ (π v) hP) ▸ hP)
      refine ⟨Equiv.swap (π v) (σ v) * π, fun w hw => ?_, List.forall_mem_cons.2 ⟨?_, fun w hw => ?_⟩⟩
      · rw [Equiv.Perm.mul_apply, hπ w hw]
        exact Equiv.swap_apply_of_ne_of_ne (fun h => hold (h ▸ hw)) fun h => hnew (h ▸ hw)
      · rw [Equiv.Perm.mul_apply, Equiv.swap_apply_left]
      · rw [Equiv.Perm.mul_apply, hagree w hw]
        have hne : w ≠ v := fun h => hsame (h ▸ hagree w hw)
        refine Equiv.swap_apply_of_ne_of_ne (fun h => hne ?_) fun h => hne ?_
        · exact π.injective ((hagree w hw).trans h)
        · exact hinj w (List.mem_cons_of_mem v hw) v List.mem_cons_self h

mutual
theorem Term.instantiate_eq_relabel : (t : Term) → (∀ v ∈ t.vars, π v = σ v) →
    (t.instantiate fun v => .var (σ v)) = t.relabel π
  | var v, h => by rw [instantiate, relabel_var, h v (mem_vars_var.2 rfl)]
  | sym _, _ => rfl
  | compound f args, h => by
    rw [instantiate, relabel_compound,
      instantiateList_eq_relabel args fun t ht v hv => h v (mem_vars_compound.2 ⟨t, ht, hv⟩)]

theorem Term.instantiateList_eq_relabel : (ts : List Term) → (∀ t ∈ ts, ∀ v ∈ t.vars, π v = σ v) →
    (instantiateList (fun v => .var (σ v)) ts) = ts.map (relabel π)
  | [], _ => rfl
  | t :: ts, h => by
    rw [instantiateList, List.map_cons, instantiate_eq_relabel t (h t List.mem_cons_self),
      instantiateList_eq_relabel ts fun u hu => h u (List.mem_cons_of_mem t hu)]
end

theorem Term.Variant.permuted (h : t.Variant P u) : t.Permuted P u := by
  obtain ⟨σ, hinj, hspared, rfl⟩ := h
  obtain ⟨π, hπ, hagree⟩ := exists_permutation hinj hspared
  exact ⟨π, hπ, t.instantiate_eq_relabel hagree⟩

/-! ### Variants of theories -/

theorem IndexMode.keys_relabel (mode : IndexMode) (t : Term) : mode.keys (t.relabel π) = mode.keys t := by
  have hfunctor (u : Term) : functorKeys (u.relabel π) = functorKeys u := by
    unfold functorKeys
    rw [Term.functor?_relabel]
  cases mode with
  | full => exact congrArg (fun symbols => (symbols.filter isIndexable).eraseDups) (Term.symbols_relabel t)
  | rule =>
    rw [keys, keys, Term.headOrSelf_relabel]
    exact hfunctor t.headOrSelf
  | shallow => exact hfunctor t
  | none => rfl

namespace Theory

variable {th th' : Theory} {query : Term} {s : Store} {e : EnvId}

/-- A key has as many entries as there are terms with that key. -/
theorem length_bucket (h : th.Indexed) (key : String) :
    (th.bucket key).length = (th.toList.filter fun t => key ∈ th.mode.keys t).length := by
  have hcount (ids : List EntryId) :
      (ids.filter fun id => (th.get? id).any fun t => key ∈ th.mode.keys t).length =
        ((ids.filterMap th.get?).filter fun t => key ∈ th.mode.keys t).length := by
    induction ids with
    | nil => rfl
    | cons id ids ih =>
      rw [List.filter_cons, List.filterMap_cons]
      cases th.get? id with
      | none => exact ih
      | some t =>
        rw [Option.any_some, List.filter_cons]
        split
        · rw [List.length_cons, List.length_cons, ih]
        · exact ih
  rw [h.bucket_eq, hcount, toList_eq]

/-- The sentences of the second theory are variants of those of the first one, in the same places. -/
structure Variants (P : String → Prop) (th th' : Theory) : Prop where
  indexed : th.Indexed
  indexed' : th'.Indexed
  mode_eq : th'.mode = th.mode
  permuted : List.Forall₂ (Term.Permuted P) th.toList th'.toList

theorem forall₂_filter {p q : Term → Bool} (hpq : ∀ t u, Term.Permuted P t u → p t = q u) {ts us : List Term}
    (h : List.Forall₂ (Term.Permuted P) ts us) : List.Forall₂ (Term.Permuted P) (ts.filter p) (us.filter q) := by
  induction h with
  | nil => exact .nil
  | @cons t u ts us htu _ ih =>
    rw [List.filter_cons, List.filter_cons, hpq t u htu]
    split
    · exact .cons htu ih
    · exact ih

namespace Variants

theorem keys_eq (h : th.Variants P th') (htu : t.Permuted P u) : th'.mode.keys u = th.mode.keys t := by
  obtain ⟨π, -, rfl⟩ := htu
  rw [h.mode_eq, IndexMode.keys_relabel]

theorem length_bucket_eq (h : th.Variants P th') (key : String) :
    (th'.bucket key).length = (th.bucket key).length := by
  rw [length_bucket h.indexed, length_bucket h.indexed']
  have hkeys (t u : Term) (htu : t.Permuted P u) : decide (key ∈ th.mode.keys t) = decide (key ∈ th'.mode.keys u) := by
    rw [h.keys_eq htu]
  exact (forall₂_filter hkeys h.permuted).length_eq.symm

theorem size_getD_eq (h : th.Variants P th') (key : String) :
    (th'.index.getD key #[]).size = (th.index.getD key #[]).size := by
  have hlength := h.length_bucket_eq key
  unfold bucket at hlength
  rwa [Array.length_toList, Array.length_toList] at hlength

theorem narrowest_eq (h : th.Variants P th') (symbols : List String) : th'.narrowest symbols = th.narrowest symbols := by
  unfold narrowest
  rw [funext h.size_getD_eq]

theorem queryKey_eq (h : th.Variants P th') (query : Term) : th'.queryKey query = th.queryKey query := by
  unfold queryKey
  rw [h.mode_eq, h.narrowest_eq]

theorem queryKeyIn_eq (h : th.Variants P th') (s : Store) (query : Term) (e : EnvId) :
    th'.queryKeyIn s query e = th.queryKeyIn s query e := by
  unfold queryKeyIn
  rw [h.mode_eq, h.narrowest_eq, h.queryKey_eq]

theorem admits_eq (h : th.Variants P th') (key : Option String) (htu : t.Permuted P u) :
    th.admits key t = th'.admits key u := by
  unfold admits
  rw [h.keys_eq htu, h.mode_eq]

/-- Variants are found in the same places. -/
theorem lookup (h : th.Variants P th') (query : Term) :
    List.Forall₂ (Term.Permuted P) (th.lookup query) (th'.lookup query) := by
  rw [lookup_eq h.indexed, lookup_eq h.indexed', h.queryKey_eq]
  exact forall₂_filter (fun t u htu => h.admits_eq _ htu) h.permuted

theorem lookupIn (h : th.Variants P th') (s : Store) (query : Term) (e : EnvId) :
    List.Forall₂ (Term.Permuted P) (th.lookupIn s query e) (th'.lookupIn s query e) := by
  rw [lookupIn_eq h.indexed, lookupIn_eq h.indexed', h.queryKeyIn_eq]
  exact forall₂_filter (fun t u htu => h.admits_eq _ htu) h.permuted

/-- The same relations are defined. -/
theorem defines_eq (h : th.Variants P th') (relation : String) : th'.defines relation = th.defines relation := by
  have hempty : (th'.index.getD relation #[]).isEmpty = (th.index.getD relation #[]).isEmpty := by
    rw [Bool.eq_iff_iff, Array.isEmpty_iff_size_eq_zero, Array.isEmpty_iff_size_eq_zero, h.size_getD_eq]
  have hany {ts us : List Term} (htus : List.Forall₂ (Term.Permuted P) ts us) :
      (us.any fun t => decide (t.operator? = some relation)) = ts.any fun t => decide (t.operator? = some relation) := by
    induction htus with
    | nil => rfl
    | cons htu _ ih =>
      obtain ⟨π, -, rfl⟩ := htu
      rw [List.any_cons, List.any_cons, ih, Term.operator?_relabel]
  unfold defines
  rw [h.mode_eq, hempty, hany h.permuted]

end Variants

end Theory

end Deduction
