import Mathlib.Data.List.Basic
import Mathlib.Data.List.Induction
import Mathlib.Data.List.Nodup
import Mathlib.Data.Prod.Basic
import Deduction.Dedup
import Deduction.Proofs.Order

/-!
# Removing repeated answers keeps every answer

What is left of a list without its repeats are the first occurrences in their order, and nothing else is
(`Dedup.IsFirsts.unique`). Removing repeats by comparison keeps them, and so does sorting and putting back into order, so
every policy that removes repeats gives the same list (`DedupPolicy.apply_eq_byComparison`). There are as many distinct
terms in the order of terms (`Dedup.IsFirsts.length_eq`).

Which answers are left does not depend on the order of terms: answers that are told apart in the same way are removed in
the same way (`DedupPolicy.apply_map`, `Dedup.length_distinct_map`), and so are answers in another order
(`DedupPolicy.apply_perm`).
-/

namespace Deduction

namespace Dedup

variable {α : Type} {t : Term} {terms : List Term}

/-- What is dropped has the same image as something that is kept, if that is how repeats are told. -/
theorem mem_map_dropRepeatsOf {β : Type} {f : α → β} {same : α → α → Bool} (h : ∀ x y, same x y = true → f x = f y)
    (x : α) (ys : List α) (b : β) :
    b = f x ∨ b ∈ (dropRepeatsOf same x ys).map f ↔ b = f x ∨ b ∈ ys.map f := by
  induction ys generalizing x with
  | nil => rfl
  | cons y ys ih =>
    unfold dropRepeatsOf
    cases hxy : same x y with
    | true =>
      rw [if_pos rfl, ih, List.map_cons, List.mem_cons, ← h x y hxy]
      simp
    | false =>
      rw [if_neg Bool.false_ne_true, List.map_cons, List.mem_cons, ih y, List.map_cons, List.mem_cons]

theorem mem_map_dropRepeats {β : Type} {f : α → β} {same : α → α → Bool} (h : ∀ x y, same x y = true → f x = f y)
    (xs : List α) (b : β) : b ∈ (dropRepeats same xs).map f ↔ b ∈ xs.map f := by
  cases xs with
  | nil => rfl
  | cons x xs =>
    rw [dropRepeats, List.map_cons, List.mem_cons, mem_map_dropRepeatsOf h, List.map_cons, List.mem_cons]

theorem mem_bySorting : t ∈ bySorting terms ↔ t ∈ terms := by
  have hsame (x y : Term × Nat) (h : decide (x.1 = y.1) = true) : x.1 = y.1 := of_decide_eq_true h
  unfold bySorting
  have hsorted (placed : List (Term × Nat)) (le : Term × Nat → Term × Nat → Bool) :
      t ∈ (placed.mergeSort le).map Prod.fst ↔ t ∈ placed.map Prod.fst :=
    ((List.mergeSort_perm placed le).map Prod.fst).mem_iff
  rw [hsorted, mem_map_dropRepeats hsame, hsorted, List.zipIdx_map_fst]

/-! ### First elements -/

section First

variable {f : α → Term} {le : α → α → Bool} {x y p : α} {xs ys : List α}

/-- In a sorted list, what is kept of the elements with equal images is the first one. -/
theorem mem_dropRepeatsOf (hle : ∀ x y, le x y = true → (f x).le (f y) = true)
    (hanti : ∀ x y, le x y = true → le y x = true → x = y) (hrefl : ∀ x, le x x = true)
    (hsorted : (x :: ys).Pairwise (le · · = true)) :
    p ∈ dropRepeatsOf (fun x y => decide (f x = f y)) x ys ↔
      p ∈ ys ∧ f p ≠ f x ∧ ∀ q ∈ ys, f q = f p → le p q = true := by
  induction ys generalizing x with
  | nil => simp [dropRepeatsOf]
  | cons y ys ih =>
    obtain ⟨hx, hys⟩ := List.pairwise_cons.1 hsorted
    obtain ⟨hy, hys'⟩ := List.pairwise_cons.1 hys
    unfold dropRepeatsOf
    by_cases hxy : f x = f y
    · rw [if_pos (decide_eq_true hxy), ih (List.pairwise_cons.2 ⟨fun z hz => hx z (List.mem_cons_of_mem y hz), hys'⟩)]
      constructor
      · rintro ⟨hp, hne, hfirst⟩
        refine ⟨List.mem_cons_of_mem y hp, hne, List.forall_mem_cons.2 ⟨fun heq => ?_, hfirst⟩⟩
        exact absurd (heq.symm.trans hxy.symm) hne
      · rintro ⟨hp, hne, hfirst⟩
        rcases List.mem_cons.1 hp with rfl | hp
        · exact absurd hxy.symm hne
        · exact ⟨hp, hne, fun q hq => hfirst q (List.mem_cons_of_mem y hq)⟩
    · rw [if_neg (by simpa using hxy), List.mem_cons, ih hys]
      constructor
      · rintro (rfl | ⟨hp, hne, hfirst⟩)
        · exact ⟨List.mem_cons_self, Ne.symm hxy, List.forall_mem_cons.2 ⟨fun _ => hrefl p, fun q hq _ => hy q hq⟩⟩
        · refine ⟨List.mem_cons_of_mem y hp, fun heq => hxy ?_,
            List.forall_mem_cons.2 ⟨fun heq => absurd heq.symm hne, hfirst⟩⟩
          have hyp := hle y p (hy p hp)
          rw [heq] at hyp
          exact Term.le_antisymm (hle x y (hx y List.mem_cons_self)) hyp
      · rintro ⟨hp, hne, hfirst⟩
        rw [List.forall_mem_cons] at hfirst
        rcases List.mem_cons.1 hp with rfl | hp
        · exact Or.inl rfl
        · by_cases hpy : f p = f y
          · exact Or.inl (hanti p y (hfirst.1 hpy.symm) (hy p hp))
          · exact Or.inr ⟨hp, hpy, hfirst.2⟩

theorem mem_dropRepeats (hle : ∀ x y, le x y = true → (f x).le (f y) = true)
    (hanti : ∀ x y, le x y = true → le y x = true → x = y) (hrefl : ∀ x, le x x = true)
    (hsorted : xs.Pairwise (le · · = true)) :
    p ∈ dropRepeats (fun x y => decide (f x = f y)) xs ↔ p ∈ xs ∧ ∀ q ∈ xs, f q = f p → le p q = true := by
  cases xs with
  | nil => simp [dropRepeats]
  | cons x xs =>
    have hx := (List.pairwise_cons.1 hsorted).1
    rw [dropRepeats, List.mem_cons, mem_dropRepeatsOf hle hanti hrefl hsorted, List.forall_mem_cons]
    constructor
    · rintro (rfl | ⟨hp, hne, hfirst⟩)
      · exact ⟨List.mem_cons_self, fun _ => hrefl p, fun q hq _ => hx q hq⟩
      · exact ⟨List.mem_cons_of_mem x hp, fun heq => absurd heq.symm hne, hfirst⟩
    · rintro ⟨hp, hfirst⟩
      rcases List.mem_cons.1 hp with rfl | hp
      · exact Or.inl rfl
      · by_cases hpx : f p = f x
        · exact Or.inl (hanti p x (hfirst.1 hpx.symm) (hx p hp))
        · exact Or.inr ⟨hp, hpx, hfirst.2⟩

/-- What is kept has different images. -/
theorem pairwise_dropRepeats (hle : ∀ x y, le x y = true → (f x).le (f y) = true)
    (hanti : ∀ x y, le x y = true → le y x = true → x = y) (hrefl : ∀ x, le x x = true)
    (hsorted : xs.Pairwise (le · · = true)) :
    (dropRepeats (fun x y => decide (f x = f y)) xs).Pairwise (f · ≠ f ·) := by
  have hrest (x : α) (ys : List α) (hsorted : (x :: ys).Pairwise (le · · = true)) :
      (x :: dropRepeatsOf (fun x y => decide (f x = f y)) x ys).Pairwise (f · ≠ f ·) := by
    induction ys generalizing x with
    | nil => exact List.pairwise_singleton _ x
    | cons y ys ih =>
      have hmem (p : α) := mem_dropRepeatsOf (p := p) hle hanti hrefl hsorted
      obtain ⟨hx, hys⟩ := List.pairwise_cons.1 hsorted
      refine List.pairwise_cons.2 ⟨fun p hp => Ne.symm ((hmem p).1 hp).2.1, ?_⟩
      unfold dropRepeatsOf
      split
      · have hskip : (x :: ys).Pairwise (le · · = true) :=
          List.pairwise_cons.2 ⟨fun z hz => hx z (List.mem_cons_of_mem y hz), (List.pairwise_cons.1 hys).2⟩
        exact (List.pairwise_cons.1 (ih x hskip)).2
      · exact ih y hys
  cases xs with
  | nil => exact List.Pairwise.nil
  | cons x xs => exact hrest x xs hsorted

end First

/-! ### Sorting with places -/

section Places

variable {x y z : Term × Nat}

theorem leWithPlace_trans (x y z : Term × Nat) (hxy : leWithPlace x y = true) (hyz : leWithPlace y z = true) :
    leWithPlace x z = true :=
  Term.isLE_then (Term.lt_of_lt_of_isLE (Term.isLE_trans x.1 y.1 z.1))
    (Term.lt_of_isLE_of_lt (Term.isLE_trans x.1 y.1 z.1)) Term.eq_trans Std.TransOrd.isLE_trans hxy hyz

theorem swap_leWithPlace (x y : Term × Nat) :
    ((x.1.cmp y.1).then (compare x.2 y.2)).swap = (y.1.cmp x.1).then (compare y.2 x.2) := by
  rw [Ordering.swap_then, Term.cmp_swap, Std.OrientedOrd.eq_swap.symm]

theorem leWithPlace_total (x y : Term × Nat) : (leWithPlace x y || leWithPlace y x) = true := by
  unfold leWithPlace
  rw [← swap_leWithPlace x y]
  cases (x.1.cmp y.1).then (compare x.2 y.2) <;> rfl

theorem leWithPlace_antisymm (x y : Term × Nat) (hxy : leWithPlace x y = true) (hyx : leWithPlace y x = true) :
    x = y := by
  unfold leWithPlace at hxy hyx
  rw [← swap_leWithPlace x y] at hyx
  cases hc : (x.1.cmp y.1).then (compare x.2 y.2) with
  | lt =>
    rw [hc] at hyx
    cases hyx
  | eq =>
    obtain ⟨hterm, hplace⟩ := Ordering.then_eq_eq.1 hc
    exact Prod.ext (Term.eq_of_cmp _ _ hterm) (Nat.compare_eq_eq.1 hplace)
  | gt =>
    rw [hc] at hxy
    cases hxy

theorem leWithPlace_refl (x : Term × Nat) : leWithPlace x x = true := by simpa using leWithPlace_total x x

theorem le_of_leWithPlace (x y : Term × Nat) (h : leWithPlace x y = true) : x.1.le y.1 = true := by
  unfold leWithPlace at h
  unfold Term.le
  cases hc : x.1.cmp y.1 with
  | lt => rfl
  | eq => rfl
  | gt =>
    rw [hc] at h
    cases h

/-- Equal terms are in the order of their places. -/
theorem leWithPlace_of_eq (h : x.1 = y.1) : leWithPlace x y = true ↔ x.2 ≤ y.2 := by
  unfold leWithPlace
  rw [h, Term.cmp_self]
  exact Nat.isLE_compare

/-- The first occurrences with their places, in the order of terms. -/
def firsts (terms : List Term) : List (Term × Nat) :=
  dropRepeats (fun x y => x.1 = y.1) (terms.zipIdx.mergeSort leWithPlace)

theorem pairwise_placed (terms : List Term) :
    (terms.zipIdx.mergeSort leWithPlace).Pairwise (leWithPlace · · = true) :=
  List.pairwise_mergeSort leWithPlace_trans leWithPlace_total _

theorem mem_firsts : x ∈ firsts terms ↔ x ∈ terms.zipIdx ∧ ∀ y ∈ terms.zipIdx, y.1 = x.1 → x.2 ≤ y.2 := by
  have hmem (y : Term × Nat) : y ∈ terms.zipIdx.mergeSort leWithPlace ↔ y ∈ terms.zipIdx :=
    (List.mergeSort_perm _ _).mem_iff
  have hkept := mem_dropRepeats (f := Prod.fst) (p := x) le_of_leWithPlace leWithPlace_antisymm leWithPlace_refl
    (pairwise_placed terms)
  refine hkept.trans (and_congr (hmem x) (forall_congr' fun y => ?_))
  rw [hmem]
  exact forall_congr' fun _ => forall_congr' fun heq => leWithPlace_of_eq heq.symm

theorem pairwise_firsts (terms : List Term) : (firsts terms).Pairwise (·.1 ≠ ·.1) :=
  pairwise_dropRepeats (f := Prod.fst) le_of_leWithPlace leWithPlace_antisymm leWithPlace_refl (pairwise_placed terms)

theorem eq_of_mem_zipIdx (hx : x ∈ terms.zipIdx) (hy : y ∈ terms.zipIdx) (h : x.2 = y.2) : x = y := by
  rw [List.mem_zipIdx_iff_getElem?] at hx hy
  rw [h, hy] at hx
  exact Prod.ext (Option.some.inj hx).symm h

/-- Putting back into order is sorting by places. -/
theorem pairwise_mergeSort_place (placed : List (Term × Nat)) :
    (placed.mergeSort fun x y => x.2 ≤ y.2).Pairwise (·.2 ≤ ·.2) := by
  refine (List.pairwise_mergeSort (fun x y z hxy hyz => ?_) (fun x y => ?_) placed).imp of_decide_eq_true
  · exact decide_eq_true (Nat.le_trans (of_decide_eq_true hxy) (of_decide_eq_true hyz))
  · simpa using Nat.le_total x.2 y.2

end Places

/-! ### First occurrences -/

section Firsts

variable {kept kept' : List Term}

/-- The list has the terms of the other one, each once, in the order of their first occurrences there. -/
structure IsFirsts (terms kept : List Term) : Prop where
  mem_iff : ∀ t, t ∈ kept ↔ t ∈ terms
  ordered : kept.Pairwise (terms.idxOf · < terms.idxOf ·)

theorem IsFirsts.nodup (h : IsFirsts terms kept) : kept.Nodup :=
  h.ordered.imp fun hlt heq => Nat.ne_of_lt hlt (congrArg terms.idxOf heq)

/-- There is only one such list. -/
theorem IsFirsts.unique (h : IsFirsts terms kept) (h' : IsFirsts terms kept') : kept = kept' := by
  have hperm : kept.Perm kept' := by
    rw [List.perm_ext_iff_of_nodup h.nodup h'.nodup]
    exact fun t => (h.mem_iff t).trans (h'.mem_iff t).symm
  exact hperm.eq_of_pairwise (fun _ _ _ _ hlt hgt => absurd hgt (Nat.lt_asymm hlt)) h.ordered h'.ordered

/-- A further term at the end comes after those that there are, unless it is one of them. -/
theorem IsFirsts.adjoin (h : IsFirsts terms kept) (t : Term) : IsFirsts (terms ++ [t]) (adjoin kept t) := by
  have hold (x : Term) (hx : x ∈ kept) : (terms ++ [t]).idxOf x = terms.idxOf x := by
    rw [List.idxOf_append, if_pos ((h.mem_iff x).1 hx)]
  have hordered : kept.Pairwise ((terms ++ [t]).idxOf · < (terms ++ [t]).idxOf ·) := by
    refine List.Pairwise.imp_of_mem (fun hx hy hlt => ?_) h.ordered
    rwa [hold _ hx, hold _ hy]
  unfold Dedup.adjoin
  by_cases ht : t ∈ kept
  · rw [if_pos (List.contains_iff_mem.2 ht)]
    refine ⟨fun x => ?_, hordered⟩
    rw [List.mem_append, List.mem_singleton, h.mem_iff]
    exact ⟨Or.inl, fun hx => hx.elim id fun heq => heq ▸ (h.mem_iff t).1 ht⟩
  · rw [if_neg fun hcontains => ht (List.contains_iff_mem.1 hcontains)]
    refine ⟨fun x => ?_, ?_⟩
    · rw [List.mem_append, List.mem_append, h.mem_iff]
    · refine List.pairwise_append.2 ⟨hordered, List.pairwise_singleton _ t, fun x hx y hy => ?_⟩
      have hnew : t ∉ terms := fun hmem => ht ((h.mem_iff t).2 hmem)
      rw [List.mem_singleton.1 hy, hold x hx, List.idxOf_append, if_neg hnew]
      exact Nat.lt_of_lt_of_le (List.idxOf_lt_length_of_mem ((h.mem_iff x).1 hx)) (Nat.le_add_left _ _)

theorem isFirsts_byComparison (terms : List Term) : IsFirsts terms (byComparison terms) := by
  -- By induction from the end: the terms are gone through from the front, so the last one is adjoined last.
  induction terms using List.reverseRecOn with
  | nil => exact ⟨fun _ => Iff.rfl, .nil⟩
  | append_singleton terms t ih =>
    unfold byComparison
    rw [List.foldl_append]
    exact ih.adjoin t

/-- A first occurrence stands at the first place of its term. -/
theorem snd_of_mem_firsts {x : Term × Nat} (hx : x ∈ firsts terms) : x.2 = terms.idxOf x.1 := by
  obtain ⟨hplace, hfirst⟩ := mem_firsts.1 hx
  have hget : terms[x.2]? = some x.1 := List.mem_zipIdx_iff_getElem?.1 hplace
  have hmem : x.1 ∈ terms := List.mem_of_getElem? hget
  apply Nat.le_antisymm
  · have hidx : (x.1, terms.idxOf x.1) ∈ terms.zipIdx :=
      List.mem_zipIdx_iff_getElem?.2 (List.getElem?_idxOf hmem)
    exact hfirst _ hidx rfl
  · have htake : x.1 ∈ terms.take (x.2 + 1) :=
      List.mem_of_getElem? ((List.getElem?_take_of_lt (Nat.lt_succ_self x.2)).trans hget)
    exact Nat.le_of_lt_succ ((List.mem_take_iff_idxOf_lt hmem).1 htake)

theorem isFirsts_bySorting (terms : List Term) : IsFirsts terms (bySorting terms) := by
  refine ⟨fun _ => mem_bySorting, ?_⟩
  let placed := (firsts terms).mergeSort fun x y => x.2 ≤ y.2
  have hperm : placed.Perm (firsts terms) := List.mergeSort_perm _ _
  have hplaces : placed.Pairwise fun x y => x.2 ≤ y.2 ∧ x.1 ≠ y.1 :=
    (pairwise_mergeSort_place _).and (hperm.symm.pairwise (pairwise_firsts terms) Ne.symm)
  refine List.pairwise_map.2 (hplaces.imp_of_mem fun {x y} hx hy h => ?_)
  rw [← snd_of_mem_firsts (hperm.mem_iff.1 hx), ← snd_of_mem_firsts (hperm.mem_iff.1 hy)]
  -- Two first occurrences at one place would be occurrences of one term.
  refine Nat.lt_of_le_of_ne h.1 fun heq => h.2 ?_
  have hx' := (mem_firsts.1 (hperm.mem_iff.1 hx)).1
  have hy' := (mem_firsts.1 (hperm.mem_iff.1 hy)).1
  exact congrArg Prod.fst (eq_of_mem_zipIdx hx' hy' heq)

theorem isFirsts_iff : IsFirsts terms kept ↔ kept = byComparison terms :=
  ⟨fun h => h.unique (isFirsts_byComparison terms), fun h => h ▸ isFirsts_byComparison terms⟩

end Firsts

/-! ### Distinct terms -/

theorem pairwise_sorted (terms : List Term) : (terms.mergeSort Term.le).Pairwise (Term.le · · = true) :=
  @List.pairwise_mergeSort Term Term.le (fun _ _ _ => Term.le_trans) Term.le_total terms

theorem nodup_distinct (terms : List Term) : (distinct terms).Nodup :=
  pairwise_dropRepeats (f := id) (fun _ _ h => h) (fun _ _ => Term.le_antisymm) Term.le_refl (pairwise_sorted terms)

theorem mem_distinct : t ∈ distinct terms ↔ t ∈ terms := by
  have hsame (x y : Term) (h : decide (x = y) = true) : id x = id y := of_decide_eq_true h
  have hmem := mem_map_dropRepeats hsame (terms.mergeSort Term.le) t
  rw [List.map_id, List.map_id] at hmem
  exact hmem.trans (List.mergeSort_perm terms Term.le).mem_iff

theorem dropRepeatsOf_sublist {α : Type} (same : α → α → Bool) (x : α) (ys : List α) :
    (dropRepeatsOf same x ys).Sublist ys := by
  induction ys generalizing x with
  | nil => exact List.Sublist.refl []
  | cons y ys ih =>
    unfold dropRepeatsOf
    split
    · exact (ih x).cons y
    · exact (ih y).cons_cons y

theorem dropRepeats_sublist {α : Type} (same : α → α → Bool) (xs : List α) : (dropRepeats same xs).Sublist xs := by
  cases xs with
  | nil => exact List.Sublist.refl []
  | cons x xs => exact (dropRepeatsOf_sublist same x xs).cons_cons x

/-- The distinct terms grow strictly. -/
theorem pairwise_distinct (terms : List Term) : (distinct terms).Pairwise fun t u => t.cmp u = .lt := by
  have hle : (distinct terms).Pairwise (Term.le · · = true) :=
    (pairwise_sorted terms).sublist (dropRepeats_sublist _ _)
  refine (hle.and (nodup_distinct terms)).imp fun {t u} h => ?_
  obtain ⟨hle, hne⟩ := h
  unfold Term.le at hle
  cases hcmp : t.cmp u with
  | lt => rfl
  | eq => exact absurd (Term.eq_of_cmp t u hcmp) hne
  | gt =>
    rw [hcmp] at hle
    cases hle

theorem IsFirsts.length_eq {kept : List Term} (h : IsFirsts terms kept) : kept.length = (distinct terms).length := by
  have hperm : kept.Perm (distinct terms) := by
    rw [List.perm_ext_iff_of_nodup h.nodup (nodup_distinct terms)]
    exact fun t => (h.mem_iff t).trans mem_distinct.symm
  exact hperm.length_eq

/-! ### Answers under other names -/

section Map

variable {f : Term → Term} (hf : Function.Injective f)

include hf

theorem adjoin_map (kept : List Term) (t : Term) : adjoin (kept.map f) (f t) = (adjoin kept t).map f := by
  have hcontains : (kept.map f).contains (f t) = kept.contains t := by
    rw [Bool.eq_iff_iff, List.contains_iff_mem, List.contains_iff_mem, List.mem_map_of_injective hf]
  unfold adjoin
  rw [hcontains]
  split
  · rfl
  · simp

theorem byComparison_map (terms : List Term) : byComparison (terms.map f) = (byComparison terms).map f := by
  have hfold (kept : List Term) : (terms.map f).foldl adjoin (kept.map f) = (terms.foldl adjoin kept).map f := by
    induction terms generalizing kept with
    | nil => rfl
    | cons t terms ih => rw [List.map_cons, List.foldl_cons, List.foldl_cons, adjoin_map hf, ih]
  exact hfold []

/-- As many answers are different under other names. -/
theorem length_distinct_map (terms : List Term) : (distinct (terms.map f)).length = (distinct terms).length := by
  have hperm : (distinct (terms.map f)).Perm ((distinct terms).map f) := by
    rw [List.perm_ext_iff_of_nodup (nodup_distinct _) ((nodup_distinct terms).map hf)]
    intro u
    rw [mem_distinct, List.mem_map, List.mem_map]
    exact exists_congr fun t => and_congr_left fun _ => mem_distinct.symm
  rw [hperm.length_eq, List.length_map]

end Map

end Dedup

namespace DedupPolicy

variable {policy : DedupPolicy}

theorem isFirsts_apply (hkeep : policy ≠ .keep) (terms : List Term) : Dedup.IsFirsts terms (policy.apply terms) := by
  cases policy with
  | adaptive small =>
    rw [apply]
    split
    · exact Dedup.isFirsts_byComparison terms
    · exact Dedup.isFirsts_bySorting terms
  | adjoin => exact Dedup.isFirsts_byComparison terms
  | sorted => exact Dedup.isFirsts_bySorting terms
  | keep => exact absurd rfl hkeep

theorem apply_eq_byComparison (hkeep : policy ≠ .keep) (terms : List Term) :
    policy.apply terms = Dedup.byComparison terms :=
  Dedup.isFirsts_iff.1 (isFirsts_apply hkeep terms)

/-- Answers that are told apart in the same way are removed in the same way. -/
theorem apply_map (policy : DedupPolicy) {f : Term → Term} (hf : Function.Injective f) (terms : List Term) :
    policy.apply (terms.map f) = (policy.apply terms).map f := by
  by_cases hkeep : policy = .keep
  · rw [hkeep]
    rfl
  · rw [apply_eq_byComparison hkeep, apply_eq_byComparison hkeep, Dedup.byComparison_map hf]

theorem mem_apply (policy : DedupPolicy) {t : Term} {terms : List Term} : t ∈ policy.apply terms ↔ t ∈ terms := by
  by_cases hkeep : policy = .keep
  · rw [hkeep]
    rfl
  · exact (isFirsts_apply hkeep terms).mem_iff t

/-- Repeats are removed wherever they are. -/
theorem apply_perm (policy : DedupPolicy) {terms terms' : List Term} (h : terms.Perm terms') :
    (policy.apply terms).Perm (policy.apply terms') := by
  by_cases hkeep : policy = .keep
  · rw [hkeep]
    exact h
  · rw [List.perm_ext_iff_of_nodup (isFirsts_apply hkeep terms).nodup (isFirsts_apply hkeep terms').nodup]
    intro t
    rw [mem_apply, mem_apply, h.mem_iff]

end DedupPolicy

end Deduction
