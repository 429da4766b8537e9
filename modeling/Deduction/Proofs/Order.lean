import Deduction.Term.Order

/-!
# The order of terms is total

Terms that compare as equal are equal (`Term.eq_of_cmp`), and of two terms one is not greater than the other
(`Term.le_total`, `Term.le_trans`). So a sorted list has equal terms next to each other.
-/

namespace Deduction.Term

variable {x y z : Term} {xs ys zs : List Term}

/-! ### Comparing the other way round -/

mutual
theorem cmp_swap : (x y : Term) → (cmp x y).swap = cmp y x
  | var a, var b => Std.OrientedOrd.eq_swap.symm
  | var _, sym _ => rfl
  | var _, compound _ _ => rfl
  | sym _, var _ => rfl
  | sym a, sym b => Std.OrientedOrd.eq_swap.symm
  | sym _, compound _ _ => rfl
  | compound _ _, var _ => rfl
  | compound _ _, sym _ => rfl
  | compound f xs, compound g ys => by
    have hfg : (compare f g).swap = compare g f := Std.OrientedOrd.eq_swap.symm
    rw [cmp, cmp, Ordering.swap_then, hfg, cmpList_swap xs ys]

theorem cmpList_swap : (xs ys : List Term) → (cmpList xs ys).swap = cmpList ys xs
  | [], [] => rfl
  | [], _ :: _ => rfl
  | _ :: _, [] => rfl
  | x :: xs, y :: ys => by rw [cmpList, cmpList, Ordering.swap_then, cmp_swap x y, cmpList_swap xs ys]
end

/-! ### Equal terms -/

mutual
theorem eq_of_cmp : (x y : Term) → cmp x y = .eq → x = y
  | var a, var b, h => by rw [Std.LawfulEqOrd.eq_of_compare (a := a) (b := b) h]
  | sym a, sym b, h => by rw [Std.LawfulEqOrd.eq_of_compare (a := a) (b := b) h]
  | compound f xs, compound g ys, h => by
    rw [cmp, Ordering.then_eq_eq] at h
    rw [Std.LawfulEqOrd.eq_of_compare (a := f) (b := g) h.1, eq_of_cmpList xs ys h.2]

theorem eq_of_cmpList : (xs ys : List Term) → cmpList xs ys = .eq → xs = ys
  | [], [], _ => rfl
  | x :: xs, y :: ys, h => by
    rw [cmpList, Ordering.then_eq_eq] at h
    rw [eq_of_cmp x y h.1, eq_of_cmpList xs ys h.2]
end

mutual
theorem cmp_self : (x : Term) → cmp x x = .eq
  | var _ => Std.ReflOrd.compare_self
  | sym _ => Std.ReflOrd.compare_self
  | compound f xs => by
    have hf : compare f f = .eq := Std.ReflOrd.compare_self
    rw [cmp, hf, cmpList_self xs]
    rfl

theorem cmpList_self : (xs : List Term) → cmpList xs xs = .eq
  | [] => rfl
  | x :: xs => by
    rw [cmpList, cmp_self x, cmpList_self xs]
    rfl
end

/-! ### Chains of comparisons -/

/-- Comparisons by one criterion after the other can be put together if those by each of them can. -/
theorem isLE_then {a b c a' b' c' : Ordering} (hlt : a = .lt → b.isLE = true → c = .lt)
    (hlt' : a.isLE = true → b = .lt → c = .lt) (heq : a = .eq → b = .eq → c = .eq)
    (h : a'.isLE = true → b'.isLE = true → c'.isLE = true) (hab : (a.then a').isLE = true)
    (hbc : (b.then b').isLE = true) : (c.then c').isLE = true := by
  cases a with
  | gt => cases hab
  | lt =>
    cases b with
    | gt => cases hbc
    | lt =>
      rw [hlt rfl rfl]
      rfl
    | eq =>
      rw [hlt rfl rfl]
      rfl
  | eq =>
    cases b with
    | gt => cases hbc
    | lt =>
      rw [hlt' rfl rfl]
      rfl
    | eq =>
      rw [heq rfl rfl]
      exact h hab hbc

theorem lt_of_lt_of_isLE (h : (cmp x y).isLE = true → (cmp y z).isLE = true → (cmp x z).isLE = true)
    (hxy : cmp x y = .lt) (hyz : (cmp y z).isLE = true) : cmp x z = .lt := by
  have hxz : (cmp x z).isLE = true := h (by rw [hxy]; rfl) hyz
  cases hc : cmp x z with
  | lt => rfl
  | eq =>
    obtain rfl := eq_of_cmp x z hc
    rw [← cmp_swap, hxy] at hyz
    cases hyz
  | gt =>
    rw [hc] at hxz
    cases hxz

theorem lt_of_isLE_of_lt (h : (cmp x y).isLE = true → (cmp y z).isLE = true → (cmp x z).isLE = true)
    (hxy : (cmp x y).isLE = true) (hyz : cmp y z = .lt) : cmp x z = .lt := by
  have hxz : (cmp x z).isLE = true := h hxy (by rw [hyz]; rfl)
  cases hc : cmp x z with
  | lt => rfl
  | eq =>
    obtain rfl := eq_of_cmp x z hc
    rw [← cmp_swap, hyz] at hxy
    cases hxy
  | gt =>
    rw [hc] at hxz
    cases hxz

theorem eq_trans (hxy : cmp x y = .eq) (hyz : cmp y z = .eq) : cmp x z = .eq := by
  obtain rfl := eq_of_cmp x y hxy
  exact hyz

mutual
theorem isLE_trans : (x y z : Term) → (cmp x y).isLE = true → (cmp y z).isLE = true → (cmp x z).isLE = true
  | var a, var b, var c, h, h' => Std.TransOrd.isLE_trans h h'
  | var _, _, sym _, _, _ => rfl
  | var _, _, compound _ _, _, _ => rfl
  | sym a, sym b, sym c, h, h' => Std.TransOrd.isLE_trans h h'
  | sym _, _, compound _ _, _, _ => rfl
  | compound f xs, compound g ys, compound k zs, h, h' =>
    isLE_then Std.TransCmp.lt_of_lt_of_isLE Std.TransCmp.lt_of_isLE_of_lt Std.TransCmp.eq_trans
      (isLE_trans_list xs ys zs) h h'
  | sym _, var _, _, h, _ => by cases h
  | compound _ _, var _, _, h, _ => by cases h
  | compound _ _, sym _, _, h, _ => by cases h
  | _, sym _, var _, _, h => by cases h
  | _, compound _ _, var _, _, h => by cases h
  | _, compound _ _, sym _, _, h => by cases h

theorem isLE_trans_list : (xs ys zs : List Term) → (cmpList xs ys).isLE = true → (cmpList ys zs).isLE = true →
    (cmpList xs zs).isLE = true
  | [], _, [], _, _ => rfl
  | [], _, _ :: _, _, _ => rfl
  | x :: xs, y :: ys, z :: zs, h, h' =>
    isLE_then (lt_of_lt_of_isLE (isLE_trans x y z)) (lt_of_isLE_of_lt (isLE_trans x y z)) eq_trans
      (isLE_trans_list xs ys zs) h h'
  | _ :: _, [], _, h, _ => by cases h
  | _, _ :: _, [], _, h => by cases h
end

theorem le_trans (hxy : le x y = true) (hyz : le y z = true) : le x z = true := isLE_trans x y z hxy hyz

theorem le_total (x y : Term) : (le x y || le y x) = true := by
  unfold le
  rw [← cmp_swap x y]
  cases cmp x y <;> rfl

theorem le_refl (x : Term) : le x x = true := by simpa using le_total x x

theorem le_antisymm (hxy : le x y = true) (hyx : le y x = true) : x = y := by
  unfold le at hxy hyx
  rw [← cmp_swap x y] at hyx
  cases hc : cmp x y with
  | lt =>
    rw [hc] at hyx
    cases hyx
  | eq => exact eq_of_cmp x y hc
  | gt =>
    rw [hc] at hxy
    cases hxy

end Deduction.Term
