import Deduction.Search.Basic

/-!
# Fresh names

The number of an invented variable can be read off its name, as long as it fits into 64 bits. So a supply that starts
after some terms invents none of their variables before it comes to the end of these numbers
(`NameSupply.not_mem_vars_after`).
-/

namespace Deduction

theorem parseIndex?_toDigits {n : Nat} (h : n < UInt64.size) : parseIndex? (Nat.toDigits 10 n) = some n := by
  have hdigit (c : Char) (hc : c ∈ Nat.toDigits 10 n) : c.isDigit = true :=
    Nat.isDigit_of_mem_toDigits (by decide) (by decide) hc
  have hvalue : (Nat.toDigits 10 n).foldl (fun n c => 10 * n + (c.toNat - '0'.toNat)) 0 = n := by
    rw [← Nat.ofDigitChars_eq_foldl]
    exact Nat.ofDigitChars_toDigits (by decide) (by decide)
  unfold parseIndex?
  split
  · rename_i rest heq
    have hplus := hdigit '+' (by rw [heq]; exact List.mem_cons_self)
    cases hplus
  · have hall : (Nat.toDigits 10 n).all Char.isDigit = true := List.all_eq_true.2 hdigit
    have hne : (Nat.toDigits 10 n).isEmpty = false := by
      rw [List.isEmpty_eq_false_iff]
      exact Nat.toDigits_ne_nil
    simp only [hne, hall, hvalue, Bool.not_true, Bool.or_self, Bool.false_eq_true, if_false, if_pos h]

theorem toList_freshName (n : Nat) : (s!"V{n}").toList = 'V' :: Nat.toDigits 10 n := by
  simp [toString, Nat.repr_eq_ofList_toDigits]

/-- The number of an invented variable is read off its name. -/
theorem freshIndex?_freshName {n : Nat} (h : n < UInt64.size) : freshIndex? s!"V{n}" = some n := by
  unfold freshIndex?
  rw [toList_freshName]
  exact parseIndex?_toDigits h

/-- Different numbers have different names. -/
theorem freshName_injective {m n : Nat} (h : s!"V{m}" = s!"V{n}") : m = n := by
  have hlist : 'V' :: Nat.toDigits 10 m = 'V' :: Nat.toDigits 10 n := by
    rw [← toList_freshName, ← toList_freshName, h]
  have hdigits := congrArg (Nat.ofDigitChars 10 · 0) (List.cons.inj hlist).2
  simpa only [Nat.ofDigitChars_toDigits (by decide : 1 < 10) (by decide : 10 ≤ 10)] using hdigits

private theorem le_foldl_max {l : List Nat} {n m : Nat} (h : n ≤ m ∨ n ∈ l) : n ≤ l.foldl max m := by
  induction l generalizing m with
  | nil => simpa using h
  | cons k l ih =>
    apply ih
    rcases h with h | h
    · left
      omega
    · rcases List.mem_cons.1 h with rfl | h
      · left
        omega
      · exact Or.inr h

private theorem foldl_max_lt {l : List Nat} {k m : Nat} (hm : m < k) (h : ∀ n ∈ l, n < k) : l.foldl max m < k := by
  induction l generalizing m with
  | nil => exact hm
  | cons n l ih =>
    have hn := h n List.mem_cons_self
    exact ih (by omega) fun n' hn' => h n' (List.mem_cons_of_mem _ hn')

theorem lt_of_parseIndex? {digits : List Char} {n : Nat} (h : parseIndex? digits = some n) : n < UInt64.size := by
  unfold parseIndex? at h
  simp only [Option.ite_none_left_eq_some, Option.ite_none_right_eq_some, Option.some.injEq] at h
  obtain ⟨-, hlt, rfl⟩ := h
  exact hlt

/-- A supply starts within 64 bits. -/
theorem NameSupply.after_lt (terms : List Term) : (NameSupply.after terms).issued < UInt64.size := by
  refine foldl_max_lt (by decide) fun n hn => ?_
  obtain ⟨v, -, hv⟩ := List.mem_filterMap.1 hn
  unfold freshIndex? at hv
  split at hv
  · exact lt_of_parseIndex? hv
  · exact lt_of_parseIndex? hv
  · cases hv

/-- A supply after some terms invents none of their variables. -/
theorem NameSupply.not_mem_vars_after {terms : List Term} {t : Term} {n : Nat} (ht : t ∈ terms)
    (hafter : (NameSupply.after terms).issued < n) (hn : n < UInt64.size) : s!"V{n}" ∉ t.vars := by
  intro hmem
  have hindex : n ∈ (terms.flatMap Term.vars).filterMap freshIndex? :=
    List.mem_filterMap.2 ⟨_, List.mem_flatMap.2 ⟨t, ht, hmem⟩, freshIndex?_freshName hn⟩
  have hle : n ≤ (NameSupply.after terms).issued := le_foldl_max (Or.inr hindex)
  omega

end Deduction
