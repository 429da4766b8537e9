import Mathlib.Logic.Relation
import Deduction.Proofs.Store.Operations
import Deduction.Proofs.Variables

/-!
# Cycles of bindings

A bound variable leads to the variables that its value holds. A binding closes a cycle if its value led back to the
variable when the binding was made; what the store was then is found by going back to the place of the binding on the
trail (`Exact.acyclic_iff`). With the occurs check on, unification and plugging close no cycle, whatever cycles there
are. Matching looks for none, and the bindings that it made are the only ones that can close one
(`CheckedRun.acyclic_iff_matched`).
-/

namespace Deduction

open Relation (ReflTransGen TransGen)

/-- The term of the closure contains the variable, and is read in its environment. -/
def Closure.Holds (c : Closure) (x : EnvId × String) : Prop := x.2 ∈ c.term.vars ∧ x.1 = c.env

namespace Store

variable {link : Closure → EnvId × String → Prop} {s s' : Store} {v w : String} {env env' : EnvId} {c d : Closure}
  {x y z : EnvId × String} {cp : Checkpoint} {k : Nat}

/-! ### Ways along bindings

Which variables a closure is linked to is left open here. -/

/-- A bound variable leads to the variables that its value is linked to. -/
def Edge (s : Store) (link : Closure → EnvId × String → Prop) (x y : EnvId × String) : Prop :=
  ∃ c, s.lookup x.2 x.1 = some c ∧ link c y

/-- Following bindings from the closure comes to the variable. -/
def Meets (s : Store) (link : Closure → EnvId × String → Prop) (c : Closure) (x : EnvId × String) : Prop :=
  ∃ y, link c y ∧ ReflTransGen (s.Edge link) y x

/-- No variable leads back to itself. -/
def Acyclic (s : Store) (link : Closure → EnvId × String → Prop) : Prop := ∀ x, ¬ TransGen (s.Edge link) x x

theorem Below.edge_le (h : s.Below s') : s.Edge link ≤ s'.Edge link := by
  rintro x y ⟨c, hc, hy⟩
  exact ⟨c, h _ _ _ hc, hy⟩

theorem Acyclic.of_below (h : s'.Acyclic link) (hs : s.Below s') : s.Acyclic link :=
  fun x hx => h x (TransGen.mono hs.edge_le x x hx)

theorem acyclic_of_unbound (h : ∀ v env, s.lookup v env = none) : s.Acyclic link := by
  intro x hx
  obtain ⟨y, ⟨c, hc, -⟩, -⟩ := TransGen.head'_iff.1 hx
  rw [h] at hc
  cases hc

theorem Widens.edge_iff (h : s.Widens s') : s'.Edge link x y ↔ s.Edge link x y := by
  unfold Edge
  rw [h.lookup_eq]

theorem Widens.meets_iff (h : s.Widens s') : s'.Meets link c x ↔ s.Meets link c x := by
  have hedge : s'.Edge link = s.Edge link := by
    funext y z
    exact propext h.edge_iff
  unfold Meets
  rw [hedge]

/-- From a closure that is linked to an unbound variable only, no other variable is come to. -/
theorem not_meets_of_free (hlink : ∀ y, link c y → y = z) (hz : s.lookup z.2 z.1 = none) (hne : z ≠ x) :
    ¬ s.Meets link c x := by
  rintro ⟨y, hy, hyx⟩
  rw [hlink y hy] at hyx
  rcases hyx.cases_head with heq | ⟨u, ⟨d, hd, -⟩, -⟩
  · exact hne heq
  · rw [hz] at hd
    cases hd

/-! ### One more binding -/

/-- The second store has one more binding, of a variable that was not bound. -/
structure Adds (s : Store) (x : EnvId × String) (c : Closure) (s' : Store) : Prop where
  free : s.lookup x.2 x.1 = none
  lookup_eq : ∀ y : EnvId × String, s'.lookup y.2 y.1 = if y = x then some c else s.lookup y.2 y.1

namespace Adds

theorem of_bind (hv : s.lookup v env = none) (henv : env < s.envs.size) : s.Adds (env, v) c (s.bind v env c) where
  free := hv
  lookup_eq y := by
    rw [lookup_bind henv]
    by_cases hy : y = (env, v)
    · rw [if_pos hy, if_pos (by rw [hy]; exact ⟨rfl, rfl⟩)]
    · rw [if_neg hy, if_neg fun h => hy (Prod.ext h.2 h.1)]

theorem isBelow (h : s.Adds x c s') : s.Below s' := by
  intro v env d hd
  rw [h.lookup_eq (env, v)]
  split
  · rename_i heq
    rw [← heq] at h
    rw [h.free] at hd
    cases hd
  · exact hd

/-- Where the new binding is not gone along, the way was there before. -/
theorem edge_of_ne (h : s.Adds x c s') (hyz : s'.Edge link y z) (hy : y ≠ x) : s.Edge link y z := by
  obtain ⟨d, hd, hz⟩ := hyz
  rw [h.lookup_eq, if_neg hy] at hd
  exact ⟨d, hd, hz⟩

/-- A way to the variable need not go along its own binding. -/
theorem reaches_of_reaches (h : s.Adds x c s') (hyx : ReflTransGen (s'.Edge link) y x) :
    ReflTransGen (s.Edge link) y x := by
  induction hyx using ReflTransGen.head_induction_on with
  | refl => exact .refl
  | @head y z hyz _ ih =>
    by_cases hy : y = x
    · rw [hy]
    · exact ih.head (h.edge_of_ne hyz hy)

/-- A way was there before, or it goes along the new binding. -/
theorem transGen_cases (h : s.Adds x c s') (hyz : TransGen (s'.Edge link) y z) :
    TransGen (s.Edge link) y z ∨ ReflTransGen (s'.Edge link) y x ∧ TransGen (s'.Edge link) x z := by
  induction hyz with
  | @single z hyz =>
    by_cases hy : y = x
    · rw [hy] at hyz ⊢
      exact Or.inr ⟨.refl, .single hyz⟩
    · exact Or.inl (.single (h.edge_of_ne hyz hy))
  | @tail z u hyz hzu ih =>
    rcases ih with hold | ⟨hyx, hxz⟩
    · by_cases hz : z = x
      · rw [hz] at hyz hzu
        exact Or.inr ⟨hyz.to_reflTransGen, .single hzu⟩
      · exact Or.inl (hold.tail (h.edge_of_ne hzu hz))
    · exact Or.inr ⟨hyx, hxz.tail hzu⟩

/-- The variable leads back to itself exactly if its value leads to it without the new binding. -/
theorem cycle_iff_meets (h : s.Adds x c s') : TransGen (s'.Edge link) x x ↔ s.Meets link c x := by
  constructor
  · intro hx
    obtain ⟨y, ⟨d, hd, hy⟩, hyx⟩ := TransGen.head'_iff.1 hx
    rw [h.lookup_eq, if_pos rfl, Option.some.injEq] at hd
    exact ⟨y, hd ▸ hy, h.reaches_of_reaches hyx⟩
  · rintro ⟨y, hy, hyx⟩
    have hxy : s'.Edge link x y := ⟨c, by rw [h.lookup_eq, if_pos rfl], hy⟩
    exact .head' hxy (ReflTransGen.mono h.isBelow.edge_le y x hyx)

/-- A binding closes a cycle exactly if its value leads back to the variable. -/
theorem acyclic_iff (h : s.Adds x c s') : s'.Acyclic link ↔ s.Acyclic link ∧ ¬ s.Meets link c x := by
  constructor
  · exact fun hs' => ⟨hs'.of_below h.isBelow, fun hx => hs' x (h.cycle_iff_meets.2 hx)⟩
  · rintro ⟨hs, hx⟩ y hy
    rcases h.transGen_cases hy with hold | ⟨hyx, hxy⟩
    · exact hs y hold
    · exact hx (h.cycle_iff_meets.1 (hxy.trans_left hyx))

end Adds

theorem Acyclic.bind (hs : s.Acyclic link) (hv : s.lookup v env = none) (hc : ¬ s.Meets link c (env, v)) :
    (s.bind v env c).Acyclic link := by
  by_cases henv : env < s.envs.size
  · exact (Adds.of_bind hv henv).acyclic_iff.2 ⟨hs, hc⟩
  · rwa [bind_of_not_lt henv]

/-! ### Places on the trail -/

/-- The binding at this place of the trail closed a cycle: in the store as it was when the binding was made, the value
led to the variable. -/
def ClosesAt (s : Store) (link : Closure → EnvId × String → Prop) (k : Nat) : Prop :=
  ∃ x c, s.trail.toList[k]? = some x ∧ s.lookup x.2 x.1 = some c ∧ (s.rollback k).Meets link c x

theorem ClosesAt.lt_size (h : s.ClosesAt link k) : k < s.trail.size := by
  obtain ⟨x, c, hx, -⟩ := h
  rw [← Array.length_toList]
  exact (List.getElem?_eq_some_iff.1 hx).1

/-- From one place of the trail to the next one, one binding is added. -/
theorem Exact.adds_rollback (hs : s.Exact) (hx : s.trail.toList[k]? = some x) (hc : s.lookup x.2 x.1 = some c) :
    (s.rollback k).Adds x c (s.rollback (k + 1)) := by
  obtain ⟨hk, hxk⟩ := List.getElem?_eq_some_iff.1 hx
  have hdrop : s.trail.toList.drop k = x :: s.trail.toList.drop (k + 1) := by
    rw [List.drop_eq_getElem_cons hk, hxk]
  have hnot : x ∉ s.trail.toList.drop (k + 1) := by
    have hnodup := hs.nodup.sublist (List.drop_sublist k _)
    rw [hdrop, List.nodup_cons] at hnodup
    exact hnodup.1
  constructor
  · rw [lookup_rollback, hdrop, if_pos List.mem_cons_self]
  · intro y
    rw [lookup_rollback, lookup_rollback, hdrop]
    by_cases hy : y = x
    · rw [hy, if_neg hnot, if_pos rfl, hc]
    · simp only [List.mem_cons, hy, false_or, if_false]

/-- There is a cycle exactly if some binding on the trail closed one. -/
theorem Exact.acyclic_iff (hs : s.Exact) : s.Acyclic link ↔ ∀ k, ¬ s.ClosesAt link k := by
  have hplaces (k : Nat) (hk : k ≤ s.trail.size) : (s.rollback k).Acyclic link ↔ ∀ j < k, ¬ s.ClosesAt link j := by
    induction k with
    | zero =>
      have hempty : (s.rollback 0).trail.size = 0 := size_trail_rollback (Nat.zero_le _)
      simp only [Nat.not_lt_zero, false_imp_iff, implies_true, iff_true]
      exact acyclic_of_unbound ((hs.isTrailed.rollback 0).lookup_eq_none hempty)
    | succ k ih =>
      obtain ⟨x, hx⟩ : ∃ x, s.trail.toList[k]? = some x := 
        ⟨_, List.getElem?_eq_getElem (Array.length_toList.symm ▸ hk)⟩
      obtain ⟨c, hc⟩ := (hs.mem_trail_iff x.2 x.1).1 (List.mem_of_getElem? hx)
      have hlast : s.ClosesAt link k ↔ (s.rollback k).Meets link c x := by
        constructor
        · rintro ⟨y, d, hy, hd, hmeets⟩
          rw [hx, Option.some.injEq] at hy
          subst hy
          rw [hc, Option.some.injEq] at hd
          exact hd ▸ hmeets
        · exact fun h => ⟨x, c, hx, hc, h⟩
      rw [(hs.adds_rollback hx hc).acyclic_iff, ih (Nat.le_of_succ_le hk), ← hlast]
      simp only [Nat.lt_succ_iff_lt_or_eq, or_imp, forall_and, forall_eq]
  have hall := hplaces s.trail.size (Nat.le_refl _)
  rw [rollback_size] at hall
  rw [hall]
  exact ⟨fun h k hk => h k hk.lt_size hk, fun h k _ => h k⟩

theorem Widens.closesAt_iff (h : s.Widens s') : s'.ClosesAt link k ↔ s.ClosesAt link k := by
  unfold ClosesAt
  simp only [h.trail_eq, h.lookup_eq, (h.rollback k).meets_iff]

theorem Extends.getElem?_trail (h : s.Extends s') (hk : k < s.trail.size) :
    s'.trail.toList[k]? = s.trail.toList[k]? := by
  have htake : s'.trail.toList.take s.trail.size = s.trail.toList := by
    rw [← toList_trail_rollback]
    exact congrArg (fun t : Store => t.trail.toList) h.rollback_eq
  rw [← htake, List.getElem?_take, if_pos hk]

/-- A binding of a longer trail that closed a cycle was there before, or it is one of the further ones. -/
theorem Extends.closesAt_cases (h : s.Extends s') (hs : s.Exact) (hk : s'.ClosesAt link k) :
    s.ClosesAt link k ∨ s.trail.size ≤ k ∧ k < s'.trail.size := by
  by_cases hlt : k < s.trail.size
  · left
    obtain ⟨x, c, hx, hc, hmeets⟩ := hk
    rw [h.getElem?_trail hlt] at hx
    rw [h.rollback (Nat.le_of_lt hlt)] at hmeets
    obtain ⟨d, hd⟩ := (hs.mem_trail_iff _ _).1 (List.mem_of_getElem? hx)
    have hdc := h.lookup hd
    rw [hc, Option.some.injEq] at hdc
    exact ⟨x, c, hx, hdc ▸ hd, hmeets⟩
  · exact Or.inr ⟨Nat.le_of_not_lt hlt, hk.lt_size⟩

theorem closesAt_bind_cases (hs : s.Exact) (hv : s.lookup v env = none) (hk : (s.bind v env c).ClosesAt link k) :
    s.ClosesAt link k ∨ s.Meets link c (env, v) := by
  have hext : s.Extends (s.bind v env c) := Extends.refl.bind v env c hv
  rcases hext.closesAt_cases hs hk with hold | ⟨hge, hlt⟩
  · exact Or.inl hold
  · right
    have henv : env < s.envs.size := by
      by_contra henv
      rw [bind_of_not_lt henv] at hlt
      omega
    rw [trail_bind henv, Array.size_push] at hlt
    have hlast : k = s.trail.size := by omega
    obtain ⟨x, d, hx, hd, hmeets⟩ := hk
    rw [hlast, trail_bind henv, Array.toList_push, ← Array.length_toList, List.getElem?_concat_length,
      Option.some.injEq] at hx
    subst hx
    rw [lookup_bind henv, if_pos ⟨rfl, rfl⟩, Option.some.injEq] at hd
    rw [hlast, hext.rollback (Nat.le_refl _), rollback_size] at hmeets
    exact hd ▸ hmeets

theorem closesAt_of_rollback (hk : (s.rollback cp).ClosesAt link k) : k < cp ∧ s.ClosesAt link k := by
  obtain ⟨x, c, hx, hc, hmeets⟩ := hk
  rw [toList_trail_rollback, List.getElem?_take] at hx
  split at hx
  · rename_i hlt
    rw [rollback_rollback (Nat.le_of_lt hlt)] at hmeets
    exact ⟨hlt, x, c, hx, rollback_below s cp _ _ _ hc, hmeets⟩
  · cases hx

/-! ### Runs with the occurs check -/

theorem meets_var : s.Meets Closure.Holds ⟨.var w, env⟩ x ↔ ReflTransGen (s.Edge Closure.Holds) (env, w) x := by
  unfold Meets Closure.Holds
  simp only [Term.mem_vars_var]
  constructor
  · rintro ⟨⟨env', w'⟩, ⟨rfl, rfl⟩, h⟩
    exact h
  · exact fun h => ⟨_, ⟨rfl, rfl⟩, h⟩

theorem meets_compound {f : String} {args : List Term} (h : s.Meets Closure.Holds ⟨.compound f args, env⟩ x) :
    ∃ a ∈ args, s.Meets Closure.Holds ⟨a, env⟩ x := by
  obtain ⟨y, ⟨hy, henv⟩, hyx⟩ := h
  obtain ⟨a, ha, hya⟩ := Term.mem_vars_compound.1 hy
  exact ⟨a, ha, y, ⟨hya, henv⟩, hyx⟩

/-- A term in which the occurs check does not find a variable does not lead to it, even if bindings go round. -/
theorem not_meets_of_not_occursAt {ev : EnvId} {n : Nat} {t : Term} (h : s.occursAt v ev n t env = false) :
    ¬ s.Meets Closure.Holds ⟨t, env⟩ (ev, v) := by
  induction n generalizing t env with
  | zero => cases h
  | succ n ih =>
    cases t with
    | var w =>
      unfold occursAt at h
      rw [Bool.or_eq_false_iff] at h
      intro hmeets
      rcases (meets_var.1 hmeets).cases_head with heq | ⟨y, ⟨c, hc, hy⟩, hyx⟩
      · rw [Prod.mk.injEq] at heq
        simp [heq.1, heq.2] at h
      · simp only [hc] at h
        exact ih h.2 ⟨y, hy, hyx⟩
    | sym a =>
      rintro ⟨y, ⟨hy, -⟩, -⟩
      cases hy
    | compound f args =>
      unfold occursAt at h
      rw [List.any_eq_false] at h
      intro hmeets
      obtain ⟨a, ha, hmeets'⟩ := meets_compound hmeets
      exact ih (by simpa using h a ha) hmeets'

/-- The bindings that closed a cycle are at these places of the trail. -/
def ClosedOnlyAt (s : Store) (places : Set Nat) : Prop := ∀ k, s.ClosesAt Closure.Holds k → k ∈ places

variable {places : Set Nat}

/-- Unification with the occurs check closes no cycle. -/
theorem ClosedOnlyAt.keeps (places : Set Nat) :
    Keeps (fun _ _ => True) fun s => s.Exact ∧ s.occursCheck = true ∧ s.ClosedOnlyAt places where
  arg _ _ := trivial
  value _ _ _ := trivial
  bind {s v env c} h _ _ hv _ hoccurs := by
    obtain ⟨hs, hcheck, honly⟩ := h
    refine ⟨hs.bind hv, by rw [occursCheck_bind, hcheck], fun k hk => ?_⟩
    rcases closesAt_bind_cases hs hv hk with hold | hmeets
    · exact honly k hold
    · exact absurd hmeets (not_meets_of_not_occursAt (hoccurs hcheck))

/-- Renaming to fresh variables closes no cycle. -/
theorem ClosedOnlyAt.keepsRenaming (places : Set Nat) (target : EnvId) :
    KeepsRenaming (fun _ => True) target
      fun st => st.1.Exact ∧ FreshIn st.2 st.1 target ∧ st.1.ClosedOnlyAt places where
  value _ _ _ := trivial
  bind {s names v env} h _ hne hv := by
    obtain ⟨hs, hfresh, honly⟩ := h
    refine ⟨hs.bind hv, hfresh.bind hne, fun k hk => ?_⟩
    rcases closesAt_bind_cases hs hv hk with hold | hmeets
    · exact honly k hold
    · refine absurd hmeets (not_meets_of_free (z := (target, names.freshName.1)) (fun y hy => ?_)
        (hfresh _ (Nat.lt_succ_self _)) fun hz => hne (Prod.mk.inj hz).1.symm)
      exact Prod.ext hy.2 (Term.mem_vars_var.1 hy.1)

/-- No variable is bound directly, and the names that plugging may invent are free in the target environment. -/
def Mediated (s : Store) : Operation → Prop
  | .bind .. => False
  | .plug _ _ target names => FreshIn names s target
  | _ => True

/-- The places on the trail of the bindings that matching made, after an operation. -/
def matchedAfter (s : Store) (places : Set Nat) (op : Operation) : Set Nat :=
  match op with
  | .matchInto .. => places ∪ {k | s.trail.size ≤ k ∧ k < (s.perform op).trail.size}
  | .rollback cp => {k ∈ places | k < cp}
  | _ => places

/-- The stores that come about with the occurs check on, with the places on the trail of the bindings that matching
made. -/
inductive CheckedRun : Store → Set Nat → Prop
  | empty : CheckedRun { occursCheck := true } ∅
  | step {s : Store} {places : Set Nat} (h : CheckedRun s places) (op : Operation) (hop : s.Mediated op) :
      CheckedRun (s.perform op) (s.matchedAfter places op)

namespace CheckedRun

theorem closedOnlyAt (h : CheckedRun s places) : s.Exact ∧ s.occursCheck = true ∧ s.ClosedOnlyAt places := by
  induction h with
  | empty => exact ⟨.of_empty true, rfl, fun k hk => absurd hk.lt_size (Nat.not_lt_zero k)⟩
  | @step s places _ op hop ih =>
    obtain ⟨hs, hcheck, honly⟩ := ih
    cases op with
    | newEnv => exact ⟨hs.newEnv, hcheck, fun k hk => honly k ((Widens.newEnv s).closesAt_iff.1 hk)⟩
    | unify x ex y ey => exact unify_keeps (ClosedOnlyAt.keeps places) ⟨hs, hcheck, honly⟩ trivial trivial
    | matchInto pattern ep t et =>
      have hext := s.extends_matchInto pattern ep t et
      refine ⟨hs.of_extends hext, hext.occursCheck.trans hcheck, fun k hk => ?_⟩
      exact (hext.closesAt_cases hs hk).imp (honly k) id
    | plug t env target names =>
      have hkept : (s.plug t env target names).2.1.Exact ∧ _ ∧ (s.plug t env target names).2.1.ClosedOnlyAt places :=
        plug_keeps (ClosedOnlyAt.keepsRenaming places target) t ⟨hs, hop, honly⟩ trivial
      exact ⟨hkept.1, (s.plug_extends t env target names).occursCheck.trans hcheck, hkept.2.2⟩
    | bind v env c => exact hop.elim
    | rollback cp =>
      refine ⟨hs.rollback cp, hcheck, fun k hk => ?_⟩
      obtain ⟨hlt, hk'⟩ := closesAt_of_rollback hk
      exact ⟨honly k hk', hlt⟩

/-- With the occurs check on, there is a cycle of bindings exactly if a binding that matching made closed one: no other
operation closes a cycle. -/
theorem acyclic_iff_matched (h : CheckedRun s places) :
    s.Acyclic Closure.Holds ↔ ∀ k ∈ places, ¬ s.ClosesAt Closure.Holds k := by
  obtain ⟨hs, -, honly⟩ := h.closedOnlyAt
  rw [hs.acyclic_iff]
  exact ⟨fun hno k _ => hno k, fun hno k hk => hno k (honly k hk) hk⟩

/-- After the bindings of `linked`, matching `g(Z)` of the first environment with `g(b)` closes no cycle. Matching
`p(Z,Z)` with `p(W,W)` of the second one does: at the second argument the value of `Z` is the pattern, and so `W` is bound
to itself. -/
theorem acyclic_iff_matched_linked :
    (linked.perform (.matchInto (.compound "g" [.var "Z"]) 0 (.compound "g" [.sym "b"]) 1)).Acyclic Closure.Holds ∧
      ¬ (linked.perform (.matchInto (.compound "p" [.var "Z", .var "Z"]) 0
          (.compound "p" [.var "W", .var "W"]) 1)).Acyclic Closure.Holds := by
  have hlinked : CheckedRun linked ∅ :=
    .step (.step (.step .empty .newEnv trivial) .newEnv trivial)
      (.unify (.var "X") 0 (.compound "f" [.var "Y"]) 1) trivial
  constructor
  · have hrun := hlinked.step (.matchInto (.compound "g" [.var "Z"]) 0 (.compound "g" [.sym "b"]) 1) trivial
    refine (acyclic_iff_matched hrun).2 fun k hk => ?_
    obtain ⟨hle, hlt⟩ : 1 ≤ k ∧ k < 2 := hk.resolve_left id
    have hk : k = 1 := by omega
    rintro ⟨x, c, hx, hc, y, hy, -⟩
    subst hk
    cases hx
    cases hc
    exact List.not_mem_nil hy.1
  · have hrun := hlinked.step (.matchInto (.compound "p" [.var "Z", .var "Z"]) 0
      (.compound "p" [.var "W", .var "W"]) 1) trivial
    have hplace : 1 ≤ 2 ∧ 2 < 3 := by decide
    refine fun hac => (acyclic_iff_matched hrun).1 hac 2 (Or.inr hplace) ?_
    exact ⟨(1, "W"), ⟨.var "W", 1⟩, by decide, by decide, (1, "W"), ⟨by decide, rfl⟩, .refl⟩

end CheckedRun

end Store

end Deduction
