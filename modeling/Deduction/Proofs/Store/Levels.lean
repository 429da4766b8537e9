import Deduction.Proofs.Store.PlugForms

/-!
# Levels

On the way down through a term bindings are followed and functors are passed (`Nests`). The allowance of unification and
of plugging is used up by both, although only functors are nested. Terms that have a unifier are made equal where the
functors that are passed and the bindings that are followed on both sides stay within the limit, and ground terms are
plugged to ground terms there (`unify_plug_levels`). But a chain of more bindings than the limit is not followed to its
end, even if no functor is nested at all; such chains come about by unification (`unify_expanded`).
-/

namespace Deduction.Store

variable {s s' r : Store} {v w : String} {env ev ex ey target : EnvId} {c d : Closure} {t x y : Term} {T X Y : Form}
  {n links links' depth depth' : Nat} {θ : Valuation} {xs ys ts : List Term} {Xs Ys : List Form} {names : NameSupply}

/-! ### Bindings and functors on the way down -/

/-- On every way down through the term at most so many bindings are followed and at most so many functors are passed. -/
inductive Nests (s : Store) : Nat → Nat → Term → EnvId → Prop
  | free {v : String} {env : EnvId} (links depth : Nat) (hv : s.lookup v env = none) : Nests s links depth (.var v) env
  | bound {v : String} {env : EnvId} {c : Closure} {links depth : Nat} (hv : s.lookup v env = some c)
      (h : Nests s links depth c.term c.env) : Nests s (links + 1) depth (.var v) env
  | sym (a : String) (env : EnvId) (links depth : Nat) : Nests s links depth (.sym a) env
  | compound (f : String) {ts : List Term} {env : EnvId} {links depth : Nat}
      (h : ∀ t ∈ ts, Nests s links depth t env) : Nests s links (depth + 1) (.compound f ts) env

namespace Nests

theorem mono (h : s.Nests links depth t env) (hlinks : links ≤ links') (hdepth : depth ≤ depth') :
    s.Nests links' depth' t env := by
  induction h generalizing links' depth' with
  | free _ _ hv => exact .free _ _ hv
  | bound hv _ ih =>
    obtain ⟨k, rfl⟩ := Nat.exists_eq_add_of_lt hlinks
    exact .bound hv (ih (by omega) hdepth)
  | sym a env => exact .sym a env _ _
  | compound f _ ih =>
    obtain ⟨k, rfl⟩ := Nat.exists_eq_add_of_lt hdepth
    exact .compound f fun t ht => ih t ht hlinks (by omega)

/-- In a store with fewer bindings no more of them are followed. -/
theorem of_below (h : r.Nests links depth t env) (hs : s.Below r) : s.Nests links depth t env := by
  induction h with
  | @bound v env c links depth hv _ ih =>
    cases hold : s.lookup v env with
    | none => exact .free _ _ hold
    | some d =>
      have heq : d = c := Option.some.inj ((hs v env d hold).symm.trans hv)
      exact .bound hold (heq ▸ ih)
  | free _ _ hv => exact .free _ _ (hs.lookup_eq_none hv)
  | sym a env => exact .sym a env _ _
  | compound f _ ih => exact .compound f ih

theorem of_bound (h : s.Nests links depth (.var v) env) (hv : s.lookup v env = some c) :
    ∃ k, links = k + 1 ∧ s.Nests k depth c.term c.env := by
  cases h with
  | free _ _ hfree =>
    rw [hv] at hfree
    cases hfree
  | bound hv' h =>
    rw [hv] at hv'
    cases hv'
    exact ⟨_, rfl, h⟩

theorem exists_formAt (h : s.Nests links depth t env) (hn : links + depth < n) : ∃ T, s.formAt n t env = some T := by
  induction h generalizing n with
  | @free v env _ _ hv =>
    obtain ⟨n, rfl⟩ := Nat.exists_eq_add_of_lt hn
    exact ⟨.cell v env, by simp only [formAt, hv]⟩
  | bound hv _ ih =>
    obtain ⟨n, rfl⟩ : ∃ k, n = k + 1 := ⟨n - 1, by omega⟩
    simp only [formAt, hv]
    exact ih (by omega)
  | sym a env =>
    obtain ⟨n, rfl⟩ := Nat.exists_eq_add_of_lt hn
    exact ⟨.sym a, rfl⟩
  | @compound f ts env _ _ _ ih =>
    obtain ⟨n, rfl⟩ : ∃ k, n = k + 1 := ⟨n - 1, by omega⟩
    exact exists_formAt_compound.2 fun t ht => ih t ht (by omega)

theorem exists_occursWithin (h : s.Nests links depth t env) (v : String) (ev : EnvId) (hn : links + depth < n) :
    ∃ b, s.occursWithin v ev n t env = some b := by
  induction h generalizing n with
  | @free w env _ _ hw =>
    obtain ⟨n, rfl⟩ := Nat.exists_eq_add_of_lt hn
    unfold occursWithin
    split
    · exact ⟨true, rfl⟩
    · exact ⟨false, by rw [hw]⟩
  | @bound w env c _ _ hw _ ih =>
    obtain ⟨n, rfl⟩ : ∃ k, n = k + 1 := ⟨n - 1, by omega⟩
    unfold occursWithin
    split
    · exact ⟨true, rfl⟩
    · rw [hw]
      exact ih (by omega)
  | sym a env =>
    obtain ⟨n, rfl⟩ := Nat.exists_eq_add_of_lt hn
    exact ⟨false, rfl⟩
  | @compound f ts env _ _ h ih =>
    obtain ⟨n, rfl⟩ : ∃ k, n = k + 1 := ⟨n - 1, by omega⟩
    unfold occursWithin
    clear h
    induction ts with
    | nil => exact ⟨false, rfl⟩
    | cons t ts ihts =>
      rw [List.forall_mem_cons] at ih
      obtain ⟨b, hb⟩ := ih.1 (n := n) (by omega)
      rw [anyWithin, hb]
      cases b with
      | true => exact ⟨true, rfl⟩
      | false => exact ihts ih.2

end Nests

/-- The way down through a term with a form comes to an end. -/
theorem HasForm.exists_nests (h : s.HasForm t env T) : ∃ links depth, s.Nests links depth t env := by
  induction h using HasForm.induction with
  | bound hv _ ih =>
    obtain ⟨links, depth, h⟩ := ih
    exact ⟨links + 1, depth, .bound hv h⟩
  | free hv => exact ⟨0, 0, .free 0 0 hv⟩
  | sym a env => exact ⟨0, 0, .sym a env 0 0⟩
  | @compound f ts env Ts h ih =>
    suffices hts : ∃ links depth, ∀ t ∈ ts, s.Nests links depth t env by
      obtain ⟨links, depth, hts⟩ := hts
      exact ⟨links, depth + 1, .compound f hts⟩
    clear h
    induction ih with
    | nil => exact ⟨0, 0, by simp⟩
    | cons ht _ ihts =>
      obtain ⟨-, links, depth, ht⟩ := ht
      obtain ⟨links', depth', hts⟩ := ihts
      refine ⟨max links links', max depth depth', List.forall_mem_cons.2 ⟨?_, fun u hu => ?_⟩⟩
      · exact ht.mono (Nat.le_max_left _ _) (Nat.le_max_left _ _)
      · exact (hts u hu).mono (Nat.le_max_right _ _) (Nat.le_max_right _ _)

/-! ### Unification of terms that have a unifier -/

/-- Forms become the same in the second store, and no run that succeeds comes to another one. The runs come to that store
where they are allowed as many levels as bindings are followed and functors are passed on both sides there, or in a store
with more bindings. -/
structure Unifying (s : Store) (run : Nat → Bool × Store) (x : Term) (ex : EnvId) (y : Term) (ey : EnvId) (X Y : Form)
    (s' : Store) : Prop where
  isExtension : s.Extends s'
  wellFormed : s'.WellFormed
  unified : Unified s X Y s'
  only : ∀ {n : Nat} {r : Store}, run n = (true, r) → r = s'
  comes : ∀ {r : Store} {links links' depth n : Nat}, s'.Below r → r.Nests links depth x ex → r.Nests links' depth y ey →
    links + depth ≤ depthLimit → links' + depth ≤ depthLimit → links + links' + depth ≤ n → run n = (true, s')

theorem Unifying.symm {run : Nat → Bool × Store} (h : s.Unifying run x ex y ey X Y s') :
    s.Unifying run y ey x ex Y X s' where
  isExtension := h.isExtension
  wellFormed := h.wellFormed
  unified := DecidesForms.symm (r := some s') h.unified
  only := h.only
  comes hr hy hx hy' hx' hn := h.comes hr hx hy hx' hy' (by omega)

/-- Where the forms are the same, runs that change nothing are enough. -/
theorem unifying_self {run : Nat → Bool × Store} (hs : s.WellFormed) (hXY : X = Y) (hrun : ∀ n, run n = (true, s)) :
    s.Unifying run x ex y ey X Y s where
  isExtension := .refl
  wellFormed := hs
  unified := unified_of_eq hXY
  only {n _} h := by
    rw [hrun n] at h
    exact (Prod.mk.inj h).2.symm
  comes _ _ _ _ _ _ := hrun _

/-- A variable that the term does not lead to is bound. With a unifier it does not occur in the term, and whether the search
for it comes to an end depends on the levels of the term alone. -/
theorem unifying_bind {unify : Nat → Term → EnvId → Term → EnvId → Store → Bool × Store} (hs : s.WellFormed)
    (hv : ev < s.envs.size) (ht : env < s.envs.size) (hfree : s.lookup v ev = none) (hY : s.HasForm t env Y)
    (heq : (Form.cell v ev).eval θ = Y.eval θ) (hsame : ¬ (t = .var v ∧ env = ev)) (hlead : s.leadsTo t env v ev = false) :
    s.Unifying (fun n => unifyVar (unify n) v ev t env s) (.var v) ev t env (.cell v ev) Y (s.bind v ev ⟨t, env⟩) := by
  have hrun (n : Nat) : unifyVar (unify n) v ev t env s =
      if s.occursCheck && s.occurs v ev t env then (false, s) else (true, s.bind v ev ⟨t, env⟩) := by
    have hsame' : (decide (t = .var v) && decide (env = ev)) = false := by simpa using hsame
    simp only [unifyVar, hsame', hfree, hlead, Bool.false_eq_true, if_false]
  have hnot {n : Nat} (hn : ∃ b, s.occursWithin v ev n t env = some b) : s.occursWithin v ev n t env = some false := by
    obtain ⟨b, hb⟩ := hn
    cases b with
    | false => exact hb
    | true =>
      rcases hY.leads_or_lt θ hfree hb with hlead' | hlt
      · rw [(leadsTo_iff hs hfree t env).2 hlead'] at hlead
        cases hlead
      · rw [← heq] at hlt
        exact absurd hlt (Nat.lt_irrefl _)
  have hext : s.Extends (s.bind v ev ⟨t, env⟩) := Extends.refl.bind v ev _ hfree
  obtain ⟨links, depth, hnests⟩ := hY.exists_nests
  have hsome := hnests.exists_occursWithin v ev (Nat.lt_succ_self _)
  -- The limit of the search matters for the run only: that the variable is found at no level says what the binding does.
  refine ⟨hext, hs.bind ht, unified_bind hfree hv hY (hnot hsome), fun {_ _} h => ?_, fun hr _ hy _ hy' _ => ?_⟩
  · rw [hrun] at h
    split at h
    · cases h
    · exact (Prod.mk.inj h).2.symm
  · have hlimit := (hy.of_below (hext.isBelow.trans hr)).exists_occursWithin v ev (Nat.lt_succ_of_le hy')
    have hocc : s.occurs v ev t env = false := occursAt_of_within (hnot hlimit)
    simp only [hrun, hocc, Bool.and_false, Bool.false_eq_true, if_false]

theorem exists_unifyVar (hs : s.WellFormed) (hv : ev < s.envs.size) (ht : env < s.envs.size)
    (hX : s.HasForm (.var v) ev X) (hY : s.HasForm t env Y) (heq : X.eval θ = Y.eval θ)
    (hone : ∀ c, s.lookup v ev = some c →
      ∃ s', s.Unifying (fun n => unifyAt (n + 1) c.term c.env t env s) c.term c.env t env X Y s') :
    ∃ s', s.Unifying (fun n => unifyVar (unifyAt n) v ev t env s) (.var v) ev t env X Y s' := by
  by_cases hsame : t = .var v ∧ env = ev
  · obtain ⟨rfl, rfl⟩ := hsame
    exact ⟨s, unifying_self hs (hX.unique hY) fun n => by simp [unifyVar]⟩
  · have hsame' : (decide (t = .var v) && decide (env = ev)) = false := by simpa using hsame
    cases hc : s.lookup v ev with
    | some c =>
      have hrun (n : Nat) : unifyVar (unifyAt n) v ev t env s = unifyAt n c.term c.env t env s := by
        simp only [unifyVar, hsame', hc, Bool.false_eq_true, if_false]
      obtain ⟨s', hext, hwf, hunified, honly, hcomes⟩ := hone c hc
      simp only [hrun]
      refine ⟨s', hext, hwf, hunified, fun {n _} h => ?_, fun {_ _ _ _ n} hr hx hy hx' hy' hn => ?_⟩
      · cases n with
        | zero => cases h
        | succ n => exact honly h
      · obtain ⟨k, rfl, hvalue⟩ := hx.of_bound (hr v ev c (hext.lookup hc))
        obtain ⟨n, rfl⟩ : ∃ m, n = m + 1 := ⟨n - 1, by omega⟩
        exact hcomes hr hvalue hy (by omega) hy' (by omega)
    | none =>
      have hcell := (HasForm.of_unbound hc).1 hX
      subst hcell
      cases hlead : s.leadsTo t env v ev with
      | true =>
        have hY' := (HasForm.leads ((leadsTo_iff hs hc t env).1 hlead)).1 hY
        refine ⟨s, unifying_self hs (hX.unique hY') fun n => ?_⟩
        simp only [unifyVar, hsame', hc, hlead, Bool.false_eq_true, if_false, if_true]
      | false => exact ⟨_, unifying_bind hs hv ht hc hY heq hsame hlead⟩

/-- After the first pair the others are made equal, with the replacement that made the first pair the same. -/
theorem Unifying.cons {f : String} {s₁ : Store} (h : s.Unifying (fun n => unifyAt (n + 1) x ex y ey s) x ex y ey X Y s₁)
    (hXs : List.Forall₂ (s.HasForm · ex ·) xs Xs) (hYs : List.Forall₂ (s.HasForm · ey ·) ys Ys)
    (hrest : ∀ Xs' Ys', List.Forall₂ (s₁.HasForm · ex ·) xs Xs' → List.Forall₂ (s₁.HasForm · ey ·) ys Ys' →
      s₁.Unifying (fun n => allPairs (fun x y => unifyAt n x ex y ey) xs ys s₁) (.compound f xs) ex (.compound f ys) ey
        (.compound f Xs') (.compound f Ys') s') :
    s.Unifying (fun n => allPairs (fun x y => unifyAt n x ex y ey) (x :: xs) (y :: ys) s) (.compound f (x :: xs)) ex
      (.compound f (y :: ys)) ey (.compound f (X :: Xs)) (.compound f (Y :: Ys)) s' := by
  obtain ⟨hext₁, -, hunified₁, honly₁, hcomes₁⟩ := h
  obtain ⟨σ, href, -, -⟩ := id hunified₁
  obtain ⟨hext, hwf, -, honly, hcomes⟩ := hrest _ _ (forall₂_refines href hXs) (forall₂_refines href hYs)
  refine ⟨hext₁.trans hext, hwf, ?_, fun {n r} hrun => ?_, fun {r _ _ _ n} hr hnx hny hx' hy' hn => ?_⟩
  · exact DecidesForms.cons (r := some s') hunified₁ fun τ href' =>
      (hrest _ _ (forall₂_refines href' hXs) (forall₂_refines href' hYs)).unified
  · rw [allPairs] at hrun
    split at hrun
    · rename_i s₂ hs₂
      cases n with
      | zero => cases hs₂
      | succ n =>
        rw [honly₁ hs₂] at hrun
        exact honly hrun
    · rename_i hne
      exact absurd hrun (hne r)
  · cases hnx with
    | compound _ hnx =>
      cases hny with
      | compound _ hny =>
        rw [List.forall_mem_cons] at hnx hny
        obtain ⟨n, rfl⟩ : ∃ m, n = m + 1 := ⟨n - 1, by omega⟩
        have hone := hcomes₁ (hext.isBelow.trans hr) hnx.1 hny.1 (by omega) (by omega) (by omega : _ ≤ n)
        rw [allPairs, hone]
        exact hcomes hr (.compound f hnx.2) (.compound f hny.2) hx' hy' hn

theorem exists_allPairs (f : String) {k : Nat}
    (hone : ∀ (s : Store) (x y : Term) (X Y : Form), s.WellFormed → ex < s.envs.size → ey < s.envs.size →
      s.HasForm x ex X → s.HasForm y ey Y → X.eval θ = Y.eval θ → sizeOf (X.eval θ) < k →
      ∃ s', s.Unifying (fun n => unifyAt (n + 1) x ex y ey s) x ex y ey X Y s')
    (hs : s.WellFormed) (hx : ex < s.envs.size) (hy : ey < s.envs.size) (hXs : List.Forall₂ (s.HasForm · ex ·) xs Xs)
    (hYs : List.Forall₂ (s.HasForm · ey ·) ys Ys) (heq : Xs.map (Form.eval θ) = Ys.map (Form.eval θ))
    (hk : ∀ X ∈ Xs, sizeOf (X.eval θ) < k) :
    ∃ s', s.Unifying (fun n => allPairs (fun x y => unifyAt n x ex y ey) xs ys s) (.compound f xs) ex (.compound f ys) ey
      (.compound f Xs) (.compound f Ys) s' := by
  induction xs generalizing ys Xs Ys s with
  | nil =>
    cases hXs
    cases hYs with
    | nil => exact ⟨s, unifying_self hs rfl fun _ => rfl⟩
    | cons _ _ => simp at heq
  | cons x xs ih =>
    cases hXs with
    | @cons _ X _ Xs hX hXs =>
      cases hYs with
      | nil => simp at heq
      | @cons y Y ys Ys hY hYs =>
        rw [List.map_cons, List.map_cons, List.cons.injEq] at heq
        rw [List.forall_mem_cons] at hk
        obtain ⟨s₁, hfirst⟩ := hone s x y X Y hs hx hy hX hY heq.1 hk.1
        obtain ⟨σ, href, -, habs⟩ := hfirst.unified
        -- The replacement that made the first pair the same does not change the values of the others.
        have hσ := habs θ heq.1
        obtain ⟨s', hrest⟩ := ih hfirst.wellFormed (hfirst.isExtension.size_envs ▸ hx)
          (hfirst.isExtension.size_envs ▸ hy) (forall₂_refines href hXs) (forall₂_refines href hYs)
          (by rw [map_eval_subst hσ, map_eval_subst hσ, heq.2])
          (by
            intro X' hX'
            obtain ⟨X, hX, rfl⟩ := List.mem_map.1 hX'
            rw [hσ.eval_subst]
            exact hk.2 X hX)
        refine ⟨s', hfirst.cons hXs hYs fun Xs' Ys' hXs' hYs' => ?_⟩
        cases (HasForm.compound (f := f) hXs').unique (HasForm.compound (forall₂_refines href hXs))
        cases (HasForm.compound (f := f) hYs').unique (HasForm.compound (forall₂_refines href hYs))
        exact hrest

/-- Terms whose forms have a unifier are made equal where the allowance covers the levels. -/
theorem exists_unify {i j : Nat} (hs : s.WellFormed) (hx : ex < s.envs.size) (hy : ey < s.envs.size)
    (hX : s.formAt i x ex = some X) (hY : s.formAt j y ey = some Y) (heq : X.eval θ = Y.eval θ) :
    ∃ s', s.Unifying (fun n => unifyAt (n + 1) x ex y ey s) x ex y ey X Y s' := by
  -- Going into arguments makes the value smaller, and following a binding leaves fewer levels of the forms.
  generalize hk : sizeOf (X.eval θ) = k
  induction k using Nat.strong_induction_on generalizing s x y ex ey X Y i j with
  | _ k ihk =>
    generalize hl : i + j = l
    induction l using Nat.strong_induction_on generalizing x y ex ey X Y i j with
    | _ l ihl =>
      have hleft {v : String} (hxv : x = .var v) :
          ∃ s', s.Unifying (fun n => unifyVar (unifyAt n) v ex y ey s) (.var v) ex y ey X Y s' := by
        subst hxv
        refine exists_unifyVar hs hx hy ⟨i, hX⟩ ⟨j, hY⟩ heq fun c hc => ?_
        cases i with
        | zero => cases hX
        | succ i =>
          simp only [formAt, hc] at hX
          exact ihl (i + j) (by omega) (hs.closed hc) hy hX hY heq hk rfl
      have hright {w : String} (hyw : y = .var w) :
          ∃ s', s.Unifying (fun n => unifyVar (unifyAt n) w ey x ex s) x ex (.var w) ey X Y s' := by
        subst hyw
        have hswapped := exists_unifyVar hs hy hx ⟨j, hY⟩ ⟨i, hX⟩ heq.symm fun c hc => by
          cases j with
          | zero => cases hY
          | succ j =>
            simp only [formAt, hc] at hY
            exact ihl (j + i) (by omega) (hs.closed hc) hx hY hX heq.symm (heq ▸ hk) rfl
        exact hswapped.imp fun _ h => h.symm
      cases x with
      | var v => exact hleft rfl
      | sym a =>
        have hXa := HasForm.of_sym.1 ⟨i, hX⟩
        cases y with
        | var w => exact hright rfl
        | sym b =>
          have hYb := HasForm.of_sym.1 ⟨j, hY⟩
          subst hXa hYb
          cases heq
          exact ⟨s, unifying_self hs rfl fun n => by simp [unifyAt]⟩
        | compound g ys =>
          obtain ⟨Ys, rfl, -⟩ := HasForm.of_compound ⟨j, hY⟩
          subst hXa
          cases heq
      | compound f xs =>
        obtain ⟨Xs, rfl, hXs⟩ := HasForm.of_compound ⟨i, hX⟩
        cases y with
        | var w => exact hright rfl
        | sym b =>
          have hYb := HasForm.of_sym.1 ⟨j, hY⟩
          subst hYb
          cases heq
        | compound g ys =>
          obtain ⟨Ys, rfl, hYs⟩ := HasForm.of_compound ⟨j, hY⟩
          simp only [Form.eval, Form.evalList_eq, Term.compound.injEq] at heq
          obtain ⟨rfl, heq⟩ := heq
          have hrun : (fun n => unifyAt (n + 1) (.compound f xs) ex (.compound f ys) ey s) =
              fun n => allPairs (fun x y => unifyAt n x ex y ey) xs ys s := by
            funext n
            simp only [unifyAt, if_true]
          rw [hrun]
          refine exists_allPairs f (fun s x y X Y hs hx hy hX hY heq hlt => ?_) hs hx hy hXs hYs heq
            fun X hX => hk ▸ Form.sizeOf_eval_lt hX θ
          obtain ⟨i, hX⟩ := hX
          obtain ⟨j, hY⟩ := hY
          exact ihk _ hlt hs hx hy hX hY heq rfl

/-- Terms that have a unifier have the same form in some store, and in no other one do they come out of unification. They
do come out if the functors that are passed and the bindings that are followed on both sides stay within the limit. -/
theorem unify_of_levels (hs : s.WellFormed) (hx : ex < s.envs.size) (hy : ey < s.envs.size) (hX : s.HasForm x ex X)
    (hY : s.HasForm y ey Y) (heq : X.eval θ = Y.eval θ) :
    ∃ s', s.Below s' ∧ (∃ T, s'.HasForm x ex T ∧ s'.HasForm y ey T) ∧
      (s.unify x ex y ey = (true, s') ∨ s.unify x ex y ey = (false, s)) ∧
      ∀ links links' depth, s'.Nests links depth x ex → s'.Nests links' depth y ey →
        links + links' + depth ≤ depthLimit → s.unify x ex y ey = (true, s') := by
  obtain ⟨i, hi⟩ := id hX
  obtain ⟨j, hj⟩ := id hY
  obtain ⟨s', hext, -, ⟨σ, href, hsame, -⟩, honly, hcomes⟩ := exists_unify hs hx hy hi hj heq
  refine ⟨s', hext.isBelow, ⟨X.subst σ, href _ _ _ hX, hsame ▸ href _ _ _ hY⟩, ?_, fun links links' depth hnx hny hle => ?_⟩
  · cases hrun : s.unify x ex y ey with
    | mk ok r =>
      cases ok with
      | true => exact Or.inl (by rw [honly (unify_eq_true_iff.1 hrun)])
      | false => exact Or.inr (by rw [unify_eq_of_fails hrun])
  · refine unify_eq_true_iff.2 (hcomes (.refl s') hnx hny ?_ ?_ hle) <;> omega

/-! ### Plugging ground terms -/

/-- A term that is ground under the bindings is plugged to a ground term, and nothing is bound. -/
theorem plug_of_levels (hs : s.Trailed) (h : s.Nests links depth x ex) (hle : links + depth ≤ depthLimit)
    (hground : s.isGround x ex = true) (target : EnvId) (names : NameSupply) :
    ∃ u, u.isGround = true ∧ s.plug x ex target names = (u, (s, names)) := by
  obtain ⟨T, hT⟩ := h.exists_formAt (Nat.lt_succ_of_le hle)
  have hclosed := (isGroundAt_of_formAt hs hT (Nat.le_refl _)).1 hground
  have hsettled : s.Settled target ex allowance x _ := settled_of_formAt hT (by simp [hclosed])
  exact ⟨_, (Form.isGround_eval _ T).2 hclosed, hsettled.again names⟩

/-! ### Chains of variables -/

/-- A variable at the end of a chain is made equal to a symbol exactly if the allowance is more than the links. -/
theorem LeadsIn.unifyAt_sym (h : s.LeadsIn links c ⟨.var v, env⟩) (hfree : s.lookup v env = none) (a : String) :
    (unifyAt n c.term c.env (.sym a) ey s).1 = true ↔ links < n := by
  generalize hd : (⟨.var v, env⟩ : Closure) = d at h
  induction h generalizing n with
  | refl c =>
    subst hd
    cases n with
    | zero => simp [unifyAt]
    | succ n => simp [unifyAt, unifyVar, hfree, leadsTo, resolve_sym, occurs, occursAt, allowance]
  | step hw _ ih =>
    cases n with
    | zero => simp [unifyAt]
    | succ n =>
      have hone := ih (n := n) hd
      simpa [unifyAt, unifyVar, hw] using hone

theorem LeadsIn.unify_sym (h : s.LeadsIn links c ⟨.var v, env⟩) (hfree : s.lookup v env = none) (a : String) :
    (s.unify c.term c.env (.sym a) ey).1 = true ↔ links ≤ depthLimit := by
  rw [unify_fst, h.unifyAt_sym hfree a, allowance, Nat.lt_succ_iff]

/-- A variable at the end of whose chain is a symbol is plugged to it exactly if the allowance covers the links. -/
theorem LeadsIn.plugAt_sym {a : String} (h : s.LeadsIn links c ⟨.sym a, env⟩) (names : NameSupply) :
    (plugAt target n c.env c.term (s, names)).1.isGround = true ↔ links ≤ n := by
  generalize hd : (⟨.sym a, env⟩ : Closure) = d at h
  induction h generalizing n with
  | refl c =>
    subst hd
    cases n <;> simp [plugAt, Term.isGround]
  | step hw _ ih =>
    cases n with
    | zero => simp [plugAt, Term.isGround]
    | succ n =>
      have hone := ih (n := n) hd
      simpa [plugAt, hw] using hone

/-- Whether a variable is ground does not depend on the links. -/
theorem LeadsIn.isGround_sym {a : String} (h : s.LeadsIn links c ⟨.sym a, env⟩) (hs : s.Trailed) :
    s.isGround c.term c.env = true := by
  have hend : s.resolve c.term c.env = ⟨.sym a, env⟩ :=
    hs.resolve_eq ⟨links, h⟩ fun ⟨v, d, hv, _⟩ => by cases hv
  rw [isGround, allowance, isGroundAt, hend]

/-- Terms that have a unifier have the same form in some store, and in no other one do they come out of unification. They
do come out if the functors that are passed and the bindings that are followed on both sides stay within the limit. If
they do so on one side, a term that is ground under the bindings is plugged to a ground term, and nothing is bound. But
along variables alone, unification with a symbol fails if there are more links than the limit, and plugging to a symbol
leaves a variable if there are still more, although nothing is nested and the term is ground. -/
theorem unify_plug_levels {b : Bool} (hs : s.Reachable b) (hx : ex < s.envs.size) (hy : ey < s.envs.size) :
    (∀ X Y (θ : Valuation), s.HasForm x ex X → s.HasForm y ey Y → X.eval θ = Y.eval θ →
      ∃ s', s.Below s' ∧ (∃ T, s'.HasForm x ex T ∧ s'.HasForm y ey T) ∧
        (s.unify x ex y ey = (true, s') ∨ s.unify x ex y ey = (false, s)) ∧
        ∀ links links' depth, s'.Nests links depth x ex → s'.Nests links' depth y ey →
          links + links' + depth ≤ depthLimit → s.unify x ex y ey = (true, s')) ∧
    (∀ links depth target names, s.Nests links depth x ex → links + depth ≤ depthLimit → s.isGround x ex = true →
      ∃ u, u.isGround = true ∧ s.plug x ex target names = (u, (s, names))) ∧
    (∀ links v env a, s.LeadsIn links ⟨x, ex⟩ ⟨.var v, env⟩ → s.lookup v env = none →
      ((s.unify x ex (.sym a) ey).1 = true ↔ links ≤ depthLimit)) ∧
    ∀ links a env target names, s.LeadsIn links ⟨x, ex⟩ ⟨.sym a, env⟩ →
      s.isGround x ex = true ∧ ((s.plug x ex target names).1.isGround = true ↔ links ≤ depthLimit + 1) := by
  have hwf := hs.wellFormed.1
  refine ⟨fun X Y θ => unify_of_levels hwf hx hy, fun _ _ target names hnests hle hground => ?_,
    fun _ _ _ a hlead hfree => hlead.unify_sym hfree a, fun _ _ _ _ names hlead => ⟨?_, hlead.plugAt_sym names⟩⟩
  · exact plug_of_levels hwf.isTrailed hnests hle hground target names
  · exact hlead.isGround_sym hwf.isTrailed

/-- `p(X,Z)` of the first environment of `linked` and `p(f(a),g(Y))` of the second one have a unifier. On the way down
through them at most two functors are passed, and at most two bindings and one binding are followed. Then `X` is ground. -/
theorem unify_plug_levels_linked :
    ∃ s', linked.unify (.compound "p" [.var "X", .var "Z"]) 0
        (.compound "p" [.compound "f" [.sym "a"], .compound "g" [.var "Y"]]) 1 = (true, s') ∧
      ∃ u, u.isGround = true ∧ s'.plug (.var "X") 0 0 {} = (u, (s', {})) := by
  have hreach : linked.Reachable true :=
    .unify (.newEnv (.newEnv .empty)) (.var "X") (.compound "f" [.var "Y"]) (by decide) (by decide)
  have hx : 0 < linked.envs.size := by decide
  have hy : 1 < linked.envs.size := by decide
  obtain ⟨s', -, -, hrun, hcomes⟩ := (unify_plug_levels (x := .compound "p" [.var "X", .var "Z"])
    (y := .compound "p" [.compound "f" [.sym "a"], .compound "g" [.var "Y"]]) hreach hx hy).1
    (.compound "p" [.compound "f" [.cell "Y" 1], .cell "Z" 0])
    (.compound "p" [.compound "f" [.sym "a"], .compound "g" [.cell "Y" 1]])
    (fun v _ => if v = "Y" then .sym "a" else .compound "g" [.sym "a"]) ⟨4, rfl⟩ ⟨4, rfl⟩ rfl
  -- Which store this is can be evaluated, as unification succeeds.
  have hs' : s' = (linked.unify (.compound "p" [.var "X", .var "Z"]) 0
      (.compound "p" [.compound "f" [.sym "a"], .compound "g" [.var "Y"]]) 1).2 := by
    rcases hrun with h | h
    · rw [h]
    · exact absurd (congrArg Prod.fst h) (by decide)
  have hY : s'.Nests 1 0 (.var "Y") 1 := .bound (c := ⟨.sym "a", 1⟩) (hs' ▸ rfl) (.sym "a" 1 0 0)
  have hX : s'.Nests 2 1 (.var "X") 0 :=
    .bound (c := ⟨.compound "f" [.var "Y"], 1⟩) (hs' ▸ rfl) (.compound "f" (by simpa using hY))
  have hZ : s'.Nests 2 1 (.var "Z") 0 :=
    .bound (c := ⟨.compound "g" [.var "Y"], 1⟩) (hs' ▸ rfl) (.compound "g" (by simpa using hY))
  have hunify := hcomes 2 1 2 (.compound "p" (by simpa using ⟨hX, hZ⟩))
    (.compound "p" (by simpa using ⟨.compound "f" (by simpa using .sym "a" 1 1 0), .compound "g" (by simpa using hY)⟩))
    (by decide)
  have hreach' : s'.Reachable true := by
    have := hreach.unify (.compound "p" [.var "X", .var "Z"])
      (.compound "p" [.compound "f" [.sym "a"], .compound "g" [.var "Y"]]) hx hy
    rwa [hunify] at this
  have hx' : 0 < s'.envs.size := hs' ▸ by decide
  exact ⟨s', hunify, (unify_plug_levels (y := .var "X") hreach' hx' hx').2.1 2 1 0 {} hX (by decide) (hs' ▸ by decide)⟩

/-! ### Expansions -/

/-- The store after so many environments were added, the variable of each of them bound to that of the next one. -/
def expanded (occursCheck : Bool) : Nat → Store
  | 0 => (newEnv { occursCheck }).2
  | k + 1 => ((expanded occursCheck k).newEnv.2.unify (.var "X") k (.var "X") (k + 1)).2

/-- Links of any number come about by unification. -/
theorem expanded_leadsIn (b : Bool) (k : Nat) :
    (expanded b k).Reachable b ∧ (expanded b k).envs.size = k + 1 ∧ (expanded b k).lookup "X" k = none ∧
      (expanded b k).LeadsIn k ⟨.var "X", 0⟩ ⟨.var "X", k⟩ := by
  induction k with
  | zero =>
    refine ⟨.newEnv .empty, rfl, ?_, .refl _⟩
    rw [expanded, lookup_newEnv]
    simp [lookup]
  | succ k ih =>
    obtain ⟨hreach, hsize, hfree, hlead⟩ := ih
    have hfree' : (expanded b k).newEnv.2.lookup "X" k = none := by rw [lookup_newEnv, hfree]
    have hnew : (expanded b k).newEnv.2.lookup "X" (k + 1) = none := by
      rw [lookup_newEnv, ← hsize, lookup_size_envs]
    have hsize' : (expanded b k).newEnv.2.envs.size = k + 2 := by rw [size_envs_newEnv, hsize]
    have hk : k < (expanded b k).newEnv.2.envs.size := hsize' ▸ Nat.lt_succ_of_lt (Nat.lt_succ_self k)
    have hbind : expanded b (k + 1) = (expanded b k).newEnv.2.bind "X" k ⟨.var "X", k + 1⟩ := by
      have hunify : (expanded b k).newEnv.2.unify (.var "X") k (.var "X") (k + 1) =
          (true, (expanded b k).newEnv.2.bind "X" k ⟨.var "X", k + 1⟩) := by
        rw [unify_eq_true_iff]
        simp [allowance, unifyAt, unifyVar, hfree', leadsTo, resolve_of_unbound hnew, occurs, occursAt, hnew]
      rw [expanded, hunify]
    refine ⟨?_, ?_, ?_, ?_⟩
    · exact hreach.newEnv.unify _ _ hk (hsize' ▸ Nat.lt_succ_self _)
    · rw [hbind, size_envs_bind, hsize']
    · rw [hbind, lookup_bind hk, if_neg (by simp), hnew]
    · rw [hbind]
      have hlink : ((expanded b k).newEnv.2.bind "X" k ⟨.var "X", k + 1⟩).lookup "X" k = some ⟨.var "X", k + 1⟩ := by
        rw [lookup_bind hk, if_pos ⟨rfl, rfl⟩]
      have hext : (expanded b k).newEnv.2.Extends _ := Extends.refl.bind "X" k ⟨.var "X", k + 1⟩ hfree'
      exact (hlead.of_below ((expanded b k).below_newEnv.trans hext.isBelow)).snoc hlink

/-- One link for each environment, which is what the expansion of a rule that calls itself adds, uses up the allowance:
unification with a symbol fails after more expansions than the limit. -/
theorem unify_expanded (b : Bool) (k : Nat) (a : String) :
    (expanded b k).Reachable b ∧ (((expanded b k).unify (.var "X") 0 (.sym a) 0).1 = true ↔ k ≤ depthLimit) := by
  obtain ⟨hreach, -, hfree, hlead⟩ := expanded_leadsIn b k
  exact ⟨hreach, hlead.unify_sym hfree a⟩

end Deduction.Store
