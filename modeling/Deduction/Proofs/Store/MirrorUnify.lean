import Deduction.Proofs.Store.Allowance
import Deduction.Proofs.Store.Mirror

/-!
# Unification in a mirror

Unification comes to the same outcome in a store and in one that mirrors it (`Mirrors.unify`). A variable that was
renamed takes up one more level of the allowance. So this holds for stores in which no variable was renamed, and
otherwise for attempts that stay within the allowance.
-/

namespace Deduction.Store

open Search (queryEnv)

variable {Q : String → Prop} {s s' : Store} {v w name : String} {e f ev ex ey : EnvId} {c d : Closure} {t x y : Term}
  {start names : NameSupply} {p : Placement} {n m : Nat}

/-- No variable was renamed. -/
def Placement.IsClean (p : Placement) : Prop := ∀ v e, p.name v e = none

/-- No variable was renamed and the same levels are left, or the computation does not come to the end of its levels, and
these are no more. -/
def Affords {α : Type} (p : Placement) (n m : Nat) (outcome : Option α) : Prop :=
  (p.IsClean ∧ n = m) ∨ (n ≤ m ∧ outcome.isSome = true)

namespace Affords

variable {α β : Type} {outcome : Option α} {outcome' : Option β}

theorem isSome_of_name (h : Affords p n m outcome) (hname : p.name v e = some name) :
    n ≤ m ∧ outcome.isSome = true := by
  rcases h with ⟨hclean, -⟩ | h
  · rw [hclean v e] at hname
    cases hname
  · exact h

/-- One level is taken up on both sides. -/
theorem of_succ (h : Affords p (n + 1) (m + 1) outcome) (hsome : outcome.isSome = true → outcome'.isSome = true) :
    Affords p n m outcome' :=
  h.imp (fun ⟨hclean, heq⟩ => ⟨hclean, Nat.succ.inj heq⟩) fun ⟨hle, ho⟩ => ⟨Nat.le_of_succ_le_succ hle, hsome ho⟩

theorem exists_succ (h : Affords p (n + 1) m outcome) : ∃ k, m = k + 1 := by
  rcases h with ⟨-, rfl⟩ | ⟨hle, -⟩
  · exact ⟨n, rfl⟩
  · exact ⟨m - 1, by omega⟩

theorem imp (h : Affords p n m outcome) (hsome : outcome.isSome = true → outcome'.isSome = true) :
    Affords p n m outcome' := Or.imp_right (And.imp_right hsome) h

end Affords

namespace Mirrors

/-! ### Variables in their places -/

/-- A term is the variable that takes part in bindings only if it is the variable itself. -/
theorem eq_of_cell (h : Mirrors Q start names p s s') (hv : InScope Q s.envs.size ⟨.var v, ev⟩)
    (ht : InScope Q s.envs.size ⟨t, e⟩) (hcell : t = .var (p.cell v ev).1 ∧ p.env e = (p.cell v ev).2) :
    t = .var v ∧ e = ev := by
  obtain ⟨rfl, henv⟩ := hcell
  cases hname : p.name v ev with
  | none =>
    rw [Placement.cell_of_none hname] at henv
    exact ⟨by rw [Placement.cell_of_none hname], h.env_inj ht.env_lt hv.env_lt henv⟩
  | some name =>
    rw [Placement.cell_of_some hname] at henv ht
    have hquery : e = queryEnv := h.env_inj ht.env_lt h.query_lt (henv.trans h.env_query.symm)
    exact absurd (h.named hname).2.2.1 (h.not_isInvented ((InScope.var_iff.1 ht).2 hquery))

/-! ### Searching for a variable -/

theorem occurs_cell (h : Mirrors Q start names p s s') (hv : InScope Q s.envs.size ⟨.var v, ev⟩)
    (hw : InScope Q s.envs.size ⟨.var w, e⟩)
    (hrec : ∀ c, s.lookup w e = some c →
      s'.occursAt (p.cell v ev).1 (p.cell v ev).2 n c.term (p.env c.env) = s.occursAt v ev m c.term c.env) :
    s'.occursAt (p.cell v ev).1 (p.cell v ev).2 (n + 1) (.var (p.cell w e).1) (p.cell w e).2 =
      s.occursAt v ev (m + 1) (.var w) e := by
  have hsame : ((p.cell w e).1 = (p.cell v ev).1 ∧ (p.cell w e).2 = (p.cell v ev).2) ↔ w = v ∧ e = ev := by
    constructor
    · exact fun heq => h.cell_inj hw hv (Prod.ext heq.1 heq.2)
    · rintro ⟨rfl, rfl⟩
      exact ⟨rfl, rfl⟩
  unfold occursAt
  rw [← Bool.decide_and, ← Bool.decide_and, decide_eq_decide.2 hsame, h.lookup_cell hw]
  cases hc : s.lookup w e with
  | none => rfl
  | some c => exact congrArg (_ || ·) (hrec c hc)

/-- The levels that are left on the other side once a renamed variable was followed. -/
theorem occurs_renamed (h : Mirrors Q start names p s s') (hv : InScope Q s.envs.size ⟨.var v, ev⟩)
    (hname : p.name w e = some name) : s'.lookup w (p.env e) = some ⟨.var name, queryEnv⟩ ∧
      ¬ (w = (p.cell v ev).1 ∧ p.env e = (p.cell v ev).2) := by
  obtain ⟨he, hne, -, hlink⟩ := h.named hname
  refine ⟨hlink, fun hcell => ?_⟩
  obtain ⟨hw, rfl⟩ := h.eq_of_cell hv (.of_ne he hne (.var w)) ⟨congrArg Term.var hcell.1, hcell.2⟩
  cases hw
  rw [Placement.cell_of_some hname] at hcell
  exact hne (h.env_inj he h.query_lt (hcell.2.trans h.env_query.symm))

theorem any_occursAt_eq {args : List Term} {k k' : Nat}
    (hn : (p.IsClean ∧ k = k') ∨
      (k ≤ k' ∧ (anyWithin (s'.occursWithin (p.cell v ev).1 (p.cell v ev).2 k · (p.env e)) args).isSome = true))
    (h : ∀ t ∈ args, Affords p k k' (s'.occursWithin (p.cell v ev).1 (p.cell v ev).2 k t (p.env e)) →
      s'.occursAt (p.cell v ev).1 (p.cell v ev).2 k t (p.env e) = s.occursAt v ev k' t e) :
    args.any (s'.occursAt (p.cell v ev).1 (p.cell v ev).2 k · (p.env e)) = args.any (s.occursAt v ev k' · e) := by
  induction args with
  | nil => rfl
  | cons t args ih =>
    have hrest := fun u hu => h u (List.mem_cons_of_mem t hu)
    rw [List.any_cons, List.any_cons]
    rcases hn with hclean | ⟨hle, hsome⟩
    · rw [h t List.mem_cons_self (Or.inl hclean), ih (Or.inl hclean) hrest]
    · unfold anyWithin at hsome
      cases ho : s'.occursWithin (p.cell v ev).1 (p.cell v ev).2 k t (p.env e) with
      | none =>
        simp only [ho] at hsome
        cases hsome
      | some b =>
        rw [← h t List.mem_cons_self (Or.inr ⟨hle, by rw [ho]; rfl⟩), occursAt_of_within ho]
        cases b with
        | true => rfl
        | false =>
          simp only [ho] at hsome
          exact congrArg _ (ih (Or.inr ⟨hle, hsome⟩) hrest)

/-- An unbound variable occurs in a term in both stores or in none. -/
theorem occursAt_eq (h : Mirrors Q start names p s s') (hfree : s.lookup v ev = none)
    (hv : InScope Q s.envs.size ⟨.var v, ev⟩) (ht : InScope Q s.envs.size ⟨t, e⟩)
    (hn : Affords p n m (s'.occursWithin (p.cell v ev).1 (p.cell v ev).2 n t (p.env e))) :
    s'.occursAt (p.cell v ev).1 (p.cell v ev).2 n t (p.env e) = s.occursAt v ev m t e := by
  induction n using Nat.strongRecOn generalizing m t e with
  | ind n ih =>
    cases n with
    | zero =>
      rcases hn with ⟨-, rfl⟩ | ⟨-, hsome⟩
      · rfl
      · cases hsome
    | succ n =>
      obtain ⟨m, rfl⟩ := hn.exists_succ
      cases t with
      | sym a => rfl
      | compound g args =>
        exact any_occursAt_eq (hn.of_succ fun hsome => hsome) fun t ht' hn' =>
          ih n (Nat.lt_succ_self n) (ht.arg ht') hn'
      | var w =>
        -- The value of a variable that is met in its place.
        have hvalue {k : Nat} {c : Closure} (hk : k < n + 1) (hc : s.lookup w e = some c)
            (hn : Affords p (k + 1) (m + 1) (s'.occursWithin (p.cell v ev).1 (p.cell v ev).2 (k + 1)
              (.var (p.cell w e).1) (p.cell w e).2)) :
            s'.occursAt (p.cell v ev).1 (p.cell v ev).2 k c.term (p.env c.env) = s.occursAt v ev m c.term c.env := by
          refine ih k hk (h.inScope hc) (hn.of_succ fun hsome => ?_)
          unfold occursWithin at hsome
          rw [if_neg fun hcell => ?_, h.lookup_cell ht, hc] at hsome
          · exact hsome
          · obtain ⟨rfl, rfl⟩ := h.cell_inj ht hv (Prod.ext hcell.1 hcell.2)
            rw [hfree] at hc
            cases hc
        cases hname : p.name w e with
        | none =>
          have hcell := Placement.cell_of_none hname
          have hplace := h.occurs_cell (n := n) (m := m) hv ht fun c hc =>
            hvalue (Nat.lt_succ_self n) hc (by rwa [hcell])
          rwa [hcell] at hplace
        | some name =>
          obtain ⟨hle, hsome⟩ := hn.isSome_of_name hname
          obtain ⟨hlink, hne⟩ := h.occurs_renamed hv hname
          have hcell := Placement.cell_of_some hname
          unfold occursWithin at hsome
          rw [if_neg hne, hlink] at hsome
          cases n with
          | zero => cases hsome
          | succ k =>
            have hplace := h.occurs_cell (n := k) (m := m) hv ht fun c hc =>
              hvalue (by omega) hc (Or.inr ⟨by omega, by rwa [hcell]⟩)
            rw [hcell] at hplace
            rw [← hplace, occursAt, hlink, ← Bool.decide_and, decide_eq_false hne]
            rfl

end Mirrors

/-! ### Unification -/

/-- The attempts succeed both or fail both, and what they leave if they succeed mirrors each other. -/
def Agree (Q : String → Prop) (start names : NameSupply) (p : Placement) (k : Nat) (r r' : Bool × Store) : Prop :=
  r'.1 = r.1 ∧ (r.1 = true → Mirrors Q start names p r.2 r'.2 ∧ r.2.envs.size = k)

variable {k : Nat} {r r' : Bool × Store}

theorem Agree.of_false (h : r.1 = false) (h' : r'.1 = false) : Agree Q start names p k r r' := by
  refine ⟨h'.trans h.symm, fun htrue => ?_⟩
  rw [h] at htrue
  cases htrue

namespace Mirrors

/-- A variable is made equal to a term, in the place where its bindings are made. -/
theorem unifyVar_cell (h : Mirrors Q start names p s s') (hk : s.envs.size = k)
    (hv : InScope Q s.envs.size ⟨.var v, ev⟩) (ht : InScope Q s.envs.size ⟨t, e⟩)
    {unify unify' : Term → EnvId → Term → EnvId → Store → Bool × Store}
    (hne : ¬ (t = .var v ∧ e = ev))
    (hrec : ∀ c, s.lookup v ev = some c → Agree Q start names p k
      (unify c.term c.env t e s) (unify' c.term (p.env c.env) t (p.env e) s'))
    (hocc : s.lookup v ev = none → s.leadsTo t e v ev = false → s'.occursCheck = true →
      s'.occurs (p.cell v ev).1 (p.cell v ev).2 t (p.env e) = s.occurs v ev t e) :
    Agree Q start names p k (unifyVar unify v ev t e s)
      (unifyVar unify' (p.cell v ev).1 (p.cell v ev).2 t (p.env e) s') := by
  have hne' : ¬ (t = .var (p.cell v ev).1 && p.env e = (p.cell v ev).2) = true := by
    simpa using mt (h.eq_of_cell hv ht) hne
  unfold unifyVar
  rw [if_neg (by simpa using hne), if_neg hne', h.lookup_cell hv]
  cases hc : s.lookup v ev with
  | some c => exact hrec c hc
  | none =>
    simp only [Option.map_none]
    rw [h.leadsTo_eq ht hv, h.occursCheck]
    cases hlead : s.leadsTo t e v ev with
    | true =>
      rw [if_pos rfl, if_pos rfl]
      exact ⟨rfl, fun _ => ⟨h, hk⟩⟩
    | false =>
      rw [if_neg Bool.false_ne_true, if_neg Bool.false_ne_true]
      have hbind := h.bind hc hv ht hlead
      have hsize : (s.bind v ev ⟨t, e⟩).envs.size = k := size_envs_bind.trans hk
      cases hcheck : s.occursCheck with
      | false => exact ⟨rfl, fun _ => ⟨hbind, hsize⟩⟩
      | true =>
        rw [hocc hc hlead (h.occursCheck.trans hcheck)]
        cases s.occurs v ev t e with
        | false => exact ⟨rfl, fun _ => ⟨hbind, hsize⟩⟩
        | true => exact .of_false rfl rfl

/-- What an attempt at a variable within the allowance says about its parts. -/
theorem isSome_of_unifyVarWithin {within : Term → EnvId → Term → EnvId → Store → Option (Option Store)}
    (hne : ¬ (t = .var v ∧ e = ev)) (h : (unifyVarWithin within v ev t e s').isSome = true) :
    (∀ c, s'.lookup v ev = some c → (within c.term c.env t e s').isSome = true) ∧
      (s'.lookup v ev = none → s'.leadsTo t e v ev = false → s'.occursCheck = true →
        (s'.occursWithin v ev allowance t e).isSome = true) := by
  unfold unifyVarWithin at h
  rw [if_neg hne] at h
  constructor
  · intro c hc
    rw [hc] at h
    exact h
  · intro hnone hlead hcheck
    simp only [hnone, hlead, hcheck, if_true] at h
    simpa using h

/-- A variable is made equal to a term, wherever its bindings are made. -/
theorem unifyVar_agree (h : Mirrors Q start names p s s') (hk : s.envs.size = k)
    (hv : InScope Q s.envs.size ⟨.var v, ev⟩) (ht : InScope Q s.envs.size ⟨t, e⟩)
    (hn : Affords p n m (unifyVarWithin (unifyWithin n) v (p.env ev) t (p.env e) s'))
    (hrec : ∀ {i c}, i ≤ n → s.lookup v ev = some c →
      Affords p i m (unifyWithin i c.term (p.env c.env) t (p.env e) s') →
      Agree Q start names p k (unifyAt m c.term c.env t e s) (unifyAt i c.term (p.env c.env) t (p.env e) s')) :
    Agree Q start names p k (unifyVar (unifyAt m) v ev t e s)
      (unifyVar (unifyAt n) v (p.env ev) t (p.env e) s') := by
  by_cases hsame : t = .var v ∧ e = ev
  · unfold unifyVar
    rw [if_pos (by simpa using hsame), if_pos (by simp [hsame.1, hsame.2])]
    exact ⟨rfl, fun _ => ⟨h, hk⟩⟩
  · have hne' := mt (h.eq_of_cell hv ht) hsame
    -- The parts of the attempt once it has come to the place of the variable.
    have hparts {i : Nat} (hi : i ≤ n)
        (hn : Affords p i m (unifyVarWithin (unifyWithin i) (p.cell v ev).1 (p.cell v ev).2 t (p.env e) s')) :
        Agree Q start names p k (unifyVar (unifyAt m) v ev t e s)
          (unifyVar (unifyAt i) (p.cell v ev).1 (p.cell v ev).2 t (p.env e) s') := by
      refine h.unifyVar_cell hk hv ht hsame (fun c hc => hrec hi hc (hn.imp fun hsome => ?_)) fun hc hlead hcheck => ?_
      · exact (isSome_of_unifyVarWithin hne' hsome).1 _ (by rw [h.lookup_cell hv, hc]; rfl)
      · refine h.occursAt_eq hc hv ht (hn.imp_right (fun ⟨_, hsome⟩ => ⟨Nat.le_refl _, ?_⟩) |>.imp_left
          fun ⟨hclean, _⟩ => ⟨hclean, rfl⟩)
        exact (isSome_of_unifyVarWithin hne' hsome).2 (by rw [h.lookup_cell hv, hc]; rfl)
          (by rw [h.leadsTo_eq ht hv, hlead]) hcheck
    cases hname : p.name v ev with
    | none =>
      have hcell := Placement.cell_of_none hname
      have hplace := hparts (Nat.le_refl n) (by rwa [hcell])
      rwa [hcell] at hplace
    | some name =>
      obtain ⟨hle, hsome⟩ := hn.isSome_of_name hname
      have hcell := Placement.cell_of_some hname
      have hlink := (h.named hname).2.2.2
      have hself : ¬ (t = .var v ∧ p.env e = p.env ev) := fun hc => hsame ⟨hc.1, h.env_inj ht.env_lt hv.env_lt hc.2⟩
      unfold unifyVarWithin at hsome
      rw [if_neg hself, hlink] at hsome
      cases n with
      | zero => cases hsome
      | succ i =>
        have hplace := hparts (Nat.le_succ i) (Or.inr ⟨by omega, by rwa [hcell]⟩)
        rw [hcell] at hplace
        rw [unifyVar.eq_def (unifyAt (i + 1)), if_neg (by simpa using hself), hlink]
        exact hplace

theorem allPairs_agree {attempt attempt' : Term → Term → Store → Bool × Store}
    {within : Term → Term → Store → Option (Option Store)} {xs ys : List Term} (hlen : xs.length = ys.length)
    (hends : ∀ x y s r, within x y s = some r → Ends (attempt' x y s) r)
    (h : Mirrors Q start names p s s') (hk : s.envs.size = k)
    (hn : Affords p n m (allPairsWithin within xs ys s'))
    (hpair : ∀ x ∈ xs, ∀ y ∈ ys, ∀ s s', Mirrors Q start names p s s' → s.envs.size = k →
      Affords p n m (within x y s') → Agree Q start names p k (attempt x y s) (attempt' x y s')) :
    Agree Q start names p k (allPairs attempt xs ys s) (allPairs attempt' xs ys s') := by
  induction xs generalizing ys s s' with
  | nil =>
    cases ys with
    | nil => exact ⟨rfl, fun _ => ⟨h, hk⟩⟩
    | cons y ys => cases hlen
  | cons x xs ih =>
    cases ys with
    | nil => cases hlen
    | cons y ys =>
      have hhead : Affords p n m (within x y s') := hn.imp fun hsome => by
        unfold allPairsWithin at hsome
        cases hw : within x y s' with
        | none => simp [hw] at hsome
        | some r => rfl
      have hxy := hpair x List.mem_cons_self y List.mem_cons_self s s' h hk hhead
      unfold allPairs
      cases hr : attempt x y s with
      | mk ok t =>
        cases hr' : attempt' x y s' with
        | mk ok' t' =>
          rw [hr, hr'] at hxy
          obtain ⟨hok, hmirror⟩ := hxy
          cases hok
          cases ok with
          | false => exact .of_false rfl rfl
          | true =>
            obtain ⟨hm, hsize⟩ := hmirror rfl
            refine ih (Nat.succ.inj hlen) hm hsize (hn.imp fun hsome => ?_) fun x hx y hy =>
              hpair x (List.mem_cons_of_mem _ hx) y (List.mem_cons_of_mem _ hy)
            unfold allPairsWithin at hsome
            cases hw : within x y s' with
            | none => simp [hw] at hsome
            | some r =>
              have hend := hends x y s' r hw
              rw [hr'] at hend
              cases r with
              | none => cases hend
              | some u =>
                cases hend
                simpa [hw] using hsome

theorem unifyAt_agree (h : Mirrors Q start names p s s') (hk : s.envs.size = k) (hx : InScope Q k ⟨x, ex⟩)
    (hy : InScope Q k ⟨y, ey⟩) (hn : Affords p n m (unifyWithin n x (p.env ex) y (p.env ey) s')) :
    Agree Q start names p k (unifyAt m x ex y ey s) (unifyAt n x (p.env ex) y (p.env ey) s') := by
  induction n using Nat.strongRecOn generalizing m x ex y ey s s' with
  | ind n ih =>
    cases n with
    | zero =>
      rcases hn with ⟨-, rfl⟩ | ⟨-, hsome⟩
      · exact .of_false rfl rfl
      · cases hsome
    | succ n =>
      obtain ⟨m, rfl⟩ := hn.exists_succ
      have hvar {v : String} {ev e : EnvId} {t : Term} (hv : InScope Q k ⟨.var v, ev⟩) (ht : InScope Q k ⟨t, e⟩)
          (hn : Affords p n m (unifyVarWithin (unifyWithin n) v (p.env ev) t (p.env e) s')) :
          Agree Q start names p k (unifyVar (unifyAt m) v ev t e s)
            (unifyVar (unifyAt n) v (p.env ev) t (p.env e) s') := by
        refine h.unifyVar_agree hk (hk ▸ hv) (hk ▸ ht) hn fun hi hc hn => ?_
        exact ih _ (Nat.lt_succ_of_le hi) h hk (hk ▸ h.inScope hc) ht hn
      cases x with
      | var v => exact hvar hx hy (hn.of_succ fun hsome => hsome)
      | sym a =>
        cases y with
        | var w => exact hvar hy hx (hn.of_succ fun hsome => hsome)
        | sym b => exact ⟨rfl, fun _ => ⟨h, hk⟩⟩
        | compound g ys => exact .of_false rfl rfl
      | compound f xs =>
        cases y with
        | var w => exact hvar hy hx (hn.of_succ fun hsome => hsome)
        | sym b => exact .of_false rfl rfl
        | compound g ys =>
          unfold unifyAt
          by_cases hfg : f = g
          · rw [if_pos hfg, if_pos hfg]
            by_cases hlen : xs.length = ys.length
            · refine allPairs_agree hlen (fun x y s r hr => unifyAt_of_within hr) h hk (hn.of_succ fun hsome => ?_)
                fun x hxs y hys s s' h hk hn => ih n (Nat.lt_succ_self n) h hk (hx.arg hxs) (hy.arg hys) hn
              rwa [unifyWithin, if_pos ⟨hfg, hlen⟩] at hsome
            · exact .of_false (allPairs_of_length_ne hlen) (allPairs_of_length_ne hlen)
          · rw [if_neg hfg, if_neg hfg]
            exact .of_false rfl rfl

/-- Making two terms equal comes to the same outcome in a mirror. -/
theorem unify (h : Mirrors Q start names p s s') (hx : InScope Q s.envs.size ⟨x, ex⟩)
    (hy : InScope Q s.envs.size ⟨y, ey⟩)
    (hn : p.IsClean ∨ (unifyWithin allowance x (p.env ex) y (p.env ey) s').isSome = true) :
    Agree Q start names p s.envs.size (s.unify x ex y ey) (s'.unify x (p.env ex) y (p.env ey)) := by
  have hagree := h.unifyAt_agree rfl hx hy
    (hn.imp (fun hclean => ⟨hclean, rfl⟩) fun hsome => ⟨Nat.le_refl allowance, hsome⟩)
  unfold Store.unify
  generalize unifyAt allowance x ex y ey s = r at hagree
  generalize unifyAt allowance x (p.env ex) y (p.env ey) s' = r' at hagree
  obtain ⟨ok, t⟩ := r
  obtain ⟨ok', t'⟩ := r'
  obtain ⟨hok, hmirror⟩ := hagree
  cases hok
  cases ok with
  | true => exact ⟨rfl, hmirror⟩
  | false => exact .of_false rfl rfl

end Mirrors

end Deduction.Store
