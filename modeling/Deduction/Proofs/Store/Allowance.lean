import Deduction.Proofs.Store.Chains

/-!
# Computations that stay within the allowance

Unification, the search for a variable and plugging are given an allowance of levels, and every variable that is
followed takes up a level as well. Each of them is repeated here so that it has no outcome when it comes to the end of
the allowance; an outcome that there is, is that of the computation itself (`unifyAt_of_within`, `plugAt_of_within`).
-/

namespace Deduction.Store

variable {s s' : Store} {v : String} {ev env ex ey target : EnvId} {x y t : Term}

/-! ### Searching for a variable -/

/-- Is one of the terms as asked for? The terms after it are not looked at. -/
def anyWithin (p : Term → Option Bool) : List Term → Option Bool
  | [] => some false
  | t :: ts =>
    match p t with
    | some false => anyWithin p ts
    | outcome => outcome

/-- Does the variable occur in the term once bindings are applied? -/
def occursWithin (s : Store) (v : String) (ev : EnvId) : Nat → Term → EnvId → Option Bool
  | 0, _, _ => none
  | n + 1, .var w, env =>
    if w = v ∧ env = ev then some true
    else
      match s.lookup w env with
      | some c => s.occursWithin v ev n c.term c.env
      | none => some false
  | _ + 1, .sym _, _ => some false
  | n + 1, .compound _ args, env => anyWithin (s.occursWithin v ev n · env) args

theorem any_of_within {p : Term → Option Bool} {q : Term → Bool} (h : ∀ t b, p t = some b → q t = b) {ts : List Term}
    {b : Bool} (hp : anyWithin p ts = some b) : ts.any q = b := by
  induction ts with
  | nil => simpa [anyWithin] using hp
  | cons t ts ih =>
    unfold anyWithin at hp
    split at hp
    · rename_i ht
      rw [List.any_cons, h t false ht, ih hp, Bool.false_or]
    · rename_i hne
      cases b with
      | false => exact absurd hp hne
      | true => rw [List.any_cons, h t true hp, Bool.true_or]

theorem occursAt_of_within {n : Nat} {b : Bool} (h : s.occursWithin v ev n t env = some b) :
    s.occursAt v ev n t env = b := by
  induction n generalizing t env b with
  | zero => cases h
  | succ n ih =>
    cases t with
    | var w =>
      unfold occursWithin at h
      unfold occursAt
      by_cases hw : w = v ∧ env = ev
      · rw [if_pos hw] at h
        cases h
        simp [hw.1, hw.2]
      · rw [if_neg hw] at h
        have hw' : (decide (w = v) && decide (env = ev)) = false := by simpa using hw
        rw [hw', Bool.false_or]
        cases hc : s.lookup w env with
        | some c =>
          simp only [hc] at h ⊢
          exact ih h
        | none =>
          simp only [hc] at h ⊢
          exact Option.some.inj h
    | sym a => exact Option.some.inj h
    | compound f args => exact any_of_within (fun t b ht => ih ht) h

/-- A search that does not find the variable has not come to the end of the allowance. -/
theorem occursWithin_of_not_occursAt {n : Nat} (h : s.occursAt v ev n t env = false) :
    s.occursWithin v ev n t env = some false := by
  induction n generalizing t env with
  | zero => cases h
  | succ n ih =>
    cases t with
    | var w =>
      unfold occursAt at h
      unfold occursWithin
      rw [Bool.or_eq_false_iff] at h
      rw [if_neg (by simpa using h.1)]
      split
      · rename_i c hc
        simp only [hc] at h
        exact ih h.2
      · rfl
    | sym a => rfl
    | compound f args =>
      unfold occursAt at h
      unfold occursWithin
      rw [List.any_eq_false] at h
      induction args with
      | nil => rfl
      | cons a args ihargs =>
        have ha := ih (by simpa using h a List.mem_cons_self)
        rw [anyWithin, ha]
        exact ihargs fun b hb => h b (List.mem_cons_of_mem a hb)

/-! ### Unification -/

/-- Runs an attempt over two lists of terms, pair by pair, as long as it succeeds. -/
def allPairsWithin (attempt : Term → Term → Store → Option (Option Store)) :
    List Term → List Term → Store → Option (Option Store)
  | x :: xs, y :: ys, s =>
    match attempt x y s with
    | some (some s) => allPairsWithin attempt xs ys s
    | outcome => outcome
  | _, _, s => some (some s)

/-- Makes a variable equal to a term. -/
def unifyVarWithin (unify : Term → EnvId → Term → EnvId → Store → Option (Option Store))
    (v : String) (ev : EnvId) (t : Term) (env : EnvId) (s : Store) : Option (Option Store) :=
  if t = .var v ∧ env = ev then some (some s)
  else
    match s.lookup v ev with
    | some c => unify c.term c.env t env s
    | none =>
      if s.leadsTo t env v ev then some (some s)
      else if s.occursCheck then
        (s.occursWithin v ev allowance t env).map fun occurs =>
          if occurs then none else some (s.bind v ev ⟨t, env⟩)
      else some (some (s.bind v ev ⟨t, env⟩))

/-- The store in which two terms are equal, or that they cannot be made equal. -/
def unifyWithin : Nat → Term → EnvId → Term → EnvId → Store → Option (Option Store)
  | 0, _, _, _, _, _ => none
  | n + 1, .var v, ev, t, env, s => unifyVarWithin (unifyWithin n) v ev t env s
  | n + 1, t, env, .var v, ev, s => unifyVarWithin (unifyWithin n) v ev t env s
  | _ + 1, .sym a, _, .sym b, _, s => some (if a = b then some s else none)
  | n + 1, .compound f xs, ex, .compound g ys, ey, s =>
    if f = g ∧ xs.length = ys.length then allPairsWithin (fun x y => unifyWithin n x ex y ey) xs ys s
    else some none
  | _ + 1, _, _, _, _, _ => some none

/-- An attempt has come to the given end. -/
def Ends (attempt : Bool × Store) : Option Store → Prop
  | some s => attempt = (true, s)
  | none => attempt.1 = false

theorem allPairs_of_within {attempt : Term → Term → Store → Bool × Store}
    {within : Term → Term → Store → Option (Option Store)}
    (h : ∀ x y s r, within x y s = some r → Ends (attempt x y s) r) {xs ys : List Term} {r : Option Store}
    (hlen : xs.length = ys.length) (hr : allPairsWithin within xs ys s = some r) :
    Ends (allPairs attempt xs ys s) r := by
  induction xs generalizing ys s with
  | nil =>
    cases ys with
    | nil => cases hr; rfl
    | cons y ys => cases hlen
  | cons x xs ih =>
    cases ys with
    | nil => cases hlen
    | cons y ys =>
      unfold allPairsWithin at hr
      unfold allPairs
      split at hr
      · rename_i s' hs'
        have hxy : attempt x y s = (true, s') := h x y s _ hs'
        rw [hxy]
        exact ih (Nat.succ.inj hlen) hr
      · rename_i hne
        cases r with
        | some s' => exact absurd hr (hne s')
        | none =>
          have hxy : (attempt x y s).1 = false := h x y s none hr
          split
          · rename_i hs
            rw [hs] at hxy
            cases hxy
          · exact hxy

theorem allPairs_of_length_ne {attempt : Term → Term → Store → Bool × Store} {xs ys : List Term}
    (hlen : xs.length ≠ ys.length) : (allPairs attempt xs ys s).1 = false := by
  induction xs generalizing ys s with
  | nil =>
    cases ys with
    | nil => exact absurd rfl hlen
    | cons y ys => rfl
  | cons x xs ih =>
    cases ys with
    | nil => rfl
    | cons y ys =>
      unfold allPairs
      split
      · apply ih
        simpa using hlen
      · rename_i hne
        cases hb : (attempt x y s).1 with
        | false => rfl
        | true => exact absurd (Prod.ext hb rfl : attempt x y s = (true, (attempt x y s).2)) (hne _)

theorem unifyVar_of_within {unify : Term → EnvId → Term → EnvId → Store → Bool × Store}
    {within : Term → EnvId → Term → EnvId → Store → Option (Option Store)}
    (h : ∀ x ex y ey s r, within x ex y ey s = some r → Ends (unify x ex y ey s) r) {r : Option Store}
    (hr : unifyVarWithin within v ev t env s = some r) : Ends (unifyVar unify v ev t env s) r := by
  unfold unifyVarWithin at hr
  unfold unifyVar
  by_cases hsame : t = .var v ∧ env = ev
  · rw [if_pos hsame] at hr
    rw [if_pos (by simpa using hsame)]
    cases hr
    rfl
  · rw [if_neg hsame] at hr
    rw [if_neg (by simpa using hsame)]
    cases hv : s.lookup v ev with
    | some c =>
      simp only [hv] at hr ⊢
      exact h _ _ _ _ _ _ hr
    | none =>
      simp only [hv] at hr ⊢
      split at hr
      · rename_i hlead
        rw [if_pos hlead]
        cases hr
        rfl
      · rename_i hlead
        rw [if_neg hlead]
        by_cases hcheck : s.occursCheck = true
        · rw [if_pos hcheck] at hr
          obtain ⟨b, hb, rfl⟩ := Option.map_eq_some_iff.1 hr
          have hocc : s.occurs v ev t env = b := occursAt_of_within hb
          rw [hcheck, hocc]
          cases b <;> rfl
        · rw [if_neg hcheck] at hr
          cases hr
          rw [Bool.eq_false_iff.2 hcheck]
          rfl

theorem unifyAt_of_within {n : Nat} {r : Option Store} (h : unifyWithin n x ex y ey s = some r) :
    Ends (unifyAt n x ex y ey s) r := by
  induction n generalizing x ex y ey s r with
  | zero => cases h
  | succ n ih =>
    have ih' (x ex y ey s r) (h : unifyWithin n x ex y ey s = some r) := ih h
    cases x with
    | var v => exact unifyVar_of_within ih' h
    | sym a =>
      cases y with
      | var w => exact unifyVar_of_within ih' h
      | sym b =>
        unfold unifyWithin at h
        unfold unifyAt
        by_cases hab : a = b
        · rw [if_pos hab] at h
          cases h
          rw [beq_iff_eq.2 hab]
          rfl
        · rw [if_neg hab] at h
          cases h
          exact beq_eq_false_iff_ne.2 hab
      | compound g ys => cases h; rfl
    | compound f xs =>
      cases y with
      | var w => exact unifyVar_of_within ih' h
      | sym b => cases h; rfl
      | compound g ys =>
        unfold unifyWithin at h
        unfold unifyAt
        by_cases hfg : f = g
        · rw [if_pos hfg]
          by_cases hlen : xs.length = ys.length
          · rw [if_pos ⟨hfg, hlen⟩] at h
            exact allPairs_of_within (fun x y s r hr => ih hr) hlen h
          · rw [if_neg (fun hc => hlen hc.2)] at h
            cases h
            exact allPairs_of_length_ne hlen
        · rw [if_neg (fun hc => hfg hc.1)] at h
          rw [if_neg hfg]
          cases h
          rfl

theorem unify_of_within {r : Option Store} (h : unifyWithin allowance x ex y ey s = some r) :
    s.unify x ex y ey = match r with
      | some s' => (true, s')
      | none => (false, s) := by
  have hend := unifyAt_of_within h
  cases r with
  | some s' => exact unify_eq_true_iff.2 hend
  | none =>
    have hfalse : (s.unify x ex y ey).1 = false := (unify_fst s x ex y ey).trans hend
    have hpair : s.unify x ex y ey = (false, (s.unify x ex y ey).2) := Prod.ext hfalse rfl
    rw [hpair, unify_eq_of_fails hpair]

/-! ### Attempts that succeed

An attempt that succeeds has not come to the end of the allowance anywhere. -/

theorem allPairsWithin_of_allPairs {attempt : Term → Term → Store → Bool × Store}
    {within : Term → Term → Store → Option (Option Store)}
    (h : ∀ x y s s', attempt x y s = (true, s') → within x y s = some (some s')) {xs ys : List Term}
    (hr : allPairs attempt xs ys s = (true, s')) :
    xs.length = ys.length ∧ allPairsWithin within xs ys s = some (some s') := by
  induction xs generalizing ys s with
  | nil =>
    cases ys with
    | nil =>
      cases hr
      exact ⟨rfl, rfl⟩
    | cons y ys => cases hr
  | cons x xs ih =>
    cases ys with
    | nil => cases hr
    | cons y ys =>
      unfold allPairs at hr
      unfold allPairsWithin
      split at hr
      · rename_i s₁ hs₁
        obtain ⟨hlen, hrest⟩ := ih hr
        simp only [h x y s s₁ hs₁]
        exact ⟨congrArg (· + 1) hlen, hrest⟩
      · rename_i hne
        exact absurd hr (hne s')

theorem unifyVarWithin_of_unifyVar {unify : Term → EnvId → Term → EnvId → Store → Bool × Store}
    {within : Term → EnvId → Term → EnvId → Store → Option (Option Store)}
    (h : ∀ x ex y ey, unify x ex y ey s = (true, s') → within x ex y ey s = some (some s'))
    (hr : unifyVar unify v ev t env s = (true, s')) : unifyVarWithin within v ev t env s = some (some s') := by
  unfold unifyVar at hr
  unfold unifyVarWithin
  by_cases hsame : t = .var v ∧ env = ev
  · rw [if_pos (by simpa using hsame)] at hr
    rw [if_pos hsame, (Prod.mk.inj hr).2]
  · rw [if_neg (by simpa using hsame)] at hr
    rw [if_neg hsame]
    cases hv : s.lookup v ev with
    | some c =>
      simp only [hv] at hr ⊢
      exact h _ _ _ _ hr
    | none =>
      simp only [hv] at hr ⊢
      by_cases hlead : s.leadsTo t env v ev = true
      · rw [if_pos hlead] at hr ⊢
        rw [(Prod.mk.inj hr).2]
      · rw [if_neg hlead] at hr ⊢
        by_cases hocc : (s.occursCheck && s.occurs v ev t env) = true
        · rw [if_pos hocc] at hr
          cases hr
        · rw [if_neg hocc] at hr
          rw [← (Prod.mk.inj hr).2]
          cases hcheck : s.occursCheck with
          | false => rfl
          | true =>
            rw [hcheck, Bool.true_and, Bool.not_eq_true] at hocc
            rw [if_pos rfl, occursWithin_of_not_occursAt hocc]
            rfl

theorem unifyWithin_of_unifyAt {n : Nat} (h : unifyAt n x ex y ey s = (true, s')) :
    unifyWithin n x ex y ey s = some (some s') := by
  induction n generalizing x ex y ey s s' with
  | zero => cases h
  | succ n ih =>
    have ih' (x ex y ey) (h : unifyAt n x ex y ey s = (true, s')) := ih h
    cases x with
    | var v => exact unifyVarWithin_of_unifyVar ih' h
    | sym a =>
      cases y with
      | var w => exact unifyVarWithin_of_unifyVar ih' h
      | sym b =>
        unfold unifyAt at h
        unfold unifyWithin
        rw [if_pos (beq_iff_eq.1 (Prod.mk.inj h).1), (Prod.mk.inj h).2]
      | compound g ys => cases h
    | compound f xs =>
      cases y with
      | var w => exact unifyVarWithin_of_unifyVar ih' h
      | sym b => cases h
      | compound g ys =>
        unfold unifyAt at h
        unfold unifyWithin
        by_cases hfg : f = g
        · rw [if_pos hfg] at h
          obtain ⟨hlen, hall⟩ := allPairsWithin_of_allPairs (fun x y s s' hxy => ih hxy) h
          rw [if_pos ⟨hfg, hlen⟩, hall]
        · rw [if_neg hfg] at h
          cases h

theorem unifyWithin_of_unify (h : s.unify x ex y ey = (true, s')) :
    unifyWithin allowance x ex y ey s = some (some s') := unifyWithin_of_unifyAt (unify_eq_true_iff.1 h)

/-! ### Plugging -/

/-- Applies a function to the terms of a list in turn, each with the state that the one before left. -/
def threadMapWithin {σ : Type} (f : Term → σ → Option (Term × σ)) : List Term → σ → Option (List Term × σ)
  | [], st => some ([], st)
  | t :: ts, st => do
    let (u, st) ← f t st
    let (us, st) ← threadMapWithin f ts st
    return (u :: us, st)

/-- Applies the bindings to a term. -/
def plugWithin (target : EnvId) : Nat → EnvId → Term → Store × NameSupply → Option (Term × (Store × NameSupply))
  | 0, _, _, _ => none
  | n + 1, env, .var v, (s, names) =>
    match s.lookup v env with
    | some c => plugWithin target n c.env c.term (s, names)
    | none =>
      if env = target then some (.var v, (s, names))
      else
        let (fresh, names) := names.freshVar
        some (fresh, (s.bind v env ⟨fresh, target⟩, names))
  | _ + 1, _, .sym a, st => some (.sym a, st)
  | n + 1, env, .compound f args, st => do
    let (args, st) ← threadMapWithin (plugWithin target n env) args st
    return (.compound f args, st)

theorem threadMap_of_within {σ : Type} {f : Term → σ → Term × σ} {within : Term → σ → Option (Term × σ)}
    (h : ∀ t st r, within t st = some r → f t st = r) {ts : List Term} {st : σ} {r : List Term × σ}
    (hr : threadMapWithin within ts st = some r) : threadMap f ts st = r := by
  induction ts generalizing st r with
  | nil => exact Option.some.inj hr
  | cons t ts ih =>
    simp only [threadMapWithin, Option.bind_eq_bind, Option.bind_eq_some_iff, Option.pure_def, Option.some.injEq] at hr
    obtain ⟨⟨u, st'⟩, hu, ⟨us, st''⟩, hus, rfl⟩ := hr
    simp only [threadMap, h t st _ hu, ih hus]

theorem plugAt_of_within {n : Nat} {st : Store × NameSupply} {r : Term × (Store × NameSupply)}
    (h : plugWithin target n env t st = some r) : plugAt target n env t st = r := by
  induction n generalizing env t st r with
  | zero => cases h
  | succ n ih =>
    obtain ⟨s, names⟩ := st
    cases t with
    | var v =>
      unfold plugWithin at h
      unfold plugAt
      cases hc : s.lookup v env with
      | some c =>
        simp only [hc] at h ⊢
        exact ih h
      | none =>
        simp only [hc] at h ⊢
        by_cases henv : env = target
        · rw [if_pos henv] at h ⊢
          exact Option.some.inj h
        · rw [if_neg henv] at h ⊢
          exact Option.some.inj h
    | sym a => exact Option.some.inj h
    | compound f args =>
      simp only [plugWithin, Option.bind_eq_bind, Option.bind_eq_some_iff, Option.pure_def, Option.some.injEq] at h
      obtain ⟨⟨us, st'⟩, hus, rfl⟩ := h
      simp only [plugAt, threadMap_of_within (fun t st r hr => ih hr) hus]

end Deduction.Store
