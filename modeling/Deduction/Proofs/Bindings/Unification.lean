import Deduction.Proofs.Bindings.Substitutions

/-!
# Unification with bindings

When unification succeeds, the solutions of the new bindings are the solutions of the old ones that make the two terms
equal (`diagnoseAt_decides`). So it finds a most general unifier (`unifier_mostGeneral`).

It may fail for four reasons, which are told apart here (`Obstacle`). Where symbols clash, or where a variable would
become a part of its own value, the terms have no unifier. But an unbound variable that meets a variable which leads to
it is taken for a part of its own value as well, although the two are equal already. So terms that have a unifier are made
equal exactly if no variable meets its alias (`unifier_isSome_iff`); none does if one of the terms is ground.
-/

namespace Deduction.Bindings

open Relation (TransGen)

variable {σ : String → Term} {b b' : Bindings} {v w : String} {x y t value : Term} {xs ys ts : List Term} {n : Nat}

/-! ### Why unification fails -/

/-- What stands in the way of making two terms equal: the end of the allowance, different symbols or functors, a variable
that would be a part of its own value, or a variable that meets one that leads to it. -/
inductive Obstacle where
  | depth
  | clash
  | cycle
  | linked
  deriving DecidableEq

/-- Does the variable occur in the term once bindings are applied? There is no answer at the end of the allowance. -/
def occursWithin (b : Bindings) (v : String) : Nat → Term → Option Bool
  | 0, _ => none
  | n + 1, .var w =>
    if w = v then some true
    else
      match b.get? w with
      | some value => b.occursWithin v n value
      | none => some false
  | _ + 1, .sym _ => some false
  | n + 1, .compound _ args => args.anyM (b.occursWithin v n)

/-- Runs an attempt over two lists of terms, pair by pair, as long as it succeeds. -/
def diagnosePairs (attempt : Term → Term → Bindings → Except Obstacle Bindings) :
    List Term → List Term → Bindings → Except Obstacle Bindings
  | x :: xs, y :: ys, b => (attempt x y b).bind (diagnosePairs attempt xs ys)
  | _, _, b => .ok b

/-- Makes a variable equal to a term, or says what stands in the way. -/
def diagnoseVar (diagnose : Term → Term → Bindings → Except Obstacle Bindings) (v : String) (t : Term) (b : Bindings) :
    Except Obstacle Bindings :=
  match b.get? v with
  | some value => diagnose value t b
  | none =>
    match b.occursWithin v allowance t with
    | none => .error .depth
    | some false => .ok (b.bind v t)
    | some true => .error (if b.plug t = .var v then .linked else .cycle)

/-- Makes two terms equal, or says what stands in the way. -/
def diagnoseAt : Nat → Term → Term → Bindings → Except Obstacle Bindings
  | 0, _, _, _ => .error .depth
  | n + 1, x, y, b =>
    if x = y then .ok b
    else
      match x, y with
      | .var v, t => diagnoseVar (diagnoseAt n) v t b
      | t, .var v => diagnoseVar (diagnoseAt n) v t b
      | .compound f xs, .compound g ys =>
        if f = g ∧ xs.length = ys.length then diagnosePairs (diagnoseAt n) xs ys b else .error .clash
      | _, _ => .error .clash

/-- The bindings that make two terms equal, or what stands in the way of unification. -/
def diagnose (x y : Term) : Except Obstacle Bindings := diagnoseAt allowance x y []

/-- At the end of the allowance a variable counts as found. -/
theorem occursAt_eq (b : Bindings) (v : String) (n : Nat) (t : Term) :
    b.occursAt v n t = (b.occursWithin v n t).getD true := by
  induction n generalizing t with
  | zero => rfl
  | succ n ih =>
    cases t with
    | var w =>
      unfold occursAt occursWithin
      by_cases hw : w = v
      · simp [hw]
      · rw [if_neg hw, decide_eq_false hw, Bool.false_or]
        cases b.get? w with
        | some value => exact ih value
        | none => rfl
    | sym a => rfl
    | compound f args =>
      unfold occursAt occursWithin
      induction args with
      | nil => rfl
      | cons a args ihargs =>
        rw [List.any_cons, List.anyM_cons, ihargs, ih]
        cases b.occursWithin v n a with
        | none => rfl
        | some found => cases found <;> rfl

theorem foldPairs_of_length_ne {extend : Term → Term → Bindings → Option Bindings} (h : xs.length ≠ ys.length) :
    foldPairs extend xs ys b = none := by
  induction xs generalizing ys b with
  | nil =>
    cases ys with
    | nil => exact absurd rfl h
    | cons y ys => rfl
  | cons x xs ih =>
    cases ys with
    | nil => rfl
    | cons y ys =>
      rw [foldPairs]
      cases extend x y b with
      | none => rfl
      | some b' => exact ih fun hlen => h (congrArg (· + 1) hlen)

theorem foldPairs_eq_diagnosePairs {extend : Term → Term → Bindings → Option Bindings}
    {attempt : Term → Term → Bindings → Except Obstacle Bindings}
    (h : ∀ x y b, extend x y b = (attempt x y b).toOption) (hlen : xs.length = ys.length) :
    foldPairs extend xs ys b = (diagnosePairs attempt xs ys b).toOption := by
  induction xs generalizing ys b with
  | nil =>
    cases ys with
    | nil => rfl
    | cons y ys => cases hlen
  | cons x xs ih =>
    cases ys with
    | nil => cases hlen
    | cons y ys =>
      rw [foldPairs, diagnosePairs, h]
      cases attempt x y b with
      | error e => rfl
      | ok b' => exact ih (Nat.succ.inj hlen)

theorem unifyVar_eq_diagnoseVar {unify : Term → Term → Bindings → Option Bindings}
    {attempt : Term → Term → Bindings → Except Obstacle Bindings}
    (h : ∀ x y b, unify x y b = (attempt x y b).toOption) (v : String) (t : Term) (b : Bindings) :
    unifyVar unify v t b = (diagnoseVar attempt v t b).toOption := by
  unfold unifyVar diagnoseVar occurs
  rw [occursAt_eq]
  cases b.get? v with
  | some value => exact h value t b
  | none =>
    cases b.occursWithin v allowance t with
    | none => rfl
    | some found => cases found <;> rfl

/-- What stands in the way is found by the same run. -/
theorem unifyAt_eq_diagnoseAt (n : Nat) (x y : Term) (b : Bindings) :
    unifyAt n x y b = (diagnoseAt n x y b).toOption := by
  induction n generalizing x y b with
  | zero => rfl
  | succ n ih =>
    unfold unifyAt diagnoseAt
    by_cases hxy : x = y
    · rw [if_pos hxy, if_pos hxy]
      rfl
    · rw [if_neg hxy, if_neg hxy]
      cases x with
      | var v => exact unifyVar_eq_diagnoseVar ih v y b
      | sym a =>
        cases y with
        | var w => exact unifyVar_eq_diagnoseVar ih w (.sym a) b
        | sym c => rfl
        | compound g ys => rfl
      | compound f xs =>
        cases y with
        | var w => exact unifyVar_eq_diagnoseVar ih w (.compound f xs) b
        | sym c => rfl
        | compound g ys =>
          -- The pairs of lists of different lengths fail at the end of the shorter one, with bindings that were made in vain.
          by_cases hlen : xs.length = ys.length
          · by_cases hfg : f = g
            · simp only [hfg, hlen, and_self, if_true]
              exact foldPairs_eq_diagnosePairs ih hlen
            · simp only [hfg, false_and, if_false]
              rfl
          · simp only [hlen, and_false, if_false, foldPairs_of_length_ne hlen, ite_self]
            rfl

theorem unifier_eq_diagnose (x y : Term) : unifier x y = (diagnose x y).toOption :=
  unifyAt_eq_diagnoseAt allowance x y []

theorem diagnose_of_unifier (h : unifier x y = some b) : diagnose x y = .ok b := by
  rw [unifier_eq_diagnose] at h
  cases hd : diagnose x y with
  | error e =>
    rw [hd] at h
    cases h
  | ok b' =>
    rw [hd] at h
    exact congrArg _ (Option.some.inj h)

/-! ### Which solutions unification leaves -/

/-- The outcome of making an equation true under bindings says which of their solutions make it true: after success, those
of the new bindings, and where symbols clash or a variable would be a part of its value, none. -/
def Decides (b : Bindings) (σ : String → Term) (equation : Prop) : Except Obstacle Bindings → Prop
  | .ok b' => b.SolvedBy σ ∧ equation ↔ b'.SolvedBy σ
  | .error .clash => b.SolvedBy σ → ¬ equation
  | .error .cycle => b.SolvedBy σ → ¬ equation
  | .error .depth => True
  | .error .linked => True

theorem Decides.congr {p q : Prop} {r : Except Obstacle Bindings} (h : Decides b σ p r) (hpq : b.SolvedBy σ → (q ↔ p)) :
    Decides b σ q r := by
  cases r with
  | ok b' => exact (and_congr_right hpq).trans h
  | error e =>
    cases e with
    | depth => exact trivial
    | clash => exact fun hb hq => h hb ((hpq hb).1 hq)
    | cycle => exact fun hb hq => h hb ((hpq hb).1 hq)
    | linked => exact trivial

theorem exists_of_anyM {p : Term → Option Bool} (h : ts.anyM p = some true) : ∃ t ∈ ts, p t = some true := by
  induction ts with
  | nil => cases h
  | cons t ts ih =>
    rw [List.anyM_cons] at h
    cases ht : p t with
    | none =>
      rw [ht] at h
      cases h
    | some found =>
      cases found with
      | true => exact ⟨t, List.mem_cons_self, ht⟩
      | false =>
        rw [ht] at h
        obtain ⟨u, hu, hp⟩ := ih h
        exact ⟨u, List.mem_cons_of_mem t hu, hp⟩

/-- A variable that occurs in a term is what the term is plugged to, or its value is smaller than that of the term. -/
theorem SolvedBy.plugAt_eq_or_lt (h : b.SolvedBy σ) (hv : b.get? v = none) (hocc : b.occursWithin v n t = some true) :
    b.plugAt n t = .var v ∨ sizeOf (σ v) < sizeOf (t.instantiate σ) := by
  induction n generalizing t with
  | zero => cases hocc
  | succ n ih =>
    cases t with
    | var w =>
      unfold occursWithin at hocc
      unfold plugAt
      by_cases hw : w = v
      · left
        rw [hw, hv]
      · rw [if_neg hw] at hocc
        cases hvalue : b.get? w with
        | none =>
          simp only [hvalue] at hocc
          cases hocc
        | some value =>
          simp only [hvalue] at hocc ⊢
          have hsize : (Term.var w).instantiate σ = value.instantiate σ := h w value hvalue
          rw [hsize]
          exact ih hocc
    | sym a => cases hocc
    | compound f args =>
      right
      unfold occursWithin at hocc
      obtain ⟨a, ha, hocc'⟩ := exists_of_anyM hocc
      -- An argument may be plugged to the variable itself, so that only below the functor its value is smaller.
      have hle : sizeOf (σ v) ≤ sizeOf (a.instantiate σ) := by
        rcases ih hocc' with hplug | hlt
        · rw [← h.instantiate_plugAt n a, hplug]
          exact Nat.le_refl _
        · exact Nat.le_of_lt hlt
      have hlt := List.sizeOf_lt_of_mem (List.mem_map_of_mem (f := Term.instantiate σ) ha)
      rw [Term.instantiate_compound_eq, Term.compound.sizeOf_spec]
      omega

theorem diagnoseVar_decides {attempt : Term → Term → Bindings → Except Obstacle Bindings}
    (h : ∀ x y, Decides b σ (x.instantiate σ = y.instantiate σ) (attempt x y b)) (v : String) (t : Term) :
    Decides b σ (σ v = t.instantiate σ) (diagnoseVar attempt v t b) := by
  unfold diagnoseVar
  cases hv : b.get? v with
  | some value =>
    refine (h value t).congr fun hb => ?_
    rw [hb v value hv]
  | none =>
    cases hocc : b.occursWithin v allowance t with
    | none => exact trivial
    | some found =>
      cases found with
      | false => exact (solvedBy_bind hv).symm
      | true =>
        by_cases hplug : b.plug t = .var v
        · simp only [hplug, if_true]
          exact trivial
        · simp only [hplug, if_false]
          intro hb heq
          rcases hb.plugAt_eq_or_lt hv hocc with hself | hlt
          · exact hplug hself
          · rw [heq] at hlt
            exact Nat.lt_irrefl _ hlt

theorem diagnosePairs_decides {attempt : Term → Term → Bindings → Except Obstacle Bindings}
    (h : ∀ x y b, Decides b σ (x.instantiate σ = y.instantiate σ) (attempt x y b)) (hlen : xs.length = ys.length) :
    Decides b σ (xs.map (Term.instantiate σ) = ys.map (Term.instantiate σ)) (diagnosePairs attempt xs ys b) := by
  induction xs generalizing ys b with
  | nil =>
    cases ys with
    | nil => exact and_iff_left rfl
    | cons y ys => cases hlen
  | cons x xs ih =>
    cases ys with
    | nil => cases hlen
    | cons y ys =>
      have hhead := h x y b
      rw [diagnosePairs, List.map_cons, List.map_cons, List.cons.injEq]
      cases hr : attempt x y b with
      | error e =>
        rw [hr] at hhead
        cases e with
        | depth => exact trivial
        | clash => exact fun hb heq => hhead hb heq.1
        | cycle => exact fun hb heq => hhead hb heq.1
        | linked => exact trivial
      | ok b' =>
        rw [hr] at hhead
        have hrest := ih (b := b') (Nat.succ.inj hlen)
        change Decides b σ _ (diagnosePairs attempt xs ys b')
        -- The solutions of the bindings in between make the first pair equal.
        cases hr' : diagnosePairs attempt xs ys b' with
        | ok b'' =>
          rw [hr'] at hrest
          calc b.SolvedBy σ ∧ _ ∧ _ ↔ (b.SolvedBy σ ∧ _) ∧ _ := and_assoc.symm
            _ ↔ b'.SolvedBy σ ∧ _ := and_congr_left' hhead
            _ ↔ b''.SolvedBy σ := hrest
        | error e =>
          rw [hr'] at hrest
          cases e with
          | depth => exact trivial
          | clash => exact fun hb heq => hrest (hhead.1 ⟨hb, heq.1⟩) heq.2
          | cycle => exact fun hb heq => hrest (hhead.1 ⟨hb, heq.1⟩) heq.2
          | linked => exact trivial

/-- Unification leaves the solutions that make the two terms equal. -/
theorem diagnoseAt_decides (n : Nat) (x y : Term) (b : Bindings) :
    Decides b σ (x.instantiate σ = y.instantiate σ) (diagnoseAt n x y b) := by
  induction n generalizing x y b with
  | zero => exact trivial
  | succ n ih =>
    have hclash {p : Prop} (hp : ¬ p) : Decides b σ p (.error .clash) := fun _ => hp
    unfold diagnoseAt
    by_cases hxy : x = y
    · rw [if_pos hxy]
      exact and_iff_left (congrArg _ hxy)
    · rw [if_neg hxy]
      cases x with
      | var v => exact diagnoseVar_decides (fun x y => ih x y b) v y
      | sym a =>
        cases y with
        | var w => exact (diagnoseVar_decides (fun x y => ih x y b) w (.sym a)).congr fun _ => eq_comm
        | sym c => exact hclash hxy
        | compound g ys => exact hclash fun heq => by cases heq
      | compound f xs =>
        cases y with
        | var w => exact (diagnoseVar_decides (fun x y => ih x y b) w (.compound f xs)).congr fun _ => eq_comm
        | sym c => exact hclash fun heq => by cases heq
        | compound g ys =>
          rw [Term.instantiate_compound_eq, Term.instantiate_compound_eq, Term.compound.injEq]
          by_cases hfg : f = g ∧ xs.length = ys.length
          · simp only [hfg, and_self, if_true]
            exact (diagnosePairs_decides ih hfg.2).congr fun _ => and_iff_right trivial
          · simp only [hfg, if_false]
            refine hclash fun heq => hfg ⟨heq.1, ?_⟩
            simpa using congrArg List.length heq.2

/-- The solutions of the bindings that unification finds are the unifiers. -/
theorem solvedBy_of_unifier (h : unifier x y = some b) (σ : String → Term) :
    x.instantiate σ = y.instantiate σ ↔ b.SolvedBy σ := by
  have hdecides : Decides [] σ (x.instantiate σ = y.instantiate σ) (diagnose x y) := diagnoseAt_decides allowance x y []
  rw [diagnose_of_unifier h] at hdecides
  exact (and_iff_right (solvedBy_nil σ)).symm.trans hdecides

/-! ### What unification keeps -/

/-- Kept by the bindings that unification makes, among terms from a set that arguments and values do not lead out of. -/
structure Keeps (G : Term → Prop) (P : Bindings → Prop) : Prop where
  arg : ∀ {f ts t}, G (.compound f ts) → t ∈ ts → G t
  value : ∀ {b v t}, P b → b.get? v = some t → G t
  bind : ∀ {b v t}, P b → G (.var v) → G t → b.get? v = none → b.occurs v t = false → P (b.bind v t)

variable {G : Term → Prop} {P : Bindings → Prop}

theorem foldPairs_keeps {extend : Term → Term → Bindings → Option Bindings}
    (h : ∀ x y b b', P b → G x → G y → extend x y b = some b' → P b') (hb : P b) (hxs : ∀ x ∈ xs, G x)
    (hys : ∀ y ∈ ys, G y) (hfold : foldPairs extend xs ys b = some b') : P b' := by
  induction xs generalizing ys b with
  | nil =>
    cases ys with
    | nil => exact Option.some.inj hfold ▸ hb
    | cons y ys => cases hfold
  | cons x xs ih =>
    cases ys with
    | nil => cases hfold
    | cons y ys =>
      obtain ⟨b₁, hxy, hfold⟩ := Option.bind_eq_some_iff.1 hfold
      rw [List.forall_mem_cons] at hxs hys
      exact ih (h x y b b₁ hb hxs.1 hys.1 hxy) hxs.2 hys.2 hfold

theorem unifyVar_keeps (hP : Keeps G P) {unify : Term → Term → Bindings → Option Bindings}
    (h : ∀ x y b b', P b → G x → G y → unify x y b = some b' → P b') (hb : P b) (hv : G (.var v)) (ht : G t)
    (hunify : unifyVar unify v t b = some b') : P b' := by
  unfold unifyVar at hunify
  split at hunify
  · rename_i value hvalue
    exact h value t b b' hb (hP.value hb hvalue) ht hunify
  · rename_i hnone
    split at hunify
    · cases hunify
    · rename_i hocc
      exact Option.some.inj hunify ▸ hP.bind hb hv ht hnone (by simpa using hocc)

theorem unifyAt_keeps (hP : Keeps G P) (hb : P b) (hx : G x) (hy : G y) (h : unifyAt n x y b = some b') : P b' := by
  induction n generalizing x y b b' with
  | zero => cases h
  | succ n ih =>
    have ih' (x y b b') (hb : P b) (hx : G x) (hy : G y) (h : unifyAt n x y b = some b') := ih hb hx hy h
    unfold unifyAt at h
    split at h
    · exact Option.some.inj h ▸ hb
    · split at h
      · exact unifyVar_keeps hP ih' hb hx hy h
      · exact unifyVar_keeps hP ih' hb hy hx h
      · split at h
        · exact foldPairs_keeps ih' hb (fun _ ht => hP.arg hx ht) (fun _ ht => hP.arg hy ht) h
        · cases h
      · cases h

/-- Every variable is bound at most once; variables and values are made of the given variables, and they do not go round. -/
structure IsSolved (vs : List String) (b : Bindings) : Prop where
  nodup : (b.map Prod.fst).Nodup
  mem : ∀ v ∈ b.map Prod.fst, v ∈ vs
  value : ∀ {v t}, b.get? v = some t → ∀ w ∈ t.vars, w ∈ vs
  triangular : b.IsTriangular

theorem not_mem_of_get? (h : b.get? v = none) : v ∉ b.map Prod.fst := by
  intro hmem
  obtain ⟨p, hp, rfl⟩ := List.mem_map.1 hmem
  have hne := List.lookup_eq_none_iff.1 h p hp
  simp at hne

theorem IsSolved.keeps (vs : List String) : Keeps (fun t => ∀ w ∈ t.vars, w ∈ vs) (IsSolved vs) where
  arg ht hu w hw := ht w (Term.mem_vars_compound.2 ⟨_, hu, hw⟩)
  value hb ht := hb.value ht
  bind {b v t} hb hv ht hfree hocc := by
    have hvs : v ∈ vs := hv v (Term.mem_vars_var.2 rfl)
    constructor
    · exact List.nodup_cons.2 ⟨not_mem_of_get? hfree, hb.nodup⟩
    · exact List.forall_mem_cons.2 ⟨hvs, hb.mem⟩
    · intro w u hw
      rw [get?_bind] at hw
      split at hw
      · exact Option.some.inj hw ▸ ht
      · exact hb.value hw
    · exact hb.triangular.bind (not_reaches_of_not_occursAt hocc)

theorem isSolved_of_unifier (h : unifier x y = some b) : b.IsSolved (x.vars ++ y.vars) := by
  refine unifyAt_keeps (IsSolved.keeps _) ?_ (fun w hw => ?_) (fun w hw => ?_) h
  · exact ⟨List.nodup_nil, by simp, (fun hw => by cases hw), isTriangular_nil⟩
  · exact List.mem_append_left _ hw
  · exact List.mem_append_right _ hw

/-! ### Most general unifiers -/

/-- Bindings that unification finds are in triangular form: they bind variables of the two terms, each at most once, and do
not go round. Plugging makes the terms equal and a second time changes nothing, as far as it stays within the allowance,
and no unifier of the terms tells a term from what plugging makes of it. -/
theorem unifier_mostGeneral (h : unifier x y = some b) :
    (b.map Prod.fst).Nodup ∧ (∀ v ∈ b.map Prod.fst, v ∈ x.vars ∨ v ∈ y.vars) ∧ (∀ v, ¬ TransGen b.Leads v v) ∧
      ((b.plugWithin allowance x).isSome → (b.plugWithin allowance y).isSome → b.plug x = b.plug y) ∧
      (∀ t, (b.plugWithin allowance t).isSome → b.plug (b.plug t) = b.plug t) ∧
      ∀ σ, x.instantiate σ = y.instantiate σ → ∀ t, (b.plug t).instantiate σ = t.instantiate σ := by
  have hsolved := isSolved_of_unifier h
  refine ⟨hsolved.nodup, fun v hv => List.mem_append.1 (hsolved.mem v hv), hsolved.triangular.acyclic, ?_, ?_, ?_⟩
  · intro hx hy
    obtain ⟨u, hu⟩ := Option.isSome_iff_exists.1 hx
    obtain ⟨u', hu'⟩ := Option.isSome_iff_exists.1 hy
    obtain ⟨σ, hσ, hplug⟩ := hsolved.triangular.exists_solution
    calc b.plug x = x.instantiate σ := (plugAt_of_within hu).trans (hplug _ _ _ hu)
      _ = y.instantiate σ := (solvedBy_of_unifier h σ).2 hσ
      _ = b.plug y := ((plugAt_of_within hu').trans (hplug _ _ _ hu')).symm
  · intro t ht
    obtain ⟨u, hu⟩ := Option.isSome_iff_exists.1 ht
    have hplug : b.plug t = u := plugAt_of_within hu
    rw [hplug]
    exact plugAt_of_unbound (unbound_of_plugWithin hu)
  · intro σ heq t
    exact ((solvedBy_of_unifier h σ).1 heq).instantiate_plug t

/-- For `p(X,g(Y))` and `p(f(Y),Z)`, where the value of `X` is plugged with that of `Y` to come. -/
theorem unifier_mostGeneral_apart :
    unifier (.compound "p" [.var "X", .compound "g" [.var "Y"]]) (.compound "p" [.compound "f" [.var "Y"], .var "Z"]) =
        some [("Z", .compound "g" [.var "Y"]), ("X", .compound "f" [.var "Y"])] ∧
      plug [("Z", .compound "g" [.var "Y"]), ("X", .compound "f" [.var "Y"])]
          (.compound "p" [.var "X", .compound "g" [.var "Y"]]) =
        plug [("Z", .compound "g" [.var "Y"]), ("X", .compound "f" [.var "Y"])]
          (.compound "p" [.compound "f" [.var "Y"], .var "Z"]) := by
  have h : unifier (.compound "p" [.var "X", .compound "g" [.var "Y"]])
      (.compound "p" [.compound "f" [.var "Y"], .var "Z"]) =
        some [("Z", .compound "g" [.var "Y"]), ("X", .compound "f" [.var "Y"])] := by
    decide +kernel
  exact ⟨h, (unifier_mostGeneral h).2.2.2.1 (by decide +kernel) (by decide +kernel)⟩

/-! ### When unification fails -/

theorem depth_or_linked_of_unifier_eq_none {σ : String → Term} (heq : x.instantiate σ = y.instantiate σ)
    (h : unifier x y = none) : diagnose x y = .error .depth ∨ diagnose x y = .error .linked := by
  have hdecides : Decides [] σ (x.instantiate σ = y.instantiate σ) (diagnose x y) := diagnoseAt_decides allowance x y []
  rw [unifier_eq_diagnose] at h
  cases hd : diagnose x y with
  | ok b =>
    rw [hd] at h
    cases h
  | error e =>
    rw [hd] at hdecides
    cases e with
    | depth => exact Or.inl rfl
    | clash => exact absurd heq (hdecides (solvedBy_nil σ))
    | cycle => exact absurd heq (hdecides (solvedBy_nil σ))
    | linked => exact Or.inr rfl

/-- The outcome of an attempt that starts with ground values: the values are ground again, or it is not a variable that
met its alias that stood in the way. -/
def IsPlain : Except Obstacle Bindings → Prop
  | .ok b => ∀ v t, b.get? v = some t → t.isGround = true
  | .error e => e ≠ .linked

theorem not_occursWithin_of_isGround (b : Bindings) (v : String) (ht : t.isGround = true) :
    b.occursWithin v n t ≠ some true := by
  induction n generalizing t with
  | zero => simp [occursWithin]
  | succ n ih =>
    cases t with
    | var w => cases ht
    | sym a => simp [occursWithin]
    | compound f args =>
      intro hocc
      rw [Term.isGround, Term.allGround_eq, List.all_eq_true] at ht
      obtain ⟨a, ha, hocc'⟩ := exists_of_anyM hocc
      exact ih (ht a ha) hocc'

theorem diagnoseVar_isPlain {attempt : Term → Term → Bindings → Except Obstacle Bindings}
    (h : ∀ x y, x.isGround = true ∨ y.isGround = true → IsPlain (attempt x y b))
    (hb : ∀ v t, b.get? v = some t → t.isGround = true) (v : String) (ht : t.isGround = true) :
    IsPlain (diagnoseVar attempt v t b) := by
  unfold diagnoseVar
  cases hv : b.get? v with
  | some value => exact h value t (Or.inr ht)
  | none =>
    cases hocc : b.occursWithin v allowance t with
    | none => exact nofun
    | some found =>
      cases found with
      | true => exact absurd hocc (not_occursWithin_of_isGround b v ht)
      | false =>
        intro w u hw
        rw [get?_bind] at hw
        split at hw
        · exact Option.some.inj hw ▸ ht
        · exact hb w u hw

theorem diagnosePairs_isPlain {attempt : Term → Term → Bindings → Except Obstacle Bindings}
    (h : ∀ x y b, (∀ v t, b.get? v = some t → t.isGround = true) → x.isGround = true ∨ y.isGround = true →
      IsPlain (attempt x y b))
    (hb : ∀ v t, b.get? v = some t → t.isGround = true)
    (hground : (∀ x ∈ xs, x.isGround = true) ∨ ∀ y ∈ ys, y.isGround = true) :
    IsPlain (diagnosePairs attempt xs ys b) := by
  induction xs generalizing ys b with
  | nil => exact hb
  | cons x xs ih =>
    cases ys with
    | nil => exact hb
    | cons y ys =>
      rw [List.forall_mem_cons, List.forall_mem_cons] at hground
      have hhead := h x y b hb (hground.imp And.left And.left)
      rw [diagnosePairs]
      cases hr : attempt x y b with
      | error e =>
        rw [hr] at hhead
        exact hhead
      | ok b' =>
        rw [hr] at hhead
        exact ih hhead (hground.imp And.right And.right)

theorem diagnoseAt_isPlain (hb : ∀ v t, b.get? v = some t → t.isGround = true)
    (hground : x.isGround = true ∨ y.isGround = true) : IsPlain (diagnoseAt n x y b) := by
  induction n generalizing x y b with
  | zero => exact nofun
  | succ n ih =>
    have hclash : IsPlain (.error .clash) := nofun
    have ih' (x y : Term) (hground : x.isGround = true ∨ y.isGround = true) : IsPlain (diagnoseAt n x y b) := ih hb hground
    unfold diagnoseAt
    by_cases hxy : x = y
    · rw [if_pos hxy]
      exact hb
    · rw [if_neg hxy]
      cases x with
      | var v => exact diagnoseVar_isPlain ih' hb v (hground.resolve_left (by simp [Term.isGround]))
      | sym a =>
        cases y with
        | var w => exact diagnoseVar_isPlain ih' hb w rfl
        | sym c => exact hclash
        | compound g ys => exact hclash
      | compound f xs =>
        cases y with
        | var w => exact diagnoseVar_isPlain ih' hb w (hground.resolve_right (by simp [Term.isGround]))
        | sym c => exact hclash
        | compound g ys =>
          dsimp only
          split
          · simp only [Term.isGround, Term.allGround_eq, List.all_eq_true] at hground
            exact diagnosePairs_isPlain (fun x y b hb hground => ih hb hground) hb hground
          · exact hclash

/-- Within the allowance, unification succeeds exactly for terms that have a unifier and where no variable meets its alias
on the way; where one of the terms is ground, none does. -/
theorem unifier_isSome_iff (hdepth : diagnose x y ≠ .error .depth) :
    ((unifier x y).isSome ↔ (∃ σ, x.instantiate σ = y.instantiate σ) ∧ diagnose x y ≠ .error .linked) ∧
      (x.isGround = true ∨ y.isGround = true → diagnose x y ≠ .error .linked) := by
  refine ⟨⟨fun h => ?_, fun ⟨⟨σ, heq⟩, hlinked⟩ => ?_⟩, fun hground hlinked => ?_⟩
  · obtain ⟨b, hb⟩ := Option.isSome_iff_exists.1 h
    obtain ⟨σ, hσ, -⟩ := (isSolved_of_unifier hb).triangular.exists_solution
    refine ⟨⟨σ, (solvedBy_of_unifier hb σ).2 hσ⟩, ?_⟩
    rw [diagnose_of_unifier hb]
    exact nofun
  · cases h : unifier x y with
    | some b => rfl
    | none => exact ((depth_or_linked_of_unifier_eq_none heq h).elim hdepth hlinked).elim
  · have hplain : IsPlain (diagnose x y) := diagnoseAt_isPlain (b := []) (fun v t hv => by cases hv) hground
    rw [hlinked] at hplain
    exact hplain rfl

/-- `p(X,Y)` and `p(Y,X)` have a unifier, and none is found: the second pair makes `Y` meet `X`, which leads to it. -/
theorem unifier_isSome_iff_crossed :
    (∃ σ, (Term.compound "p" [.var "X", .var "Y"]).instantiate σ = (Term.compound "p" [.var "Y", .var "X"]).instantiate σ) ∧
      unifier (.compound "p" [.var "X", .var "Y"]) (.compound "p" [.var "Y", .var "X"]) = none := by
  have h := unifier_isSome_iff (x := .compound "p" [.var "X", .var "Y"]) (y := .compound "p" [.var "Y", .var "X"])
    (by decide +kernel)
  have hunifier : (Term.compound "p" [.var "X", .var "Y"]).instantiate (fun _ => .sym "a") =
      (Term.compound "p" [.var "Y", .var "X"]).instantiate fun _ => .sym "a" := rfl
  refine ⟨⟨_, hunifier⟩, Option.not_isSome_iff_eq_none.1 fun hsome => ?_⟩
  exact (h.1.1 hsome).2 (by decide +kernel)

end Deduction.Bindings
