import Deduction.Bindings.Unify
import Deduction.Proofs.Store.Straight
import Deduction.Proofs.Theory.Lists
import Deduction.Proofs.Theory.Narrowing

/-!
# Lookups narrow the choice

A lookup gives a part of the entries, in their order, and it leaves out none that the query could meet
(`edited_lookups_narrow`). A term that a pattern matches has the functor and the symbols of the pattern, so the key of
the pattern is one of its keys, whatever the mode of the index (`Theory.admits_of_matcher`). Under the bindings of a
store the same goes for the ground terms that the query can be made equal to.

A lookup under bindings follows variables to their end. In a store that is not straight some variables have none, and a
lookup that comes to one goes on and on (`Theory.lookupEnds`).
-/

namespace Deduction

/-! ### What a pattern matches -/

namespace Bindings

variable {p t : Term} {b b' : Bindings} {n : Nat} {f a : String}

/-- The pattern matches the term within an allowance, from some bindings. -/
def MatchesAt (n : Nat) (p t : Term) : Prop := ∃ b b', matchAt n p t b = some b'

theorem MatchesAt.sym (h : MatchesAt n (.sym a) t) : t = .sym a := by
  obtain ⟨b, b', h⟩ := h
  cases n with
  | zero => cases h
  | succ n =>
    unfold matchAt at h
    by_cases ht : t = .sym a
    · exact ht
    · rw [if_neg ht] at h
      cases h

theorem forall₂_of_foldPairs {ps ts : List Term} (h : foldPairs (matchAt n) ps ts b = some b') :
    List.Forall₂ (MatchesAt n) ps ts := by
  induction ps generalizing ts b with
  | nil =>
    cases ts with
    | nil => exact .nil
    | cons t ts => cases h
  | cons p ps ih =>
    cases ts with
    | nil => cases h
    | cons t ts =>
      obtain ⟨b₁, hp, hps⟩ := Option.bind_eq_some_iff.1 h
      exact .cons ⟨b, b₁, hp⟩ (ih hps)

/-- A compound matches compounds with the same functor, argument by argument. -/
theorem MatchesAt.compound {ps : List Term} (h : MatchesAt (n + 1) (.compound f ps) t) :
    ∃ ts, t = .compound f ts ∧ List.Forall₂ (MatchesAt n) ps ts := by
  obtain ⟨b, b', h⟩ := h
  cases t with
  | var v => cases h
  | sym a => cases h
  | compound g ts =>
    unfold matchAt at h
    by_cases hfg : f = g
    · rw [if_pos hfg] at h
      exact ⟨ts, by rw [hfg], forall₂_of_foldPairs h⟩
    · rw [if_neg hfg] at h
      cases h

theorem not_matchesAt_zero : ¬ MatchesAt 0 p t := by
  rintro ⟨b, b', h⟩
  cases h

theorem MatchesAt.functor (h : MatchesAt n p t) (hf : p.functor? = some f) : t.functor? = some f := by
  cases n with
  | zero => exact absurd h not_matchesAt_zero
  | succ n =>
    cases p with
    | var v => cases hf
    | sym a => rwa [h.sym]
    | compound g ps =>
      obtain ⟨ts, rfl, -⟩ := h.compound
      exact hf

/-- A rule whose head has a functor matches only rules whose heads have it. -/
theorem MatchesAt.functor_headOrSelf (h : MatchesAt n p t) (hf : p.headOrSelf.functor? = some f) :
    t.headOrSelf.functor? = some f := by
  cases n with
  | zero => exact absurd h not_matchesAt_zero
  | succ n =>
    cases p with
    | var v => cases hf
    | sym a => rwa [h.sym]
    | compound g ps =>
      obtain ⟨ts, rfl, hts⟩ := h.compound
      cases hts with
      | nil => exact hf
      | cons hx _ =>
        unfold Term.headOrSelf Term.asRule at hf ⊢
        by_cases hrule : g = "rule"
        · simp only [if_pos hrule] at hf ⊢
          exact hx.functor hf
        · simp only [if_neg hrule] at hf ⊢
          exact hf

/-- The symbols of a pattern are symbols of whatever it matches. -/
theorem MatchesAt.mem_symbols (h : MatchesAt n p t) (ha : a ∈ p.symbols) : a ∈ t.symbols := by
  induction n generalizing p t with
  | zero => exact absurd h not_matchesAt_zero
  | succ n ih =>
    cases p with
    | var v => cases ha
    | sym c => rwa [h.sym]
    | compound g ps =>
      obtain ⟨ts, rfl, hts⟩ := h.compound
      rw [Term.symbols_compound] at ha ⊢
      rcases List.mem_cons.1 ha with rfl | ha
      · exact List.mem_cons_self
      · obtain ⟨q, hq, ha⟩ := List.mem_flatMap.1 ha
        obtain ⟨u, hu, hqu⟩ := exists_left_of_forall₂ hts.flip hq
        exact List.mem_cons_of_mem g (List.mem_flatMap.2 ⟨u, hu, ih hqu ha⟩)

end Bindings

namespace Theory

variable {th : Theory} {id : EntryId} {t query : Term}

/-- A term that the query matches is among those that a lookup of the query gives. -/
theorem admits_of_matcher (th : Theory) (h : (Bindings.matcher query t).isSome = true) :
    th.admits (th.queryKey query) t = true := by
  obtain ⟨b, hb⟩ := Option.isSome_iff_exists.1 h
  have hmatches : Bindings.MatchesAt allowance query t := ⟨[], b, hb⟩
  rw [queryKey_eq]
  exact Covers.admits ⟨fun _ ha => hmatches.mem_symbols ha, fun _ hf => hmatches.functor hf,
    fun _ hf => hmatches.functor_headOrSelf hf⟩ th

/-- Of the terms that a query matches, a lookup of the query leaves out none and changes no order. -/
theorem Indexed.filter_lookup (h : th.Indexed) (query : Term) :
    (th.lookup query).filter (fun t => (Bindings.matcher query t).isSome) =
      th.toList.filter fun t => (Bindings.matcher query t).isSome := by
  rw [lookup_eq h, List.filter_filter]
  apply List.filter_congr
  intro t _
  cases hmatch : (Bindings.matcher query t).isSome with
  | false => rfl
  | true => rw [admits_of_matcher th hmatch]; rfl

/-! ### Lookups that come to an end -/

end Theory

namespace Store

variable {s s₀ s' : Store} {goal t : Term} {env cenv : EnvId} {c d : Closure} {n m : Nat}

/-- Does following variables come to an end wherever it is done on the way down to so many levels of the term? -/
def endsAt (s : Store) : Nat → Term → EnvId → Bool
  | 0, _, _ => true
  | n + 1, t, env =>
    match s.resolve t env with
    | ⟨.var v, env⟩ => (s.lookup v env).isNone
    | ⟨.sym _, _⟩ => true
    | ⟨.compound _ args, env⟩ => args.all (s.endsAt n · env)

theorem ChainsEnd.endsAt (hs : s.ChainsEnd) (n : Nat) (t : Term) (env : EnvId) : s.endsAt n t env = true := by
  induction n generalizing t env with
  | zero => rfl
  | succ n ih =>
    have hend := hs t env
    unfold Store.endsAt
    generalize s.resolve t env = r at hend
    obtain ⟨u, env'⟩ := r
    cases u with
    | var v => simpa [isBound_var, Option.eq_none_iff_forall_ne_some] using hend
    | sym a => rfl
    | compound f args => exact List.all_eq_true.2 fun u _ => ih u env'

/-- While a variable is made equal to a ground term, it is followed for fewer steps than there is allowance for. -/
theorem LeadsIn.lt_of_unifyAt (hlead : s₀.LeadsIn m c d) (hbelow : s₀.Below s) (ht : t.isGround = true)
    (h : unifyAt n c.term c.env t cenv s = (true, s')) : m < n := by
  induction hlead generalizing n with
  | refl c =>
    cases n with
    | zero => cases h
    | succ n => exact Nat.succ_pos n
  | @step m v env c d hv _ ih =>
    cases n with
    | zero => cases h
    | succ n =>
      unfold unifyAt unifyVar at h
      have hne : ¬ ((decide (t = .var v) && decide (cenv = env)) = true) := by
        rw [Bool.and_eq_true, decide_eq_true_iff]
        rintro ⟨rfl, -⟩
        cases ht
      rw [if_neg hne, hbelow v env c hv] at h
      exact Nat.succ_lt_succ (ih h)

/-- What can be made equal to a ground term is followed to an end at all levels. -/
theorem endsAt_of_unifyAt (hs : s₀.Trailed) (hbelow : s₀.Below s) (ht : t.isGround = true)
    (h : unifyAt n goal env t cenv s = (true, s')) : s₀.endsAt m goal env = true := by
  induction m generalizing n goal env t s s' with
  | zero => rfl
  | succ m ih =>
    unfold endsAt
    generalize hr : s₀.resolve goal env = r
    obtain ⟨u, env'⟩ := r
    cases u with
    | var v =>
      -- Otherwise no end is found at all, and following takes more steps than there is allowance for.
      by_contra hbound
      have hendless (d : Closure) (hd : s₀.Leads ⟨goal, env⟩ d) : s₀.IsBound d := by
        by_contra hfree
        have heq : (⟨.var v, env'⟩ : Closure) = d := hr.symm.trans (hs.resolve_eq hd hfree)
        rw [← heq, isBound_var, ← Option.isSome_iff_exists] at hfree
        simp_all
      obtain ⟨d, hd, -⟩ := exists_leadsIn_of_endless hendless n
      exact Nat.lt_irrefl n (hd.lt_of_unifyAt hbelow ht h)
    | sym a => rfl
    | compound f args =>
      obtain ⟨ts, k, rfl, hts, hargs⟩ := unifyAt_compound hr hbelow ht h
      have hends := forall₂_of_allPairs (R := fun x _ => s₀.endsAt m x env' = true)
        (fun x y s s' hb hy hxy => ih hb hy hxy) hbelow hts hargs
      refine List.all_eq_true.2 fun x hx => ?_
      obtain ⟨y, -, hxy⟩ := exists_left_of_forall₂ hends.flip hx
      exact hxy

end Store

namespace Theory

variable {th : Theory} {id : EntryId} {t query : Term}

/-- Does the lookup come to an end? With a full index it follows all variables on the way down through the query, and
otherwise the query itself if that is a variable. -/
def lookupEnds (th : Theory) (s : Store) (query : Term) (env : EnvId) : Bool :=
  match th.mode with
  | .full => s.endsAt allowance query env
  | _ => s.endsAt 1 query env

theorem lookupEnds_of_chainsEnd (th : Theory) {s : Store} (hs : s.ChainsEnd) (query : Term) (env : EnvId) :
    th.lookupEnds s query env = true := by
  unfold lookupEnds
  split <;> exact hs.endsAt _ query env

/-- In a store that is not straight a lookup of some query does not come to an end. -/
theorem exists_lookupEnds_eq_false (th : Theory) {s : Store} (hs : s.Trailed) (h : s.isStraight = false) :
    ∃ query env, th.lookupEnds s query env = false := by
  obtain ⟨⟨query, env⟩, hc⟩ := hs.exists_endless h
  obtain ⟨v, d, hv, hd⟩ := hc _ (s.leads_resolve query env)
  have hends (n : Nat) : s.endsAt (n + 1) query env = false := by
    rw [Store.endsAt]
    generalize s.resolve query env = r at hv hd
    obtain ⟨u, env'⟩ := r
    obtain rfl : u = .var v := hv
    simp [show s.lookup v env' = some d from hd]
  refine ⟨query, env, ?_⟩
  unfold lookupEnds
  split <;> exact hends _

/-- The lookup of a query that can be made equal to a ground term comes to an end. -/
theorem lookupEnds_of_unify (th : Theory) {s s' : Store} {env cenv : EnvId} (htrail : s.Trailed) (hs : s.Below s')
    (hground : t.isGround = true) (hunify : (s'.unify query env t cenv).1 = true) : th.lookupEnds s query env = true := by
  have hunify' := Store.unify_eq_true_iff.1 (Prod.ext hunify rfl)
  unfold lookupEnds
  split <;> exact Store.endsAt_of_unifyAt htrail hs hground hunify'

/-! ### What a lookup gives -/

theorem lookupIdsIn_eq_idsFor (th : Theory) (s : Store) (query : Term) (env : EnvId) :
    th.lookupIdsIn s query env = th.idsFor (th.queryKeyIn s query env) := by
  unfold lookupIdsIn queryKeyIn lookupIds queryKey
  cases th.mode <;> rfl

/-- The places that a lookup by a key gives ascend, and none of them is a hole. -/
theorem Indexed.idsFor_ascend (h : th.Indexed) (key : Option String) :
    (th.idsFor key).Pairwise (· < ·) ∧ ∀ id ∈ th.idsFor key, (th.get? id).isSome := by
  rw [h.idsFor_eq]
  refine ⟨(pairwise_ids th).filter _, fun id hid => ?_⟩
  exact mem_ids.1 (List.mem_filter.1 hid).1

/-- A lookup gives the places of all ground terms that the query can be made equal to. -/
theorem Indexed.mem_lookupIdsIn (h : th.Indexed) {s s' : Store} {env cenv : EnvId} (hs : s.Below s')
    (hid : th.get? id = some t) (hground : t.isGround = true) (hunify : (s'.unify query env t cenv).1 = true) :
    id ∈ th.lookupIdsIn s query env := by
  have hfits : s.Fits query env t := Store.unify_fits hs hground (Prod.ext hunify rfl)
  rw [lookupIdsIn_eq_idsFor, h.idsFor_eq, List.mem_filter, hid, Option.any_some]
  exact ⟨mem_ids.2 (by rw [hid]; rfl), th.admits_of_fits hfits⟩

/-- Whatever the index is and however the theory was edited, lookups of a query only narrow the choice. The terms that
the query matches are those of the lookup that it matches, in the same order. Under the bindings of a store, the lookup
comes to an end and gives the places of all ground terms that the query can be made equal to, when the terms are read in a
fresh environment. The places that lookups give ascend, and none of them is a hole. All lookups under the bindings of a
store come to an end just if the store is straight. -/
theorem edited_lookups_narrow (mode : IndexMode) (edits : List Edit) (query : Term) :
    ((edited mode edits).lookup query).filter (fun t => (Bindings.matcher query t).isSome) =
        (edited mode edits).toList.filter (fun t => (Bindings.matcher query t).isSome) ∧
      (∀ (s : Store) (env : EnvId) (id : EntryId) (t : Term), s.Trailed → (edited mode edits).get? id = some t →
        t.isGround = true → (s.newEnv.2.unify query env t s.newEnv.1).1 = true →
          (edited mode edits).lookupEnds s query env = true ∧ id ∈ (edited mode edits).lookupIdsIn s query env) ∧
      ((edited mode edits).lookupIds query).Pairwise (· < ·) ∧
      (∀ id ∈ (edited mode edits).lookupIds query, ((edited mode edits).get? id).isSome) ∧
      (∀ (s : Store) (env : EnvId), ((edited mode edits).lookupIdsIn s query env).Pairwise (· < ·) ∧
        ∀ id ∈ (edited mode edits).lookupIdsIn s query env, ((edited mode edits).get? id).isSome) ∧
      ∀ s : Store, s.Trailed →
        (s.isStraight = true ↔ ∀ (goal : Term) (env : EnvId), (edited mode edits).lookupEnds s goal env = true) := by
  have hindexed := (kept_edited mode edits).indexed
  refine ⟨hindexed.filter_lookup query, fun s env id t htrail hid hground hunify => ?_, ?_, ?_, fun s env => ?_,
    fun s htrail => ?_⟩
  · have hbelow : s.Below s.newEnv.2 := fun v e c hv => by rwa [Store.lookup_newEnv]
    exact ⟨lookupEnds_of_unify _ htrail hbelow hground hunify, hindexed.mem_lookupIdsIn hbelow hid hground hunify⟩
  · rw [lookupIds_eq_idsFor]
    exact (hindexed.idsFor_ascend _).1
  · rw [lookupIds_eq_idsFor]
    exact (hindexed.idsFor_ascend _).2
  · rw [lookupIdsIn_eq_idsFor]
    exact hindexed.idsFor_ascend _
  · refine ⟨fun h => lookupEnds_of_chainsEnd _ (htrail.isStraight_iff_chainsEnd.1 h), fun hends => ?_⟩
    by_contra hstraight
    obtain ⟨goal, env, hgoal⟩ := exists_lookupEnds_eq_false _ htrail (Bool.eq_false_iff.2 hstraight)
    rw [hends goal env] at hgoal
    cases hgoal

/-- Of three facts a lookup of `p(X)` gives the two about `p`, whose places are the first and the last; of these the
query matches the one that has one argument. -/
example : let th := edited .full [.insertAll [.compound "p" [.sym "a"], .sym "q", .compound "p" [.sym "a", .sym "b"]]]
    th.lookupIds (.compound "p" [.var "X"]) = [0, 2] ∧
      (th.lookup (.compound "p" [.var "X"])).filter
        (fun t => (Bindings.matcher (.compound "p" [.var "X"]) t).isSome) = [.compound "p" [.sym "a"]] := by
  decide +kernel

end Theory

end Deduction
