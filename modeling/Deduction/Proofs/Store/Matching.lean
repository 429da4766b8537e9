import Deduction.Proofs.Bindings.Matching
import Deduction.Proofs.Store.Rollback

/-!
# Matching in a store

A store matches a pattern as bindings do (`matchInto_agrees`), with one exception. Where a variable comes again, bindings
compare its value with the term, but a store matches the value once more, as a pattern. If what the variable was met
with before has no variables, that is the same. If it has, then the match fails or binds variables of the term.
-/

namespace Deduction

/-! ### Where variables stand -/

namespace Term

mutual
/-- The variables of a pattern, as often as they occur, with what the term has in their places. -/
def meetings : Term → Term → List (String × Term)
  | var v, t => [(v, t)]
  | compound f ps, compound g ts => if f = g then meetingsList ps ts else []
  | _, _ => []

def meetingsList : List Term → List Term → List (String × Term)
  | p :: ps, t :: ts => meetings p t ++ meetingsList ps ts
  | _, _ => []
end

end Term

open Term (meetings meetingsList)

/-- Where a variable comes again, what it was met with before is ground. -/
def MetGround (ms : List (String × Term)) : Prop := ms.Pairwise fun x y => x.1 = y.1 → x.2.isGround = true

namespace Bindings

variable {b b' : Bindings} {v : String} {u p t : Term} {ps ts : List Term} {n : Nat} {ms : List (String × Term)}

theorem mem_of_get? (h : b.get? v = some u) : (v, u) ∈ b := by
  obtain ⟨l₁, l₂, rfl, -⟩ := List.lookup_eq_some_iff.1 h
  exact List.mem_append_right l₁ List.mem_cons_self

/-- If the value of a variable is ground, so are older ones that it hides. -/
theorem isGround_of_mem (hb : MetGround b.reverse) (hv : b.get? v = some t) (ht : t.isGround = true) (hu : (v, u) ∈ b) :
    u.isGround = true := by
  obtain ⟨l₁, l₂, rfl, hfirst⟩ := List.lookup_eq_some_iff.1 hv
  rcases List.mem_append.1 hu with hu | hu
  · have hne := hfirst _ hu
    simp at hne
  · rcases List.mem_cons.1 hu with heq | hu
    · rwa [(Prod.mk.inj heq).2]
    · obtain ⟨-, hlater, -⟩ := List.pairwise_append.1 (List.pairwise_reverse.1 hb)
      exact (List.pairwise_cons.1 hlater).1 _ hu rfl

/-- The bindings after a match are those before it and the meetings of the pattern with the term, without repeats. -/
structure Grows (b : Bindings) (ms : List (String × Term)) (b' : Bindings) : Prop where
  sublist : b'.reverse.Sublist (b.reverse ++ ms)
  mem : ∀ x ∈ b.reverse ++ ms, x ∈ b'

theorem Grows.append {b₁ : Bindings} {ms' : List (String × Term)} (h : Grows b ms b₁) (h' : Grows b₁ ms' b') :
    Grows b (ms ++ ms') b' where
  sublist := by
    rw [← List.append_assoc]
    exact h'.sublist.trans (h.sublist.append_right ms')
  mem := by
    intro x hx
    rw [← List.append_assoc] at hx
    apply h'.mem
    rcases List.mem_append.1 hx with hx | hx
    · exact List.mem_append_left _ (List.mem_reverse.2 (h.mem x hx))
    · exact List.mem_append_right _ hx

theorem grows_foldPairs {extend : Term → Term → Bindings → Option Bindings}
    (hextend : ∀ {p t b b'}, extend p t b = some b' → Grows b (meetings p t) b')
    (h : foldPairs extend ps ts b = some b') : Grows b (meetingsList ps ts) b' := by
  induction ps generalizing ts b with
  | nil =>
    cases ts with
    | nil =>
      cases h
      exact ⟨by simp [meetingsList], by simp [meetingsList]⟩
    | cons t ts => cases h
  | cons p ps ih =>
    cases ts with
    | nil => cases h
    | cons t ts =>
      obtain ⟨b₁, hp, hps⟩ := Option.bind_eq_some_iff.1 h
      exact (hextend hp).append (ih hps)

theorem grows_matchAt (h : matchAt n p t b = some b') : Grows b (meetings p t) b' := by
  induction n generalizing p t b b' with
  | zero => cases h
  | succ n ih =>
    cases p with
    | var v =>
      rw [matchAt] at h
      cases hv : b.get? v with
      | some value =>
        simp only [hv, Option.ite_none_right_eq_some, Option.some.injEq] at h
        obtain ⟨rfl, rfl⟩ := h
        refine ⟨List.sublist_append_left _ _, ?_⟩
        intro x hx
        rcases List.mem_append.1 hx with hx | hx
        · exact List.mem_reverse.1 hx
        · rw [List.mem_singleton.1 hx]
          exact mem_of_get? hv
      | none =>
        simp only [hv, Option.some.injEq] at h
        subst h
        have hrev : (b.bind v t).reverse = b.reverse ++ [(v, t)] := List.reverse_cons
        refine ⟨by rw [hrev, meetings], ?_⟩
        intro x hx
        rw [← List.mem_reverse, hrev]
        exact hx
    | sym a =>
      rw [matchAt, Option.ite_none_right_eq_some, Option.some.injEq] at h
      obtain ⟨rfl, rfl⟩ := h
      exact ⟨by simp [meetings], by simp [meetings]⟩
    | compound f ps =>
      cases t with
      | var w => cases h
      | sym a => cases h
      | compound g ts =>
        rw [matchAt, Option.ite_none_right_eq_some] at h
        obtain ⟨rfl, h⟩ := h
        rw [meetings, if_pos rfl]
        exact grows_foldPairs ih h

/-- What is met later is met with the bindings that a match has left. -/
theorem Grows.metGround_iff (h : Grows b ms b') {later : List (String × Term)} (hms : MetGround (b.reverse ++ ms)) :
    MetGround (b.reverse ++ (ms ++ later)) ↔ MetGround (b'.reverse ++ later) := by
  rw [← List.append_assoc]
  constructor
  · intro hall
    exact hall.sublist (h.sublist.append_right later)
  · intro hlater
    obtain ⟨-, hrest, hcross⟩ := List.pairwise_append.1 hlater
    refine List.pairwise_append.2 ⟨hms, hrest, ?_⟩
    intro x hx y hy
    exact hcross x (List.mem_reverse.2 (h.mem x hx)) y hy

end Bindings

namespace Store

variable {s s' : Store} {ep et env : EnvId} {b : Bindings} {v : String} {u p t : Term} {ps ts : List Term} {n : Nat}

/-! ### A value that is matched again -/

theorem allPairs_cons_eq_true {attempt : Term → Term → Store → Bool × Store}
    (h : allPairs attempt (p :: ps) (t :: ts) s = (true, s')) :
    ∃ s₁, attempt p t s = (true, s₁) ∧ allPairs attempt ps ts s₁ = (true, s') := by
  unfold allPairs at h
  split at h
  · rename_i s₁ hs₁
    exact ⟨s₁, hs₁, h⟩
  · rename_i hne
    exact absurd h (hne s')

theorem allPairs_matchAt_extends (n : Nat) (ps ts : List Term) (ep et : EnvId) (s : Store) :
    Extends s (allPairs (fun p t => matchAt n p ep t et) ps ts s).2 :=
  allPairs_keeps ps ts (fun p _ t _ s' h => h.trans (matchAt_extends n p ep t et s')) .refl

/-- A ground value is compared with the term. -/
theorem matchAt_of_isGround (env : EnvId) (hu : u.isGround = true) (hn : t.depth ≤ n) :
    matchAt n u env t et s = (decide (u = t), s) := by
  induction n generalizing u t with
  | zero =>
    have := Term.one_le_depth t
    omega
  | succ n ih =>
    cases u with
    | var v => cases hu
    | sym a =>
      rw [matchAt]
      simp only [eq_comm]
    | compound f us =>
      cases t with
      | var w => simp [matchAt]
      | sym a => simp [matchAt]
      | compound g ts =>
        rw [Term.isGround, Term.allGround_eq, List.all_eq_true] at hu
        rw [Term.depth] at hn
        have hall : allPairs (fun u t => matchAt n u env t et) us ts s = (decide (us = ts), s) := by
          clear * - ih hu hn
          induction us generalizing ts with
          | nil => cases ts <;> simp [allPairs]
          | cons u us ihs =>
            cases ts with
            | nil => simp [allPairs]
            | cons t ts =>
              rw [List.forall_mem_cons] at hu
              rw [Term.depthList] at hn
              rw [allPairs, ih hu.1 (by omega)]
              by_cases hut : u = t
              · simp [hut, ihs hu.2 ts (by omega)]
              · simp [hut]
        rw [matchAt, hall]
        by_cases hfg : f = g
        · simp [hfg]
        · simp [hfg]

/-- A value that is matched without binding variables of the term has none. -/
theorem isGround_of_matchAt (het : et < s.envs.size) (h : matchAt n u et t et s = (true, s'))
    (hfree : ∀ v, s'.lookup v et = none) : u.isGround = true := by
  induction n generalizing u t s s' with
  | zero => cases h
  | succ n ih =>
    have hext := matchAt_extends (n + 1) u et t et s
    rw [h] at hext
    cases u with
    | var v =>
      rw [matchAt, hext.isBelow.lookup_eq_none (hfree v)] at h
      obtain ⟨-, rfl⟩ := Prod.mk.inj h
      have hbound := hfree v
      rw [lookup_bind het, if_pos ⟨rfl, rfl⟩] at hbound
      cases hbound
    | sym a => rfl
    | compound f us =>
      cases t with
      | var w => cases h
      | sym a => cases h
      | compound g ts =>
        rw [matchAt] at h
        by_cases hfg : f = g
        · rw [if_pos hfg] at h
          rw [Term.isGround]
          clear * - ih het h hfree
          induction us generalizing ts s with
          | nil => rfl
          | cons u us ihs =>
            cases ts with
            | nil => cases h
            | cons t ts =>
              obtain ⟨s₁, hone, hrest⟩ := allPairs_cons_eq_true h
              have hext₁ := matchAt_extends n u et t et s
              rw [hone] at hext₁
              have hext₂ := allPairs_matchAt_extends n us ts et et s₁
              rw [hrest] at hext₂
              have hu : u.isGround = true := ih het hone fun v => hext₂.isBelow.lookup_eq_none (hfree v)
              have hus : Term.allGround us = true := ihs (by rw [hext₁.size_envs]; exact het) ts hrest
              rw [Term.allGround, hu, hus]
              rfl
        · rw [if_neg hfg] at h
          cases h

/-! ### The two matchers side by side -/

/-- The environment of the pattern holds the bindings, read in the environment of the term; the others are as they
were. -/
structure Carries (s : Store) (ep et : EnvId) (b : Bindings) (s' : Store) : Prop where
  size : s'.envs.size = s.envs.size
  own : ∀ v, s'.lookup v ep = (b.get? v).map fun u => ⟨u, et⟩
  other : ∀ v env, env ≠ ep → s'.lookup v env = s.lookup v env

/-- Both matchers fail, or both succeed and the store carries the bindings. -/
inductive Agrees (s : Store) (ep et : EnvId) : Option Bindings → Bool × Store → Prop
  | matched {b : Bindings} {s' : Store} (h : Carries s ep et b s') : Agrees s ep et (some b) (true, s')
  | failed (s' : Store) : Agrees s ep et none (false, s')

theorem Carries.bind (h : Carries s ep et b s') (hep : ep < s.envs.size) (v : String) (t : Term) :
    Carries s ep et (b.bind v t) (s'.bind v ep ⟨t, et⟩) where
  size := by rw [size_envs_bind, h.size]
  own := by
    intro w
    rw [lookup_bind (by rw [h.size]; exact hep), Bindings.get?_bind, h.own]
    by_cases hw : w = v
    · simp [hw]
    · simp [hw]
  other := by
    intro w env henv
    rw [lookup_bind (by rw [h.size]; exact hep), if_neg (fun hc => henv hc.2), h.other w env henv]

theorem allPairs_agrees
    (hone : ∀ {p t b s'}, t.depth < n → Carries s ep et b s' → MetGround (b.reverse ++ meetings p t) →
      Agrees s ep et (Bindings.matchAt n p t b) (matchAt n p ep t et s'))
    (hn : Term.depthList ts < n) (h : Carries s ep et b s') (hms : MetGround (b.reverse ++ meetingsList ps ts)) :
    Agrees s ep et (Bindings.foldPairs (Bindings.matchAt n) ps ts b) (allPairs (fun p t => matchAt n p ep t et) ps ts s') := by
  induction ps generalizing ts b s' with
  | nil =>
    cases ts with
    | nil => exact .matched h
    | cons t ts => exact .failed s'
  | cons p ps ih =>
    cases ts with
    | nil => exact .failed s'
    | cons t ts =>
      rw [Term.depthList] at hn
      rw [meetingsList] at hms
      have hfirst : MetGround (b.reverse ++ meetings p t) := by
        rw [← List.append_assoc] at hms
        exact (List.pairwise_append.1 hms).1
      have hpt := hone (p := p) (t := t) (by omega) h hfirst
      rw [Bindings.foldPairs, allPairs]
      generalize hr : Bindings.matchAt n p t b = r at hpt
      generalize matchAt n p ep t et s' = r' at hpt
      cases hpt with
      | matched h₁ =>
        have hgrows := Bindings.grows_matchAt hr
        exact ih (by omega) h₁ ((hgrows.metGround_iff hfirst).1 hms)
      | failed s₁ => exact .failed s₁

/-- As long as variables that come again were met with ground terms, a store matches as bindings do. -/
theorem matchAt_agrees (hep : ep < s.envs.size) (hn : t.depth < n) (h : Carries s ep et b s')
    (hms : MetGround (b.reverse ++ meetings p t)) :
    Agrees s ep et (Bindings.matchAt n p t b) (matchAt n p ep t et s') := by
  induction n generalizing p t b s' with
  | zero => omega
  | succ n ih =>
    cases p with
    | var v =>
      rw [Bindings.matchAt, matchAt, h.own]
      cases hv : b.get? v with
      | some u =>
        have hu : u.isGround = true := by
          obtain ⟨-, -, hcross⟩ := List.pairwise_append.1 hms
          exact hcross (v, u) (List.mem_reverse.2 (Bindings.mem_of_get? hv)) (v, t) (by simp [meetings]) rfl
        simp only [Option.map_some]
        rw [matchAt_of_isGround et hu (by omega)]
        by_cases hut : u = t
        · simp only [hut, if_true, decide_true]
          exact .matched h
        · simp only [hut, if_false, decide_false]
          exact .failed s'
      | none => exact .matched (h.bind hep v t)
    | sym a =>
      rw [Bindings.matchAt, matchAt]
      by_cases ht : t = .sym a
      · simp only [ht, if_true, decide_true]
        exact .matched h
      · simp only [ht, if_false, decide_false]
        exact .failed s'
    | compound f ps =>
      cases t with
      | var w => exact .failed s'
      | sym a => exact .failed s'
      | compound g ts =>
        rw [Bindings.matchAt, matchAt]
        by_cases hfg : f = g
        · rw [if_pos hfg, if_pos hfg]
          rw [Term.depth] at hn
          rw [meetings, if_pos hfg] at hms
          exact allPairs_agrees ih (by omega) h hms
        · rw [if_neg hfg, if_neg hfg]
          exact .failed s'

/-! ### A match that leaves the term alone -/

theorem metGround_of_allPairs (hep : ep < s.envs.size)
    (hone : ∀ {p t b s₁ s'}, t.depth < n → Carries s ep et b s₁ → MetGround b.reverse →
      matchAt n p ep t et s₁ = (true, s') → (∀ v, s'.lookup v et = none) → MetGround (b.reverse ++ meetings p t))
    {s₁ : Store} (hn : Term.depthList ts < n) (h : Carries s ep et b s₁) (hb : MetGround b.reverse)
    (hrun : allPairs (fun p t => matchAt n p ep t et) ps ts s₁ = (true, s')) (hfree : ∀ v, s'.lookup v et = none) :
    MetGround (b.reverse ++ meetingsList ps ts) := by
  induction ps generalizing ts b s₁ with
  | nil => simpa [meetingsList] using hb
  | cons p ps ih =>
    cases ts with
    | nil => cases hrun
    | cons t ts =>
      rw [Term.depthList] at hn
      obtain ⟨s₂, hpt, hrest⟩ := allPairs_cons_eq_true hrun
      have hext := allPairs_matchAt_extends n ps ts ep et s₂
      rw [hrest] at hext
      have hfirst : MetGround (b.reverse ++ meetings p t) :=
        hone (by omega) h hb hpt fun v => hext.isBelow.lookup_eq_none (hfree v)
      -- What has been matched so far is what bindings match, so the rest starts from their bindings.
      have hagrees := matchAt_agrees (n := n) (p := p) hep (by omega) h hfirst
      rw [hpt] at hagrees
      generalize hr : Bindings.matchAt n p t b = r at hagrees
      cases hagrees with
      | @matched b₁ _ h₁ =>
        have hgrows := Bindings.grows_matchAt hr
        rw [meetingsList]
        exact (hgrows.metGround_iff hfirst).2 (ih (by omega) h₁ (hfirst.sublist hgrows.sublist) hrest)

/-- If a match leaves the variables of the term free, variables that came again were met with ground terms. -/
theorem metGround_of_matchAt (hep : ep < s.envs.size) (het : et < s.envs.size) {s₁ : Store}
    (hn : t.depth < n) (h : Carries s ep et b s₁) (hb : MetGround b.reverse) (hrun : matchAt n p ep t et s₁ = (true, s'))
    (hfree : ∀ v, s'.lookup v et = none) : MetGround (b.reverse ++ meetings p t) := by
  induction n generalizing p t b s₁ s' with
  | zero => omega
  | succ n ih =>
    cases p with
    | var v =>
      rw [matchAt, h.own] at hrun
      refine List.pairwise_append.2 ⟨hb, List.pairwise_singleton _ _, ?_⟩
      rintro ⟨w, u⟩ hx y hy hwv
      rw [meetings, List.mem_singleton] at hy
      subst hy
      cases hwv
      cases hv : b.get? v with
      | some value =>
        simp only [hv, Option.map_some] at hrun
        have hvalue : value.isGround = true := isGround_of_matchAt (by rw [h.size]; exact het) hrun hfree
        exact Bindings.isGround_of_mem hb hv hvalue (List.mem_reverse.1 hx)
      | none => exact absurd (List.mem_map_of_mem (List.mem_reverse.1 hx)) (Bindings.not_mem_of_get? hv)
    | sym a => simpa [meetings] using hb
    | compound f ps =>
      cases t with
      | var w => cases hrun
      | sym a => cases hrun
      | compound g ts =>
        rw [matchAt] at hrun
        by_cases hfg : f = g
        · rw [if_pos hfg] at hrun
          rw [Term.depth] at hn
          rw [meetings, if_pos hfg]
          exact metGround_of_allPairs hep ih (by omega) h hb hrun hfree
        · rw [if_neg hfg] at hrun
          cases hrun

/-! ### Matching into a fresh environment -/

/-- The environment is in the store and has no bindings. -/
def IsFresh (s : Store) (env : EnvId) : Prop := env < s.envs.size ∧ ∀ v, s.lookup v env = none

theorem IsFresh.newEnv (h : s.IsFresh env) : s.newEnv.2.IsFresh env := by
  refine ⟨by rw [size_envs_newEnv]; exact Nat.lt_succ_of_lt h.1, fun v => ?_⟩
  rw [lookup_newEnv]
  exact h.2 v

theorem IsFresh.carries_nil (h : s.IsFresh ep) (et : EnvId) : Carries s ep et [] s where
  size := rfl
  own := h.2
  other _ _ _ := rfl

/-- The two matchers agree on a pattern and a term in fresh environments, if what a variable of the pattern is met with
is ground where the variable comes again. Then matching in the store succeeds where matching with bindings does, it binds
the variables of the pattern, each to its value read in the environment of the term, and no other environment changes.
Otherwise matching in the store fails or binds variables of the term. -/
theorem matchInto_agrees (hep : s.IsFresh ep) (het : s.IsFresh et) (ht : t.depth ≤ depthLimit) :
    (MetGround (p.meetings t) →
      (s.matchInto p ep t et).1 = (Bindings.matcher p t).isSome ∧
        ∀ b, Bindings.matcher p t = some b →
          (∀ v, (s.matchInto p ep t et).2.lookup v ep = (b.get? v).map fun u => ⟨u, et⟩) ∧
            (∀ v, ((s.matchInto p ep t et).2.lookup v ep).isSome ↔ v ∈ p.vars) ∧
            ∀ v env, env ≠ ep → (s.matchInto p ep t et).2.lookup v env = s.lookup v env) ∧
      (¬ MetGround (p.meetings t) → (s.matchInto p ep t et).1 = true →
        ∃ v, (s.matchInto p ep t et).2.lookup v et ≠ none) := by
  have hn : t.depth < allowance := Nat.lt_succ_of_le ht
  have hempty := hep.carries_nil et
  constructor
  · intro hms
    have hagrees : Agrees s ep et (Bindings.matcher p t) (matchAt allowance p ep t et s) :=
      matchAt_agrees hep.1 hn hempty hms
    unfold matchInto
    generalize hr : Bindings.matcher p t = r at hagrees
    generalize matchAt allowance p ep t et s = r' at hagrees
    cases hagrees with
    | failed s' =>
      refine ⟨rfl, ?_⟩
      intro b hb
      cases hb
    | @matched b s' h =>
      refine ⟨rfl, ?_⟩
      intro b' hb'
      cases hb'
      refine ⟨h.own, fun v => ?_, h.other⟩
      obtain ⟨σ, -, rfl⟩ := (Bindings.matcher_eq_some_iff (Nat.le_of_lt hn)).1 hr
      have hown := h.own v
      rw [Bindings.get?_valued] at hown
      simp only [orRollback, hown]
      by_cases hv : v ∈ p.vars
      · simp [hv]
      · simp [hv]
  · intro hms hsome
    by_contra hfree
    push Not at hfree
    unfold matchInto at hsome hfree
    cases hrun : matchAt allowance p ep t et s with
    | mk ok s' =>
      rw [hrun] at hsome hfree
      cases ok with
      | false => cases hsome
      | true => exact hms (metGround_of_matchAt hep.1 het.1 hn hempty List.Pairwise.nil hrun hfree)

/-- A variable that comes again is met with a constant first; or with a variable of the term, which is then bound. -/
theorem matchInto_agrees_again :
    let s : Store := { envs := #[[], []] }
    let p : Term := .compound "p" [.var "X", .compound "f" [.var "Z"], .var "X"]
    let t : Term := .compound "p" [.sym "a", .compound "f" [.var "Y"], .sym "a"]
    let u : Term := .compound "p" [.var "Y", .compound "f" [.var "Y"], .var "Z"]
    (s.matchInto p 0 t 1).1 = true ∧ (s.matchInto p 0 t 1).2.lookup "Z" 0 = some ⟨.var "Y", 1⟩ ∧
      (s.matchInto p 0 t 1).2.lookup "Y" 1 = none ∧
      (s.matchInto p 0 u 1).1 = true ∧ Bindings.matcher p u = none ∧ ∃ v, (s.matchInto p 0 u 1).2.lookup v 1 ≠ none := by
  intro s p t u
  have h₀ : s.IsFresh 0 := ⟨by decide, fun v => rfl⟩
  have h₁ : s.IsFresh 1 := ⟨by decide, fun v => rfl⟩
  obtain ⟨hmatch, -⟩ := matchInto_agrees (p := p) h₀ h₁ (show t.depth ≤ depthLimit by decide)
  obtain ⟨-, hbinds⟩ := matchInto_agrees (p := p) h₀ h₁ (show u.depth ≤ depthLimit by decide)
  have hms : MetGround (p.meetings t) := by
    simp [MetGround, p, t, meetings, meetingsList, Term.isGround]
  have hms' : ¬ MetGround (p.meetings u) := by
    simp [MetGround, p, u, meetings, meetingsList, Term.isGround]
  obtain ⟨hsome, hall⟩ := hmatch hms
  obtain ⟨hown, -, hother⟩ := hall _ rfl
  refine ⟨hsome, ?_, ?_, by decide, by decide, hbinds hms' (by decide)⟩
  · rw [hown]
    rfl
  · rw [hother "Y" 1 (by decide)]
    rfl

end Store

end Deduction
