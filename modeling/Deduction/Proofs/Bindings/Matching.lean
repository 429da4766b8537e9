import Mathlib.Data.List.Nodup
import Deduction.Proofs.Bindings.Unification

/-!
# Matching is exact

A pattern matches a term if the term is an instance of it, and then the bindings are the values of that instance, one
for each variable of the pattern (`matcher_eq_some_iff`). If the term is ground, plugging the bindings into the pattern
gives the term back (`matcher_exact`).
-/

namespace Deduction

/-! ### Instances and depth -/

namespace Term

variable {σ : String → Term} {t : Term} {ts : List Term}

theorem one_le_depth (t : Term) : 1 ≤ t.depth := by
  cases t <;> simp [depth]

theorem depth_le_depthList (ht : t ∈ ts) : t.depth ≤ depthList ts := by
  induction ts with
  | nil => cases ht
  | cons u ts ih =>
    rw [depthList]
    rcases List.mem_cons.1 ht with rfl | ht
    · omega
    · have := ih ht
      omega

mutual
theorem depth_le_depth_instantiate : (t : Term) → t.depth ≤ (t.instantiate σ).depth
  | var v => one_le_depth (σ v)
  | sym a => Nat.le_refl _
  | compound f args => by
    have hargs := depthList_le_depthList_instantiate args
    rw [instantiate_compound, depth, depth]
    omega

theorem depthList_le_depthList_instantiate : (ts : List Term) → depthList ts ≤ depthList (instantiateList σ ts)
  | [] => Nat.le_refl _
  | t :: ts => by
    have ht := depth_le_depth_instantiate t
    have hts := depthList_le_depthList_instantiate ts
    rw [instantiateList, depthList, depthList]
    omega
end

theorem depth_le_of_instantiate_eq {p t : Term} {n : Nat} (h : p.instantiate σ = t) (ht : t.depth ≤ n) : p.depth ≤ n := by
  have hle := depth_le_depth_instantiate (σ := σ) p
  rw [h] at hle
  omega

mutual
theorem nodup_addVars : (t : Term) → {seen : List String} → seen.Nodup → (t.addVars seen).Nodup
  | var v, seen, h => by
    rw [addVars]
    by_cases hv : seen.contains v
    · rwa [if_pos hv]
    · rw [if_neg hv]
      rw [List.contains_iff_mem] at hv
      rw [List.nodup_append_comm]
      exact List.nodup_cons.2 ⟨hv, h⟩
  | sym a, _, h => h
  | compound f args, _, h => nodup_addVarsList args h

theorem nodup_addVarsList : (ts : List Term) → {seen : List String} → seen.Nodup → (addVarsList ts seen).Nodup
  | [], _, h => h
  | t :: ts, _, h => nodup_addVarsList ts (nodup_addVars t h)
end

/-- The variables of a term are listed once each. -/
theorem nodup_vars (t : Term) : t.vars.Nodup := nodup_addVars t List.nodup_nil

end Term

namespace Bindings

variable {σ : String → Term} {b b' : Bindings} {v : String} {p t : Term} {n : Nat}

/-! ### The values of variables as bindings -/

/-- The variables with their values under a substitution, the last variable first. -/
def valued (σ : String → Term) (vs : List String) : Bindings := vs.reverse.map fun v => (v, σ v)

theorem map_fst_valued (σ : String → Term) (vs : List String) : (valued σ vs).map Prod.fst = vs.reverse := by
  rw [valued, List.map_map]
  exact List.map_id _

theorem valued_concat (σ : String → Term) (vs : List String) (v : String) :
    valued σ (vs ++ [v]) = (valued σ vs).bind v (σ v) := by
  rw [valued, List.reverse_concat, List.map_cons]
  rfl

theorem get?_valued (σ : String → Term) (vs : List String) (v : String) :
    (valued σ vs).get? v = if v ∈ vs then some (σ v) else none := by
  have hmem : v ∈ vs ↔ v ∈ vs.reverse := List.mem_reverse.symm
  simp only [valued, hmem]
  induction vs.reverse with
  | nil => rfl
  | cons w ws ih =>
    have hcons : ((w :: ws).map fun v => (v, σ v)) = Bindings.bind (ws.map fun v => (v, σ v)) w (σ w) := rfl
    rw [hcons, get?_bind, ih]
    by_cases hvw : v = w
    · simp [hvw]
    · simp [hvw]

/-! ### Instances are matched -/

mutual
/-- Matching an instance adds the values of the pattern's variables to those of the variables seen before. -/
theorem matchAt_instantiate (σ : String → Term) :
    (p : Term) → {n : Nat} → p.depth ≤ n → (seen : List String) →
      matchAt n p (p.instantiate σ) (valued σ seen) = some (valued σ (p.addVars seen))
  | p, 0, hn, seen => by cases p <;> simp [Term.depth] at hn
  | .var v, n + 1, hn, seen => by
    rw [matchAt, get?_valued, Term.addVars, Term.instantiate]
    by_cases hv : v ∈ seen
    · simp [hv]
    · simp [hv, valued_concat]
  | .sym a, n + 1, hn, seen => by
    rw [Term.instantiate, matchAt, if_pos rfl]
    rfl
  | .compound f ps, n + 1, hn, seen => by
    rw [Term.depth] at hn
    rw [Term.instantiate_compound, matchAt, if_pos rfl]
    exact foldPairs_matchAt_instantiate σ ps (by omega) seen

theorem foldPairs_matchAt_instantiate (σ : String → Term) :
    (ps : List Term) → {n : Nat} → Term.depthList ps ≤ n → (seen : List String) →
      foldPairs (matchAt n) ps (Term.instantiateList σ ps) (valued σ seen) = some (valued σ (Term.addVarsList ps seen))
  | [], n, hn, seen => rfl
  | p :: ps, n, hn, seen => by
    rw [Term.depthList] at hn
    rw [Term.instantiateList, foldPairs, matchAt_instantiate σ p (by omega) seen, Option.bind_some]
    exact foldPairs_matchAt_instantiate σ ps (by omega) (p.addVars seen)
end

/-! ### What is matched is an instance -/

/-- The bindings hold what the substitution says. -/
def ReadBy (b : Bindings) (σ : String → Term) : Prop := ∀ v t, b.get? v = some t → σ v = t

theorem readBy_of_bind (hv : b.get? v = none) (h : (b.bind v t).ReadBy σ) : b.ReadBy σ ∧ σ v = t := by
  constructor
  · intro w u hw
    apply h w u
    rw [get?_bind, if_neg, hw]
    rintro rfl
    rw [hv] at hw
    cases hw
  · apply h v t
    rw [get?_bind, if_pos rfl]

theorem readBy_getD (b : Bindings) : b.ReadBy fun v => (b.get? v).getD (.var v) := by
  intro v t hv
  simp only [hv, Option.getD_some]

theorem instantiateList_of_foldPairs {extend : Term → Term → Bindings → Option Bindings}
    (hextend : ∀ {p t b b'}, extend p t b = some b' → b'.ReadBy σ → b.ReadBy σ ∧ p.instantiate σ = t)
    {ps ts : List Term} (h : foldPairs extend ps ts b = some b') (hσ : b'.ReadBy σ) :
    b.ReadBy σ ∧ Term.instantiateList σ ps = ts := by
  induction ps generalizing ts b with
  | nil =>
    cases ts with
    | nil =>
      cases h
      exact ⟨hσ, rfl⟩
    | cons t ts => cases h
  | cons p ps ih =>
    cases ts with
    | nil => cases h
    | cons t ts =>
      obtain ⟨b₁, hp, hps⟩ := Option.bind_eq_some_iff.1 h
      obtain ⟨hb₁, hts⟩ := ih hps
      obtain ⟨hb, ht⟩ := hextend hp hb₁
      rw [Term.instantiateList, ht, hts]
      exact ⟨hb, rfl⟩

/-- What the pattern is matched with is its instance by whatever reads the bindings, and older bindings stay. -/
theorem instantiate_of_matchAt (h : matchAt n p t b = some b') (hσ : b'.ReadBy σ) :
    b.ReadBy σ ∧ p.instantiate σ = t := by
  induction n generalizing p t b b' with
  | zero => cases h
  | succ n ih =>
    cases p with
    | var v =>
      rw [matchAt] at h
      cases hv : b.get? v with
      | some value =>
        simp only [hv, Option.ite_none_right_eq_some, Option.some.injEq] at h
        obtain ⟨rfl, rfl⟩ := h
        exact ⟨hσ, hσ v value hv⟩
      | none =>
        simp only [hv, Option.some.injEq] at h
        subst h
        exact readBy_of_bind hv hσ
    | sym a =>
      rw [matchAt, Option.ite_none_right_eq_some, Option.some.injEq] at h
      obtain ⟨rfl, rfl⟩ := h
      exact ⟨hσ, rfl⟩
    | compound f ps =>
      cases t with
      | var v => cases h
      | sym a => cases h
      | compound g ts =>
        rw [matchAt, Option.ite_none_right_eq_some] at h
        obtain ⟨rfl, h⟩ := h
        obtain ⟨hb, hts⟩ := instantiateList_of_foldPairs ih h hσ
        rw [Term.instantiate_compound, hts]
        exact ⟨hb, rfl⟩

/-- A pattern matches exactly its instances, and gives the values that its variables have there. -/
theorem matcher_eq_some_iff (ht : t.depth ≤ allowance) :
    matcher p t = some b ↔ ∃ σ, p.instantiate σ = t ∧ b = valued σ p.vars := by
  have hmatch (σ : String → Term) (hσ : p.instantiate σ = t) : matcher p t = some (valued σ p.vars) := by
    have hempty := matchAt_instantiate σ p (Term.depth_le_of_instantiate_eq hσ ht) []
    rwa [hσ] at hempty
  constructor
  · intro h
    obtain ⟨-, hσ⟩ := instantiate_of_matchAt h (readBy_getD b)
    refine ⟨_, hσ, ?_⟩
    rw [hmatch _ hσ, Option.some.injEq] at h
    exact h.symm
  · rintro ⟨σ, hσ, rfl⟩
    exact hmatch σ hσ

/-! ### Plugging what was matched -/

/-- Where the values have no variables, plugging gives the instance. -/
theorem plugAt_eq_instantiate (hp : p.depth ≤ n) (h : ∀ v ∈ p.vars, b.get? v = some (σ v) ∧ (σ v).isGround = true) :
    b.plugAt n p = p.instantiate σ := by
  induction n generalizing p with
  | zero => cases p <;> simp [Term.depth] at hp
  | succ n ih =>
    cases p with
    | var v =>
      obtain ⟨hv, hground⟩ := h v (Term.mem_vars_var.2 rfl)
      simp only [plugAt, hv]
      apply plugAt_of_unbound
      intro w hw
      exact absurd hw ((Term.isGround_iff _).1 hground w)
    | sym a => rfl
    | compound f ps =>
      rw [plugAt, Term.instantiate_compound_eq]
      congr 1
      apply List.map_congr_left
      intro q hq
      apply ih
      · rw [Term.depth] at hp
        have hle : q.depth ≤ Term.depthList ps := Term.depth_le_depthList hq
        omega
      · intro v hv
        exact h v (Term.mem_vars_compound.2 ⟨q, hq, hv⟩)

/-- Matching is exact. A pattern matches a term that is not nested too deeply if and only if some substitution turns the
pattern into it; each variable of the pattern is then bound once, to its value, and no others are; and plugging gives
the term back if it is ground. -/
theorem matcher_exact (p t : Term) (ht : t.depth ≤ allowance) :
    ((matcher p t).isSome ↔ ∃ σ, p.instantiate σ = t) ∧
      ∀ b, matcher p t = some b →
        (b.map Prod.fst).Nodup ∧ (∀ v, v ∈ b.map Prod.fst ↔ v ∈ p.vars) ∧
          (∀ σ, p.instantiate σ = t → ∀ v ∈ p.vars, b.get? v = some (σ v)) ∧
          (t.isGround = true → b.plug p = t) := by
  constructor
  · rw [Option.isSome_iff_exists]
    constructor
    · rintro ⟨b, hb⟩
      obtain ⟨σ, hσ, -⟩ := (matcher_eq_some_iff ht).1 hb
      exact ⟨σ, hσ⟩
    · rintro ⟨σ, hσ⟩
      exact ⟨_, (matcher_eq_some_iff ht).2 ⟨σ, hσ, rfl⟩⟩
  · intro b hb
    obtain ⟨σ, hσ, rfl⟩ := (matcher_eq_some_iff ht).1 hb
    have hget : ∀ v ∈ p.vars, (valued σ p.vars).get? v = some (σ v) := by
      intro v hv
      rw [get?_valued, if_pos hv]
    refine ⟨?_, ?_, ?_, ?_⟩
    · rw [map_fst_valued, List.nodup_reverse]
      exact p.nodup_vars
    · intro v
      rw [map_fst_valued, List.mem_reverse]
    · intro σ' hσ' v hv
      -- Both substitutions give the bindings that the matcher found.
      have hsame : some (valued σ p.vars) = some (valued σ' p.vars) := by
        rw [← hb]
        exact (matcher_eq_some_iff ht).2 ⟨σ', hσ', rfl⟩
      rw [Option.some.inj hsame, get?_valued, if_pos hv]
    · intro hground
      have hvalues : ∀ v ∈ p.vars, (σ v).isGround = true := by
        intro v hv
        rw [Term.isGround_iff]
        intro w hw
        have hmem : w ∈ (p.instantiate σ).vars := (Term.mem_vars_instantiate p).2 ⟨v, hv, hw⟩
        rw [hσ] at hmem
        exact (Term.isGround_iff t).1 hground w hmem
      rw [← hσ]
      exact plugAt_eq_instantiate (Term.depth_le_of_instantiate_eq hσ ht) fun v hv => ⟨hget v hv, hvalues v hv⟩

/-- A variable that occurs twice takes one value, and plugging brings the term back. -/
theorem matcher_exact_twice :
    let p : Term := .compound "p" [.var "X", .compound "f" [.var "Y"], .var "X"]
    let t : Term := .compound "p" [.sym "a", .compound "f" [.sym "b"], .sym "a"]
    t.depth ≤ allowance ∧ ∃ b, matcher p t = some b ∧ b.get? "Y" = some (.sym "b") ∧ b.plug p = t := by
  intro p t
  have ht : t.depth ≤ allowance := by decide
  obtain ⟨hsome, hall⟩ := matcher_exact p t ht
  have hσ : p.instantiate (fun v => if v = "X" then .sym "a" else .sym "b") = t := by decide
  obtain ⟨b, hb⟩ := Option.isSome_iff_exists.1 (hsome.2 ⟨_, hσ⟩)
  obtain ⟨-, -, hvalues, hplug⟩ := hall b hb
  exact ⟨ht, b, hb, hvalues _ hσ "Y" (by decide), hplug (by decide)⟩

end Bindings

end Deduction
