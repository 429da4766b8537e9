import Deduction.Proofs.Store.Allowance
import Deduction.Proofs.Variables

/-!
# Readings

A reading gives a value to every variable of every environment, and so to every closure. Values may be terms, but other
things are values as well, such as trees without end (`Values`). A reading solves a store if each bound variable has the
value of the closure that it is bound to. Unification finds what the readings have in common: when it succeeds, the
readings that solve the store and make the two terms equal are those that solve the new store, and when it fails without
coming to the end of the allowance, there are none (`unifyWithin_finds`). Only where bindings are checked for occurrences
need values be well-founded.
-/

namespace Deduction

/-- What terms can be read as: every term is a value, compounds of values are values, and different ones are different
values. -/
class Values (D : Type) where
  of : Term → D
  compound : String → List D → D
  of_compound (f : String) (args : List Term) : of (.compound f args) = compound f (args.map of)
  of_injective : Function.Injective of
  compound_inj {f g : String} {xs ys : List D} : compound f xs = compound g ys → f = g ∧ xs = ys
  eq_of_compound {f : String} {xs : List D} {t : Term} : compound f xs = of t → ∃ args, t = .compound f args

/-- No value is a part of itself. -/
def Values.IsWellFounded (D : Type) [Values D] : Prop :=
  ∃ size : D → Nat, ∀ (f : String) (xs : List D), ∀ x ∈ xs, size x < size (compound f xs)

/-- Values for the variables of all environments. -/
abbrev Reading (D : Type) := String → EnvId → D

variable {D : Type} [Values D]

theorem Values.of_sym_ne_compound {a f : String} {xs : List D} : (of (.sym a) : D) ≠ compound f xs := fun h => by
  obtain ⟨args, hargs⟩ := eq_of_compound h.symm
  cases hargs

namespace Reading

variable {θ η : Reading D} {s s' : Store} {v : String} {env ev ex ey : EnvId} {c d : Closure} {t x y : Term}
  {f : String} {args : List Term}

mutual
/-- The value of a term whose variables are read in an environment. -/
def read (θ : Reading D) (env : EnvId) : Term → D
  | .var v => θ v env
  | .sym a => Values.of (.sym a)
  | .compound f args => Values.compound f (readList θ env args)

def readList (θ : Reading D) (env : EnvId) : List Term → List D
  | [] => []
  | t :: ts => read θ env t :: readList θ env ts
end

theorem readList_eq (θ : Reading D) (env : EnvId) (ts : List Term) : θ.readList env ts = ts.map (θ.read env) := by
  induction ts with
  | nil => rfl
  | cons t ts ih => rw [readList, ih, List.map_cons]

@[simp] theorem read_var (θ : Reading D) (env : EnvId) (v : String) : θ.read env (.var v) = θ v env := rfl

@[simp] theorem read_sym (θ : Reading D) (env : EnvId) (a : String) : θ.read env (.sym a) = Values.of (.sym a) := rfl

@[simp] theorem read_compound (θ : Reading D) (env : EnvId) (f : String) (args : List Term) :
    θ.read env (.compound f args) = Values.compound f (args.map (θ.read env)) := by
  rw [read, readList_eq]

mutual
/-- Only the variables of the term matter. -/
theorem read_congr : (t : Term) → (∀ v ∈ t.vars, θ v ex = η v ey) → θ.read ex t = η.read ey t
  | .var v, h => h v (Term.mem_vars_var.2 rfl)
  | .sym _, _ => rfl
  | .compound f args, h => by
    rw [read, read, readList_congr args fun t ht v hv => h v (Term.mem_vars_compound.2 ⟨t, ht, hv⟩)]

theorem readList_congr : (ts : List Term) → (∀ t ∈ ts, ∀ v ∈ t.vars, θ v ex = η v ey) →
    θ.readList ex ts = η.readList ey ts
  | [], _ => rfl
  | t :: ts, h => by
    rw [readList, readList, read_congr t (h t List.mem_cons_self),
      readList_congr ts fun u hu => h u (List.mem_cons_of_mem t hu)]
end

/-! ### Readings that solve a store -/

/-- Every bound variable has the value of its closure. -/
def Solves (θ : Reading D) (s : Store) : Prop :=
  ∀ v env c, s.lookup v env = some c → θ v env = θ.read c.env c.term

theorem Solves.of_below (h : θ.Solves s') (hs : s.Below s') : θ.Solves s := fun v env c hc => h v env c (hs v env c hc)

theorem Solves.leads (h : θ.Solves s) (hlead : s.Leads c d) : θ.read c.env c.term = θ.read d.env d.term := by
  obtain ⟨n, hn⟩ := hlead
  induction hn with
  | refl => rfl
  | step hv _ ih => rw [← ih, ← h _ _ _ hv, read_var]

theorem Solves.read_resolve (h : θ.Solves s) (t : Term) (env : EnvId) :
    θ.read (s.resolve t env).env (s.resolve t env).term = θ.read env t := (h.leads (s.leads_resolve t env)).symm

theorem solves_newEnv : θ.Solves s.newEnv.2 ↔ θ.Solves s := by
  unfold Solves
  simp only [Store.lookup_newEnv]

theorem solves_bind (hv : s.lookup v env = none) (henv : env < s.envs.size) :
    θ.Solves (s.bind v env c) ↔ θ.Solves s ∧ θ v env = θ.read c.env c.term := by
  constructor
  · intro h
    refine ⟨h.of_below (Store.Extends.bind .refl _ _ _ hv).isBelow, ?_⟩
    apply h
    rw [Store.lookup_bind henv, if_pos ⟨rfl, rfl⟩]
  · rintro ⟨h, hval⟩ w env' d hd
    rw [Store.lookup_bind henv] at hd
    by_cases hw : w = v ∧ env' = env
    · obtain ⟨rfl, rfl⟩ := hw
      rw [if_pos ⟨rfl, rfl⟩] at hd
      cases hd
      exact hval
    · rw [if_neg hw] at hd
      exact h w env' d hd

/-! ### Variables in terms -/

/-- The term leads to the variable, or the value of the variable is smaller than that of the term. -/
theorem Solves.leads_or_lt (h : θ.Solves s) {size : D → Nat}
    (hsize : ∀ (f : String) (xs : List D), ∀ x ∈ xs, size x < size (Values.compound f xs)) {n : Nat}
    (hocc : s.occursWithin v ev n t env = some true) :
    s.Leads ⟨t, env⟩ ⟨.var v, ev⟩ ∨ size (θ v ev) < size (θ.read env t) := by
  induction n generalizing t env with
  | zero => cases hocc
  | succ n ih =>
    cases t with
    | var w =>
      unfold Store.occursWithin at hocc
      split at hocc
      · rename_i hw
        obtain ⟨rfl, rfl⟩ := hw
        exact .inl ⟨0, .refl _⟩
      · split at hocc
        · rename_i c hc
          rcases ih hocc with ⟨m, hm⟩ | hlt
          · exact .inl ⟨m + 1, .step hc hm⟩
          · right
            rwa [read_var, h _ _ _ hc]
        · cases hocc
    | sym a => cases hocc
    | compound f args =>
      right
      unfold Store.occursWithin at hocc
      have hsome : ∃ a ∈ args, s.occursWithin v ev n a env = some true := by
        clear ih
        induction args with
        | nil => cases hocc
        | cons a args ih =>
          unfold Store.anyWithin at hocc
          split at hocc
          · obtain ⟨b, hb, hb'⟩ := ih hocc
            exact ⟨b, List.mem_cons_of_mem a hb, hb'⟩
          · exact ⟨a, List.mem_cons_self, hocc⟩
      obtain ⟨a, ha, hocc'⟩ := hsome
      rw [read_compound]
      have hlt := hsize f (args.map (θ.read env)) _ (List.mem_map_of_mem ha)
      rcases ih hocc' with hlead | hlt'
      · have heq : θ.read env a = θ v ev := h.leads hlead
        rwa [heq] at hlt
      · exact Nat.lt_trans hlt' hlt

/-- The outcome says for which readings that solve the store the two values are equal. -/
def Finds (θ : Reading D) (a b : D) : Option Store → Prop
  | some s' => a = b ↔ θ.Solves s'
  | none => a ≠ b

theorem Finds.symm {a b : D} {r : Option Store} (h : θ.Finds a b r) : θ.Finds b a r := by
  cases r with
  | some s' => exact eq_comm.trans h
  | none => exact fun he => h he.symm

end Reading

/-! ### What unification finds -/

namespace Store

variable {s s' : Store} {v : String} {ev env ex ey : EnvId} {x y t : Term} {n : Nat} {θ : Reading D}

/-- What is known of a store after unification has succeeded. -/
theorem WellFormed.unifyWithin (hs : s.WellFormed) (hx : ex < s.envs.size) (hy : ey < s.envs.size)
    (h : unifyWithin n x ex y ey s = some (some s')) :
    s'.WellFormed ∧ s'.envs.size = s.envs.size ∧ Extends s s' := by
  have hend : unifyAt n x ex y ey s = (true, s') := unifyAt_of_within h
  have hwf := unifyAt_keeps (WellFormed.keeps s.envs.size) n (x := x) (y := y) ⟨hs, rfl⟩ hx hy
  have hext := unifyAt_extends n x ex y ey s
  rw [hend] at hwf hext
  exact ⟨hwf.1, hwf.2, hext⟩

theorem unifyVarWithin_finds {within : Term → EnvId → Term → EnvId → Store → Option (Option Store)}
    (hs : s.WellFormed) (hθ : θ.Solves s) (hcheck : s.occursCheck = true → Values.IsWellFounded D)
    (h : ∀ x ex y ey r, ex < s.envs.size → ey < s.envs.size → within x ex y ey s = some r →
      θ.Finds (θ.read ex x) (θ.read ey y) r)
    (hv : ev < s.envs.size) (ht : env < s.envs.size) {r : Option Store}
    (hr : unifyVarWithin within v ev t env s = some r) : θ.Finds (θ v ev) (θ.read env t) r := by
  unfold unifyVarWithin at hr
  split at hr
  · rename_i hsame
    obtain ⟨rfl, rfl⟩ := hsame
    cases hr
    exact ⟨fun _ => hθ, fun _ => rfl⟩
  · split at hr
    · rename_i c hc
      rw [hθ v ev c hc]
      exact h _ _ _ _ _ (hs.closed hc) ht hr
    · rename_i hnone
      have hbind : θ.Finds (θ v ev) (θ.read env t) (some (s.bind v ev ⟨t, env⟩)) :=
        ⟨fun he => (Reading.solves_bind hnone hv).2 ⟨hθ, he⟩, fun he => ((Reading.solves_bind hnone hv).1 he).2⟩
      split at hr
      · rename_i hlead
        cases hr
        have := hθ.leads ((leadsTo_iff hs hnone t env).1 hlead)
        exact ⟨fun _ => hθ, fun _ => this.symm⟩
      · rename_i hlead
        split at hr
        · rename_i hoccurs
          obtain ⟨size, hsize⟩ := hcheck hoccurs
          obtain ⟨b, hb, rfl⟩ := Option.map_eq_some_iff.1 hr
          cases b with
          | false => exact hbind
          | true =>
            rcases hθ.leads_or_lt hsize hb with hlead' | hlt
            · exact absurd ((leadsTo_iff hs hnone t env).2 hlead') hlead
            · intro he
              rw [he] at hlt
              exact Nat.lt_irrefl _ hlt
        · cases hr
          exact hbind

theorem allPairsWithin_extends {xs ys : List Term} (hlen : xs.length = ys.length)
    (hr : allPairsWithin (fun x y => unifyWithin n x ex y ey) xs ys s = some (some s')) : Extends s s' := by
  have hend : allPairs (fun x y => unifyAt n x ex y ey) xs ys s = (true, s') :=
    allPairs_of_within (fun x y s r h => unifyAt_of_within h) hlen hr
  have hext := allPairs_keeps (P := Extends s) xs ys
    (fun x _ y _ t ht => ht.trans (unifyAt_extends n x ex y ey t)) .refl
  rwa [hend] at hext

theorem allPairsWithin_finds (f : String)
    (h : ∀ s x y r, s.WellFormed → θ.Solves s → (s.occursCheck = true → Values.IsWellFounded D) → ex < s.envs.size →
      ey < s.envs.size → unifyWithin n x ex y ey s = some r → θ.Finds (θ.read ex x) (θ.read ey y) r)
    (hs : s.WellFormed) (hθ : θ.Solves s) (hcheck : s.occursCheck = true → Values.IsWellFounded D) (hx : ex < s.envs.size)
    (hy : ey < s.envs.size) {xs ys : List Term} (hlen : xs.length = ys.length) {r : Option Store}
    (hr : allPairsWithin (fun x y => unifyWithin n x ex y ey) xs ys s = some r) :
    θ.Finds (Values.compound f (xs.map (θ.read ex))) (Values.compound f (ys.map (θ.read ey))) r := by
  have hinj {as bs : List D} : Values.compound f as = Values.compound f bs ↔ as = bs :=
    ⟨fun he => (Values.compound_inj he).2, fun he => he ▸ rfl⟩
  suffices hlists : match r with
      | some s' => xs.map (θ.read ex) = ys.map (θ.read ey) ↔ θ.Solves s'
      | none => xs.map (θ.read ex) ≠ ys.map (θ.read ey) by
    cases r with
    | some s' => exact hinj.trans hlists
    | none => exact fun he => hlists (hinj.1 he)
  induction xs generalizing ys s with
  | nil =>
    cases ys with
    | nil =>
      cases hr
      exact ⟨fun _ => hθ, fun _ => rfl⟩
    | cons y ys => cases hlen
  | cons x xs ih =>
    cases ys with
    | nil => cases hlen
    | cons y ys =>
      have hlen' : xs.length = ys.length := Nat.succ.inj hlen
      unfold allPairsWithin at hr
      rw [List.map_cons, List.map_cons]
      split at hr
      · rename_i s' hs'
        have hxy : θ.read ex x = θ.read ey y ↔ θ.Solves s' := h s x y _ hs hθ hcheck hx hy hs'
        obtain ⟨hwf, hsize, hext⟩ := hs.unifyWithin hx hy hs'
        by_cases he : θ.read ex x = θ.read ey y
        · have hrest := ih hwf (hxy.1 he) (hext.occursCheck ▸ hcheck) (hsize ▸ hx) (hsize ▸ hy) hlen' hr
          cases r <;> simpa [he] using hrest
        · cases r with
          | some s'' =>
            have hno : ¬ θ.Solves s'' := fun h' => he (hxy.2 (h'.of_below (allPairsWithin_extends hlen' hr).isBelow))
            simp [he, hno]
          | none => simp [he]
      · rename_i hne
        cases r with
        | some s' => exact absurd hr (hne s')
        | none =>
          have hxy : θ.read ex x ≠ θ.read ey y := h s x y none hs hθ hcheck hx hy hr
          simp [hxy]

/-- Unification within the allowance finds the readings that make both terms equal. -/
theorem unifyWithin_finds (hs : s.WellFormed) (hθ : θ.Solves s)
    (hcheck : s.occursCheck = true → Values.IsWellFounded D) (hx : ex < s.envs.size) (hy : ey < s.envs.size)
    {r : Option Store} (hr : unifyWithin n x ex y ey s = some r) : θ.Finds (θ.read ex x) (θ.read ey y) r := by
  induction n generalizing x ex y ey s r with
  | zero => cases hr
  | succ n ih =>
    have ih' (x ex y ey r) (hx : ex < s.envs.size) (hy : ey < s.envs.size)
        (hr : unifyWithin n x ex y ey s = some r) := ih hs hθ hcheck hx hy hr
    cases x with
    | var v => exact unifyVarWithin_finds hs hθ hcheck ih' hx hy hr
    | sym a =>
      cases y with
      | var w => exact (unifyVarWithin_finds hs hθ hcheck ih' hy hx hr).symm
      | sym b =>
        unfold unifyWithin at hr
        by_cases hab : a = b
        · rw [if_pos hab] at hr
          cases hr
          exact ⟨fun _ => hθ, fun _ => by rw [hab]; rfl⟩
        · rw [if_neg hab] at hr
          cases hr
          exact fun he => hab (by simpa using Values.of_injective he)
      | compound g ys =>
        cases hr
        rw [Reading.read_compound]
        exact Values.of_sym_ne_compound
    | compound f xs =>
      cases y with
      | var w => exact (unifyVarWithin_finds hs hθ hcheck ih' hy hx hr).symm
      | sym b =>
        cases hr
        rw [Reading.read_compound]
        exact Values.of_sym_ne_compound.symm
      | compound g ys =>
        unfold unifyWithin at hr
        rw [Reading.read_compound, Reading.read_compound]
        by_cases hfg : f = g ∧ xs.length = ys.length
        · rw [if_pos hfg] at hr
          rw [← hfg.1]
          exact allPairsWithin_finds f (fun s x y r hs hθ hcheck hx hy hr => ih hs hθ hcheck hx hy hr) hs hθ hcheck hx hy
            hfg.2 hr
        · rw [if_neg hfg] at hr
          cases hr
          intro h
          obtain ⟨heq, hargs⟩ := Values.compound_inj h
          exact hfg ⟨heq, by simpa using congrArg List.length hargs⟩

end Store

end Deduction
