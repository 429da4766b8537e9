import Deduction.Proofs.Calls.Couplings
import Deduction.Proofs.Variants.Rules

/-!
# Linked closures

Closures that are linked in coupled stores have the same shape: with bindings applied, they are unbound variables, the
same symbol, or the same functor on linked arguments (`Coupled.shape`). So they have the same symbols, and lookups give
the same terms for them. Terms without bound variables are linked only if they are the same but for the names of their
variables (`Plugged.exists_relabel`).
-/

namespace Deduction

variable {D : Type} [Values D] {b : Bool} {R R₁ : Pairing D} {w w' w₁ w₁' : Workspace} {c c' : Closure}
  {env env' : EnvId} {t t' : Term} {ts ts' us us' : List Term} {f g : String}

/-- What is not of the form of a rule is looked up as it is. -/
theorem Term.headOrSelf_of_functor {t : Term} (h : t.functor? ≠ some "rule") : t.headOrSelf = t := by
  have hrule : t.asRule = none := by
    unfold asRule
    split
    · rename_i f head body
      exact if_neg fun hf => h (congrArg some hf)
    · rfl
  rw [headOrSelf, hrule]

/-- The terms are linked one by one, those of each list read in an environment. -/
abbrev LinkedAll (R : Pairing D) (w w' : Workspace) (env env' : EnvId) (ts ts' : List Term) : Prop :=
  List.Forall₂ (fun t t' => Linked R w w' ⟨t, env⟩ ⟨t', env'⟩) ts ts'

theorem LinkedAll.mono (h : LinkedAll R w w' env env' ts ts') (hR : ∀ {θ θ'}, R₁ θ θ' → R θ θ')
    (hsize : w.store.envs.size ≤ w₁.store.envs.size) (hsize' : w'.store.envs.size ≤ w₁'.store.envs.size) :
    LinkedAll R₁ w₁ w₁' env env' ts ts' := h.imp fun _ _ ht => ht.mono hR hsize hsize'

theorem LinkedAll.map_read_eq (h : LinkedAll R w w' env env' ts ts') {θ θ' : Reading D} (hR : R θ θ') :
    ts.map (θ.read env) = ts'.map (θ'.read env') := by
  induction h with
  | nil => rfl
  | cons ht _ ih => rw [List.map_cons, List.map_cons, ht.read_eq hR, ih]

theorem LinkedAll.symm (h : LinkedAll R w w' env env' ts ts') : LinkedAll (flip R) w' w env' env ts' ts :=
  h.flip.imp fun _ _ ht => Linked.symm ht

theorem LinkedAll.roots (h : LinkedAll R w w' env env' ts ts') : ∀ t ∈ ts, R.Roots ⟨t, env⟩ := by
  induction h with
  | nil => exact List.forall_mem_nil _
  | cons ht _ ih => exact List.forall_mem_cons.2 ⟨ht.roots, ih⟩

/-- Terms are linked if related readings always give the lists of them the same values. -/
theorem linkedAll_of_map_read_eq (henv : env < w.store.envs.size) (henv' : env' < w'.store.envs.size)
    (hR : ∃ θ θ', R θ θ') (h : ∀ {θ θ'}, R θ θ' → ts.map (θ.read env) = ts'.map (θ'.read env')) :
    LinkedAll R w w' env env' ts ts' := by
  obtain ⟨θ, θ', hθ⟩ := hR
  have hlen := congrArg List.length (h hθ)
  rw [List.length_map, List.length_map] at hlen
  refine List.forall₂_iff_get.2 ⟨hlen, fun i hi hi' => ⟨henv, henv', fun {θ θ'} hR => ?_⟩⟩
  have heq : (ts.map (θ.read env))[i]? = (ts'.map (θ'.read env'))[i]? := congrArg (fun l => l[i]?) (h hR)
  rw [List.getElem?_map, List.getElem?_map, List.getElem?_eq_getElem hi, List.getElem?_eq_getElem hi'] at heq
  exact Option.some.inj heq

namespace Coupled

variable (hD : Values.Suits D b) (h : Coupled b R w w')

include h in
/-- What linked closures lead to is linked. -/
theorem resolve (hc : Linked R w w' c c') :
    Linked R w w' (w.store.resolve c.term c.env) (w'.store.resolve c'.term c'.env) where
  env_lt := h.left.sound.wellFormed.env_resolve_lt c.term hc.env_lt
  env_lt' := h.right.sound.wellFormed.env_resolve_lt c'.term hc.env_lt'
  read_eq hR := by
    rw [(h.left.solves hR).read_resolve, (h.right.solves hR).read_resolve]
    exact hc.read_eq hR

include hD h

/-- Compounds are linked only if their functors are the same and their arguments are linked. -/
theorem args (hc : Linked R w w' ⟨.compound f ts, env⟩ ⟨.compound g ts', env'⟩) :
    f = g ∧ LinkedAll R w w' env env' ts ts' := by
  have hread {θ θ' : Reading D} (hR : R θ θ') : f = g ∧ ts.map (θ.read env) = ts'.map (θ'.read env') := by
    have heq := hc.read_eq hR
    dsimp only at heq
    rw [Reading.read_compound, Reading.read_compound] at heq
    exact Values.compound_inj heq
  obtain ⟨θ, θ', hR⟩ := h.left.exists_pair hD
  exact ⟨(hread hR).1, linkedAll_of_map_read_eq hc.env_lt hc.env_lt' ⟨θ, θ', hR⟩ fun hR => (hread hR).2⟩

/-- What an unbound variable is linked to is a variable. -/
theorem isVariable_of_unbound {v : String} (hv : w.store.lookup v env = none) (hc : Linked R w w' ⟨.var v, env⟩ c') :
    c'.term.isVariable = true := by
  obtain ⟨t, e⟩ := c'
  cases t with
  | var v' => rfl
  | sym a =>
    obtain ⟨y, hy⟩ := Values.exists_ne (Values.of (.sym a) : D)
    obtain ⟨θ, θ', hR, hval⟩ := h.left.exists_of_unbound hD hv y
    exact absurd (hval.symm.trans (hc.read_eq hR)) hy
  | compound f args =>
    obtain ⟨θ, θ', hR, hval⟩ := h.left.exists_of_unbound hD hv (Values.of (.sym ""))
    have heq := hval.symm.trans (hc.read_eq hR)
    dsimp only at heq
    rw [Reading.read_compound] at heq
    exact absurd heq Values.of_sym_ne_compound

end Coupled

/-- Both closures are variables, both are the same symbol, or both have the same functor and linked arguments. -/
inductive Linked.Shape (R : Pairing D) (w w' : Workspace) : Closure → Closure → Prop
  | var (v v' : String) (env env' : EnvId) : Shape R w w' ⟨.var v, env⟩ ⟨.var v', env'⟩
  | sym (a : String) (env env' : EnvId) : Shape R w w' ⟨.sym a, env⟩ ⟨.sym a, env'⟩
  | compound (f : String) {env env' : EnvId} {ts ts' : List Term} (h : LinkedAll R w w' env env' ts ts') :
    Shape R w w' ⟨.compound f ts, env⟩ ⟨.compound f ts', env'⟩

namespace Coupled

variable (hD : Values.Suits D b) (h : Coupled b R w w')

include hD h

theorem shape_of_not_isBound (hc : Linked R w w' c c') (hfree : ¬ w.store.IsBound c) (hfree' : ¬ w'.store.IsBound c') :
    Linked.Shape R w w' c c' := by
  have hunbound {s : Store} {v : String} {e : EnvId} (hv : ¬ s.IsBound ⟨.var v, e⟩) : s.lookup v e = none :=
    Option.eq_none_iff_forall_ne_some.2 fun d hd => hv (Store.isBound_var.2 ⟨d, hd⟩)
  obtain ⟨t, env⟩ := c
  obtain ⟨t', env'⟩ := c'
  cases t with
  | var v =>
    have hvar := h.isVariable_of_unbound hD (hunbound hfree) hc
    cases t' with
    | var v' => exact .var v v' env env'
    | sym a => cases hvar
    | compound g ts' => cases hvar
  | sym a =>
    cases t' with
    | var v' =>
      have hvar := h.symm.isVariable_of_unbound hD (hunbound hfree') hc.symm
      cases hvar
    | sym a' =>
      obtain ⟨θ, θ', hR⟩ := h.left.exists_pair hD
      have heq := Values.of_injective (hc.read_eq hR)
      cases heq
      exact .sym a env env'
    | compound g ts' =>
      obtain ⟨θ, θ', hR⟩ := h.left.exists_pair hD
      have heq := hc.read_eq hR
      dsimp only at heq
      rw [Reading.read_compound] at heq
      exact absurd heq Values.of_sym_ne_compound
  | compound f ts =>
    cases t' with
    | var v' =>
      have hvar := h.symm.isVariable_of_unbound hD (hunbound hfree') hc.symm
      cases hvar
    | sym a' =>
      obtain ⟨θ, θ', hR⟩ := h.left.exists_pair hD
      have heq := hc.read_eq hR
      dsimp only at heq
      rw [Reading.read_compound] at heq
      exact absurd heq.symm Values.of_sym_ne_compound
    | compound g ts' =>
      obtain ⟨rfl, hargs⟩ := h.args hD hc
      exact .compound f hargs

/-- What linked closures lead to has the same shape. -/
theorem shape (hc : Linked R w w' c c') :
    Linked.Shape R w w' (w.store.resolve c.term c.env) (w'.store.resolve c'.term c'.env) :=
  h.shape_of_not_isBound hD (h.resolve hc) (h.left.sound.chainsEnd _ _) (h.right.sound.chainsEnd _ _)

/-! ### Lookups -/

theorem boundSymbolsAt_eq {n : Nat} (hc : Linked R w w' c c') (rest : List String) :
    Theory.boundSymbolsAt w'.store n c'.term c'.env rest = Theory.boundSymbolsAt w.store n c.term c.env rest := by
  induction n generalizing c c' rest with
  | zero => rfl
  | succ n ih =>
    have hshape := h.shape hD hc
    unfold Theory.boundSymbolsAt
    generalize w.store.resolve c.term c.env = d at hshape ⊢
    generalize w'.store.resolve c'.term c'.env = d' at hshape ⊢
    cases hshape with
    | var => rfl
    | sym => rfl
    | @compound f env env' ts ts' hts =>
      refine congrArg (f :: ·) ?_
      induction hts with
      | nil => rfl
      | @cons t t' ts ts' ht _ ihs =>
        rw [List.foldr_cons, List.foldr_cons, ihs]
        exact ih ht _

/-- Lookups give the same terms for linked goals, unless the goals have the form of rules, which are looked up by their
arguments. -/
theorem lookupIn_eq (th : Theory) (hc : Linked R w w' c c')
    (hrule : (w.store.resolve c.term c.env).term.functor? ≠ some "rule") :
    th.lookupIn w'.store c'.term c'.env = th.lookupIn w.store c.term c.env := by
  have hshape := h.shape hD hc
  have hsymbols := h.boundSymbolsAt_eq hD (n := allowance) hc []
  unfold Theory.lookupIn Theory.lookupIdsIn Theory.lookupIds
  rw [hsymbols]
  generalize w.store.resolve c.term c.env = d at hshape hrule ⊢
  generalize w'.store.resolve c'.term c'.env = d' at hshape ⊢
  have hfunctor : d'.term.functor? = d.term.functor? := by
    cases hshape <;> rfl
  rw [Term.headOrSelf_of_functor (hfunctor ▸ hrule), Term.headOrSelf_of_functor hrule, hfunctor]
  cases th.mode <;> rfl

theorem factsFor_eq (src : Sources) (hc : Linked R w w' c c')
    (hrule : (w.store.resolve c.term c.env).term.functor? ≠ some "rule") :
    src.factsFor w'.store c'.term c'.env = src.factsFor w.store c.term c.env := by
  unfold Sources.factsFor
  rw [h.lookupIn_eq hD src.facts hc hrule]
  cases src.overlay with
  | none => rfl
  | some overlay =>
    dsimp only
    rw [h.lookupIn_eq hD overlay.adds hc hrule]

theorem datasetFactsFor_eq (src : Sources) (name : String) (hc : Linked R w w' c c')
    (hrule : (w.store.resolve c.term c.env).term.functor? ≠ some "rule") :
    src.datasetFactsFor name w'.store c'.term c'.env = src.datasetFactsFor name w.store c.term c.env := by
  unfold Sources.datasetFactsFor
  cases src.dataset? name with
  | none => rfl
  | some dataset => exact h.lookupIn_eq hD dataset hc hrule

end Coupled

/-! ### Instances -/

theorem Term.isGround_relabel {π : Equiv.Perm String} (t : Term) : (t.relabel π).isGround = t.isGround := by
  rw [Bool.eq_iff_iff, isGround_iff, isGround_iff, vars_relabel]
  exact ⟨fun h v hv => h (π v) (List.mem_map_of_mem hv), fun h v hv => (by
    obtain ⟨u, hu, -⟩ := List.mem_map.1 hv
    exact h u hu)⟩

theorem Term.relabel_of_isGround {π : Equiv.Perm String} (h : t.isGround = true) : t.relabel π = t :=
  t.relabel_eq_self fun v hv => absurd hv (t.isGround_iff.1 h v)

mutual
/-- The value of an instance is the value of the term with the values of the instances for the variables. -/
theorem Reading.read_instantiate {θ η : Reading D} {σ : String → Term} : (t : Term) →
    (∀ v ∈ t.vars, θ v env = η.read env' (σ v)) → θ.read env t = η.read env' (t.instantiate σ)
  | .var v, h => h v (Term.mem_vars_var.2 rfl)
  | .sym _, _ => rfl
  | .compound f ts, h => by
    rw [Term.instantiate, Reading.read_compound, Reading.read_compound,
      map_read_instantiateList ts fun t ht v hv => h v (Term.mem_vars_compound.2 ⟨t, ht, hv⟩)]

theorem Reading.map_read_instantiateList {θ η : Reading D} {σ : String → Term} : (ts : List Term) →
    (∀ t ∈ ts, ∀ v ∈ t.vars, θ v env = η.read env' (σ v)) →
      ts.map (θ.read env) = (Term.instantiateList σ ts).map (η.read env')
  | [], _ => rfl
  | t :: ts, h => by
    rw [List.forall_mem_cons] at h
    rw [Term.instantiateList, List.map_cons, List.map_cons, read_instantiate t h.1, map_read_instantiateList ts h.2]
end

/-- The value of a term with other variables, if the variables have the values of those in their places. -/
theorem Reading.read_relabel {θ η : Reading D} {π : Equiv.Perm String} (h : ∀ v ∈ t.vars, θ v env = η (π v) env') :
    θ.read env t = η.read env' (t.relabel π) := by
  rw [← Term.instantiate_eq_relabel (σ := π) t fun _ _ => rfl]
  exact Reading.read_instantiate t h

/-! ### Terms without bound variables -/

/-- The variables of the terms are not bound in the environment. -/
def Store.Frees (s : Store) (env : EnvId) (ts : List Term) : Prop := ∀ t ∈ ts, ∀ v ∈ t.vars, s.lookup v env = none

theorem Store.not_isBound_of_frees {s : Store} (ht : ∀ v ∈ t.vars, s.lookup v env = none) : ¬ s.IsBound ⟨t, env⟩ := by
  rintro ⟨v, d, rfl, hd⟩
  have hv := ht v (Term.mem_vars_var.2 rfl)
  rw [hd] at hv
  cases hv

theorem Store.frees_cons {s : Store} : s.Frees env (t :: ts) ↔ (∀ v ∈ t.vars, s.lookup v env = none) ∧ s.Frees env ts :=
  List.forall_mem_cons

namespace Coupled

variable {v v' : String} {σ : String → String}

/-- A closure is linked to one unbound variable of an environment only. -/
theorem unbound_unique (hD : Values.Suits D b) (h : Coupled b R w w') (hv : w'.store.lookup v env' = none) (hv' : w'.store.lookup v' env' = none)
    (hlinked : Linked R w w' c ⟨.var v, env'⟩)
    (hlinked' : Linked R w w' c ⟨.var v', env'⟩) : v = v' := by
  obtain ⟨θ', hθ', hfree⟩ := hD.exists_solves w'.store h.right.sound h.right.check fun v _ => Values.of (.var v)
  obtain ⟨θ, hR⟩ := h.right.total hθ'
  have heq := (hlinked.read_eq hR).symm.trans (hlinked'.read_eq hR)
  dsimp only at heq
  rw [Reading.read_var, Reading.read_var, hfree v env' hv, hfree v' env' hv'] at heq
  exact Term.var.inj (Values.of_injective heq)

mutual
/-- A term that another one is linked to has other names for the variables. -/
theorem eq_instantiate (hD : Values.Suits D b) (h : Coupled b R w w')
    (hσ : ∀ v v', w'.store.lookup v' env' = none → Linked R w w' ⟨.var v, env⟩ ⟨.var v', env'⟩ → σ v = v') :
    (t : Term) → {t' : Term} → Linked R w w' ⟨t, env⟩ ⟨t', env'⟩ → (∀ v ∈ t.vars, w.store.lookup v env = none) →
      (∀ v ∈ t'.vars, w'.store.lookup v env' = none) →
      t' = t.instantiate (fun v => .var (σ v)) ∧ ∀ v ∈ t.vars, w'.store.lookup (σ v) env' = none ∧
        Linked R w w' ⟨.var v, env⟩ ⟨.var (σ v), env'⟩
  | .var u, t', hlinked, hfree, hfree' => by
    have hvar := h.isVariable_of_unbound hD (hfree u (Term.mem_vars_var.2 rfl)) hlinked
    cases t' with
    | var u' =>
      have hu' := hfree' u' (Term.mem_vars_var.2 rfl)
      have hname := hσ u u' hu' hlinked
      refine ⟨congrArg Term.var hname.symm, fun v hv => ?_⟩
      obtain rfl := Term.mem_vars_var.1 hv
      exact hname ▸ ⟨hu', hlinked⟩
    | sym a => cases hvar
    | compound g ts' => cases hvar
  | .sym a, t', hlinked, hfree, hfree' => by
    have hshape := h.shape_of_not_isBound hD hlinked (Store.not_isBound_of_frees hfree) (Store.not_isBound_of_frees hfree')
    cases hshape
    exact ⟨rfl, fun v hv => by cases hv⟩
  | .compound f ts, t', hlinked, hfree, hfree' => by
    have hshape := h.shape_of_not_isBound hD hlinked (Store.not_isBound_of_frees hfree) (Store.not_isBound_of_frees hfree')
    cases hshape with
    | compound _ hargs =>
      obtain ⟨heq, hvars⟩ := eq_instantiateList hD h hσ ts hargs
        (fun t ht v hv => hfree v (Term.mem_vars_compound.2 ⟨t, ht, hv⟩))
        fun t ht v hv => hfree' v (Term.mem_vars_compound.2 ⟨t, ht, hv⟩)
      refine ⟨by rw [Term.instantiate, heq], fun v hv => ?_⟩
      obtain ⟨t, ht, hv⟩ := Term.mem_vars_compound.1 hv
      exact hvars t ht v hv

theorem eq_instantiateList (hD : Values.Suits D b) (h : Coupled b R w w')
    (hσ : ∀ v v', w'.store.lookup v' env' = none → Linked R w w' ⟨.var v, env⟩ ⟨.var v', env'⟩ → σ v = v') :
    (ts : List Term) → {ts' : List Term} → LinkedAll R w w' env env' ts ts' → w.store.Frees env ts →
      w'.store.Frees env' ts' →
      ts' = Term.instantiateList (fun v => .var (σ v)) ts ∧ ∀ t ∈ ts, ∀ v ∈ t.vars, w'.store.lookup (σ v) env' = none ∧
        Linked R w w' ⟨.var v, env⟩ ⟨.var (σ v), env'⟩
  | [], _, .nil, _, _ => ⟨rfl, fun _ ht => by cases ht⟩
  | t :: ts, _, .cons ht hts, hfree, hfree' => by
    rw [Store.frees_cons] at hfree hfree'
    obtain ⟨heq, hvars⟩ := eq_instantiate hD h hσ t ht hfree.1 hfree'.1
    obtain ⟨heqs, hvarss⟩ := eq_instantiateList hD h hσ ts hts hfree.2 hfree'.2
    exact ⟨by rw [Term.instantiateList, heq, heqs], List.forall_mem_cons.2 ⟨hvars, hvarss⟩⟩
end

/-- Terms without bound variables that are linked are the same but for the names of their variables, and variables are
linked to those that have their places. -/
theorem exists_relabel (hD : Values.Suits D b) (h : Coupled b R w w') (hlinked : LinkedAll R w w' env env' us us')
    (hfree : w.store.Frees env us)
    (hfree' : w'.store.Frees env' us') :
    ∃ π : Equiv.Perm String, us' = us.map (Term.relabel π) ∧ ∀ u ∈ us, ∀ v ∈ u.vars,
      Linked R w w' ⟨.var v, env⟩ ⟨.var (π v), env'⟩ := by
  classical
  let σ : String → String := fun v =>
    if hv : ∃ v', w'.store.lookup v' env' = none ∧ Linked R w w' ⟨.var v, env⟩ ⟨.var v', env'⟩ then hv.choose else v
  have hσ (v v' : String) (hv' : w'.store.lookup v' env' = none)
      (hlinked : Linked R w w' ⟨.var v, env⟩ ⟨.var v', env'⟩) : σ v = v' := by
    have hex : ∃ v', w'.store.lookup v' env' = none ∧ Linked R w w' ⟨.var v, env⟩ ⟨.var v', env'⟩ := ⟨v', hv', hlinked⟩
    have hval : σ v = hex.choose := dif_pos hex
    exact hval.trans (h.unbound_unique hD hex.choose_spec.1 hv' hex.choose_spec.2 hlinked)
  obtain ⟨heq, hvars⟩ := eq_instantiateList hD h hσ us hlinked hfree hfree'
  have hmem {v : String} : v ∈ us.flatMap Term.vars ↔ ∃ u ∈ us, v ∈ u.vars := List.mem_flatMap
  obtain ⟨π, -, hπ⟩ := exists_permutation (P := fun _ => False) (σ := σ)
    (fun v (hv : v ∈ us.flatMap Term.vars) v' hv' hsame => by
      obtain ⟨u, hu, hv⟩ := hmem.1 hv
      obtain ⟨u', hu', hv'⟩ := hmem.1 hv'
      have hlink := (hvars u hu v hv).2
      rw [hsame] at hlink
      exact h.symm.unbound_unique hD (hfree u hu v hv) (hfree u' hu' v' hv') hlink.symm (hvars u' hu' v' hv').2.symm)
    fun v _ hf => absurd hf (by simp)
  refine ⟨π, ?_, fun u hu v hv => hπ v (hmem.2 ⟨u, hu, hv⟩) ▸ (hvars u hu v hv).2⟩
  rw [heq]
  exact Term.instantiateList_eq_relabel us fun u hu v hv => hπ v (hmem.2 ⟨u, hu, hv⟩)

end Coupled

/-- Terms without bound variables are linked in coupled stores. -/
structure Plugged (occursCheck : Bool) (R : Pairing D) (w w' : Workspace) (env env' : EnvId) (us us' : List Term) :
    Prop where
  coupled : Coupled occursCheck R w w'
  linked : LinkedAll R w w' env env' us us'
  frees : w.store.Frees env us
  frees' : w'.store.Frees env' us'

namespace Plugged

theorem nil (h : Coupled b R w w') : Plugged b R w w' env env' [] [] :=
  ⟨h, .nil, List.forall_mem_nil _, List.forall_mem_nil _⟩

theorem symm (h : Plugged b R w w' env env' us us') : Plugged b (flip R) w' w env' env us' us :=
  ⟨h.coupled.symm, h.linked.symm, h.frees', h.frees⟩

/-- Variables that have not come up yet do not occur in the terms. -/
theorem not_isSpare (hD : Values.Suits D b) (h : Plugged b R w w' env env' us us') {u : Term} (hu : u ∈ us) {v : String}
    (hv : v ∈ u.vars) : ¬ w.IsSpare v env := h.coupled.left.not_isSpare hD (h.linked.roots u hu) hv

/-- What is made of the variables of the terms is linked if the variables are. -/
theorem of_vars (h : Plugged b R w w' env env' us us') (henv : env < w.store.envs.size) (henv' : env' < w'.store.envs.size)
    {π : Equiv.Perm String} (hπ : us' = us.map (Term.relabel π))
    (hlinked : ∀ u ∈ us, ∀ v ∈ u.vars, Linked R w w' ⟨.var v, env⟩ ⟨.var (π v), env'⟩)
    (hts : ∀ t ∈ ts, ∀ v ∈ t.vars, ∃ u ∈ us, v ∈ u.vars) :
    Plugged b R w w' env env' ts (ts.map (Term.relabel π)) where
  coupled := h.coupled
  linked := by
    refine List.forall₂_map_right_iff.2 (List.forall₂_same.2 fun t ht => ⟨henv, henv', fun {θ θ'} hR => ?_⟩)
    refine Reading.read_relabel fun v hv => ?_
    obtain ⟨u, hu, hv⟩ := hts t ht v hv
    exact (hlinked u hu v hv).read_eq hR
  frees t ht v hv := by
    obtain ⟨u, hu, hv⟩ := hts t ht v hv
    exact h.frees u hu v hv
  frees' t' ht' v' hv' := by
    obtain ⟨t, ht, rfl⟩ := List.mem_map.1 ht'
    rw [Term.vars_relabel] at hv'
    obtain ⟨v, hv, rfl⟩ := List.mem_map.1 hv'
    obtain ⟨u, hu, hv⟩ := hts t ht v hv
    refine h.frees' (u.relabel π) (hπ ▸ List.mem_map_of_mem hu) (π v) ?_
    rw [Term.vars_relabel]
    exact List.mem_map_of_mem hv

/-- Ground terms are linked to themselves. -/
theorem of_ground (h : Coupled b R w w') (henv : env < w.store.envs.size) (henv' : env' < w'.store.envs.size)
    (hts : ∀ t ∈ ts, t.isGround = true) : Plugged b R w w' env env' ts ts := by
  have := (nil h).of_vars henv henv' (π := 1) rfl (List.forall_mem_nil _) fun t ht v hv =>
    absurd hv (t.isGround_iff.1 (hts t ht) v)
  rwa [List.map_congr_left fun t _ => Term.relabel_one t, List.map_id'] at this

end Plugged

/-- Linked terms that are plugged in both stores are linked still, and the stores are still coupled. -/
theorem Coupled.plug {s s' : Store} {names names' : NameSupply} (hD : Values.Suits D b) (h : Coupled b R w w')
    (hts : LinkedAll R w w' env env' ts ts') (henv : env < w.store.envs.size) (henv' : env' < w'.store.envs.size)
    (hus : Store.threadMapWithin (Store.plugWithin env allowance env) ts (w.store, w.names) = some (us, (s, names)))
    (hus' : Store.threadMapWithin (Store.plugWithin env' allowance env') ts' (w'.store, w'.names) =
      some (us', (s', names'))) (hsize : names.issued < UInt64.size) (hsize' : names'.issued < UInt64.size) :
    Plugged b (R.within s s') ⟨s, names⟩ ⟨s', names'⟩ env env' us us' := by
  have hleft : Plugs b R w w' env env ts us s names :=
    plugs_list (fun h => h.plugs_of_within hD) h hts.roots henv henv hus hsize
  have hright : Plugs b (flip (R.within s w'.store)) w' ⟨s, names⟩ env' env' ts' us' s' names' :=
    plugs_list (fun h => h.plugs_of_within hD) hleft.coupled.symm (fun t ht => (hts.symm.roots t ht).mono fun hR => hR.1)
      henv' henv' hus' hsize'
  have hflip : flip (Pairing.within (flip (R.within s w'.store)) s' s) = R.within s s' := by
    rw [Pairing.flip_within]
    exact Pairing.within_within (.refl s) hright.renames.isExtension.isBelow
  have hcoupled : Coupled b (R.within s s') ⟨s, names⟩ ⟨s', names'⟩ := hflip ▸ hright.coupled.symm
  refine ⟨hcoupled, ?_, hleft.unbound, hright.unbound⟩
  refine linkedAll_of_map_read_eq ?_ ?_ (hcoupled.left.exists_pair hD) fun {θ θ'} hR => ?_
  · exact (hleft.renames.isExtension.size_envs).symm ▸ henv
  · exact (hright.renames.isExtension.size_envs).symm ▸ henv'
  · rw [hleft.read_eq θ hR.2.1, hright.read_eq θ' hR.2.2, hts.map_read_eq hR.1]

end Deduction
