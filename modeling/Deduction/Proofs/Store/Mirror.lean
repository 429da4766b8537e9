import Deduction.Proofs.Search.FreshNames
import Deduction.Proofs.Store.Chains
import Deduction.Proofs.Variables

/-!
# Stores that mirror each other

A store mirrors another one if it has the same bindings under other names: environments have other numbers, and a
variable that is not bound may have been renamed since, by a binding to a variable that was invented for it in the
environment of the query. Bindings of such a variable are then made one step further on. Following bindings leads to the
same ends (`Mirrors.resolve_eq`), so that the same terms could fit a goal. The two stores go on to mirror each other
when variables are bound (`Mirrors.bind`), when environments are added (`Mirrors.newEnv`), and when variables are
renamed (`Mirrors.exists_rename`).
-/

namespace Deduction.Store

open Search (queryEnv)

variable {Q : String → Prop} {s s' : Store} {v w name : String} {e f : EnvId} {c d : Closure} {t : Term}
  {start names names' : NameSupply}

/-! ### Scopes -/

/-- The closure is read in one of the first `k` environments, in that of the query with variables of the query only. -/
structure InScope (Q : String → Prop) (k : Nat) (c : Closure) : Prop where
  env_lt : c.env < k
  mem : c.env = queryEnv → ∀ v ∈ c.term.vars, Q v

namespace InScope

variable {k k' : Nat}

theorem mono (h : InScope Q k c) (hk : k ≤ k') : InScope Q k' c := ⟨Nat.lt_of_lt_of_le h.env_lt hk, h.mem⟩

theorem part {u : Term} (h : InScope Q k ⟨t, e⟩) (hu : ∀ v ∈ u.vars, v ∈ t.vars) : InScope Q k ⟨u, e⟩ :=
  ⟨h.env_lt, fun he v hv => h.mem he v (hu v hv)⟩

theorem arg {g : String} {ts : List Term} (h : InScope Q k ⟨.compound g ts, e⟩) (ht : t ∈ ts) : InScope Q k ⟨t, e⟩ :=
  h.part fun _ hv => Term.mem_vars_compound.2 ⟨t, ht, hv⟩

theorem of_ne (he : e < k) (hne : e ≠ queryEnv) (t : Term) : InScope Q k ⟨t, e⟩ := ⟨he, fun hc => absurd hc hne⟩

theorem var_iff : InScope Q k ⟨.var v, e⟩ ↔ e < k ∧ (e = queryEnv → Q v) := by
  constructor
  · exact fun h => ⟨h.env_lt, fun he => h.mem he v (Term.mem_vars_var.2 rfl)⟩
  · exact fun h => ⟨h.1, fun he u hu => Term.mem_vars_var.1 hu ▸ h.2 he⟩

end InScope

/-! ### Placements -/

/-- Where the variables of a store are found in another one: the number of every environment there, and the variable
that an unbound variable was renamed to. -/
structure Placement where
  env : EnvId → EnvId
  name : String → EnvId → Option String

namespace Placement

variable {p : Placement}

/-- The variable that the bindings of a variable are made for. -/
def cell (p : Placement) (v : String) (e : EnvId) : String × EnvId :=
  match p.name v e with
  | some name => (name, queryEnv)
  | none => (v, p.env e)

def closure (p : Placement) (c : Closure) : Closure := ⟨c.term, p.env c.env⟩

/-- Where following bindings comes to an end. -/
def endpoint (p : Placement) : Closure → Closure
  | ⟨.var v, e⟩ => ⟨.var (p.cell v e).1, (p.cell v e).2⟩
  | c => p.closure c

theorem cell_of_some (h : p.name v e = some name) : p.cell v e = (name, queryEnv) := by rw [cell, h]

theorem cell_of_none (h : p.name v e = none) : p.cell v e = (v, p.env e) := by rw [cell, h]

@[simp] theorem endpoint_var (v : String) (e : EnvId) :
    p.endpoint ⟨.var v, e⟩ = ⟨.var (p.cell v e).1, (p.cell v e).2⟩ := rfl

/-- The placement with one more environment. -/
def addEnv (p : Placement) (e e' : EnvId) : Placement where
  env f := if f = e then e' else p.env f
  name := p.name

/-- The placement with one more variable renamed. -/
def addName (p : Placement) (v : String) (e : EnvId) (name : String) : Placement where
  env := p.env
  name w f := if w = v ∧ f = e then some name else p.name w f

theorem name_addName : (p.addName v e name).name w f = if w = v ∧ f = e then some name else p.name w f := rfl

@[simp] theorem env_addName : (p.addName v e name).env = p.env := rfl

theorem env_addEnv_of_ne {e' : EnvId} (h : f ≠ e) : (p.addEnv e e').env f = p.env f := if_neg h

theorem cell_addName_of_ne (h : ¬ (w = v ∧ f = e)) : (p.addName v e name).cell w f = p.cell w f := by
  unfold cell addName
  simp only [if_neg h]

theorem cell_addName_self : (p.addName v e name).cell v e = (name, queryEnv) := by simp [cell, addName]

end Placement

/-! ### Mirrors -/

/-- The name was invented between two supplies. -/
def IsInvented (start names : NameSupply) (name : String) : Prop :=
  ∃ n, start.issued < n ∧ n ≤ names.issued ∧ name = s!"V{n}"

/-- The second store mirrors the first one. Names were invented from the first supply on, up to the second one. -/
structure Mirrors (Q : String → Prop) (start names : NameSupply) (p : Placement) (s s' : Store) : Prop where
  wellFormed : s.WellFormed
  wellFormed' : s'.WellFormed
  chainsEnd : s.ChainsEnd
  occursCheck : s'.occursCheck = s.occursCheck
  inScope : ∀ {v e c}, s.lookup v e = some c → InScope Q s.envs.size c
  query_lt : queryEnv < s.envs.size
  env_query : p.env queryEnv = queryEnv
  env_lt : ∀ {e}, e < s.envs.size → p.env e < s'.envs.size
  env_inj : ∀ {e f}, e < s.envs.size → f < s.envs.size → p.env e = p.env f → e = f
  named : ∀ {v e name}, p.name v e = some name → e < s.envs.size ∧ e ≠ queryEnv ∧ IsInvented start names name ∧
    s'.lookup v (p.env e) = some ⟨.var name, queryEnv⟩
  name_inj : ∀ {v e w f name}, p.name v e = some name → p.name w f = some name → v = w ∧ e = f
  lookup_cell : ∀ {v e}, InScope Q s.envs.size ⟨.var v, e⟩ →
    s'.lookup (p.cell v e).1 (p.cell v e).2 = (s.lookup v e).map p.closure
  new : ∀ n, start.issued < n → n < UInt64.size → ¬ Q s!"V{n}"
  start_le : start.issued ≤ names.issued
  issued_lt : names.issued < UInt64.size
  unused : ∀ n, names.issued < n → n < UInt64.size → s'.lookup s!"V{n}" queryEnv = none

namespace Mirrors

variable {p : Placement}

theorem not_isInvented (h : Mirrors Q start names p s s') (hv : Q v) : ¬ IsInvented start names v := by
  rintro ⟨n, hn, hle, rfl⟩
  exact h.new n hn (Nat.lt_of_le_of_lt hle h.issued_lt) hv

theorem cell_lt (h : Mirrors Q start names p s s') (he : e < s.envs.size) : (p.cell v e).2 < s'.envs.size := by
  cases hname : p.name v e with
  | none =>
    rw [Placement.cell_of_none hname]
    exact h.env_lt he
  | some name =>
    rw [Placement.cell_of_some hname, ← h.env_query]
    exact h.env_lt h.query_lt

/-- Different variables are found in different places. -/
theorem cell_inj (h : Mirrors Q start names p s s') (hv : InScope Q s.envs.size ⟨.var v, e⟩)
    (hw : InScope Q s.envs.size ⟨.var w, f⟩) (heq : p.cell v e = p.cell w f) : v = w ∧ e = f := by
  have hmixed {v w name : String} {e f : EnvId} (hv : InScope Q s.envs.size ⟨.var v, e⟩)
      (hw : p.name w f = some name) (heq : (v, p.env e) = (name, queryEnv)) : False := by
    obtain ⟨rfl, henv⟩ := Prod.mk.inj heq
    have he : e = queryEnv := h.env_inj hv.env_lt h.query_lt (henv.trans h.env_query.symm)
    exact h.not_isInvented ((InScope.var_iff.1 hv).2 he) (h.named hw).2.2.1
  cases hvn : p.name v e with
  | none =>
    rw [Placement.cell_of_none hvn] at heq
    cases hwn : p.name w f with
    | none =>
      rw [Placement.cell_of_none hwn] at heq
      obtain ⟨rfl, henv⟩ := Prod.mk.inj heq
      exact ⟨rfl, h.env_inj hv.env_lt hw.env_lt henv⟩
    | some name =>
      rw [Placement.cell_of_some hwn] at heq
      exact (hmixed hv hwn heq).elim
  | some name =>
    rw [Placement.cell_of_some hvn] at heq
    cases hwn : p.name w f with
    | none =>
      rw [Placement.cell_of_none hwn] at heq
      exact (hmixed hw hvn heq.symm).elim
    | some name' =>
      rw [Placement.cell_of_some hwn] at heq
      obtain ⟨rfl, -⟩ := Prod.mk.inj heq
      exact h.name_inj hvn hwn

/-! ### Following bindings -/

theorem leads_endpoint (h : Mirrors Q start names p s s') (c : Closure) : s'.Leads (p.closure c) (p.endpoint c) := by
  obtain ⟨t, e⟩ := c
  cases t with
  | var v =>
    cases hname : p.name v e with
    | none =>
      rw [Placement.endpoint_var, Placement.cell_of_none hname]
      exact ⟨0, .refl _⟩
    | some name =>
      rw [Placement.endpoint_var, Placement.cell_of_some hname]
      exact ⟨1, .step (h.named hname).2.2.2 (.refl _)⟩
  | sym a => exact ⟨0, .refl _⟩
  | compound g ts => exact ⟨0, .refl _⟩

theorem leads (h : Mirrors Q start names p s s') (hc : InScope Q s.envs.size c) (hlead : s.Leads c d) :
    s'.Leads (p.closure c) (p.endpoint d) ∧ InScope Q s.envs.size d := by
  obtain ⟨n, hn⟩ := hlead
  induction hn with
  | refl c => exact ⟨h.leads_endpoint c, hc⟩
  | @step n v e c d hv _ ih =>
    obtain ⟨hlead, hd⟩ := ih (h.inScope hv)
    have hcell : s'.lookup (p.cell v e).1 (p.cell v e).2 = some (p.closure c) := by
      rw [h.lookup_cell hc, hv]
      rfl
    exact ⟨(h.leads_endpoint _).trans (.trans ⟨1, .step hcell (.refl _)⟩ hlead), hd⟩

theorem not_isBound_endpoint (h : Mirrors Q start names p s s') (hd : InScope Q s.envs.size d) (hfree : ¬ s.IsBound d) :
    ¬ s'.IsBound (p.endpoint d) := by
  obtain ⟨t, e⟩ := d
  cases t with
  | var v =>
    rw [Placement.endpoint_var, isBound_var, h.lookup_cell hd]
    rw [isBound_var] at hfree
    rintro ⟨c, hc⟩
    obtain ⟨b, hb, -⟩ := Option.map_eq_some_iff.1 hc
    exact hfree ⟨b, hb⟩
  | sym a => rintro ⟨v, c, hv, -⟩; cases hv
  | compound g ts => rintro ⟨v, c, hv, -⟩; cases hv

theorem inScope_resolve (h : Mirrors Q start names p s s') (ht : InScope Q s.envs.size ⟨t, e⟩) :
    InScope Q s.envs.size (s.resolve t e) := (h.leads ht (s.leads_resolve t e)).2

/-- Following bindings comes to the same end. -/
theorem resolve_eq (h : Mirrors Q start names p s s') (ht : InScope Q s.envs.size ⟨t, e⟩) :
    s'.resolve t (p.env e) = p.endpoint (s.resolve t e) := by
  obtain ⟨hlead, hend⟩ := h.leads ht (s.leads_resolve t e)
  exact hlead.resolve_eq h.wellFormed' (h.not_isBound_endpoint hend (h.chainsEnd t e))

theorem endpoint_eq_iff (h : Mirrors Q start names p s s') (hd : InScope Q s.envs.size d)
    (hv : InScope Q s.envs.size ⟨.var v, e⟩) : p.endpoint d = p.endpoint ⟨.var v, e⟩ ↔ d = ⟨.var v, e⟩ := by
  constructor
  · intro heq
    obtain ⟨t, f⟩ := d
    cases t with
    | var w =>
      simp only [Placement.endpoint_var, Closure.mk.injEq, Term.var.injEq] at heq
      obtain ⟨rfl, rfl⟩ := h.cell_inj hd hv (Prod.ext heq.1 heq.2)
      rfl
    | sym a => cases congrArg Closure.term heq
    | compound g ts => cases congrArg Closure.term heq
  · rintro rfl
    rfl

theorem leadsTo_eq (h : Mirrors Q start names p s s') (ht : InScope Q s.envs.size ⟨t, e⟩)
    (hv : InScope Q s.envs.size ⟨.var v, f⟩) :
    s'.leadsTo t (p.env e) (p.cell v f).1 (p.cell v f).2 = s.leadsTo t e v f := by
  unfold leadsTo
  rw [h.resolve_eq ht]
  exact decide_eq_decide.2 (h.endpoint_eq_iff (h.inScope_resolve ht) hv)

/-! ### Bindings and environments -/

/-- A variable is bound in both stores. -/
theorem bind (h : Mirrors Q start names p s s') (hfree : s.lookup v e = none) (hv : InScope Q s.envs.size ⟨.var v, e⟩)
    (hc : InScope Q s.envs.size c) (hlead : s.leadsTo c.term c.env v e = false) :
    Mirrors Q start names p (s.bind v e c) (s'.bind (p.cell v e).1 (p.cell v e).2 (p.closure c)) := by
  have he : e < s.envs.size := hv.env_lt
  have hcell := h.cell_lt (v := v) he
  have hfree' : s'.lookup (p.cell v e).1 (p.cell v e).2 = none := by rw [h.lookup_cell hv, hfree]; rfl
  have hsize : (s.bind v e c).envs.size = s.envs.size := size_envs_bind
  have hkept : s'.Below (s'.bind (p.cell v e).1 (p.cell v e).2 (p.closure c)) :=
    (Extends.refl.bind _ _ _ hfree').isBelow
  refine ⟨h.wellFormed.bind hc.env_lt, h.wellFormed'.bind (h.env_lt hc.env_lt),
    h.chainsEnd.bind h.wellFormed.isTrailed hfree hlead, ?_, fun hd => ?_, hsize.symm ▸ h.query_lt, h.env_query,
    fun hf => ?_, fun hf hg heq => ?_, fun hname => ?_, h.name_inj, fun hw => ?_, h.new, h.start_le, h.issued_lt,
    fun n hn hlt => ?_⟩
  · rw [occursCheck_bind, occursCheck_bind, h.occursCheck]
  · rw [hsize]
    rw [lookup_bind he] at hd
    split at hd
    · cases hd
      exact hc
    · exact h.inScope hd
  · rw [size_envs_bind]
    exact h.env_lt (hsize ▸ hf)
  · exact h.env_inj (hsize ▸ hf) (hsize ▸ hg) heq
  · obtain ⟨hlt, hne, hinv, hlink⟩ := h.named hname
    exact ⟨hsize.symm ▸ hlt, hne, hinv, hkept _ _ _ hlink⟩
  · rename_i w f
    rw [hsize] at hw
    rw [lookup_bind hcell, lookup_bind he]
    by_cases hsame : w = v ∧ f = e
    · rw [if_pos hsame, hsame.1, hsame.2, if_pos ⟨rfl, rfl⟩]
      rfl
    · rw [if_neg hsame, if_neg fun hc => hsame (h.cell_inj hw hv (Prod.ext hc.1 hc.2)), h.lookup_cell hw]
  · rw [lookup_bind hcell, if_neg, h.unused n hn hlt]
    rintro ⟨heq, henv⟩
    cases hname : p.name v e with
    | none =>
      rw [Placement.cell_of_none hname] at heq henv
      have hquery : e = queryEnv := h.env_inj he h.query_lt (henv.symm.trans h.env_query.symm)
      exact h.new n (Nat.lt_of_le_of_lt h.start_le hn) hlt (heq ▸ (InScope.var_iff.1 hv).2 hquery)
    | some name =>
      rw [Placement.cell_of_some hname] at heq
      obtain ⟨m, -, hm, rfl⟩ := (h.named hname).2.2.1
      have := freshName_injective heq
      omega

/-- A fresh environment is added to both stores. -/
theorem newEnv (h : Mirrors Q start names p s s') :
    Mirrors Q start names (p.addEnv s.envs.size s'.envs.size) s.newEnv.2 s'.newEnv.2 := by
  have hsize := size_envs_newEnv s
  have hsize' := size_envs_newEnv s'
  have hold {f : EnvId} (hf : f < s.envs.size) : (p.addEnv s.envs.size s'.envs.size).env f = p.env f :=
    Placement.env_addEnv_of_ne (Nat.ne_of_lt hf)
  have hnew : (p.addEnv s.envs.size s'.envs.size).env s.envs.size = s'.envs.size := if_pos rfl
  have hcases {f : EnvId} (hf : f < s.newEnv.2.envs.size) : f < s.envs.size ∨ f = s.envs.size := by
    rw [hsize] at hf
    exact Nat.lt_or_eq_of_le (Nat.le_of_lt_succ hf)
  refine ⟨h.wellFormed.newEnv, h.wellFormed'.newEnv, h.chainsEnd.newEnv h.wellFormed.isTrailed, h.occursCheck, fun hc => ?_,
    hsize.symm ▸ Nat.lt_succ_of_lt h.query_lt, (hold h.query_lt).trans h.env_query, fun hf => ?_,
    fun hf hg heq => ?_, fun hname => ?_, h.name_inj, fun {v f} hv => ?_, h.new, h.start_le, h.issued_lt,
    fun n hn hlt => ?_⟩
  · rw [lookup_newEnv] at hc
    exact (h.inScope hc).mono (hsize ▸ Nat.le_succ _)
  · rw [hsize']
    rcases hcases hf with hf | rfl
    · rw [hold hf]
      exact Nat.lt_succ_of_lt (h.env_lt hf)
    · rw [hnew]
      exact Nat.lt_succ_self _
  · rcases hcases hf with hf | rfl
    · rcases hcases hg with hg | rfl
      · rw [hold hf, hold hg] at heq
        exact h.env_inj hf hg heq
      · rw [hold hf, hnew] at heq
        exact absurd heq (Nat.ne_of_lt (h.env_lt hf))
    · rcases hcases hg with hg | rfl
      · rw [hold hg, hnew] at heq
        exact absurd heq.symm (Nat.ne_of_lt (h.env_lt hg))
      · rfl
  · obtain ⟨hlt, hne, hinv, hlink⟩ := h.named hname
    refine ⟨hsize.symm ▸ Nat.lt_succ_of_lt hlt, hne, hinv, ?_⟩
    rw [hold hlt, lookup_newEnv, hlink]
  · rw [lookup_newEnv, lookup_newEnv]
    rcases hcases hv.env_lt with hf | rfl
    · have hcell : (p.addEnv s.envs.size s'.envs.size).cell v f = p.cell v f := by
        unfold Placement.cell
        rw [hold hf]
        rfl
      rw [hcell, h.lookup_cell (InScope.var_iff.2 ⟨hf, (InScope.var_iff.1 hv).2⟩)]
      cases hc : s.lookup v f with
      | none => rfl
      | some c =>
        refine congrArg some (congrArg (Closure.mk c.term) ?_)
        exact (hold (h.inScope hc).env_lt).symm
    · have hname : (p.addEnv s.envs.size s'.envs.size).name v s.envs.size = none := by
        cases hname : p.name v s.envs.size with
        | none => exact hname
        | some name => exact absurd (h.named hname).1 (Nat.lt_irrefl _)
      rw [Placement.cell_of_none hname, hnew, lookup_size_envs, lookup_size_envs]
      rfl
  · rw [lookup_newEnv, h.unused n hn hlt]

/-- A store with more environments mirrors the same store. -/
theorem newEnv_right (h : Mirrors Q start names p s s') : Mirrors Q start names p s s'.newEnv.2 where
  wellFormed := h.wellFormed
  wellFormed' := h.wellFormed'.newEnv
  chainsEnd := h.chainsEnd
  occursCheck := h.occursCheck
  inScope := h.inScope
  query_lt := h.query_lt
  env_query := h.env_query
  env_lt he := size_envs_newEnv s' ▸ Nat.lt_succ_of_lt (h.env_lt he)
  env_inj := h.env_inj
  named hname := by
    rw [lookup_newEnv]
    exact h.named hname
  name_inj := h.name_inj
  lookup_cell hv := by
    rw [lookup_newEnv]
    exact h.lookup_cell hv
  new := h.new
  start_le := h.start_le
  issued_lt := h.issued_lt
  unused n hn hlt := by
    rw [lookup_newEnv]
    exact h.unused n hn hlt

/-- The store goes on to be a mirror when further names are invented. -/
theorem mono (h : Mirrors Q start names p s s') (hle : names.issued ≤ names'.issued)
    (hlt : names'.issued < UInt64.size) : Mirrors Q start names' p s s' :=
  { h with
    named := fun hname =>
      have ⟨hlt, hne, ⟨n, hn, hle', heq⟩, hlink⟩ := h.named hname
      ⟨hlt, hne, ⟨n, hn, Nat.le_trans hle' hle, heq⟩, hlink⟩
    start_le := Nat.le_trans h.start_le hle
    issued_lt := hlt
    unused := fun n hn => h.unused n (Nat.lt_of_le_of_lt hle hn) }

/-! ### Renaming -/

section

variable (h : Mirrors Q start names p s s') (hlt : names.issued + 1 < UInt64.size)

include h

theorem wellFormed_rename (v : String) (f : EnvId) :
    (s'.bind v f ⟨names.freshVar.1, queryEnv⟩).WellFormed :=
  h.wellFormed'.bind (Nat.lt_of_lt_of_eq (h.env_query ▸ h.env_lt h.query_lt) rfl)

include hlt

/-- A variable that stands for none of the other store is renamed. -/
theorem rename_elsewhere (hne : f ≠ queryEnv) (hfree : s'.lookup v f = none) (hf : f < s'.envs.size)
    (hplace : ∀ e, e < s.envs.size → p.env e ≠ f) :
    Mirrors Q start names.freshVar.2 p s (s'.bind v f ⟨names.freshVar.1, queryEnv⟩) := by
  have hmono : Mirrors Q start names.freshVar.2 p s s' := h.mono (Nat.le_succ _) hlt
  have hkept : s'.Below (s'.bind v f ⟨names.freshVar.1, queryEnv⟩) := (Extends.refl.bind _ _ _ hfree).isBelow
  refine { hmono with
    wellFormed' := h.wellFormed_rename v f
    occursCheck := occursCheck_bind.trans h.occursCheck
    env_lt := fun hg => Nat.lt_of_lt_of_eq (h.env_lt hg) size_envs_bind.symm
    named := fun hw => ?_
    lookup_cell := fun {w g} hw => ?_
    unused := fun n hn hn' => ?_ }
  · obtain ⟨hg, hg', hinv, hlink⟩ := hmono.named hw
    exact ⟨hg, hg', hinv, hkept _ _ _ hlink⟩
  · rw [lookup_bind hf, if_neg, h.lookup_cell hw]
    rintro ⟨-, henv⟩
    cases hname : p.name w g with
    | none =>
      rw [Placement.cell_of_none hname] at henv
      exact hplace g hw.env_lt henv
    | some name =>
      rw [Placement.cell_of_some hname] at henv
      exact hne henv.symm
  · rw [lookup_bind hf, if_neg fun hc => hne hc.2.symm]
    exact hmono.unused n hn hn'

/-- A variable that stands for one of the other store is renamed. -/
theorem rename_placed (he : e < s.envs.size) (hne : p.env e ≠ queryEnv) (hfree : s'.lookup v (p.env e) = none) :
    Mirrors Q start names.freshVar.2 (p.addName v e s!"V{names.issued + 1}") s
      (s'.bind v (p.env e) ⟨names.freshVar.1, queryEnv⟩) := by
  have hmono : Mirrors Q start names.freshVar.2 p s s' := h.mono (Nat.le_succ _) hlt
  have hbind (w : String) (g : EnvId) : (s'.bind v (p.env e) ⟨names.freshVar.1, queryEnv⟩).lookup w g =
      if w = v ∧ g = p.env e then some ⟨names.freshVar.1, queryEnv⟩ else s'.lookup w g := lookup_bind (h.env_lt he)
  have hquery (w : String) :
      (s'.bind v (p.env e) ⟨names.freshVar.1, queryEnv⟩).lookup w queryEnv = s'.lookup w queryEnv := by
    rw [hbind, if_neg fun hc => hne hc.2.symm]
  have hkept : s'.Below (s'.bind v (p.env e) ⟨names.freshVar.1, queryEnv⟩) := (Extends.refl.bind _ _ _ hfree).isBelow
  have hne' : e ≠ queryEnv := fun hc => hne (hc ▸ h.env_query)
  have hv : InScope Q s.envs.size ⟨.var v, e⟩ := .of_ne he hne' _
  have hname : p.name v e = none := by
    cases hname : p.name v e with
    | none => rfl
    | some name =>
      rw [(h.named hname).2.2.2] at hfree
      cases hfree
  have hunbound : s.lookup v e = none := by
    have hcell := h.lookup_cell hv
    rw [Placement.cell_of_none hname, hfree] at hcell
    exact Option.map_eq_none_iff.1 hcell.symm
  have hold {w name : String} {g : EnvId} (hw : p.name w g = some name) : name ≠ s!"V{names.issued + 1}" := by
    rintro rfl
    obtain ⟨m, -, hm, heq⟩ := (h.named hw).2.2.1
    have := freshName_injective heq
    omega
  refine { hmono with
    wellFormed' := h.wellFormed_rename v _
    occursCheck := occursCheck_bind.trans h.occursCheck
    env_query := h.env_query
    env_lt := fun hg => Nat.lt_of_lt_of_eq (h.env_lt hg) size_envs_bind.symm
    env_inj := h.env_inj
    named := fun {w g name} hw => ?_
    name_inj := fun {w g w' g' name} hw hw' => ?_
    lookup_cell := fun {w g} hw => ?_
    unused := fun n hn hn' => (hquery _).trans (hmono.unused n hn hn') }
  · rw [Placement.name_addName] at hw
    by_cases hcell : w = v ∧ g = e
    · rw [if_pos hcell] at hw
      cases hw
      refine ⟨hcell.2 ▸ he, hcell.2 ▸ hne', ⟨_, Nat.lt_succ_of_le h.start_le, Nat.le_refl _, rfl⟩, ?_⟩
      rw [Placement.env_addName, hbind, if_pos ⟨hcell.1, congrArg p.env hcell.2⟩]
      rfl
    · rw [if_neg hcell] at hw
      obtain ⟨hg, hg', hinv, hlink⟩ := hmono.named hw
      exact ⟨hg, hg', hinv, hkept _ _ _ hlink⟩
  · rw [Placement.name_addName] at hw hw'
    by_cases hcell : w = v ∧ g = e
    · rw [if_pos hcell] at hw
      cases hw
      by_cases hcell' : w' = v ∧ g' = e
      · exact ⟨hcell.1.trans hcell'.1.symm, hcell.2.trans hcell'.2.symm⟩
      · rw [if_neg hcell'] at hw'
        exact absurd rfl (hold hw')
    · rw [if_neg hcell] at hw
      by_cases hcell' : w' = v ∧ g' = e
      · rw [if_pos hcell'] at hw'
        cases hw'
        exact absurd rfl (hold hw)
      · rw [if_neg hcell'] at hw'
        exact h.name_inj hw hw'
  · by_cases hcell : w = v ∧ g = e
    · obtain ⟨rfl, rfl⟩ := hcell
      rw [Placement.cell_addName_self, hquery, h.unused _ (Nat.lt_succ_self _) hlt, hunbound]
      rfl
    · rw [Placement.cell_addName_of_ne hcell, hbind, if_neg, h.lookup_cell hw]
      · rfl
      · rintro ⟨heq, henv⟩
        exact hcell (h.cell_inj hw hv (by rw [Placement.cell_of_none hname]; exact Prod.ext heq henv))

/-- A variable of another environment than that of the query is renamed. -/
theorem exists_rename (hne : f ≠ queryEnv) (hfree : s'.lookup v f = none) : ∃ p' : Placement, p'.env = p.env ∧
    Mirrors Q start names.freshVar.2 p' s (s'.bind v f ⟨names.freshVar.1, queryEnv⟩) := by
  by_cases hf : f < s'.envs.size
  · by_cases hplace : ∃ e, e < s.envs.size ∧ p.env e = f
    · obtain ⟨e, he, rfl⟩ := hplace
      exact ⟨p.addName v e _, rfl, h.rename_placed hlt he hne hfree⟩
    · exact ⟨p, rfl, h.rename_elsewhere hlt hne hfree hf fun e he heq => hplace ⟨e, he, heq⟩⟩
  · rw [bind_of_not_lt hf]
    exact ⟨p, rfl, h.mono (Nat.le_succ _) hlt⟩

end

/-- Plugging a term renames variables in the mirror alone. -/
theorem exists_plugAt (h : Mirrors Q start names p s s') (n : Nat) (t : Term) (e : EnvId) {st : Store × NameSupply}
    (hst : (plugAt queryEnv n e t (s', names)).2 = st) (hlt : st.2.issued < UInt64.size) :
    ∃ p' : Placement, p'.env = p.env ∧ Mirrors Q start st.2 p' s st.1 := by
  have hkeeps : KeepsRenaming (fun _ => True) queryEnv fun st => st.2.issued < UInt64.size →
      ∃ p' : Placement, p'.env = p.env ∧ Mirrors Q start st.2 p' s st.1 := by
    refine ⟨fun _ _ _ => trivial, fun {t names v f} ht _ hne hv hlt => ?_⟩
    obtain ⟨p₁, hp₁, hm⟩ := ht (Nat.lt_of_succ_lt hlt)
    obtain ⟨p₂, hp₂, hm'⟩ := hm.exists_rename hlt hne hv
    exact ⟨p₂, hp₂.trans hp₁, hm'⟩
  have hs' : (s', names).2.issued < UInt64.size →
      ∃ p' : Placement, p'.env = p.env ∧ Mirrors Q start (s', names).2 p' s (s', names).1 := fun _ => ⟨p, rfl, h⟩
  subst hst
  exact plugAt_keeps hkeeps n t hs' trivial hlt

/-! ### Candidates -/

theorem boundSymbolsAt_eq (h : Mirrors Q start names p s s') (n : Nat) (ht : InScope Q s.envs.size ⟨t, e⟩)
    (rest : List String) :
    Theory.boundSymbolsAt s' n t (p.env e) rest = Theory.boundSymbolsAt s n t e rest := by
  induction n generalizing t e rest with
  | zero => rfl
  | succ n ih =>
    unfold Theory.boundSymbolsAt
    rw [h.resolve_eq ht]
    have hend := h.inScope_resolve ht
    generalize s.resolve t e = d at hend
    obtain ⟨u, f⟩ := d
    cases u with
    | var v => rfl
    | sym a => rfl
    | compound g args =>
      refine congrArg (g :: ·) ?_
      have hargs (a : Term) (ha : a ∈ args) := hend.arg ha
      clear hend
      induction args with
      | nil => rfl
      | cons a args iha =>
        rw [List.foldr_cons, List.foldr_cons, iha fun b hb => hargs b (List.mem_cons_of_mem _ hb)]
        exact ih (hargs a List.mem_cons_self) _

/-- The same terms could fit. -/
theorem lookupIn_eq (h : Mirrors Q start names p s s') (th : Theory) (ht : InScope Q s.envs.size ⟨t, e⟩) :
    th.lookupIn s' t (p.env e) = th.lookupIn s t e := by
  have hend : th.mode ≠ .full →
      th.lookupIds (p.endpoint (s.resolve t e)).term = th.lookupIds (s.resolve t e).term := by
    intro hmode
    obtain ⟨u, f⟩ := s.resolve t e
    cases u with
    | var v =>
      unfold Theory.lookupIds
      cases hm : th.mode with
      | full => exact absurd hm hmode
      | _ => rfl
    | sym a => rfl
    | compound g ts => rfl
  refine congrArg (List.filterMap th.get?) ?_
  unfold Theory.lookupIdsIn
  split
  · rw [h.boundSymbolsAt_eq allowance ht]
  · rename_i hmode
    rw [h.resolve_eq ht]
    exact hend fun hc => hmode hc

theorem factsFor_eq (h : Mirrors Q start names p s s') (src : Sources) (ht : InScope Q s.envs.size ⟨t, e⟩) :
    src.factsFor s' t (p.env e) = src.factsFor s t e := by
  unfold Sources.factsFor
  rw [h.lookupIn_eq src.facts ht]
  cases src.overlay with
  | none => rfl
  | some overlay =>
    dsimp only
    rw [h.lookupIn_eq overlay.adds ht]

end Mirrors

end Deduction.Store
