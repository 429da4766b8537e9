import Deduction.Proofs.Store.Renaming
import Deduction.Proofs.Store.Trees
import Deduction.Search.Computation

/-!
# Coupled stores

Two stores may say the same of some terms although their bindings differ, in the environments that they have, and in
which variable of several is bound to which. They are coupled by a relation between their readings: every reading that
solves the one store is related to one that solves the other (`Coupled`). Two closures are linked if related readings
give them the same value (`Linked`). Variables that have not come up yet may have any value in related readings.

What is done on both sides keeps stores coupled. Linked closures can be made equal in both stores or in neither of them
(`Coupled.unify`), fresh environments may be taken for each other (`Coupled.newEnv`), and plugging only gives names to
what there is (`Coupled.plug`).
-/

namespace Deduction

variable {D : Type}

/-! ### Readings with another value for a variable -/

namespace Reading

variable {θ η : Reading D} {v w : String} {env e ex ey : EnvId} {x : D}

/-- The reading with another value for a variable. -/
def set (θ : Reading D) (v : String) (env : EnvId) (x : D) : Reading D :=
  fun w e => if w = v ∧ e = env then x else θ w e

@[simp] theorem set_self : θ.set v env x v env = x := if_pos ⟨rfl, rfl⟩

theorem set_of_ne (h : ¬ (w = v ∧ e = env)) : θ.set v env x w e = θ w e := if_neg h

variable [Values D]

mutual
/-- Terms with the same value have variables with the same values. -/
theorem eq_of_read_eq : (t : Term) → θ.read ex t = η.read ey t → ∀ v ∈ t.vars, θ v ex = η v ey
  | .var w, h => by
    intro v hv
    obtain rfl := Term.mem_vars_var.1 hv
    exact h
  | .sym _, _ => by
    intro v hv
    cases hv
  | .compound f args, h => by
    intro v hv
    rw [read_compound, read_compound] at h
    obtain ⟨t, ht, hv⟩ := Term.mem_vars_compound.1 hv
    exact eq_of_map_read_eq args (Values.compound_inj h).2 t ht v hv

theorem eq_of_map_read_eq : (ts : List Term) → ts.map (θ.read ex) = ts.map (η.read ey) →
    ∀ t ∈ ts, ∀ v ∈ t.vars, θ v ex = η v ey
  | [], _ => by simp
  | t :: ts, h => by
    rw [List.map_cons, List.map_cons, List.cons.injEq] at h
    exact List.forall_mem_cons.2 ⟨eq_of_read_eq t h.1, eq_of_map_read_eq ts h.2⟩
end

end Reading

variable [Values D]

/-- There are two different values. -/
theorem Values.exists_ne (x : D) : ∃ y : D, y ≠ x := by
  by_cases h : Values.of (.sym "") = x
  · refine ⟨Values.of (.sym "nil"), fun h' => ?_⟩
    have heq := Values.of_injective (h'.trans h.symm)
    simp at heq
  · exact ⟨_, h⟩

/-! ### Variables that have not come up yet -/

/-- The name is yet to be issued, with a number that fits into 64 bits. -/
def NameSupply.WillIssue (names : NameSupply) (v : String) : Prop :=
  ∃ n, names.issued < n ∧ n < UInt64.size ∧ v = s!"V{n}"

theorem NameSupply.WillIssue.mono {names names' : NameSupply} {v : String} (h : names'.WillIssue v)
    (hle : names.issued ≤ names'.issued) : names.WillIssue v := by
  obtain ⟨n, hn, hsize, rfl⟩ := h
  exact ⟨n, Nat.lt_of_le_of_lt hle hn, hsize, rfl⟩

/-- The name is never invented. -/
def IsOwn (v : String) : Prop := ∀ n < UInt64.size, v ≠ s!"V{n}"

theorem IsOwn.not_willIssue {v : String} (h : IsOwn v) (names : NameSupply) : ¬ names.WillIssue v := by
  rintro ⟨n, -, hsize, rfl⟩
  exact h n hsize rfl

/-- The name was issued. -/
theorem NameSupply.not_willIssue {names : NameSupply} {n : Nat} (hn : n ≤ names.issued) :
    ¬ names.WillIssue s!"V{n}" := by
  rintro ⟨m, hm, -, heq⟩
  have := freshName_injective heq
  omega

namespace Workspace

/-- The variable has not come up yet: its environment is yet to be made, or its name is yet to be issued. -/
def IsSpare (w : Workspace) (v : String) (env : EnvId) : Prop := w.store.envs.size ≤ env ∨ w.names.WillIssue v

theorem IsSpare.mono {w w' : Workspace} {v : String} {env : EnvId} (h : w'.IsSpare v env)
    (hsize : w.store.envs.size ≤ w'.store.envs.size) (hnames : w.names.issued ≤ w'.names.issued) : w.IsSpare v env :=
  h.imp (Nat.le_trans hsize) fun h => h.mono hnames

/-- The workspace after going back to a checkpoint. Names are not taken back. -/
def rollback (w : Workspace) (cp : Checkpoint) : Workspace := ⟨w.store.rollback cp, w.names⟩

/-- Going back from the second workspace comes to what going back from the first one comes to, except for environments
without bindings and for names. -/
structure Onward (w w' : Workspace) : Prop where
  size_trail : w.store.trail.size ≤ w'.store.trail.size
  issued_le : w.names.issued ≤ w'.names.issued
  size_envs : w.store.envs.size ≤ w'.store.envs.size
  widens : ∀ cp ≤ w.store.trail.size, (w.store.rollback cp).Widens (w'.store.rollback cp)

namespace Onward

variable {w w' : Workspace}

theorem of_extends {s : Store} {names : NameSupply} (hs : w.store.Extends s) (hnames : w.names.issued ≤ names.issued) :
    w.Onward ⟨s, names⟩ where
  size_trail := hs.size_trail
  issued_le := hnames
  size_envs := Nat.le_of_eq hs.size_envs.symm
  widens cp hcp := by
    dsimp only
    rw [hs.rollback hcp]
    exact .refl _

theorem newEnv (w : Workspace) : w.Onward ⟨w.store.newEnv.2, w.names⟩ where
  size_trail := Nat.le_refl _
  issued_le := Nat.le_refl _
  size_envs := (Store.Widens.newEnv _).size_envs
  widens cp _ := (Store.Widens.newEnv _).rollback cp

theorem rollback (h : w.Onward w') {cp : Checkpoint} (hcp : cp ≤ w.store.trail.size) :
    (w.rollback cp).Onward (w'.rollback cp) where
  size_trail := by
    unfold Workspace.rollback
    exact Nat.le_of_eq ((Store.size_trail_rollback hcp).trans
      (Store.size_trail_rollback (Nat.le_trans hcp h.size_trail)).symm)
  issued_le := h.issued_le
  size_envs := (h.widens cp hcp).size_envs
  widens cp' hcp' := by
    unfold Workspace.rollback at hcp' ⊢
    dsimp only at hcp' ⊢
    rw [Store.size_trail_rollback hcp] at hcp'
    rw [Store.rollback_rollback hcp', Store.rollback_rollback hcp']
    exact h.widens cp' (Nat.le_trans hcp' hcp)

end Onward

end Workspace

/-! ### Coupled stores -/

/-- A relation between the readings of two stores. -/
abbrev Pairing (D : Type) := Reading D → Reading D → Prop

namespace Pairing

/-- The relation between readings that solve the two stores. -/
def within (R : Pairing D) (s s' : Store) : Pairing D := fun θ θ' => R θ θ' ∧ θ.Solves s ∧ θ'.Solves s'

theorem flip_within (R : Pairing D) (s s' : Store) : flip (R.within s s') = Pairing.within (flip R) s' s := by
  funext θ θ'
  exact propext ⟨fun h => ⟨h.1, h.2.2, h.2.1⟩, fun h => ⟨h.1, h.2.2, h.2.1⟩⟩

theorem within_within {R : Pairing D} {s s' s₁ s₁' : Store} (h : s.Below s₁) (h' : s'.Below s₁') :
    (R.within s s').within s₁ s₁' = R.within s₁ s₁' := by
  funext θ θ'
  exact propext ⟨fun h => ⟨h.1.1, h.2⟩, fun hR => ⟨⟨hR.1, hR.2.1.of_below h, hR.2.2.of_below h'⟩, hR.2⟩⟩

/-- The relation between readings that give the same values to the variables of two environments, but for those that are
invented. -/
def matching (R : Pairing D) (e e' : EnvId) : Pairing D := fun θ θ' => R θ θ' ∧ ∀ v, IsOwn v → θ v e = θ' v e'

omit [Values D] in
theorem flip_matching (R : Pairing D) (e e' : EnvId) : flip (R.matching e e') = Pairing.matching (flip R) e' e := by
  funext θ θ'
  exact propext ⟨fun h => ⟨h.1, fun v hv => (h.2 v hv).symm⟩, fun h => ⟨h.1, fun v hv => (h.2 v hv).symm⟩⟩

/-- The value of the closure is determined by the reading of the other store. -/
def Roots (R : Pairing D) (c : Closure) : Prop :=
  ∀ θ η θ', R θ θ' → R η θ' → θ.read c.env c.term = η.read c.env c.term

end Pairing

/-- What is asked of the first one of two stores and of a relation between the readings of both: readings of the store
that are related to any solve it, all that solve it are related to some, and variables that have not come up yet may have
other values. -/
structure Pairing.Covers (R : Pairing D) (occursCheck : Bool) (w : Workspace) : Prop where
  sound : w.store.Sound
  check : w.store.occursCheck = occursCheck
  solves : ∀ {θ θ'}, R θ θ' → θ.Solves w.store
  total : ∀ {θ}, θ.Solves w.store → ∃ θ', R θ θ'
  spare : ∀ {θ θ' η}, R θ θ' → (∀ v env, ¬ w.IsSpare v env → η v env = θ v env) → R η θ'

/-- The stores are coupled by a relation between their readings. -/
structure Coupled (occursCheck : Bool) (R : Pairing D) (w w' : Workspace) : Prop where
  left : R.Covers occursCheck w
  right : Pairing.Covers (flip R) occursCheck w'

/-- Related readings give the closures the same value. -/
structure Linked (R : Pairing D) (w w' : Workspace) (c c' : Closure) : Prop where
  env_lt : c.env < w.store.envs.size
  env_lt' : c'.env < w'.store.envs.size
  read_eq : ∀ {θ θ'}, R θ θ' → θ.read c.env c.term = θ'.read c'.env c'.term

variable {b : Bool} {R R₁ : Pairing D} {w w₁ w' w₁' : Workspace} {c c' d d' : Closure} {s s' : Store} {v : String}
  {env target : EnvId} {names names' : NameSupply} {t u : Term}

namespace Linked

theorem symm (h : Linked R w w' c c') : Linked (flip R) w' w c' c := ⟨h.env_lt', h.env_lt, fun hR => (h.read_eq hR).symm⟩

theorem mono (h : Linked R w w' c c') (hR : ∀ {θ θ'}, R₁ θ θ' → R θ θ')
    (hsize : w.store.envs.size ≤ w₁.store.envs.size) (hsize' : w'.store.envs.size ≤ w₁'.store.envs.size) :
    Linked R₁ w₁ w₁' c c' :=
  ⟨Nat.lt_of_lt_of_le h.env_lt hsize, Nat.lt_of_lt_of_le h.env_lt' hsize', fun hR₁ => h.read_eq (hR hR₁)⟩

theorem roots (h : Linked R w w' c c') : R.Roots c := fun _ _ _ hθ hη => (h.read_eq hθ).trans (h.read_eq hη).symm

end Linked

namespace Pairing.Covers

theorem widen (h : R.Covers b w) (hs : w.store.Widens s) (hnames : w.names.issued ≤ names.issued) : R.Covers b ⟨s, names⟩ where
  sound := hs.sound h.sound
  check := hs.occursCheck_eq.trans h.check
  solves hR := hs.solves_iff.2 (h.solves hR)
  total hθ := h.total (hs.solves_iff.1 hθ)
  spare hR heq := h.spare hR fun v env hv => heq v env fun hv' => hv (hv'.mono hs.size_envs hnames)

section

variable (hD : Values.Suits D b) (h : R.Covers b w)

include hD h

/-- An unbound variable may have any value. -/
theorem exists_of_unbound (hv : w.store.lookup v env = none) (x : D) : ∃ θ θ', R θ θ' ∧ θ v env = x := by
  obtain ⟨θ, hθ, hfree⟩ := hD.exists_solves w.store h.sound h.check fun _ _ => x
  obtain ⟨θ', hR⟩ := h.total hθ
  exact ⟨θ, θ', hR, hfree v env hv⟩

theorem exists_pair : ∃ θ θ', R θ θ' := by
  obtain ⟨θ, hθ, -⟩ := hD.exists_solves w.store h.sound h.check fun _ _ => Values.of (.sym "")
  obtain ⟨θ', hR⟩ := h.total hθ
  exact ⟨θ, θ', hR⟩

/-- Variables that have not come up yet do not occur in a closure with a determined value. -/
theorem not_isSpare (hc : R.Roots c) (hv : v ∈ c.term.vars) : ¬ w.IsSpare v c.env := by
  intro hspare
  obtain ⟨θ, θ', hR⟩ := h.exists_pair hD
  obtain ⟨y, hy⟩ := Values.exists_ne (θ v c.env)
  have hR' : R (θ.set v c.env y) θ' := by
    refine h.spare hR fun u e hu => Reading.set_of_ne ?_
    rintro ⟨rfl, rfl⟩
    exact hu hspare
  have heq := Reading.eq_of_read_eq c.term (hc _ _ _ hR' hR) v hv
  rw [Reading.set_self] at heq
  exact hy heq

/-- Variables that have not come up yet are not bound. -/
theorem lookup_of_isSpare (hv : w.IsSpare v env) : w.store.lookup v env = none := by
  rw [Option.eq_none_iff_forall_ne_some]
  intro d hd
  have hself : d ≠ ⟨.var v, env⟩ := by
    rintro rfl
    have hlead : w.store.resolve (.var v) env = ⟨.var v, env⟩ := by
      unfold Store.resolve
      induction w.store.followBound with
      | zero => rfl
      | succ n ih =>
        unfold Store.resolveAt
        rw [hd]
        exact ih
    exact h.sound.chainsEnd (.var v) env (hlead ▸ ⟨v, _, rfl, hd⟩)
  obtain ⟨θ, θ', hR⟩ := h.exists_pair hD
  -- With any value for the variable, the reading solves the binding of the variable.
  have hset (x : D) : x = (θ.set v env x).read d.env d.term := by
    have hsolves : (θ.set v env x).Solves w.store := by
      refine h.solves (h.spare hR fun u e hu => Reading.set_of_ne ?_)
      rintro ⟨rfl, rfl⟩
      exact hu hv
    have := hsolves v env d hd
    rwa [Reading.set_self] at this
  obtain ⟨t, e⟩ := d
  cases t with
  | var u =>
    have hne : ¬ (u = v ∧ e = env) := by
      rintro ⟨rfl, rfl⟩
      exact hself rfl
    obtain ⟨y, hy⟩ := Values.exists_ne (θ u e)
    have := hset y
    rw [Reading.read_var, Reading.set_of_ne hne] at this
    exact hy this
  | sym a =>
    obtain ⟨y, hy⟩ := Values.exists_ne (Values.of (.sym a) : D)
    exact hy (hset y)
  | compound f args =>
    have := hset (Values.of (.sym ""))
    rw [Reading.read_compound] at this
    exact Values.of_sym_ne_compound this

end

/-- The first store may be narrowed to one that extends it if the second one is narrowed in the same way. -/
theorem within (h : R.Covers b w) (hs : s.Sound) (hext : w.store.Extends s)
    (hiff : ∀ {θ θ'}, R θ θ' → (θ.Solves s ↔ θ'.Solves s')) : (R.within s s').Covers b ⟨s, w.names⟩ where
  sound := hs
  check := hext.occursCheck.trans h.check
  solves hR := hR.2.1
  total {θ} hθ := by
    obtain ⟨θ', hR⟩ := h.total (hθ.of_below hext.isBelow)
    exact ⟨θ', hR, hθ, (hiff hR).1 hθ⟩
  spare {θ θ' η} hR heq := by
    have hη : R η θ' := h.spare hR.1 fun v env hv => heq v env fun hv' =>
      hv (hv'.mono (Nat.le_of_eq hext.size_envs.symm) (Nat.le_refl _))
    exact ⟨hη, (hiff hη).2 hR.2.2, hR.2.2⟩

theorem newEnv (h : R.Covers b w) (h' : Covers (flip R) b w') :
    (R.matching w.store.newEnv.1 w'.store.newEnv.1).Covers b ⟨w.store.newEnv.2, w.names⟩ where
  sound := h.sound.newEnv
  check := h.check
  solves hR := Reading.solves_newEnv.2 (h.solves hR.1)
  total {θ} hθ := by
    classical
    obtain ⟨θ', hR⟩ := h.total (Reading.solves_newEnv.1 hθ)
    let η : Reading D := fun v e => if e = w'.store.newEnv.1 ∧ IsOwn v then θ v w.store.newEnv.1 else θ' v e
    have hη : R θ η := h'.spare hR fun v e hv => if_neg fun hc => hv (.inl (Nat.le_of_eq hc.1.symm))
    exact ⟨η, hη, fun v hv => (if_pos ⟨rfl, hv⟩ : η v w'.store.newEnv.1 = θ v w.store.newEnv.1).symm⟩
  spare {θ θ' η} hR heq := by
    have hsize := (Store.Widens.newEnv w.store).size_envs
    refine ⟨h.spare hR.1 fun v e hv => heq v e fun hv' => hv (hv'.mono hsize (Nat.le_refl _)), fun v hv => ?_⟩
    rw [← hR.2 v hv]
    refine heq v _ (not_or.2 ⟨?_, hv.not_willIssue w.names⟩)
    rw [Store.size_envs_newEnv]
    exact Nat.not_succ_le_self _

end Pairing.Covers

namespace Coupled

theorem symm (h : Coupled b R w w') : Coupled b (flip R) w' w := ⟨h.right, h.left⟩

theorem widen (h : Coupled b R w w') (hs : w.store.Widens s) (hs' : w'.store.Widens s')
    (hnames : w.names.issued ≤ names.issued) (hnames' : w'.names.issued ≤ names'.issued) :
    Coupled b R ⟨s, names⟩ ⟨s', names'⟩ := ⟨h.left.widen hs hnames, h.right.widen hs' hnames'⟩

/-- The relation holds of readings that solve the stores only. -/
theorem within_self (h : Coupled b R w w') : R.within w.store w'.store = R := by
  funext θ θ'
  exact propext ⟨fun hR => hR.1, fun hR => ⟨hR, h.left.solves hR, h.right.solves hR⟩⟩

/-! ### Unification -/

/-- Linked closures can be made equal in both stores, which are coupled then, or in neither of them. -/
theorem unify (hD : Values.Suits D b) (h : Coupled b R w w') (hc : Linked R w w' c c') (hd : Linked R w w' d d')
    {r r' : Option Store} (hr : Store.unifyWithin allowance c.term c.env d.term d.env w.store = some r)
    (hr' : Store.unifyWithin allowance c'.term c'.env d'.term d'.env w'.store = some r') :
    Option.Rel (fun s s' => Coupled b (R.within s s') ⟨s, w.names⟩ ⟨s', w'.names⟩) r r' := by
  have hfinds {θ : Reading D} (hθ : θ.Solves w.store) :
      θ.Finds (θ.read c.env c.term) (θ.read d.env d.term) r :=
    Store.unifyWithin_finds h.left.sound.wellFormed hθ (fun hcheck => hD.wellFounded (h.left.check ▸ hcheck)) hc.env_lt
      hd.env_lt hr
  have hfinds' {θ' : Reading D} (hθ' : θ'.Solves w'.store) :
      θ'.Finds (θ'.read c'.env c'.term) (θ'.read d'.env d'.term) r' :=
    Store.unifyWithin_finds h.right.sound.wellFormed hθ' (fun hcheck => hD.wellFounded (h.right.check ▸ hcheck)) hc.env_lt'
      hd.env_lt' hr'
  have hunify := Store.unify_of_within hr
  have hunify' := Store.unify_of_within hr'
  cases r with
  | some s =>
    have hs := h.left.sound.unify hc.env_lt hd.env_lt hunify
    have hext := Store.unify_extends hunify
    obtain ⟨θ, hθ, -⟩ := hD.exists_solves s hs (hext.occursCheck.trans h.left.check) fun _ _ => Values.of (.sym "")
    have hθw := hθ.of_below hext.isBelow
    obtain ⟨θ', hR⟩ := h.left.total hθw
    have heq : θ'.read c'.env c'.term = θ'.read d'.env d'.term := by
      rw [← hc.read_eq hR, ← hd.read_eq hR]
      exact (hfinds hθw).2 hθ
    cases r' with
    | none => exact absurd heq (hfinds' (h.right.solves hR))
    | some s' =>
      have hs' := h.right.sound.unify hc.env_lt' hd.env_lt' hunify'
      have hext' := Store.unify_extends hunify'
      have hiff {θ θ' : Reading D} (hR : R θ θ') : θ.Solves s ↔ θ'.Solves s' := by
        have hs : θ.read c.env c.term = θ.read d.env d.term ↔ θ.Solves s := hfinds (h.left.solves hR)
        have hs' : θ'.read c'.env c'.term = θ'.read d'.env d'.term ↔ θ'.Solves s' := hfinds' (h.right.solves hR)
        rw [← hs, ← hs', hc.read_eq hR, hd.read_eq hR]
      refine .some ⟨h.left.within hs hext hiff, ?_⟩
      rw [Pairing.flip_within]
      exact h.right.within hs' hext' fun hR => (hiff hR).symm
  | none =>
    cases r' with
    | none => exact .none
    | some s' =>
      have hs' := h.right.sound.unify hc.env_lt' hd.env_lt' hunify'
      have hext' := Store.unify_extends hunify'
      obtain ⟨θ', hθ', -⟩ := hD.exists_solves s' hs' (hext'.occursCheck.trans h.right.check) fun _ _ => Values.of (.sym "")
      have hθw' := hθ'.of_below hext'.isBelow
      obtain ⟨θ, hR⟩ := h.right.total hθw'
      refine absurd ?_ (hfinds (h.left.solves hR))
      rw [hc.read_eq hR, hd.read_eq hR]
      exact (hfinds' hθw').2 hθ'

/-! ### Fresh environments -/

/-- The stores stay coupled with fresh environments, in which the variables that are not invented may be taken for each
other. -/
theorem newEnv (h : Coupled b R w w') :
    Coupled b (R.matching w.store.newEnv.1 w'.store.newEnv.1) ⟨w.store.newEnv.2, w.names⟩
      ⟨w'.store.newEnv.2, w'.names⟩ := by
  refine ⟨h.left.newEnv h.right, ?_⟩
  rw [Pairing.flip_matching]
  exact h.right.newEnv h.left

/-! ### Plugging -/

/-- A variable of another environment may be renamed in the first store. -/
theorem rename (hD : Values.Suits D b) (h : Coupled b R w w') (hroots : R.Roots ⟨.var v, env⟩)
    (hv : w.store.lookup v env = none) (henv : env < w.store.envs.size) (htarget : target < w.store.envs.size)
    (hne : env ≠ target) (hsize : w.names.issued + 1 < UInt64.size) :
    Coupled b (R.within (w.store.bind v env ⟨w.names.freshVar.1, target⟩) w'.store)
      ⟨w.store.bind v env ⟨w.names.freshVar.1, target⟩, w.names.freshVar.2⟩ w' := by
  have hissue : w.names.WillIssue s!"V{w.names.issued + 1}" := ⟨_, Nat.lt_succ_self _, hsize, rfl⟩
  have hspare : w.IsSpare s!"V{w.names.issued + 1}" target := .inr hissue
  have hnew : w.store.lookup s!"V{w.names.issued + 1}" target = none := h.left.lookup_of_isSpare hD hspare
  have hresolve : w.store.resolve w.names.freshVar.1 target = ⟨w.names.freshVar.1, target⟩ :=
    Store.resolve_of_unbound hnew
  have hother : ¬ (v = s!"V{w.names.issued + 1}" ∧ env = target) := fun hc => hne hc.2
  have hsolves {θ : Reading D} : θ.Solves (w.store.bind v env ⟨w.names.freshVar.1, target⟩) ↔
      θ.Solves w.store ∧ θ v env = θ s!"V{w.names.issued + 1}" target := Reading.solves_bind hv henv
  have hgrown {u : String} {e : EnvId} (hu : ¬ w.IsSpare u e) :
      ¬ (Workspace.mk (w.store.bind v env ⟨w.names.freshVar.1, target⟩) w.names.freshVar.2).IsSpare u e := fun hu' =>
    hu (hu'.mono (Nat.le_of_eq Store.size_envs_bind.symm) (Nat.le_succ _))
  refine ⟨?_, ?_⟩
  · refine ⟨?_, ?_, fun hR => hR.2.1, fun {θ} hθ => ?_, fun {θ θ' η} hR heq => ?_⟩
    · refine h.left.sound.bind hv htarget ?_ fun _ => ?_
      · unfold Store.leadsTo
        rw [decide_eq_false_iff_not]
        intro hlead
        exact hne (congrArg Closure.env (hresolve.symm.trans hlead)).symm
      · have hdifferent : (decide (s!"V{w.names.issued + 1}" = v) && decide (target = env)) = false := by
          simpa using fun _ => Ne.symm hne
        unfold Store.occurs allowance depthLimit
        simp only [NameSupply.freshVar, NameSupply.freshName, NameSupply.next, Store.occursAt, hnew, hdifferent, Bool.or_false]
    · exact Store.occursCheck_bind.trans h.left.check
    · obtain ⟨θ', hR⟩ := h.left.total (hsolves.1 hθ).1
      exact ⟨θ', hR, hθ, h.right.solves hR⟩
    · have hη : R η θ' := h.left.spare hR.1 fun u e hu => heq u e (hgrown hu)
      have hnames : ¬ w.names.freshVar.2.WillIssue s!"V{w.names.issued + 1}" :=
        NameSupply.not_willIssue (Nat.le_refl _)
      refine ⟨hη, hsolves.2 ⟨h.left.solves hη, ?_⟩, hR.2.2⟩
      have hsame : η s!"V{w.names.issued + 1}" target = θ s!"V{w.names.issued + 1}" target := by
        refine heq _ _ (not_or.2 ⟨?_, hnames⟩)
        rw [Store.size_envs_bind]
        exact Nat.not_le_of_lt htarget
      have hroot : η v env = θ v env := hroots _ _ _ hη hR.1
      rw [hsame, hroot, (hsolves.1 hR.2.1).2]
  · refine ⟨h.right.sound, h.right.check, fun hR => hR.2.2, fun {θ'} hθ' => ?_, fun {θ' θ η} hR heq => ?_⟩
    · obtain ⟨θ, hR⟩ := h.right.total hθ'
      -- The fresh variable has not come up yet, so it may have the value of the variable that is renamed.
      have hR' : R (θ.set s!"V{w.names.issued + 1}" target (θ v env)) θ' := by
        refine h.left.spare hR fun u e hu => Reading.set_of_ne ?_
        rintro ⟨rfl, rfl⟩
        exact hu hspare
      refine ⟨_, hR', hsolves.2 ⟨h.left.solves hR', ?_⟩, hθ'⟩
      rw [Reading.set_self, Reading.set_of_ne hother]
    · have hη : R θ η := h.right.spare hR.1 heq
      exact ⟨hη, hR.2.1, h.right.solves hη⟩

/-- What is known when terms were plugged into an environment of the first store. -/
structure Plugs (occursCheck : Bool) (R : Pairing D) (w w' : Workspace) (env target : EnvId) (ts us : List Term) (s : Store)
    (names : NameSupply) : Prop where
  coupled : Coupled occursCheck (R.within s w'.store) ⟨s, names⟩ w'
  renames : Store.Renames target (w.store, w.names) (s, names)
  unbound : ∀ u ∈ us, ∀ v ∈ u.vars, s.lookup v target = none
  read_eq : ∀ θ : Reading D, θ.Solves s → us.map (θ.read target) = ts.map (θ.read env)

namespace Plugs

variable {ts us : List Term} {f : String}

theorem refl (h : Coupled b R w w') (hus : ∀ u ∈ us, ∀ v ∈ u.vars, w.store.lookup v target = none)
    (heq : ∀ θ : Reading D, θ.Solves w.store → us.map (θ.read target) = ts.map (θ.read env)) :
    Plugs b R w w' env target ts us w.store w.names := by
  refine ⟨?_, .refl _ _, hus, heq⟩
  rw [h.within_self]
  exact h

theorem cons {s₁ : Store} {names₁ : NameSupply} (h₁ : Plugs b R w w' env target [t] [u] s₁ names₁)
    (h : Plugs b (R.within s₁ w'.store) ⟨s₁, names₁⟩ w' env target ts us s names) :
    Plugs b R w w' env target (t :: ts) (u :: us) s names where
  coupled := by
    have hbelow : s₁.Below s := h.renames.isExtension.isBelow
    rw [← Pairing.within_within hbelow (.refl _)]
    exact h.coupled
  renames := h₁.renames.trans h.renames
  unbound := List.forall_mem_cons.2 ⟨fun v hv => (h.renames.kept v).trans (h₁.unbound u (by simp) v hv), h.unbound⟩
  read_eq θ hθ := by
    have hu := h₁.read_eq θ (hθ.of_below h.renames.isExtension.isBelow)
    rw [List.map_singleton, List.map_singleton, List.cons.injEq] at hu
    rw [List.map_cons, List.map_cons, hu.1, h.read_eq θ hθ]

theorem compound (h : Plugs b R w w' env target ts us s names) :
    Plugs b R w w' env target [.compound f ts] [.compound f us] s names where
  coupled := h.coupled
  renames := h.renames
  unbound u hu v hv := by
    obtain rfl := List.mem_singleton.1 hu
    obtain ⟨t, ht, hv⟩ := Term.mem_vars_compound.1 hv
    exact h.unbound t ht v hv
  read_eq θ hθ := by
    rw [List.map_singleton, List.map_singleton, Reading.read_compound, Reading.read_compound, h.read_eq θ hθ]

end Plugs

end Coupled

namespace Pairing.Roots

variable {f : String} {ts : List Term}

theorem mono (h : R.Roots c) (hR : ∀ {θ θ'}, R₁ θ θ' → R θ θ') : R₁.Roots c := fun _ _ _ hθ hη => h _ _ _ (hR hθ) (hR hη)

theorem arg (h : R.Roots ⟨.compound f ts, env⟩) (ht : t ∈ ts) : R.Roots ⟨t, env⟩ := by
  intro θ η θ' hθ hη
  have heq := h θ η θ' hθ hη
  dsimp only at heq
  rw [Reading.read_compound, Reading.read_compound] at heq
  exact List.map_inj_left.1 (Values.compound_inj heq).2 t ht

theorem value (h : R.Roots ⟨.var v, env⟩) (hw : R.Covers b w) (hc : w.store.lookup v env = some c) : R.Roots c := by
  intro θ η θ' hθ hη
  rw [← hw.solves hθ v env c hc, ← hw.solves hη v env c hc]
  exact h θ η θ' hθ hη

end Pairing.Roots

namespace Coupled

variable {n : Nat} {ts us : List Term}

theorem plugs_list (hplugs : ∀ {R w t u s names}, Coupled b R w w' → R.Roots ⟨t, env⟩ → env < w.store.envs.size →
      target < w.store.envs.size → Store.plugWithin target n env t (w.store, w.names) = some (u, (s, names)) →
      names.issued < UInt64.size → Plugs (D := D) b R w w' env target [t] [u] s names)
    (h : Coupled b R w w') (hroots : ∀ t ∈ ts, R.Roots ⟨t, env⟩) (henv : env < w.store.envs.size)
    (htarget : target < w.store.envs.size)
    (hus : Store.threadMapWithin (Store.plugWithin target n env) ts (w.store, w.names) = some (us, (s, names)))
    (hsize : names.issued < UInt64.size) : Plugs b R w w' env target ts us s names := by
  induction ts generalizing R w us with
  | nil =>
    cases hus
    exact .refl h (fun _ hu => by cases hu) fun _ _ => rfl
  | cons t ts ih =>
    rw [List.forall_mem_cons] at hroots
    simp only [Store.threadMapWithin, Option.bind_eq_bind, Option.bind_eq_some_iff, Option.pure_def,
      Option.some.injEq] at hus
    obtain ⟨⟨u, s₁, names₁⟩, hu, ⟨us', st₂⟩, hus', heq⟩ := hus
    cases heq
    have hren := Store.Renames.of_threadMapWithin hus'
    have h₁ := hplugs h hroots.1 henv htarget hu (Nat.lt_of_le_of_lt hren.issued_le hsize)
    have henvs := h₁.renames.isExtension.size_envs
    dsimp only at henvs
    refine h₁.cons (ih h₁.coupled (fun t ht => (hroots.2 t ht).mono fun hR => hR.1) ?_ ?_ hus')
    · exact henvs ▸ henv
    · exact henvs ▸ htarget

/-- Plugging in the first store keeps the stores coupled: it gives names to unbound variables, and the terms that it makes
have the values of the terms that were plugged. -/
theorem plugs_of_within (hD : Values.Suits D b) (h : Coupled b R w w') (hroots : R.Roots ⟨t, env⟩)
    (henv : env < w.store.envs.size) (htarget : target < w.store.envs.size)
    (hu : Store.plugWithin target n env t (w.store, w.names) = some (u, (s, names)))
    (hsize : names.issued < UInt64.size) : Plugs b R w w' env target [t] [u] s names := by
  induction n generalizing R w t u env s names with
  | zero => cases hu
  | succ n ih =>
    cases t with
    | var v =>
      unfold Store.plugWithin at hu
      cases hc : w.store.lookup v env with
      | some c =>
        simp only [hc] at hu
        have hplugs := ih h (hroots.value h.left hc) (h.left.sound.wellFormed.closed hc) htarget hu hsize
        refine ⟨hplugs.coupled, hplugs.renames, hplugs.unbound, fun θ hθ => ?_⟩
        have hvalue := hθ v env c (hplugs.renames.isExtension.lookup hc)
        rw [hplugs.read_eq θ hθ, List.map_singleton, List.map_singleton, Reading.read_var, hvalue]
      | none =>
        simp only [hc] at hu
        by_cases hne : env = target
        · rw [if_pos hne] at hu
          subst hne
          cases hu
          refine .refl h (fun u hu v' hv' => ?_) fun _ _ => rfl
          obtain rfl := List.mem_singleton.1 hu
          rwa [Term.mem_vars_var.1 hv']
        · rw [if_neg hne] at hu
          cases hu
          have hrename := h.rename hD hroots hc henv htarget hne hsize
          have hrenames := (Store.Renames.refl target (w.store, w.names)).bind hne hc
          refine ⟨hrename, hrenames, fun u hu v' hv' => ?_, fun θ hθ => ?_⟩
          · obtain rfl := List.mem_singleton.1 hu
            rw [Term.mem_vars_var.1 hv']
            refine (hrenames.kept _).trans (h.left.lookup_of_isSpare hD (.inr ?_))
            exact ⟨_, Nat.lt_succ_self _, hsize, rfl⟩
          · have hvalue := ((Reading.solves_bind hc henv).1 hθ).2
            rw [List.map_singleton, List.map_singleton, Reading.read_var, hvalue]
    | sym a =>
      cases hu
      exact .refl h (fun u hu v hv => by obtain rfl := List.mem_singleton.1 hu; cases hv) fun _ _ => rfl
    | compound f ts =>
      simp only [Store.plugWithin, Option.bind_eq_bind, Option.bind_eq_some_iff, Option.pure_def, Option.some.injEq] at hu
      obtain ⟨⟨us, st⟩, hus, heq⟩ := hu
      cases heq
      exact (plugs_list ih h (fun t ht => hroots.arg ht) henv htarget hus hsize).compound

end Coupled

end Deduction
