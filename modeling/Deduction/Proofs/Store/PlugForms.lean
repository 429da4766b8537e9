import Deduction.Proofs.Store.OpenVariables
import Deduction.Proofs.Store.Renaming

/-!
# Plugging and forms

Plugging a term comes to its form, in which the open variables of the target environment keep their names and those of
other environments have new ones. Bindings to the new ones are all that is added to the store, so that forms are only
renamed, and a term that was plugged before is plugged to the same again (`plugs_forms`). Where a variable is left open in
an environment that the store does not have, its new name cannot be kept in the store, and so it has another one the next
time (`plug_unkept`).
-/

namespace Deduction

variable {s s' : Store} {v w : String} {env target : EnvId} {c d : Closure} {t u : Term} {T U : Form} {n m : Nat}
  {x y : EnvId × String} {names names' : NameSupply} {st st' final : Store × NameSupply} {S : EnvId × String → Prop}

/-! ### Names that do not occur -/

/-- None of the variables that the supply has yet to issue is in the term. -/
def NameSupply.IsNewTo (names : NameSupply) (t : Term) : Prop := ∀ n, names.issued < n → s!"V{n}" ∉ t.vars

/-- None of the variables that the supply has yet to issue is bound in the store or in a value of it. -/
def NameSupply.IsNewIn (names : NameSupply) (s : Store) : Prop :=
  ∀ v env c, s.lookup v env = some c → names.IsNewTo (.var v) ∧ names.IsNewTo c.term

/-- Names that are issued start with `V`. -/
theorem NameSupply.isNewTo_of_head? (names : NameSupply) (h : ∀ v ∈ t.vars, v.toList.head? ≠ some 'V') :
    names.IsNewTo t := by
  intro n _ hv
  refine h _ hv ?_
  rw [toList_freshName]
  rfl

namespace Store

theorem freshIn_of_isNewIn (h : names.IsNewIn s) : FreshIn names s target := by
  intro n hn
  cases hv : s.lookup s!"V{n}" target with
  | none => rfl
  | some c => exact absurd (Term.mem_vars_var.2 rfl) ((h _ _ c hv).1 n hn)

theorem HasForm.ne_of_isNewTo (h : s.HasForm t env T) (hs : names.IsNewIn s) (ht : names.IsNewTo t) (hx : x ∈ T.cells)
    (hn : names.issued < n) : x.2 ≠ s!"V{n}" := by
  intro heq
  have hnew := (h.of_mem_cells (G := fun t _ => names.IsNewTo t)
    (fun hf ht n hn hv => hf n hn (Term.mem_vars_compound.2 ⟨_, ht, hv⟩)) (fun _ hv => (hs _ _ _ hv).2) ht hx).1
  exact hnew n hn (Term.mem_vars_var.2 heq.symm)

/-! ### Open variables that have names -/

/-- Open variables from a set, of other environments, were bound to variables of the target environment that were issued
meanwhile, each of them to one of its own. -/
structure Names (S : EnvId × String → Prop) (target : EnvId) (st st' : Store × NameSupply) : Prop
    extends Renames target st st' where
  link : ∀ {x : EnvId × String} {c}, st.1.lookup x.2 x.1 = none → st'.1.lookup x.2 x.1 = some c →
    S x ∧ x.1 ≠ target ∧ ∃ n, st.2.issued < n ∧ n ≤ st'.2.issued ∧ c = ⟨.var s!"V{n}", target⟩
  apart : ∀ {x y : EnvId × String} {c}, st.1.lookup x.2 x.1 = none → st.1.lookup y.2 y.1 = none →
    st'.1.lookup x.2 x.1 = some c → st'.1.lookup y.2 y.1 = some c → x = y

namespace Names

theorem refl (S : EnvId × String → Prop) (target : EnvId) (st : Store × NameSupply) : Names S target st st where
  toRenames := .refl target st
  link hfree hx := by
    rw [hfree] at hx
    cases hx
  apart hfree _ hx := by
    rw [hfree] at hx
    cases hx

theorem bind (h : Names S target st (s, names)) (hne : env ≠ target) (hv : s.lookup v env = none) (hS : S (env, v)) :
    Names S target st (s.bind v env ⟨names.freshVar.1, target⟩, names.freshVar.2) := by
  have hren := h.toRenames.bind hne hv
  by_cases henv : env < s.envs.size
  · have hlookup (x : EnvId × String) : (s.bind v env ⟨names.freshVar.1, target⟩).lookup x.2 x.1 =
        if x = (env, v) then some ⟨names.freshVar.1, target⟩ else s.lookup x.2 x.1 :=
      (Adds.of_bind hv henv).lookup_eq x
    -- The number of the fresh variable is greater than those of the variables that were issued before.
    have hfresh {x : EnvId × String} (hfree : st.1.lookup x.2 x.1 = none) :
        s.lookup x.2 x.1 ≠ some ⟨names.freshVar.1, target⟩ := by
      intro hx
      obtain ⟨-, -, n, -, hle, heq⟩ := h.link hfree hx
      have hname : s!"V{names.issued + 1}" = s!"V{n}" := Term.var.inj (Closure.mk.inj heq).1
      have := freshName_injective hname
      dsimp only at hle
      omega
    refine { hren with link := fun {x c} hfree hx => ?_, apart := fun {x y c} hfx hfy hx hy => ?_ }
    · rw [hlookup] at hx
      split at hx
      · rename_i hxv
        rw [hxv]
        cases hx
        exact ⟨hS, hne, names.issued + 1, Nat.lt_succ_of_le h.issued_le, Nat.le_refl _, rfl⟩
      · obtain ⟨hSx, hnex, n, hlt, hle, rfl⟩ := h.link hfree hx
        exact ⟨hSx, hnex, n, hlt, Nat.le_succ_of_le hle, rfl⟩
    · rw [hlookup] at hx hy
      split at hx
      · rename_i hxv
        cases hx
        split at hy
        · rename_i hyv
          rw [hxv, hyv]
        · exact absurd hy (hfresh hfy)
      · split at hy
        · cases hy
          exact absurd hx (hfresh hfx)
        · exact h.apart hfx hfy hx hy
  · rw [bind_of_not_lt henv] at hren ⊢
    refine { hren with link := fun {x c} hfree hx => ?_, apart := h.apart }
    obtain ⟨hSx, hnex, n, hlt, hle, rfl⟩ := h.link hfree hx
    exact ⟨hSx, hnex, n, hlt, Nat.le_succ_of_le hle, rfl⟩

/-- A value was there at the start, or it is the name of the variable. -/
theorem lookup_cases (h : Names S target (s, names) st) (hv : st.1.lookup v env = some c) :
    s.lookup v env = some c ∨ ∃ n, names.issued < n ∧ c = ⟨.var s!"V{n}", target⟩ := by
  cases hold : s.lookup v env with
  | some d => exact Or.inl ((h.isExtension.lookup hold).symm.trans hv)
  | none =>
    obtain ⟨-, -, n, hn, -, rfl⟩ := h.link (x := (env, v)) hold hv
    exact Or.inr ⟨n, hn, rfl⟩

/-- New names are open variables of the target environment. -/
theorem lookup_name (h : Names S target (s, names) st) (hfresh : FreshIn names s target) (hn : names.issued < n) :
    st.1.lookup s!"V{n}" target = none := (h.kept _).trans (hfresh n hn)

end Names

/-- An open variable of the target environment is plugged to itself. -/
theorem plugAt_of_free (n : Nat) (hv : s.lookup v target = none) :
    plugAt target n target (.var v) (s, names) = (.var v, (s, names)) := by
  cases n with
  | zero => rfl
  | succ n => simp only [plugAt, hv, if_true]

/-- Plugging only names open variables of the form. -/
theorem Names.plugAt (hfresh : FreshIn names s target) (hT : s.HasForm t env T)
    (hS : ∀ x ∈ T.cells, x.1 ≠ target → S x) (n : Nat) (h : Names S target (s, names) st) :
    Names S target (s, names) (plugAt target n env t st).2 := by
  induction n generalizing t env T st with
  | zero => exact h
  | succ n ih =>
    obtain ⟨s₁, names₁⟩ := st
    cases t with
    | var v =>
      unfold Store.plugAt
      cases hv : s₁.lookup v env with
      | some c =>
        rcases h.lookup_cases hv with hold | ⟨k, hk, rfl⟩
        · exact ih ((HasForm.of_bound hold).1 hT) hS h
        · simp only
          rw [plugAt_of_free n (h.lookup_name hfresh hk)]
          exact h
      | none =>
        by_cases hne : env = target
        · simp only [if_pos hne]
          exact h
        · simp only [if_neg hne]
          have hfree : s.lookup v env = none := h.isExtension.isBelow.lookup_eq_none hv
          refine h.bind hne hv (hS (env, v) ?_ hne)
          rw [(HasForm.of_unbound hfree).1 hT]
          exact Form.mem_cells_cell.2 rfl
    | sym a => exact h
    | compound f args =>
      obtain ⟨Ts, rfl, hTs⟩ := hT.of_compound
      refine threadMap_keeps args (fun a ha st h => ?_) h
      obtain ⟨A, hmem, hA⟩ := exists_left_of_forall₂ hTs.flip ha
      exact ih hA (fun x hx => hS x (Form.mem_cells_compound.2 ⟨A, hmem, hx⟩)) h

/-- A term that is plugged within an allowance has a form of so many levels. -/
theorem exists_formAt_of_plugWithin (hs : s.Below st.1) (h : plugWithin target n env t st = some (u, st')) :
    ∃ T, s.formAt n t env = some T := by
  induction n generalizing env t u st st' with
  | zero => cases h
  | succ n ih =>
    obtain ⟨s₁, names₁⟩ := st
    cases t with
    | var v =>
      cases hv : s.lookup v env with
      | some c =>
        simp only [plugWithin, hs v env c hv] at h
        simp only [formAt, hv]
        exact ih hs h
      | none => exact ⟨.cell v env, by simp only [formAt, hv]⟩
    | sym a => exact ⟨.sym a, rfl⟩
    | compound f args =>
      simp only [plugWithin, Option.bind_eq_bind, Option.bind_eq_some_iff, Option.pure_def, Option.some.injEq] at h
      obtain ⟨⟨us, st₁⟩, hus, -⟩ := h
      rw [exists_formAt_compound]
      generalize (s₁, names₁) = st at hs hus
      induction args generalizing st st₁ us with
      | nil => simp
      | cons a args ihargs =>
        simp only [threadMapWithin, Option.bind_eq_bind, Option.bind_eq_some_iff, Option.pure_def, Option.some.injEq]
          at hus
        obtain ⟨⟨u, st₂⟩, hu, ⟨us', st₃⟩, hus', -⟩ := hus
        refine List.forall_mem_cons.2 ⟨ih hs hu, ihargs us' st₃ st₂ (fun v env c hv => ?_) hus'⟩
        exact (Renames.of_plugWithin hu).isExtension.lookup (hs v env c hv)

/-- In a later store the term has the form that it was plugged to, with open variables of the target environment only, and
plugging it there changes nothing. -/
structure Settled (final : Store) (target env : EnvId) (n : Nat) (t u : Term) : Prop where
  form : ∃ U, final.HasForm t env U ∧ (∀ x ∈ U.cells, x.1 = target) ∧ u = U.eval fun v _ => .var v
  again : ∀ names, plugAt target n env t (final, names) = (u, (final, names))

theorem settled_compound (f : String) {ts us : List Term} (h : List.Forall₂ (Settled s target env n) ts us) :
    Settled s target env (n + 1) (.compound f ts) (.compound f us) := by
  constructor
  · suffices hUs : ∃ Us, List.Forall₂ (s.HasForm · env ·) ts Us ∧ (∀ U ∈ Us, ∀ x ∈ U.cells, x.1 = target) ∧
        us = Us.map (Form.eval fun v _ => .var v) by
      obtain ⟨Us, hUs, hcells, rfl⟩ := hUs
      refine ⟨.compound f Us, HasForm.compound hUs, fun x hx => ?_, by rw [Form.eval, Form.evalList_eq]⟩
      obtain ⟨U, hU, hx⟩ := Form.mem_cells_compound.1 hx
      exact hcells U hU x hx
    induction h with
    | nil => exact ⟨[], .nil, by simp, rfl⟩
    | cons hu _ ih =>
      obtain ⟨U, hU, hcells, rfl⟩ := hu.form
      obtain ⟨Us, hUs, hcells', rfl⟩ := ih
      exact ⟨U :: Us, .cons hU hUs, List.forall_mem_cons.2 ⟨hcells, hcells'⟩, rfl⟩
  · intro names
    have hargs : threadMap (plugAt target n env) ts (s, names) = (us, (s, names)) := by
      induction h with
      | nil => rfl
      | cons hu _ ih => simp only [threadMap, hu.again, ih]
    rw [plugAt, hargs]

/-- A term whose open variables are those of the target environment is settled already. -/
theorem settled_of_formAt (h : s.formAt n t env = some T) (hT : ∀ x ∈ T.cells, x.1 = target) :
    Settled s target env n t (T.eval fun v _ => .var v) := by
  induction n generalizing t env T with
  | zero => cases h
  | succ n ih =>
    cases t with
    | var v =>
      cases hv : s.lookup v env with
      | some c =>
        simp only [formAt, hv] at h
        obtain ⟨⟨U, hU, hcells, hu⟩, hagain⟩ := ih h hT
        exact ⟨⟨U, (HasForm.of_bound hv).2 hU, hcells, hu⟩, fun names => by simp only [plugAt, hv, hagain]⟩
      | none =>
        simp only [formAt, hv, Option.some.injEq] at h
        subst h
        obtain rfl : env = target := hT (env, v) (Form.mem_cells_cell.2 rfl)
        exact ⟨⟨.cell v env, (HasForm.of_unbound hv).2 rfl, hT, rfl⟩, fun names => plugAt_of_free (n + 1) hv⟩
    | sym a =>
      cases h
      exact ⟨⟨.sym a, HasForm.of_sym.2 rfl, hT, rfl⟩, fun names => rfl⟩
    | compound f args =>
      obtain ⟨Ts, hTs, rfl⟩ := formAt_compound.1 h
      rw [Form.eval, Form.evalList_eq]
      refine settled_compound f (List.forall₂_map_right_iff.2 ?_)
      clear h
      induction hTs with
      | nil => exact .nil
      | @cons a A args Ts ha _ ihargs =>
        refine .cons (ih ha fun x hx => hT x (Form.mem_cells_compound.2 ⟨A, List.mem_cons_self, hx⟩)) (ihargs fun x hx => ?_)
        obtain ⟨U, hU, hx⟩ := Form.mem_cells_compound.1 hx
        exact hT x (Form.mem_cells_compound.2 ⟨U, List.mem_cons_of_mem A hU, hx⟩)

theorem settled_all (hfresh : FreshIn names s target) {ts us : List Term} {Ts : List Form}
    (h : Names S target (s, names) st)
    (hTs : List.Forall₂ (s.HasForm · env ·) ts Ts) (hS : ∀ T ∈ Ts, ∀ x ∈ T.cells, x.1 ≠ target → S x)
    (hus : threadMapWithin (plugWithin target n env) ts st = some (us, st')) (hlast : Renames target st' final)
    (hone : ∀ t T u st st', Names S target (s, names) st → s.HasForm t env T → (∀ x ∈ T.cells, x.1 ≠ target → S x) →
      plugWithin target n env t st = some (u, st') → Renames target st' final → Settled final.1 target env n t u) :
    List.Forall₂ (Settled final.1 target env n) ts us := by
  induction hTs generalizing st us with
  | nil =>
    cases hus
    exact .nil
  | cons hT _ ih =>
    simp only [threadMapWithin, Option.bind_eq_bind, Option.bind_eq_some_iff, Option.pure_def, Option.some.injEq] at hus
    obtain ⟨⟨u, st₁⟩, hu, ⟨us', st₂⟩, hus', heq⟩ := hus
    cases heq
    rw [List.forall_mem_cons] at hS
    have h₁ := h.plugAt hfresh hT hS.1 n
    rw [plugAt_of_within hu] at h₁
    refine .cons ?_ (ih h₁ hS.2 hus')
    exact hone _ _ u st st₁ h hT hS.1 hu ((Renames.of_threadMapWithin hus').trans hlast)

theorem settled_of_within (hfresh : FreshIn names s target) (hallowed : ∀ x, S x → x.1 < s.envs.size)
    (h : Names S target (s, names) st) (hT : s.HasForm t env T) (hS : ∀ x ∈ T.cells, x.1 ≠ target → S x)
    (hplug : plugWithin target n env t st = some (u, st')) (hlast : Renames target st' final) :
    Settled final.1 target env n t u := by
  induction n generalizing t env T st st' u with
  | zero => cases hplug
  | succ n ih =>
    have hren := Renames.of_plugWithin hplug
    obtain ⟨s₁, names₁⟩ := st
    cases t with
    | var v =>
      unfold plugWithin at hplug
      cases hv : s₁.lookup v env with
      | some c =>
        simp only [hv] at hplug
        have hfinal := hlast.isExtension.lookup (hren.isExtension.lookup hv)
        have hc : ∃ T, s.HasForm c.term c.env T ∧ ∀ x ∈ T.cells, x.1 ≠ target → S x := by
          rcases h.lookup_cases hv with hold | ⟨k, hk, rfl⟩
          · exact ⟨T, (HasForm.of_bound hold).1 hT, hS⟩
          · refine ⟨_, (HasForm.of_unbound (hfresh k hk)).2 rfl, fun x hx hne => absurd ?_ hne⟩
            rw [Form.mem_cells_cell.1 hx]
        obtain ⟨T', hT', hS'⟩ := hc
        obtain ⟨⟨U, hU, hcells, hu⟩, hagain⟩ := ih h hT' hS' hplug hlast
        exact ⟨⟨U, (HasForm.of_bound hfinal).2 hU, hcells, hu⟩, fun names => by simp only [plugAt, hfinal, hagain]⟩
      | none =>
        simp only [hv] at hplug
        by_cases hne : env = target
        · rw [if_pos hne] at hplug
          cases hplug
          subst hne
          have hfinal : final.1.lookup v env = none := (hlast.kept v).trans hv
          refine ⟨⟨.cell v env, (HasForm.of_unbound hfinal).2 rfl, fun x hx => ?_, rfl⟩, fun names => ?_⟩
          · rw [Form.mem_cells_cell.1 hx]
          · exact plugAt_of_free (n + 1) hfinal
        · rw [if_neg hne] at hplug
          cases hplug
          have hfree : s.lookup v env = none := h.isExtension.isBelow.lookup_eq_none hv
          have henv : env < s₁.envs.size := by
            rw [h.isExtension.size_envs]
            refine hallowed (env, v) (hS _ ?_ hne)
            rw [(HasForm.of_unbound hfree).1 hT]
            exact Form.mem_cells_cell.2 rfl
          have hbound : final.1.lookup v env = some ⟨names₁.freshVar.1, target⟩ := by
            refine hlast.isExtension.lookup ?_
            rw [lookup_bind henv, if_pos ⟨rfl, rfl⟩]
          have hname : final.1.lookup s!"V{names₁.issued + 1}" target = none := by
            rw [hlast.kept, hren.kept]
            exact h.lookup_name hfresh (Nat.lt_succ_of_le h.issued_le)
          refine ⟨⟨.cell s!"V{names₁.issued + 1}" target, ?_, fun x hx => ?_, rfl⟩, fun names => ?_⟩
          · exact (HasForm.of_bound hbound).2 ((HasForm.of_unbound hname).2 rfl)
          · rw [Form.mem_cells_cell.1 hx]
          · simp only [plugAt, hbound]
            exact plugAt_of_free n hname
    | sym a =>
      cases hplug
      exact ⟨⟨.sym a, HasForm.of_sym.2 rfl, fun x hx => (by cases hx), rfl⟩, fun names => rfl⟩
    | compound f args =>
      obtain ⟨Ts, rfl, hTs⟩ := hT.of_compound
      simp only [plugWithin, Option.bind_eq_bind, Option.bind_eq_some_iff, Option.pure_def, Option.some.injEq] at hplug
      obtain ⟨⟨us, st₁⟩, hus, heq⟩ := hplug
      cases heq
      refine settled_compound f (settled_all hfresh h hTs (fun T hT x hx => ?_) hus hlast
        fun t T u st st' h hT hS hplug hlast => ih h hT hS hplug hlast)
      exact hS x (Form.mem_cells_compound.2 ⟨T, hT, hx⟩)

/-! ### Forms with names for open variables -/

/-- What an unbound variable stands for in a later store: the variable that it was bound to, if it was, and else itself. -/
def standsFor (s : Store) (v : String) (env : EnvId) : Form :=
  match s.lookup v env with
  | some ⟨.var w, env'⟩ => .cell w env'
  | _ => .cell v env

/-- Forms are only renamed. -/
theorem Names.hasForm (h : Names S target (s, names) st) (hfresh : FreshIn names s target) (hT : s.HasForm t env T) :
    st.1.HasForm t env (T.subst st.1.standsFor) := by
  induction hT using HasForm.induction with
  | bound hv _ ih => exact (HasForm.of_bound (h.isExtension.lookup hv)).2 ih
  | @free v env hv =>
    unfold Form.subst standsFor
    cases hc : st.1.lookup v env with
    | none => exact (HasForm.of_unbound hc).2 rfl
    | some c =>
      obtain ⟨-, -, k, hk, -, rfl⟩ := h.link (x := (env, v)) hv hc
      exact (HasForm.of_bound hc).2 ((HasForm.of_unbound (h.lookup_name hfresh hk)).2 rfl)
  | sym a env => exact HasForm.of_sym.2 rfl
  | compound f _ ih =>
    rw [Form.subst, Form.substList_eq]
    exact HasForm.compound (List.forall₂_map_right_iff.2 (ih.imp fun _ _ ⟨_, hU⟩ => hU))

/-- Names for the open variables of forms: those of the target environment keep their own, the others have new ones that
were issued, and no two of them have the same. -/
structure NamesApart (target : EnvId) (names names' : NameSupply) (Ts : List Form) (name : String → EnvId → String) : Prop
    where
  kept : ∀ v, name v target = v
  issued : ∀ x ∈ Ts.flatMap Form.cells, x.1 ≠ target →
    ∃ n, names.issued < n ∧ n ≤ names'.issued ∧ name x.2 x.1 = s!"V{n}"
  apart : ∀ x ∈ Ts.flatMap Form.cells, ∀ y ∈ Ts.flatMap Form.cells, name x.2 x.1 = name y.2 y.1 → x = y

/-- Terms are plugged one after the other within the allowance; each of them is given with what comes of it. -/
inductive Plugs (target : EnvId) : Store × NameSupply → List (Closure × Term) → Store × NameSupply → Prop
  | nil (st : Store × NameSupply) : Plugs target st [] st
  | cons {s : Store} {names : NameSupply} {c : Closure} {u : Term} {st st' : Store × NameSupply}
      {calls : List (Closure × Term)} (hwithin : (plugWithin target allowance c.env c.term (s, names)).isSome)
      (hplug : s.plug c.term c.env target names = (u, st)) (h : Plugs target st calls st') :
      Plugs target (s, names) ((c, u) :: calls) st'

variable {calls : List (Closure × Term)} {Ts : List Form} {b : Bool}

namespace Plugs

theorem plugWithin_eq (hwithin : (plugWithin target allowance c.env c.term (s, names)).isSome)
    (hplug : s.plug c.term c.env target names = (u, st)) :
    plugWithin target allowance c.env c.term (s, names) = some (u, st) := by
  obtain ⟨r, hr⟩ := Option.isSome_iff_exists.1 hwithin
  have hrun : s.plug c.term c.env target names = r := plugAt_of_within hr
  rw [hr, ← hplug, hrun]

theorem renames (h : Plugs target st calls st') : Renames target st st' := by
  induction h with
  | nil st => exact .refl target st
  | cons hwithin hplug _ ih => exact (Renames.of_plugWithin (plugWithin_eq hwithin hplug)).trans ih

theorem bindsNames (h : Plugs target st calls st') (hfresh : FreshIn names s target) (hst : Names S target (s, names) st)
    (hforms : ∀ p ∈ calls, ∃ T, s.HasForm p.1.term p.1.env T ∧ ∀ x ∈ T.cells, x.1 ≠ target → S x) :
    Names S target (s, names) st' := by
  induction h with
  | nil => exact hst
  | cons _ hplug _ ih =>
    rw [List.forall_mem_cons] at hforms
    obtain ⟨T, hT, hS⟩ := hforms.1
    have hkept := hst.plugAt hfresh hT hS allowance
    rw [plug] at hplug
    rw [hplug] at hkept
    exact ih hkept hforms.2

theorem settled (h : Plugs target st calls final) (hfresh : FreshIn names s target)
    (hallowed : ∀ x, S x → x.1 < s.envs.size) (hst : Names S target (s, names) st)
    (hforms : ∀ p ∈ calls, ∃ T, s.HasForm p.1.term p.1.env T ∧ ∀ x ∈ T.cells, x.1 ≠ target → S x) :
    ∀ p ∈ calls, Settled final.1 target p.1.env allowance p.1.term p.2 := by
  induction h with
  | nil => simp
  | cons hwithin hplug hrest ih =>
    have hone := plugWithin_eq hwithin hplug
    rw [List.forall_mem_cons] at hforms ⊢
    obtain ⟨T, hT, hS⟩ := hforms.1
    refine ⟨settled_of_within hfresh hallowed hst hT hS hone hrest.renames, ih ?_ hforms.2⟩
    have hkept := hst.plugAt hfresh hT hS allowance
    rwa [plugAt_of_within hone] at hkept

end Plugs

/-- The name of an open variable after plugging. -/
def nameAfter (s : Store) (target : EnvId) (v : String) (env : EnvId) : String :=
  if env = target then v
  else
    match s.standsFor v env with
    | .cell w _ => w
    | _ => v

/-- What terms were plugged to names their open variables: each of them stands for its name in the target environment. -/
theorem Names.standsFor_eq (h : Names S target (s, names) st) (hT : s.HasForm t env T)
    (hu : Settled st.1 target env n t u) (hfresh : FreshIn names s target) (hx : x ∈ T.cells) :
    st.1.standsFor x.2 x.1 = .cell (st.1.nameAfter target x.2 x.1) target ∧
      (x.1 ≠ target → ∃ k, names.issued < k ∧ k ≤ st.2.issued ∧ st.1.lookup x.2 x.1 = some ⟨.var s!"V{k}", target⟩ ∧
        st.1.nameAfter target x.2 x.1 = s!"V{k}") := by
  have hfree := hT.lookup_eq_none hx
  by_cases hne : x.1 = target
  · have hkept : st.1.lookup x.2 x.1 = none := by rw [hne, h.kept, ← hne, hfree]
    refine ⟨?_, fun hne' => absurd hne hne'⟩
    simp only [standsFor, hkept, nameAfter, if_pos hne]
    rw [hne]
  · cases hc : st.1.lookup x.2 x.1 with
    | none =>
      have hself : st.1.standsFor x.2 x.1 = .cell x.2 x.1 := by simp only [standsFor, hc]
      obtain ⟨U, hU, hcells, -⟩ := hu.form
      rw [hU.unique (h.hasForm hfresh hT)] at hcells
      refine absurd (hcells x (Form.mem_cells_subst T hx ?_)) hne
      rw [hself]
      exact Form.mem_cells_cell.2 rfl
    | some c =>
      obtain ⟨-, -, k, hk, hle, rfl⟩ := h.link hfree hc
      have hname : st.1.standsFor x.2 x.1 = .cell s!"V{k}" target := by simp only [standsFor, hc]
      have hafter : st.1.nameAfter target x.2 x.1 = s!"V{k}" := by simp only [nameAfter, hname, if_neg hne]
      exact ⟨hname.trans (congrArg (Form.cell · target) hafter.symm), fun _ => ⟨k, hk, hle, rfl, hafter⟩⟩

theorem Plugs.exists_formAt (h : Plugs target st calls st') (hs : s.Below st.1) :
    ∀ p ∈ calls, ∃ T, s.formAt allowance p.1.term p.1.env = some T := by
  induction h with
  | nil => simp
  | cons hwithin hplug _ ih =>
    have hone := plugWithin_eq hwithin hplug
    refine List.forall_mem_cons.2 ⟨exists_formAt_of_plugWithin hs hone, ih fun v env c hv => ?_⟩
    exact (Renames.of_plugWithin hone).isExtension.lookup (hs v env c hv)

/-- Whatever is done with a store, its bindings are on the trail. -/
theorem Run.isTrailed (h : Run (fun _ _ => True) { occursCheck := b } s) : s.Trailed := by
  induction h with
  | refl => exact trailed_empty b
  | @step s _ op _ ih =>
    cases op with
    | newEnv => exact ih.newEnv
    | unify x ex y ey => exact ih.of_extends (s.extends_unify x ex y ey)
    | matchInto pattern ep t et => exact ih.of_extends (s.extends_matchInto pattern ep t et)
    | plug t env target names => exact ih.of_extends (s.plug_extends t env target names)
    | bind v env c => exact ih.bind v env c
    | rollback cp => exact ih.rollback cp

/-- Terms that are plugged one after the other, in a store without cycles and with names that do not occur there, come to
their forms: the open variables of the target environment are kept, those of other environments, as far as the store has
them, have new names, each of them the same one in all the terms and no two of them the same. In the forms of all terms
these variables are renamed so, and nothing else is changed. What a term was plugged to is ground exactly if the term is
ground under the bindings, and plugging the term again gives the same, binds nothing and issues no name. -/
theorem plugs_forms (hs : Run (fun _ _ => True) { occursCheck := b } s) (hac : s.Acyclic Closure.Holds)
    (hnames : names.IsNewIn s) (hcalls : ∀ p ∈ calls, names.IsNewTo p.1.term)
    (hopen : ∀ p ∈ calls, ∀ T, s.HasForm p.1.term p.1.env T → ∀ x ∈ T.cells, x.1 ≠ target → x.1 < s.envs.size)
    (hrun : Plugs target (s, names) calls (s', names')) :
    ∃ (Ts : List Form) (name : String → EnvId → String),
      List.Forall₂ (fun p T => s.HasForm p.1.term p.1.env T ∧ p.2 = T.eval fun v env => .var (name v env)) calls Ts ∧
      NamesApart target names names' Ts name ∧
      (∀ t env, ∃ T, s.HasForm t env T ∧ s'.HasForm t env (T.subst fun v env =>
        if (env, v) ∈ Ts.flatMap Form.cells then .cell (name v env) target else .cell v env)) ∧
      ∀ p ∈ calls, (s.isGround p.1.term p.1.env = true ↔ p.2.isGround = true) ∧
        s'.plug p.1.term p.1.env target names' = (p.2, (s', names')) := by
  have htrailed := hs.isTrailed
  have hresolvable := htrailed.resolvable hac
  have hfresh : FreshIn names s target := freshIn_of_isNewIn hnames
  choose form hform using hresolvable
  let Ts := calls.map fun p => form p.1.term p.1.env
  let S : EnvId × String → Prop := fun x => x ∈ Ts.flatMap Form.cells ∧ x.1 ≠ target
  have hmem {x : EnvId × String} : x ∈ Ts.flatMap Form.cells ↔ ∃ p ∈ calls, x ∈ (form p.1.term p.1.env).cells := by
    simp only [Ts, List.mem_flatMap, List.mem_map, exists_exists_and_eq_and]
  have hforms : ∀ p ∈ calls, ∃ T, s.HasForm p.1.term p.1.env T ∧ ∀ x ∈ T.cells, x.1 ≠ target → S x :=
    fun p hp => ⟨_, hform _ _, fun x hx hne => ⟨hmem.2 ⟨p, hp, hx⟩, hne⟩⟩
  have hallowed : ∀ x, S x → x.1 < s.envs.size := by
    rintro x ⟨hx, hne⟩
    obtain ⟨p, hp, hx⟩ := hmem.1 hx
    exact hopen p hp _ (hform _ _) x hx hne
  have hend : Names S target (s, names) (s', names') := hrun.bindsNames hfresh (.refl ..) hforms
  have hsettled := hrun.settled hfresh hallowed (.refl ..) hforms
  have hname {x : EnvId × String} (hx : x ∈ Ts.flatMap Form.cells) :=
    let ⟨p, hp, hx⟩ := hmem.1 hx
    hend.standsFor_eq (hform _ _) (hsettled p hp) hfresh hx
  have hfree {x : EnvId × String} (hx : x ∈ Ts.flatMap Form.cells) : s.lookup x.2 x.1 = none :=
    let ⟨_, _, hx⟩ := hmem.1 hx
    (hform _ _).lookup_eq_none hx
  have hold {x : EnvId × String} {k : Nat} (hx : x ∈ Ts.flatMap Form.cells) (hk : names.issued < k) : x.2 ≠ s!"V{k}" :=
    let ⟨p, hp, hx⟩ := hmem.1 hx
    (hform _ _).ne_of_isNewTo hnames (hcalls p hp) hx hk
  have hvalue (p : Closure × Term) (hp : p ∈ calls) :
      p.2 = (form p.1.term p.1.env).eval fun v env => .var (s'.nameAfter target v env) := by
    obtain ⟨U, hU, -, hu⟩ := (hsettled p hp).form
    rw [hu, hU.unique (hend.hasForm hfresh (hform _ _)), Form.eval_subst]
    refine Form.eval_congr _ fun x hx => ?_
    rw [(hname (hmem.2 ⟨p, hp, hx⟩)).1, Form.eval]
  refine ⟨Ts, s'.nameAfter target, ?_, ⟨fun v => if_pos rfl, fun x hx hne => ?_, fun x hx y hy heq => ?_⟩, ?_, ?_⟩
  · exact List.forall₂_map_right_iff.2 (List.forall₂_same.2 fun p hp => ⟨hform _ _, hvalue p hp⟩)
  · obtain ⟨k, hk, hle, -, hafter⟩ := (hname hx).2 hne
    exact ⟨k, hk, hle, hafter⟩
  · by_cases hxt : x.1 = target
    · by_cases hyt : y.1 = target
      · rw [nameAfter, nameAfter, if_pos hxt, if_pos hyt] at heq
        exact Prod.ext (hxt.trans hyt.symm) heq
      · obtain ⟨k, hk, -, -, hafter⟩ := (hname hy).2 hyt
        rw [nameAfter, if_pos hxt, hafter] at heq
        exact absurd heq (hold hx hk)
    · obtain ⟨k, hk, -, hlookup, hafter⟩ := (hname hx).2 hxt
      by_cases hyt : y.1 = target
      · rw [hafter, nameAfter, if_pos hyt] at heq
        exact absurd heq.symm (hold hy hk)
      · obtain ⟨k', -, -, hlookup', hafter'⟩ := (hname hy).2 hyt
        rw [hafter, hafter'] at heq
        exact hend.apart (hfree hx) (hfree hy) hlookup (heq ▸ hlookup')
  · intro t env
    refine ⟨_, hform t env, ?_⟩
    rw [Form.subst_congr (τ := s'.standsFor)]
    · exact hend.hasForm hfresh (hform t env)
    · intro x hx
      split
      · rename_i hxTs
        exact (hname hxTs).1.symm
      · rename_i hxTs
        cases hc : s'.lookup x.2 x.1 with
        | none => simp only [standsFor, hc]
        | some c => exact absurd (hend.link ((hform t env).lookup_eq_none hx) hc).1.1 hxTs
  · intro p hp
    obtain ⟨T, hT⟩ := hrun.exists_formAt (fun _ _ _ hv => hv) p hp
    refine ⟨?_, (hsettled p hp).again names'⟩
    rw [isGround, isGroundAt_of_formAt htrailed hT (Nat.le_refl _), hvalue p hp, Form.isGround_eval,
      (hform p.1.term p.1.env).unique ⟨_, hT⟩]

/-- After the bindings of `linked`, `p(X,Z)` and then `g(Y,W)` are plugged into the first environment. The value of `X` is
`f(Y)` of the second one, and so `Y` has the same name in both. -/
theorem plugs_forms_linked :
    ∃ st, Plugs 0 (linked, {})
        [(⟨.compound "p" [.var "X", .var "Z"], 0⟩, .compound "p" [.compound "f" [.var "V1"], .var "Z"]),
          (⟨.compound "g" [.var "Y", .var "W"], 1⟩, .compound "g" [.var "V1", .var "V2"])] st ∧
      st.1.plug (.compound "p" [.var "X", .var "Z"]) 0 0 st.2 =
        (.compound "p" [.compound "f" [.var "V1"], .var "Z"], st) := by
  have hrun : Run (fun _ _ => True) { occursCheck := true } linked :=
    .step (.step (.step .refl .newEnv trivial) .newEnv trivial) (.unify (.var "X") 0 (.compound "f" [.var "Y"]) 1) trivial
  have hchecked : CheckedRun linked ∅ :=
    .step (.step (.step .empty .newEnv trivial) .newEnv trivial) (.unify (.var "X") 0 (.compound "f" [.var "Y"]) 1) trivial
  obtain ⟨hexact, -, honly⟩ := hchecked.closedOnlyAt
  have hwf : linked.WellFormed :=
    (wellFormed_empty true).newEnv.newEnv.unify (.var "X") (.compound "f" [.var "Y"]) (by decide) (by decide)
  have hnames : NameSupply.IsNewIn {} linked := by
    intro v env c hc
    have hmem : (env, v) ∈ [(0, "X")] := hexact.isTrailed v env c hc
    obtain ⟨rfl, rfl⟩ := Prod.mk.inj (List.mem_singleton.1 hmem)
    obtain rfl : (⟨.compound "f" [.var "Y"], 1⟩ : Closure) = c := Option.some.inj hc
    exact ⟨NameSupply.isNewTo_of_head? _ (by decide), NameSupply.isNewTo_of_head? _ (by decide)⟩
  have hplugs : Plugs 0 (linked, {})
      [(⟨.compound "p" [.var "X", .var "Z"], 0⟩, .compound "p" [.compound "f" [.var "V1"], .var "Z"]),
        (⟨.compound "g" [.var "Y", .var "W"], 1⟩, .compound "g" [.var "V1", .var "V2"])] _ :=
    .cons (by decide) rfl (.cons (by decide) rfl (.nil _))
  obtain ⟨-, -, -, -, -, hagain⟩ := plugs_forms hrun (hexact.acyclic_iff.2 honly) hnames
    (by
      simp only [List.forall_mem_cons, List.not_mem_nil, false_imp_iff, implies_true, and_true]
      exact ⟨NameSupply.isNewTo_of_head? _ (by decide), NameSupply.isNewTo_of_head? _ (by decide)⟩)
    (by
      intro p hp T hT x hx _
      refine hT.env_lt hwf ?_ hx
      simp only [List.mem_cons, List.not_mem_nil, or_false] at hp
      rcases hp with rfl | rfl <;> decide)
    hplugs
  exact ⟨_, hplugs, (hagain _ List.mem_cons_self).2⟩

/-! ### Variables of environments that the store does not have -/

/-- `X` of the only environment is bound to a variable of an environment that the store does not have. -/
def dangling : Store := ((newEnv {}).2).bind "X" 0 ⟨.var "Y", 5⟩

/-- The name of that variable is not kept: the term is plugged to another variable the next time, although no bindings go
round, and the names do not occur in the store. -/
theorem plug_unkept :
    Run (fun _ _ => True) {} dangling ∧ dangling.Acyclic Closure.Holds ∧ NameSupply.IsNewIn {} dangling ∧
      0 < dangling.envs.size ∧ (plugWithin 0 allowance 0 (.var "X") (dangling, {})).isSome ∧
      dangling.plug (.var "X") 0 0 {} = (.var "V1", (dangling, ⟨1⟩)) ∧
      dangling.plug (.var "X") 0 0 ⟨1⟩ = (.var "V2", (dangling, ⟨2⟩)) := by
  have hrun : Run (fun _ _ => True) {} dangling :=
    .step (.step .refl .newEnv trivial) (.bind "X" 0 ⟨.var "Y", 5⟩) trivial
  have hempty (v : String) (env : EnvId) : (newEnv {}).2.lookup v env = none := by
    rw [lookup_newEnv]
    simp [lookup]
  refine ⟨hrun, ?_, fun v env c hc => ?_, by decide, by decide, rfl, rfl⟩
  · refine (acyclic_of_unbound hempty).bind (hempty "X" 0) (not_meets_of_free (z := (5, "Y")) ?_ (hempty "Y" 5) (by decide))
    rintro y ⟨hname, henv⟩
    exact Prod.ext henv (Term.mem_vars_var.1 hname)
  · have hmem : (env, v) ∈ [(0, "X")] := hrun.isTrailed v env c hc
    obtain ⟨rfl, rfl⟩ := Prod.mk.inj (List.mem_singleton.1 hmem)
    obtain rfl : (⟨.var "Y", 5⟩ : Closure) = c := Option.some.inj hc
    exact ⟨NameSupply.isNewTo_of_head? _ (by decide), NameSupply.isNewTo_of_head? _ (by decide)⟩

end Store

end Deduction
