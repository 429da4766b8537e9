import Deduction.Proofs.Pointwise
import Deduction.Proofs.Store.Valuation

/-!
# Fully resolved forms

The fully resolved form of a term has the bindings of a store applied everywhere; what is left open in it are variables
of environments. A term on a cycle of bindings has none. Binding a variable replaces it in all forms, provided that
the form of its new value does not hold it (`HasForm.bind`).
-/

namespace Deduction

/-- A term over the variables of all environments. -/
inductive Form where
  | cell (v : String) (env : EnvId)
  | sym (a : String)
  | compound (f : String) (args : List Form)

namespace Form

mutual
/-- The value of a form under a valuation. -/
def eval (θ : Valuation) : Form → Term
  | cell v env => θ v env
  | sym a => .sym a
  | compound f args => .compound f (evalList θ args)

def evalList (θ : Valuation) : List Form → List Term
  | [] => []
  | T :: Ts => eval θ T :: evalList θ Ts
end

mutual
/-- Replaces the open variables of a form. -/
def subst (σ : String → EnvId → Form) : Form → Form
  | cell v env => σ v env
  | sym a => sym a
  | compound f args => compound f (substList σ args)

def substList (σ : String → EnvId → Form) : List Form → List Form
  | [] => []
  | T :: Ts => subst σ T :: substList σ Ts
end

@[simp] theorem evalList_eq (θ : Valuation) (Ts : List Form) : evalList θ Ts = Ts.map (eval θ) := by
  induction Ts with
  | nil => rfl
  | cons T Ts ih => rw [evalList, ih, List.map_cons]

@[simp] theorem substList_eq (σ : String → EnvId → Form) (Ts : List Form) : substList σ Ts = Ts.map (subst σ) := by
  induction Ts with
  | nil => rfl
  | cons T Ts ih => rw [substList, ih, List.map_cons]

variable {σ τ : String → EnvId → Form} {θ η : Valuation}

/-- The value of an argument is smaller than that of the compound. -/
theorem sizeOf_eval_lt {f : String} {T : Form} {Ts : List Form} (h : T ∈ Ts) (θ : Valuation) :
    sizeOf (T.eval θ) < sizeOf ((compound f Ts).eval θ) := by
  have hlt := List.sizeOf_lt_of_mem (List.mem_map_of_mem (f := eval θ) h)
  rw [eval, evalList_eq, Term.compound.sizeOf_spec]
  omega

mutual
theorem eval_subst (θ : Valuation) (σ : String → EnvId → Form) :
    (T : Form) → (T.subst σ).eval θ = T.eval fun v env => (σ v env).eval θ
  | cell _ _ => rfl
  | sym _ => rfl
  | compound f args => by rw [subst, eval, eval, evalList_subst θ σ args]

theorem evalList_subst (θ : Valuation) (σ : String → EnvId → Form) :
    (Ts : List Form) → evalList θ (substList σ Ts) = evalList (fun v env => (σ v env).eval θ) Ts
  | [] => rfl
  | T :: Ts => by rw [substList, evalList, evalList, eval_subst θ σ T, evalList_subst θ σ Ts]
end

mutual
theorem subst_subst (σ τ : String → EnvId → Form) :
    (T : Form) → (T.subst σ).subst τ = T.subst fun v env => (σ v env).subst τ
  | cell _ _ => rfl
  | sym _ => rfl
  | compound f args => by rw [subst, subst, subst, substList_subst σ τ args]

theorem substList_subst (σ τ : String → EnvId → Form) :
    (Ts : List Form) → substList τ (substList σ Ts) = substList (fun v env => (σ v env).subst τ) Ts
  | [] => rfl
  | T :: Ts => by rw [substList, substList, substList, subst_subst σ τ T, substList_subst σ τ Ts]
end

mutual
theorem subst_cell : (T : Form) → T.subst cell = T
  | cell _ _ => rfl
  | sym _ => rfl
  | compound f args => by rw [subst, substList_cell args]

theorem substList_cell : (Ts : List Form) → substList cell Ts = Ts
  | [] => rfl
  | T :: Ts => by rw [substList, subst_cell T, substList_cell Ts]
end

/-- Replaces one variable. -/
def single (v : String) (env : EnvId) (T : Form) : String → EnvId → Form :=
  fun w env' => if w = v ∧ env' = env then T else cell w env'

/-- The replacement only puts in what the valuation gives to the variable already. -/
def Absorbs (θ : Valuation) (σ : String → EnvId → Form) : Prop := ∀ v env, (σ v env).eval θ = θ v env

theorem Absorbs.eval_subst (h : Absorbs θ σ) (T : Form) : (T.subst σ).eval θ = T.eval θ := by
  rw [Form.eval_subst]
  congr
  funext v env
  exact h v env

theorem absorbs_cell (θ : Valuation) : Absorbs θ cell := fun _ _ => rfl

theorem absorbs_single {v : String} {env : EnvId} {T : Form} (h : θ v env = T.eval θ) :
    Absorbs θ (single v env T) := by
  intro w env'
  unfold single
  by_cases hw : w = v ∧ env' = env
  · obtain ⟨rfl, rfl⟩ := hw
    rw [if_pos ⟨rfl, rfl⟩, h]
  · rw [if_neg hw, eval]

end Form

namespace Store

variable {s s' : Store} {v w : String} {env ev ex ey : EnvId} {c d : Closure} {t u x y : Term} {n m : Nat}
  {T U X Y : Form} {ts : List Term} {Ts : List Form}

/-- The fully resolved form of a term, if it has one within so many levels. -/
def formAt (s : Store) : Nat → Term → EnvId → Option Form
  | 0, _, _ => none
  | n + 1, .var v, env =>
    match s.lookup v env with
    | some c => s.formAt n c.term c.env
    | none => some (.cell v env)
  | _ + 1, .sym a, _ => some (.sym a)
  | n + 1, .compound f args, env => (args.mapM (s.formAt n · env)).map (.compound f)

/-- The term, read in the environment, has this fully resolved form. -/
def HasForm (s : Store) (t : Term) (env : EnvId) (T : Form) : Prop := ∃ n, s.formAt n t env = some T

theorem formAt_compound {f : String} :
    s.formAt (n + 1) (.compound f ts) env = some T ↔
      ∃ Ts, List.Forall₂ (fun t T => s.formAt n t env = some T) ts Ts ∧ .compound f Ts = T := by
  rw [formAt, Option.map_eq_some_iff]
  simp only [mapM_eq_some_iff]

theorem formAt_succ (h : s.formAt n t env = some T) : s.formAt (n + 1) t env = some T := by
  induction n generalizing t env T with
  | zero => cases h
  | succ n ih =>
    cases t with
    | var v =>
      cases hv : s.lookup v env with
      | some c =>
        simp only [formAt, hv] at h ⊢
        exact ih h
      | none =>
        simp only [formAt, hv] at h ⊢
        exact h
    | sym a => exact h
    | compound f args =>
      obtain ⟨Ts, hTs, rfl⟩ := formAt_compound.1 h
      exact formAt_compound.2 ⟨Ts, hTs.imp fun _ _ => ih, rfl⟩

theorem formAt_mono (h : s.formAt n t env = some T) (hnm : n ≤ m) : s.formAt m t env = some T := by
  induction hnm with
  | refl => exact h
  | step _ ih => exact formAt_succ ih

namespace HasForm

/-- Forms are determined. -/
theorem unique (h : s.HasForm t env T) (h' : s.HasForm t env U) : T = U := by
  obtain ⟨n, hn⟩ := h
  obtain ⟨m, hm⟩ := h'
  have := formAt_mono hn (Nat.le_max_left n m)
  rw [formAt_mono hm (Nat.le_max_right n m)] at this
  exact (Option.some.inj this).symm

theorem of_bound (hv : s.lookup v env = some c) : s.HasForm (.var v) env T ↔ s.HasForm c.term c.env T := by
  constructor
  · rintro ⟨n, hn⟩
    cases n with
    | zero => cases hn
    | succ n =>
      simp only [formAt, hv] at hn
      exact ⟨n, hn⟩
  · rintro ⟨n, hn⟩
    refine ⟨n + 1, ?_⟩
    simp only [formAt, hv]
    exact hn

theorem of_unbound (hv : s.lookup v env = none) : s.HasForm (.var v) env T ↔ T = .cell v env := by
  constructor
  · rintro ⟨n, hn⟩
    cases n with
    | zero => cases hn
    | succ n =>
      simp only [formAt, hv] at hn
      exact (Option.some.inj hn).symm
  · rintro rfl
    refine ⟨1, ?_⟩
    simp only [formAt, hv]

theorem of_sym {a : String} : s.HasForm (.sym a) env T ↔ T = .sym a := by
  constructor
  · rintro ⟨n, hn⟩
    cases n with
    | zero => cases hn
    | succ n => exact (Option.some.inj hn).symm
  · rintro rfl
    exact ⟨1, rfl⟩

theorem of_compound {f : String} (h : s.HasForm (.compound f ts) env T) :
    ∃ Ts, T = .compound f Ts ∧ List.Forall₂ (s.HasForm · env ·) ts Ts := by
  obtain ⟨n, hn⟩ := h
  cases n with
  | zero => cases hn
  | succ n =>
    obtain ⟨Ts, hTs, rfl⟩ := formAt_compound.1 hn
    exact ⟨Ts, rfl, hTs.imp fun _ _ hT => ⟨n, hT⟩⟩

theorem compound {f : String} (h : List.Forall₂ (s.HasForm · env ·) ts Ts) :
    s.HasForm (.compound f ts) env (.compound f Ts) := by
  have hsome : ∃ n, List.Forall₂ (fun t T => s.formAt n t env = some T) ts Ts := by
    induction h with
    | nil => exact ⟨0, .nil⟩
    | cons ht _ ih =>
      obtain ⟨n, hn⟩ := ht
      obtain ⟨m, hm⟩ := ih
      refine ⟨max n m, .cons (formAt_mono hn (Nat.le_max_left n m)) (hm.imp fun _ _ hT => ?_)⟩
      exact formAt_mono hT (Nat.le_max_right n m)
  obtain ⟨n, hn⟩ := hsome
  exact ⟨n + 1, formAt_compound.2 ⟨Ts, hn, rfl⟩⟩

theorem leads (hlead : s.Leads c d) : s.HasForm c.term c.env T ↔ s.HasForm d.term d.env T := by
  obtain ⟨n, hn⟩ := hlead
  induction hn with
  | refl => exact Iff.rfl
  | step hv _ ih => rw [of_bound hv, ih]

/-- Forms are come to by following variables and going into arguments. -/
theorem induction {motive : (t : Term) → (env : EnvId) → (T : Form) → s.HasForm t env T → Prop}
    (bound : ∀ {v env c T} (hv : s.lookup v env = some c) (h : s.HasForm c.term c.env T), motive c.term c.env T h →
      motive (.var v) env T ((of_bound hv).2 h))
    (free : ∀ {v env} (hv : s.lookup v env = none), motive (.var v) env (.cell v env) ((of_unbound hv).2 rfl))
    (sym : ∀ a env, motive (.sym a) env (.sym a) (of_sym.2 rfl))
    (compound : ∀ f {ts env Ts} (h : List.Forall₂ (s.HasForm · env ·) ts Ts),
      List.Forall₂ (fun t T => ∃ h, motive t env T h) ts Ts →
      motive (.compound f ts) env (.compound f Ts) (HasForm.compound h))
    {t : Term} {env : EnvId} {T : Form} (h : s.HasForm t env T) : motive t env T h := by
  obtain ⟨n, hn⟩ := h
  induction n generalizing t env T with
  | zero => cases hn
  | succ n ih =>
    cases t with
    | var v =>
      cases hv : s.lookup v env with
      | some c =>
        simp only [formAt, hv] at hn
        exact bound hv ⟨n, hn⟩ (ih hn)
      | none =>
        simp only [formAt, hv, Option.some.injEq] at hn
        subst hn
        exact free hv
    | sym a =>
      cases hn
      exact sym a env
    | compound f ts =>
      obtain ⟨Ts, hTs, rfl⟩ := formAt_compound.1 hn
      exact compound f (hTs.imp fun _ _ hT => ⟨n, hT⟩) (hTs.imp fun _ _ hT => ⟨⟨n, hT⟩, ih hT⟩)

end HasForm

theorem exists_formAt_compound {f : String} :
    (∃ T, s.formAt (n + 1) (.compound f ts) env = some T) ↔ ∀ t ∈ ts, ∃ T, s.formAt n t env = some T := by
  rw [← exists_forall₂_iff]
  constructor
  · rintro ⟨T, hT⟩
    obtain ⟨Ts, hTs, -⟩ := formAt_compound.1 hT
    exact ⟨Ts, hTs⟩
  · rintro ⟨Ts, hTs⟩
    exact ⟨_, formAt_compound.2 ⟨Ts, hTs, rfl⟩⟩

/-- A term with a form has one in a store with fewer bindings as well. -/
theorem exists_formAt_of_below (hs : s.Below s') (h : ∃ T, s'.formAt n t env = some T) :
    ∃ T, s.formAt n t env = some T := by
  induction n generalizing t env with
  | zero => exact h
  | succ n ih =>
    cases t with
    | var v =>
      cases hv : s.lookup v env with
      | some c =>
        simp only [formAt, hs v env c hv, hv] at h ⊢
        exact ih h
      | none => exact ⟨.cell v env, by simp only [formAt, hv]⟩
    | sym a => exact ⟨.sym a, rfl⟩
    | compound f ts =>
      rw [exists_formAt_compound] at h ⊢
      exact fun t ht => ih (h t ht)

/-! ### Binding a variable -/

/-- A form in which a variable was not found is not changed by binding that variable. -/
theorem formAt_bind_of_not_occurs (hv : ev < s.envs.size)
    (hocc : s.occursWithin v ev m t env = some false) (h : s.formAt n t env = some T) :
    (s.bind v ev c).formAt n t env = some T := by
  induction n generalizing t env T m with
  | zero => cases h
  | succ n ih =>
    cases m with
    | zero => cases hocc
    | succ m =>
      cases t with
      | var w =>
        unfold occursWithin at hocc
        split at hocc
        · cases hocc
        · rename_i hw
          have hlook : (s.bind v ev c).lookup w env = s.lookup w env := by rw [lookup_bind hv, if_neg hw]
          cases hc : s.lookup w env with
          | some d =>
            simp only [formAt, hlook, hc] at h hocc ⊢
            exact ih hocc h
          | none =>
            simp only [formAt, hlook, hc] at h ⊢
            exact h
      | sym a => exact h
      | compound f args =>
        obtain ⟨Ts, hTs, rfl⟩ := formAt_compound.1 h
        refine formAt_compound.2 ⟨Ts, ?_, rfl⟩
        unfold occursWithin at hocc
        clear h
        induction hTs with
        | nil => exact .nil
        | cons ha _ ihargs =>
          unfold anyWithin at hocc
          split at hocc
          · rename_i hnot
            exact .cons (ih hnot ha) (ihargs hocc)
          · rename_i hne
            exact absurd hocc hne

/-- Binding a variable to a term whose form does not hold it replaces the variable in all forms. -/
theorem HasForm.bind (hfree : s.lookup v ev = none) (hv : ev < s.envs.size)
    (ht : (s.bind v ev ⟨t, env⟩).HasForm t env T) {env' : EnvId} (h : s.HasForm u env' U) :
    (s.bind v ev ⟨t, env⟩).HasForm u env' (U.subst (Form.single v ev T)) := by
  have hother {w : String} {e : EnvId} (hw : ¬ (w = v ∧ e = ev)) :
      (s.bind v ev ⟨t, env⟩).lookup w e = s.lookup w e := by rw [lookup_bind hv, if_neg hw]
  induction h using HasForm.induction with
  | @bound w env' c U hc _ ih =>
    refine (HasForm.of_bound ?_).2 ih
    rw [hother, hc]
    rintro ⟨rfl, rfl⟩
    rw [hfree] at hc
    cases hc
  | @free w env' hw =>
    rw [Form.subst, Form.single]
    by_cases hsame : w = v ∧ env' = ev
    · obtain ⟨rfl, rfl⟩ := hsame
      rw [if_pos ⟨rfl, rfl⟩]
      refine (HasForm.of_bound (c := ⟨t, env⟩) ?_).2 ht
      rw [lookup_bind hv, if_pos ⟨rfl, rfl⟩]
    · rw [if_neg hsame]
      exact (HasForm.of_unbound ((hother hsame).trans hw)).2 rfl
  | sym a env' => exact HasForm.of_sym.2 rfl
  | compound f h ih =>
    rw [Form.subst, Form.substList_eq]
    exact HasForm.compound (List.forall₂_map_right_iff.2 (ih.imp fun _ _ ⟨_, hU⟩ => hU))

/-- The value of an unbound variable that occurs in a term is smaller than that of its form, unless the term leads
to the variable. -/
theorem HasForm.leads_or_lt (θ : Valuation) (hfree : s.lookup v ev = none) (h : s.HasForm t env T)
    (hocc : s.occursWithin v ev m t env = some true) :
    s.Leads ⟨t, env⟩ ⟨.var v, ev⟩ ∨ sizeOf (θ v ev) < sizeOf (T.eval θ) := by
  induction m generalizing t env T with
  | zero => cases hocc
  | succ m ih =>
    cases t with
    | var w =>
      unfold occursWithin at hocc
      split at hocc
      · rename_i hw
        obtain ⟨rfl, rfl⟩ := hw
        exact Or.inl ⟨0, .refl _⟩
      · split at hocc
        · rename_i c hc
          rcases ih ((HasForm.of_bound hc).1 h) hocc with ⟨k, hk⟩ | hlt
          · exact Or.inl ⟨k + 1, .step hc hk⟩
          · exact Or.inr hlt
        · cases hocc
    | sym a => cases hocc
    | compound f args =>
      right
      obtain ⟨Ts, rfl, hTs⟩ := h.of_compound
      unfold occursWithin at hocc
      have hsome : ∃ A ∈ Ts, sizeOf (θ v ev) ≤ sizeOf (A.eval θ) := by
        clear h
        induction hTs with
        | nil => cases hocc
        | @cons a A args Ts hA _ ihargs =>
          unfold anyWithin at hocc
          split at hocc
          · obtain ⟨B, hB, hle⟩ := ihargs hocc
            exact ⟨B, List.mem_cons_of_mem _ hB, hle⟩
          · refine ⟨A, List.mem_cons_self, ?_⟩
            rcases ih hA hocc with hlead | hlt
            · have hcell := (HasForm.of_unbound hfree).1 ((HasForm.leads hlead).1 hA)
              rw [hcell]
              exact Nat.le_refl _
            · exact Nat.le_of_lt hlt
      obtain ⟨A, hA, hle⟩ := hsome
      exact Nat.lt_of_le_of_lt hle (Form.sizeOf_eval_lt hA θ)

end Store

end Deduction
