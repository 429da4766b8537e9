import Deduction.Proofs.Store.Following

/-!
# Open variables

The variables that are left open in the form of a term are unbound ones (`HasForm.lookup_eq_none`), and the term is ground
under the bindings exactly if there are none (`isGroundAt_of_formAt`). Terms have forms wherever bindings do not go round
(`Trailed.resolvable`).
-/

namespace Deduction

variable {x y : EnvId × String}

namespace Form

variable {σ τ : String → EnvId → Form} {θ η : Valuation} {f : String} {Ts : List Form}

mutual
/-- The open variables of a form. -/
def cells : Form → List (EnvId × String)
  | cell v env => [(env, v)]
  | sym _ => []
  | compound _ args => cellsList args

def cellsList : List Form → List (EnvId × String)
  | [] => []
  | T :: Ts => cells T ++ cellsList Ts
end

theorem cellsList_eq (Ts : List Form) : cellsList Ts = Ts.flatMap cells := by
  induction Ts with
  | nil => rfl
  | cons T Ts ih => rw [cellsList, ih, List.flatMap_cons]

@[simp] theorem mem_cells_cell {v : String} {env : EnvId} : x ∈ (cell v env).cells ↔ x = (env, v) := by
  rw [cells, List.mem_singleton]

theorem mem_cells_compound : x ∈ (compound f Ts).cells ↔ ∃ T ∈ Ts, x ∈ T.cells := by
  rw [cells, cellsList_eq, List.mem_flatMap]

mutual
/-- Only the open variables matter for the value of a form. -/
theorem eval_congr : (T : Form) → (∀ x ∈ T.cells, θ x.2 x.1 = η x.2 x.1) → T.eval θ = T.eval η
  | cell v env, h => h (env, v) (mem_cells_cell.2 rfl)
  | sym _, _ => rfl
  | compound f args, h => by
    rw [eval, eval, evalList_congr args fun T hT x hx => h x (mem_cells_compound.2 ⟨T, hT, hx⟩)]

theorem evalList_congr : (Ts : List Form) → (∀ T ∈ Ts, ∀ x ∈ T.cells, θ x.2 x.1 = η x.2 x.1) →
    evalList θ Ts = evalList η Ts
  | [], _ => rfl
  | T :: Ts, h => by
    rw [List.forall_mem_cons] at h
    rw [evalList, evalList, eval_congr T h.1, evalList_congr Ts h.2]
end

mutual
/-- Only the open variables are replaced. -/
theorem subst_congr : (T : Form) → (∀ x ∈ T.cells, σ x.2 x.1 = τ x.2 x.1) → T.subst σ = T.subst τ
  | cell v env, h => h (env, v) (mem_cells_cell.2 rfl)
  | sym _, _ => rfl
  | compound f args, h => by
    rw [subst, subst, substList_congr args fun T hT x hx => h x (mem_cells_compound.2 ⟨T, hT, hx⟩)]

theorem substList_congr : (Ts : List Form) → (∀ T ∈ Ts, ∀ x ∈ T.cells, σ x.2 x.1 = τ x.2 x.1) →
    substList σ Ts = substList τ Ts
  | [], _ => rfl
  | T :: Ts, h => by
    rw [List.forall_mem_cons] at h
    rw [substList, substList, subst_congr T h.1, substList_congr Ts h.2]
end

mutual
theorem mem_cells_subst : (T : Form) → x ∈ T.cells → y ∈ (σ x.2 x.1).cells → y ∈ (T.subst σ).cells
  | cell v env, hx, hy => by
    rw [mem_cells_cell.1 hx] at hy
    exact hy
  | sym _, hx, _ => by cases hx
  | compound f args, hx, hy => by
    rw [cells] at hx
    rw [subst, cells]
    exact mem_cellsList_subst args hx hy

theorem mem_cellsList_subst : (Ts : List Form) → x ∈ cellsList Ts → y ∈ (σ x.2 x.1).cells → y ∈ cellsList (substList σ Ts)
  | [], hx, _ => by cases hx
  | T :: Ts, hx, hy => by
    rw [substList, cellsList, List.mem_append]
    exact (List.mem_append.1 hx).imp (mem_cells_subst T · hy) (mem_cellsList_subst Ts · hy)
end

mutual
/-- With variables for its open variables, the value of a form is ground exactly if there are none. -/
theorem isGround_eval (name : String → EnvId → String) :
    (T : Form) → ((T.eval fun v env => .var (name v env)).isGround = true ↔ T.cells = [])
  | cell v env => by simp [eval, Term.isGround, cells]
  | sym a => by simp [eval, Term.isGround, cells]
  | compound f args => by
    rw [eval, Term.isGround, cells]
    exact allGround_evalList name args

theorem allGround_evalList (name : String → EnvId → String) :
    (Ts : List Form) → (Term.allGround (evalList (fun v env => .var (name v env)) Ts) = true ↔ cellsList Ts = [])
  | [] => by simp [evalList, cellsList]
  | T :: Ts => by
    rw [evalList, Term.allGround, cellsList, Bool.and_eq_true, List.append_eq_nil_iff, isGround_eval name T,
      allGround_evalList name Ts]
end

end Form

namespace Store

variable {s s' : Store} {v w : String} {env target : EnvId} {c d : Closure} {t : Term} {T U : Form} {n m : Nat}

/-- An open variable is unbound, and belongs to every set of closures that holds the term and that arguments and values do
not lead out of. -/
theorem HasForm.of_mem_cells {G : Term → EnvId → Prop} (arg : ∀ {f ts env t}, G (.compound f ts) env → t ∈ ts → G t env)
    (value : ∀ {v env c}, G (.var v) env → s.lookup v env = some c → G c.term c.env) (h : s.HasForm t env T)
    (ht : G t env) (hx : x ∈ T.cells) : G (.var x.2) x.1 ∧ s.lookup x.2 x.1 = none := by
  induction h using HasForm.induction with
  | bound hv _ ih => exact ih (value ht hv) hx
  | free hv =>
    rw [Form.mem_cells_cell.1 hx]
    exact ⟨ht, hv⟩
  | sym a env => cases hx
  | compound f _ ih =>
    obtain ⟨U, hU, hx⟩ := Form.mem_cells_compound.1 hx
    obtain ⟨u, hu, -, ih⟩ := exists_left_of_forall₂ ih hU
    exact ih (arg ht hu) hx

theorem HasForm.lookup_eq_none (h : s.HasForm t env T) (hx : x ∈ T.cells) : s.lookup x.2 x.1 = none :=
  (h.of_mem_cells (G := fun _ _ => True) (fun _ _ => trivial) (fun _ _ => trivial) trivial hx).2

/-- Where values are read in environments of the store, open variables belong to such environments. -/
theorem HasForm.env_lt (h : s.HasForm t env T) (hs : s.WellFormed) (henv : env < s.envs.size) (hx : x ∈ T.cells) :
    x.1 < s.envs.size :=
  (h.of_mem_cells (G := fun _ env => env < s.envs.size) (fun henv _ => henv) (fun _ hv => hs.closed hv) henv hx).1

/-! ### Ground terms -/

/-- Following variables from a term with a form comes to an end. -/
theorem HasForm.exists_end (h : s.HasForm t env T) : ∃ d, s.Leads ⟨t, env⟩ d ∧ ¬ s.IsBound d := by
  induction h using HasForm.induction with
  | bound hv _ ih =>
    obtain ⟨d, ⟨n, hn⟩, hd⟩ := ih
    exact ⟨d, ⟨n + 1, .step hv hn⟩, hd⟩
  | free hv =>
    refine ⟨_, ⟨0, .refl _⟩, fun hbound => ?_⟩
    obtain ⟨d, hd⟩ := isBound_var.1 hbound
    rw [hv] at hd
    cases hd
  | sym a env => exact ⟨_, ⟨0, .refl _⟩, fun ⟨v, d, hv, _⟩ => by cases hv⟩
  | compound f _ _ => exact ⟨_, ⟨0, .refl _⟩, fun ⟨v, d, hv, _⟩ => by cases hv⟩

theorem Trailed.resolve_of_bound (hs : s.Trailed) (hv : s.lookup v env = some c) (h : s.HasForm c.term c.env T) :
    s.resolve (.var v) env = s.resolve c.term c.env := by
  obtain ⟨d, ⟨n, hn⟩, hd⟩ := h.exists_end
  have hvar : s.Leads ⟨.var v, env⟩ d := ⟨n + 1, .step hv hn⟩
  rw [hs.resolve_eq ⟨n, hn⟩ hd, hs.resolve_eq hvar hd]

/-- Levels that suffice for the form of a term suffice to find out whether it is ground. -/
theorem isGroundAt_of_formAt (hs : s.Trailed) (h : s.formAt n t env = some T) (hnm : n ≤ m) :
    s.isGroundAt m t env = true ↔ T.cells = [] := by
  induction n generalizing m t env T with
  | zero => cases h
  | succ n ih =>
    obtain ⟨m, rfl⟩ : ∃ k, m = k + 1 := ⟨m - 1, by omega⟩
    cases t with
    | var v =>
      cases hv : s.lookup v env with
      | some c =>
        simp only [formAt, hv] at h
        -- The link takes a level of the form, but none of the search for variables.
        rw [← ih h (by omega : n ≤ m + 1), isGroundAt, isGroundAt, hs.resolve_of_bound hv ⟨n, h⟩]
      | none =>
        simp only [formAt, hv, Option.some.injEq] at h
        rw [← h, isGroundAt, resolve_of_unbound hv]
        simp [Form.cells]
    | sym a =>
      cases h
      rw [isGroundAt, resolve_sym]
      simp [Form.cells]
    | compound f args =>
      obtain ⟨Ts, hTs, rfl⟩ := formAt_compound.1 h
      rw [isGroundAt, resolve_compound, Form.cells, Form.cellsList_eq]
      clear h
      induction hTs with
      | nil => simp
      | cons ha _ ihargs =>
        have hhead := ih ha (Nat.le_of_succ_le_succ hnm)
        simp only [List.all_cons, Bool.and_eq_true, List.flatMap_cons, List.append_eq_nil_iff] at ihargs ⊢
        rw [hhead, ihargs]

/-! ### Stores without cycles -/

/-- Where bindings do not go round, every term has a form. -/
theorem Trailed.resolvable (hs : s.Trailed) (hac : s.Acyclic Closure.Holds) : s.Resolvable := by
  -- By induction along the bindings: the variables of a value have forms, and so the value has one.
  have hvar (x : EnvId × String) (hx : x ∈ s.trail.toList) : ∃ T, s.HasForm (.var x.2) x.1 T := by
    refine hac.wellFoundedOn_trail.induction (P := fun x => ∃ T, s.HasForm (.var x.2) x.1 T) hx fun y _ ih => ?_
    cases hv : s.lookup y.2 y.1 with
    | none => exact ⟨_, (HasForm.of_unbound hv).2 rfl⟩
    | some c =>
      have hvars (w : String) (hw : w ∈ c.term.vars) : ∃ T, s.HasForm (.var w) c.env T := by
        cases hc : s.lookup w c.env with
        | none => exact ⟨_, (HasForm.of_unbound hc).2 rfl⟩
        | some d => exact ih (c.env, w) (hs w c.env d hc) (.single ⟨c, hv, hw, rfl⟩)
      obtain ⟨T, hT⟩ := form_of_vars c.term hvars
      exact ⟨T, (HasForm.of_bound hv).2 hT⟩
  refine resolvable_of_vars fun v env => ?_
  cases hv : s.lookup v env with
  | none => exact ⟨_, (HasForm.of_unbound hv).2 rfl⟩
  | some c => exact hvar (env, v) (hs v env c hv)

end Store

end Deduction
