import Deduction.Proofs.Pointwise
import Deduction.Proofs.Store.Valuation
import Deduction.Proofs.Theory.Index

/-!
# Lookups lose nothing that fits

A ground term fits a goal if it has the symbols of the goal where these are settled by the bindings. Whatever the goal
can be made equal to fits it (`unify_fits`, `Valuation.Respects.fits`), and every term that fits is among those that a
lookup of the goal gives, whatever the mode of the index (`Theory.admits_of_fits`).
-/

namespace Deduction

/-! ### Symbols of a term -/

namespace Term

mutual
theorem symbolsThen_eq : (t : Term) → (rest : List String) → t.symbolsThen rest = t.symbols ++ rest
  | var _, _ => rfl
  | sym _, _ => rfl
  | compound f args, rest => by
    unfold symbols
    rw [symbolsThen, symbolsThen, symbolsThenList_eq args rest, symbolsThenList_eq args [], List.append_nil]
    rfl

theorem symbolsThenList_eq : (ts : List Term) → (rest : List String) →
    symbolsThenList ts rest = ts.flatMap symbols ++ rest
  | [], _ => rfl
  | t :: ts, rest => by
    rw [symbolsThenList, symbolsThen_eq t, symbolsThenList_eq ts rest, List.flatMap_cons, List.append_assoc]
end

@[simp] theorem symbols_sym (a : String) : (sym a).symbols = [a] := rfl

@[simp] theorem symbols_compound (f : String) (args : List Term) :
    (compound f args).symbols = f :: args.flatMap symbols := by
  unfold symbols
  rw [symbolsThen, symbolsThenList_eq, List.append_nil]
  rfl

end Term

namespace Store

variable {s s₀ s' : Store} {goal t : Term} {env cenv ex : EnvId} {n m : Nat}

/-! ### Terms that fit a goal -/

/-- Down to so many levels, the term has the symbols of the goal where these are settled by the bindings. -/
def fitsAt (s : Store) : Nat → Term → EnvId → Term → Prop
  | 0, _, _, _ => True
  | n + 1, goal, env, t =>
    match s.resolve goal env with
    | ⟨.var _, _⟩ => True
    | ⟨.sym a, _⟩ => t = .sym a
    | ⟨.compound f args, env⟩ => ∃ ts, t = .compound f ts ∧ List.Forall₂ (s.fitsAt n · env ·) args ts

/-- The term has the symbols of the goal where these are settled by the bindings. -/
def Fits (s : Store) (goal : Term) (env : EnvId) (t : Term) : Prop := ∀ n, s.fitsAt n goal env t

theorem fitsAt_succ_sym {a : String} (hr : s.resolve goal env = ⟨.sym a, cenv⟩) :
    s.fitsAt (n + 1) goal env t ↔ t = .sym a := by
  rw [fitsAt, hr]

theorem fitsAt_succ_compound {f : String} {args : List Term} (hr : s.resolve goal env = ⟨.compound f args, cenv⟩) :
    s.fitsAt (n + 1) goal env t ↔ ∃ ts, t = .compound f ts ∧ List.Forall₂ (s.fitsAt n · cenv ·) args ts := by
  rw [fitsAt, hr]

/-- A term that fits has the functor that the goal has. -/
theorem fitsAt_functor {f : String} (h : s.fitsAt (n + 1) goal env t)
    (hf : (s.resolve goal env).term.functor? = some f) : t.functor? = some f := by
  generalize hr : s.resolve goal env = r at hf
  obtain ⟨u, env'⟩ := r
  cases u with
  | var v => cases hf
  | sym a =>
    rw [(fitsAt_succ_sym hr).1 h]
    exact hf
  | compound g args =>
    obtain ⟨ts, rfl, -⟩ := (fitsAt_succ_compound hr).1 h
    exact hf

/-- All settled symbols of the goal are symbols of a term that fits. -/
theorem mem_symbols_of_fitsAt {a : String} {rest : List String} (h : s.fitsAt n goal env t)
    (ha : a ∈ Theory.boundSymbolsAt s n goal env rest) : a ∈ rest ∨ a ∈ t.symbols := by
  induction n generalizing goal env t rest with
  | zero => exact Or.inl ha
  | succ n ih =>
    unfold Theory.boundSymbolsAt at ha
    generalize hr : s.resolve goal env = r at ha
    obtain ⟨u, env'⟩ := r
    cases u with
    | var v => exact Or.inl ha
    | sym b =>
      rw [(fitsAt_succ_sym hr).1 h]
      rcases List.mem_cons.1 ha with rfl | ha
      · simp
      · exact Or.inl ha
    | compound f args =>
      obtain ⟨ts, rfl, hts⟩ := (fitsAt_succ_compound hr).1 h
      rw [Term.symbols_compound]
      rcases List.mem_cons.1 ha with rfl | hargs
      · exact Or.inr List.mem_cons_self
      · suffices h' : a ∈ rest ∨ a ∈ ts.flatMap Term.symbols from h'.imp_right (List.mem_cons_of_mem f)
        clear h hr ha
        induction hts with
        | nil => exact Or.inl hargs
        | cons hx _ ihargs =>
          rw [List.flatMap_cons, List.mem_append]
          rcases ih hx hargs with hrest | hsymbol
          · exact (ihargs hrest).imp_right Or.inr
          · exact Or.inr (Or.inl hsymbol)

/-- If the goal is a rule whose head has a functor, the head of a rule that fits has the same functor. -/
theorem functor_headOrSelf {f : String} (h : s.fitsAt (n + 2) goal env t)
    (hf : (s.resolve goal env).term.headOrSelf.functor? = some f) : t.headOrSelf.functor? = some f := by
  generalize hr : s.resolve goal env = r at hf
  obtain ⟨u, env'⟩ := r
  cases u with
  | var v => cases hf
  | sym a =>
    rw [(fitsAt_succ_sym hr).1 h]
    exact hf
  | compound g args =>
    obtain ⟨ts, rfl, hts⟩ := (fitsAt_succ_compound hr).1 h
    cases hts with
    | nil => exact hf
    | @cons u x _ _ hx _ =>
      unfold Term.headOrSelf Term.asRule at hf ⊢
      by_cases hrule : g = "rule"
      · simp only [if_pos hrule] at hf ⊢
        apply fitsAt_functor hx
        cases u with
        | var v => cases hf
        | sym a => rwa [resolve_sym]
        | compound k us => rwa [resolve_compound]
      · simp only [if_neg hrule] at hf ⊢
        exact hf

/-! ### What a goal can be made equal to -/

theorem unifyAt_leads {c d : Closure} (hlead : s₀.Leads c d) (hd : ∀ v, d.term ≠ .var v) (hbelow : s₀.Below s)
    (ht : t.isGround = true) (h : unifyAt n c.term c.env t cenv s = (true, s')) :
    ∃ k, unifyAt k d.term d.env t cenv s = (true, s') := by
  obtain ⟨m, hm⟩ := hlead
  induction hm generalizing n with
  | refl => exact ⟨n, h⟩
  | @step m v env c d hv _ ih =>
    cases n with
    | zero => cases h
    | succ n =>
      unfold unifyAt unifyVar at h
      have hne : ¬ ((decide (t = .var v) && decide (cenv = env)) = true) := by
        rw [Bool.and_eq_true, decide_eq_true_iff]
        rintro ⟨rfl, -⟩
        cases ht
      rw [if_neg hne, hbelow v env c hv] at h
      exact ih hd h

/-- Where the bindings settle that the goal is a symbol, only the symbol can be made equal to it. -/
theorem unifyAt_sym {a : String} (hr : s₀.resolve goal env = ⟨.sym a, ex⟩) (hbelow : s₀.Below s)
    (ht : t.isGround = true) (h : unifyAt n goal env t cenv s = (true, s')) : t = .sym a := by
  obtain ⟨k, hk⟩ := unifyAt_leads (hr ▸ leads_resolve s₀ goal env) (fun v => by simp) hbelow ht h
  cases k with
  | zero => cases hk
  | succ k =>
    cases t with
    | var w => cases ht
    | sym b => rw [beq_iff_eq.1 (Prod.mk.inj hk).1]
    | compound g ts => cases hk

/-- Where the bindings settle that the goal is a compound, only compounds with arguments that can be made equal to its own
can be made equal to it. -/
theorem unifyAt_compound {f : String} {args : List Term} (hr : s₀.resolve goal env = ⟨.compound f args, ex⟩)
    (hbelow : s₀.Below s) (ht : t.isGround = true) (h : unifyAt n goal env t cenv s = (true, s')) :
    ∃ ts k, t = .compound f ts ∧ (∀ u ∈ ts, u.isGround = true) ∧
      allPairs (fun x y => unifyAt k x ex y cenv) args ts s = (true, s') := by
  obtain ⟨k, hk⟩ := unifyAt_leads (hr ▸ leads_resolve s₀ goal env) (fun v => by simp) hbelow ht h
  cases k with
  | zero => cases hk
  | succ k =>
    cases t with
    | var w => cases ht
    | sym b => cases hk
    | compound g ts =>
      unfold unifyAt at hk
      split at hk
      · rename_i hfg
        rw [Term.isGround, Term.allGround_eq, List.all_eq_true] at ht
        exact ⟨ts, k, by rw [hfg], ht, hk⟩
      · cases hk

/-- What holds of all terms and ground terms that are made equal holds of the arguments of such terms, pair by pair. -/
theorem forall₂_of_allPairs {R : Term → Term → Prop} {xs ys : List Term} {ey : EnvId}
    (h : ∀ x y s s', s₀.Below s → y.isGround = true → unifyAt n x ex y ey s = (true, s') → R x y)
    (hbelow : s₀.Below s) (hys : ∀ y ∈ ys, y.isGround = true)
    (hr : allPairs (fun x y => unifyAt n x ex y ey) xs ys s = (true, s')) : List.Forall₂ R xs ys := by
  induction xs generalizing ys s with
  | nil =>
    cases ys with
    | nil => exact .nil
    | cons y ys => cases hr
  | cons x xs ih =>
    cases ys with
    | nil => cases hr
    | cons y ys =>
      unfold allPairs at hr
      split at hr
      · rename_i s₁ hs₁
        have hext := unifyAt_extends n x ex y ey s
        rw [hs₁] at hext
        refine .cons (h x y s s₁ hbelow (hys y List.mem_cons_self) hs₁) ?_
        exact ih (hbelow.trans hext.isBelow) (fun y hy => hys y (List.mem_cons_of_mem _ hy)) hr
      · rename_i hne
        exact absurd hr (hne s')

theorem unifyAt_fitsAt (hbelow : s₀.Below s) (ht : t.isGround = true)
    (h : unifyAt n goal env t cenv s = (true, s')) : s₀.fitsAt m goal env t := by
  induction m generalizing n goal env t s s' with
  | zero => trivial
  | succ m ih =>
    generalize hr : s₀.resolve goal env = r
    obtain ⟨u, env'⟩ := r
    cases u with
    | var v => rw [fitsAt, hr]; trivial
    | sym a => exact (fitsAt_succ_sym hr).2 (unifyAt_sym hr hbelow ht h)
    | compound f args =>
      obtain ⟨ts, k, rfl, hts, hargs⟩ := unifyAt_compound hr hbelow ht h
      exact (fitsAt_succ_compound hr).2
        ⟨ts, rfl, forall₂_of_allPairs (fun x y s s' hb hy hxy => ih hb hy hxy) hbelow hts hargs⟩

/-- A ground term that a goal can be made equal to fits the goal; further bindings may have been made by then. -/
theorem unify_fits (hbelow : s₀.Below s) (ht : t.isGround = true) (h : s.unify goal env t cenv = (true, s')) :
    s₀.Fits goal env t := fun _ => unifyAt_fitsAt hbelow ht (unify_eq_true_iff.1 h)

end Store

/-- The value of a goal fits it. -/
theorem Valuation.Respects.fits {θ : Valuation} {s : Store} (h : θ.Respects s) (goal : Term) (env : EnvId) :
    s.Fits goal env (θ.read env goal) := by
  intro n
  induction n generalizing goal env with
  | zero => trivial
  | succ n ih =>
    have hread := h.leads (s.leads_resolve goal env)
    generalize hr : s.resolve goal env = r at hread
    obtain ⟨u, env'⟩ := r
    cases u with
    | var v => rw [Store.fitsAt, hr]; trivial
    | sym a => exact (Store.fitsAt_succ_sym hr).2 hread
    | compound f args =>
      rw [Store.fitsAt_succ_compound hr]
      refine ⟨args.map (θ.read env'), by rw [hread, read_compound], ?_⟩
      rw [List.forall₂_map_right_iff, List.forall₂_same]
      intro a _
      exact ih a env'

/-! ### Terms that are looked up -/

/-- Every term that fits the goal is among those that a lookup of it gives. -/
theorem Theory.admits_of_fits (th : Theory) {s : Store} {goal t : Term} {env : EnvId} (h : s.Fits goal env t) :
    th.admits (th.queryKeyIn s goal env) t = true := by
  rw [queryKeyIn_eq]
  refine Covers.admits ⟨fun a ha => ?_, fun f hf => ?_, fun f hf => ?_⟩ th
  · rcases Store.mem_symbols_of_fitsAt (h allowance) ha with hnil | hsymbol
    · cases hnil
    · exact hsymbol
  · exact Store.fitsAt_functor (h 1) hf
  · exact Store.functor_headOrSelf (h 2) hf

/-- A lookup gives every term that fits the goal. -/
theorem Theory.mem_lookupIn_of_fits {th : Theory} (hth : th.Indexed) {s : Store} {goal t : Term} {env : EnvId}
    (ht : t ∈ th.toList) (h : s.Fits goal env t) : t ∈ th.lookupIn s goal env := by
  rw [lookupIn_eq hth, List.mem_filter]
  exact ⟨ht, th.admits_of_fits h⟩

end Deduction
