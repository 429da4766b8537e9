import Deduction.Proofs.Search.Language

/-!
# Computations that agree

Two computations agree if their results are related whenever both end before the limit is reached. What they have
counted and reported may differ. Meters only count up, so a computation that ends before the limit was before it all
the time: computations agree if they are put together from parts that do (`Agree.bind`), even if they look at the
meter on the way (`Agree.unlessSpent`).
-/

namespace Deduction

variable {α β γ δ : Type} {limit : Nat}

/-- The results of the computations are related if both end before the limit. -/
def Agree (limit : Nat) (R : α → β → Prop) (x : Metered α) (y : Metered β) : Prop :=
  ∀ ⦃m n a b m' n'⦄, x.run m = .ok (a, m') → y.run n = .ok (b, n') → m'.spent < limit → n'.spent < limit → R a b

section

variable {R R' : α → β → Prop} {S : γ → δ → Prop} {x : Metered α} {y : Metered β} {f : α → Metered γ}
  {g : β → Metered δ}

theorem Agree.imp (h : Agree limit R x y) (hR : ∀ a b, R a b → R' a b) : Agree limit R' x y :=
  fun _ _ _ _ _ _ hx hy hm hn => hR _ _ (h hx hy hm hn)

/-- What every result of one computation is like. -/
theorem Agree.and {P : α → Prop} (h : Agree limit R x y) (hx : Ensures x P) : Agree limit (fun a b => R a b ∧ P a) x y :=
  fun _ _ _ _ _ _ hrun hrun' hm hn => ⟨h hrun hrun' hm hn, hx hrun⟩

/-- Computations agree if any results that they can have are related. -/
theorem agree_of_ensures {P : α → Prop} {Q : β → Prop} (hx : Ensures x P) (hy : Ensures y Q)
    (hR : ∀ a b, P a → Q b → R a b) : Agree limit R x y :=
  fun _ _ _ _ _ _ hrun hrun' _ _ => hR _ _ (hx hrun) (hy hrun')

theorem agree_pure {a : α} {b : β} (h : R a b) : Agree limit R (pure a) (pure b) := by
  intro m n a' b' m' n' hx hy _ _
  obtain ⟨rfl, -⟩ := Metered.run_pure_eq_ok.1 hx
  obtain ⟨rfl, -⟩ := Metered.run_pure_eq_ok.1 hy
  exact h

theorem agree_throw_left (e : Interruption) (y : Metered β) : Agree limit R (throw e) y := by
  intro m n a b m' n' hx
  cases hx

theorem agree_throw_right (x : Metered α) (e : Interruption) : Agree limit R x (throw e) := by
  intro m n a b m' n' _ hy
  cases hy

theorem agree_throw (e : Interruption) : Agree limit R (throw e) (throw e) := agree_throw_left e _

/-- What follows a computation goes by the results before it. -/
theorem Agree.bind (h : Agree limit R x y) (hf : ∀ a, Counts (f a)) (hg : ∀ b, Counts (g b))
    (hfg : ∀ a b, R a b → Agree limit S (f a) (g b)) : Agree limit S (x >>= f) (y >>= g) := by
  intro m n c d m' n' hx hy hm hn
  obtain ⟨a, m₁, hx, hfa⟩ := Metered.run_bind_eq_ok.1 hx
  obtain ⟨b, n₁, hy, hgb⟩ := Metered.run_bind_eq_ok.1 hy
  have hm₁ := Nat.lt_of_le_of_lt (hf a hfa) hm
  have hn₁ := Nat.lt_of_le_of_lt (hg b hgb) hn
  exact hfg a b (h hx hy hm₁ hn₁) hfa hgb hm hn

/-- What the first computation does before does not matter, whatever comes of it. -/
theorem Agree.bind_left {P : α → Prop} {z : Metered δ} (hx : Ensures x P) (h : ∀ a, P a → Agree limit S (f a) z) :
    Agree limit S (x >>= f) z := by
  intro m n c d m' n' hfx hz hm hn
  obtain ⟨a, m₁, hrun, hfa⟩ := Metered.run_bind_eq_ok.1 hfx
  exact h a (hx hrun) hfa hz hm hn

/-- Counting and reporting make no difference. -/
theorem Agree.tick {x y : Metered Unit} {f : Metered γ} {g : Metered δ} (h : Agree limit S f g) :
    Agree limit S (x >>= fun _ => f) (y >>= fun _ => g) := by
  intro m n c d m' n' hx hy hm hn
  obtain ⟨-, m₁, -, hf⟩ := Metered.run_bind_eq_ok.1 hx
  obtain ⟨-, n₁, -, hg⟩ := Metered.run_bind_eq_ok.1 hy
  exact h hf hg hm hn

theorem Agree.tick_left {x : Metered Unit} {f : Metered γ} {g : Metered δ} (h : Agree limit S f g) :
    Agree limit S (x >>= fun _ => f) g := .bind_left (Ensures.any x) fun _ _ => h

theorem Agree.tick_right {y : Metered Unit} {f : Metered γ} {g : Metered δ} (h : Agree limit S f g) :
    Agree limit S f (y >>= fun _ => g) := by
  intro m n c d m' n' hf hy hm hn
  obtain ⟨-, n₁, -, hg⟩ := Metered.run_bind_eq_ok.1 hy
  exact h hf hg hm hn

/-- What is done once the limit is reached does not matter, as long as it counts nothing down. -/
theorem Agree.unlessSpent {config : Config} {c c' : Metered α} {d d' : Metered β} (hc : Counts c) (hd : Counts d)
    (h : Agree config.limit R c' d') :
    Agree config.limit R (Meter.isSpent config >>= fun spent => if spent = true then c else c')
      (Meter.isSpent config >>= fun spent => if spent = true then d else d') := by
  intro m n a b m' n' hx hy hm hn
  obtain ⟨spent, m₁, hspent, hx⟩ := Metered.run_bind_eq_ok.1 hx
  obtain ⟨spent', n₁, hspent', hy⟩ := Metered.run_bind_eq_ok.1 hy
  cases hspent
  cases hspent'
  split at hx
  · rename_i hle
    have := hc hx
    simp only [decide_eq_true_iff] at hle
    omega
  · split at hy
    · rename_i hle
      have := hd hy
      simp only [decide_eq_true_iff] at hle
      omega
    · exact h hx hy hm hn

/-- The same if only the first computation looks at the meter. -/
theorem Agree.unlessSpent_left {config : Config} {c c' : Metered α} (hc : Counts c) (h : Agree config.limit R c' y) :
    Agree config.limit R (Meter.isSpent config >>= fun spent => if spent = true then c else c') y := by
  intro m n a b m' n' hx hy hm hn
  obtain ⟨spent, m₁, hspent, hx⟩ := Metered.run_bind_eq_ok.1 hx
  cases hspent
  split at hx
  · rename_i hle
    have := hc hx
    simp only [decide_eq_true_iff] at hle
    omega
  · exact h hx hy hm hn

end

/-! ### Computations that may have no result -/

/-- The computations have the same results, or none, if both end before the limit. -/
def AgreeOption (limit : Nat) (x y : OptionT Metered α) : Prop := Agree limit Eq x.run y.run

namespace AgreeOption

theorem pure (a : α) : AgreeOption limit (Pure.pure a) (Pure.pure a) := agree_pure rfl

theorem failure : AgreeOption limit (failure : OptionT Metered α) failure := agree_pure rfl

theorem getM (a : Option α) : AgreeOption limit (a.getM : OptionT Metered α) a.getM := by
  cases a with
  | none => exact failure
  | some a => exact pure a

theorem lift {x y : Metered α} (h : Agree limit Eq x y) :
    AgreeOption limit (liftM x : OptionT Metered α) (liftM y) := by
  refine Agree.bind (f := fun a => Pure.pure (some a)) (g := fun a => Pure.pure (some a)) h (fun a => counts_pure _)
    (fun a => counts_pure _) fun a b hab => ?_
  rw [hab]
  exact agree_pure rfl

theorem bind {R : α → Prop} {x y : OptionT Metered α} {f g : α → OptionT Metered β} (h : AgreeOption limit x y)
    (hx : EnsuresOption x R) (hf : ∀ a, CountsOption (f a)) (hg : ∀ a, CountsOption (g a))
    (hfg : ∀ a, R a → AgreeOption limit (f a) (g a)) : AgreeOption limit (x >>= f) (y >>= g) := by
  unfold AgreeOption
  rw [OptionT.run_bind, OptionT.run_bind]
  refine Agree.bind (Agree.and h hx) (fun a => ?_) (fun a => ?_) fun a b hab => ?_
  · cases a with
    | none => exact counts_pure none
    | some a => exact hf a
  · cases a with
    | none => exact counts_pure none
    | some a => exact hg a
  · obtain ⟨rfl, ha⟩ := hab
    cases a with
    | none => exact agree_pure rfl
    | some a => exact hfg a (ha a rfl)

/-- Nothing has to be known of the result if it is all there is. -/
theorem bind_pure {x y : OptionT Metered α} (h : AgreeOption limit x y) (f : α → β) :
    AgreeOption limit (x >>= fun a => Pure.pure (f a)) (y >>= fun a => Pure.pure (f a)) :=
  h.bind (EnsuresOption.any x) (fun _ => .pure _) (fun _ => .pure _) fun _ _ => pure _

theorem bind_getM {R : α → Prop} {f g : α → OptionT Metered β} {a : Option α} (ha : ∀ b ∈ a, R b)
    (h : ∀ a, R a → AgreeOption limit (f a) (g a)) : AgreeOption limit (a.getM >>= f) (a.getM >>= g) := by
  cases a with
  | none => exact failure
  | some a => exact h a (ha a rfl)

theorem tick {x y : Metered Unit} {f g : OptionT Metered β} (h : AgreeOption limit f g) :
    AgreeOption limit (liftM x >>= fun _ => f) (liftM y >>= fun _ => g) := by
  have hrun (z : Metered Unit) (k : OptionT Metered β) :
      ((liftM z : OptionT Metered Unit) >>= fun _ => k).run = z >>= fun _ => k.run := by
    have hlift : (liftM z : OptionT Metered Unit).run = some <$> z := rfl
    rw [OptionT.run_bind, Option.elimM, hlift, bind_map_left]
    rfl
  unfold AgreeOption
  rw [hrun, hrun]
  exact Agree.tick h

theorem mapM {f g : α → OptionT Metered β} (hf : ∀ a, CountsOption (f a)) (hg : ∀ a, CountsOption (g a)) {as : List α}
    (hfg : ∀ a ∈ as, AgreeOption limit (f a) (g a)) : AgreeOption limit (as.mapM f) (as.mapM g) := by
  induction as with
  | nil => exact pure []
  | cons a as ih =>
    rw [List.forall_mem_cons] at hfg
    rw [List.mapM_cons, List.mapM_cons]
    refine hfg.1.bind (EnsuresOption.any _) (fun b => ?_) (fun b => ?_) fun b _ => (ih hfg.2).bind_pure (b :: ·)
    · exact (CountsOption.mapM hf as).bind fun bs => .pure _
    · exact (CountsOption.mapM hg as).bind fun bs => .pure _

/-- Once the limit is reached there is no value. -/
theorem unlessSpent {config : Config} {x y : OptionT Metered α} (h : AgreeOption config.limit x y) :
    AgreeOption config.limit (liftM (Meter.isSpent config) >>= fun spent => if spent = true then Alternative.failure else x)
      (liftM (Meter.isSpent config) >>= fun spent => if spent = true then Alternative.failure else y) := by
  have hrun (z : OptionT Metered α) :
      ((liftM (Meter.isSpent config) : OptionT Metered Bool) >>= fun spent =>
          if spent = true then Alternative.failure else z).run =
        Meter.isSpent config >>= fun spent => if spent = true then Pure.pure none else z.run := by
    have hlift : (liftM (Meter.isSpent config) : OptionT Metered Bool).run = some <$> Meter.isSpent config := rfl
    rw [OptionT.run_bind, Option.elimM, hlift, bind_map_left]
    apply bind_congr
    intro spent
    cases spent <;> rfl
  unfold AgreeOption
  rw [hrun, hrun]
  exact Agree.unlessSpent (counts_pure none) (counts_pure none) h

end AgreeOption

/-! ### Computations in a workspace -/

theorem agree_of_quiet {x : Selecting α} (hx : Quiet x) (w : Workspace) :
    Agree limit (fun r r' => r = r' ∧ w.store.Grows r.2.store) (x.run.run w) (x.run.run w) := by
  obtain ⟨r, hr, hgrows⟩ := hx w
  rw [hr]
  exact agree_pure ⟨rfl, hgrows⟩

/-- In a store without the words the computations have the same outcomes if both end before the limit, and the store can
be taken back. -/
def AgreeIn (words : List String) (limit : Nat) (x y : Selecting α) : Prop :=
  ∀ w : Workspace, w.store.Avoids words →
    Agree limit (fun r r' => r = r' ∧ w.store.Grows r.2.store) (x.run.run w) (y.run.run w)

namespace AgreeIn

variable {words : List String}

theorem of_quiet {x : Selecting α} (hx : Quiet x) : AgreeIn words limit x x := fun w _ => agree_of_quiet hx w

theorem lift {x y : Metered α} (h : Agree limit Eq x y) : AgreeIn words limit (liftM x : Selecting α) (liftM y) := by
  intro w _
  rw [Selecting.run_liftM, Selecting.run_liftM]
  refine Agree.bind h (fun a => counts_pure _) (fun a => counts_pure _) fun a b hab => ?_
  rw [hab]
  exact agree_pure ⟨rfl, .refl _⟩

/-- What follows a computation goes by its outcome. -/
private theorem bind_at {P : Option α × Workspace → Prop} {x y : Selecting α} {f g : α → Selecting β} {w : Workspace}
    (h : Agree limit (fun r r' => (r = r' ∧ w.store.Grows r.2.store) ∧ P r) (x.run.run w) (y.run.run w))
    (hf : ∀ a, CountsIn (f a)) (hg : ∀ a, CountsIn (g a))
    (hfg : ∀ a w₁, P (some a, w₁) →
      Agree limit (fun r r' => r = r' ∧ w₁.store.Grows r.2.store) ((f a).run.run w₁) ((g a).run.run w₁)) :
    Agree limit (fun r r' => r = r' ∧ w.store.Grows r.2.store) ((x >>= f).run.run w) ((y >>= g).run.run w) := by
  rw [OptionT.run_bind, OptionT.run_bind, Option.elimM, Option.elimM, StateT.run_bind, StateT.run_bind]
  refine Agree.bind h (fun r => ?_) (fun r => ?_) fun r r' hr => ?_
  · obtain ⟨a, w₁⟩ := r
    cases a with
    | none => exact counts_pure _
    | some a => exact hf a w₁
  · obtain ⟨a, w₁⟩ := r
    cases a with
    | none => exact counts_pure _
    | some a => exact hg a w₁
  · obtain ⟨⟨rfl, hgrows⟩, hr⟩ := hr
    obtain ⟨a, w₁⟩ := r
    cases a with
    | none => exact agree_pure ⟨rfl, hgrows⟩
    | some a => exact (hfg a w₁ hr).imp fun r r' hr => ⟨hr.1, hgrows.trans hr.2⟩

theorem bind {R : α → Prop} {x y : Selecting α} {f g : α → Selecting β} (h : AgreeIn words limit x y)
    (hx : Yields words x R) (hf : ∀ a, CountsIn (f a)) (hg : ∀ a, CountsIn (g a))
    (hfg : ∀ a, R a → AgreeIn words limit (f a) (g a)) : AgreeIn words limit (x >>= f) (y >>= g) :=
  fun w hw => bind_at ((h w hw).and (hx w hw)) hf hg fun a w₁ ha => hfg a (ha.2 a rfl) w₁ ha.1

/-- What counts nothing goes by the outcome alone, in whatever store. -/
theorem bind_of_quiet {x y : Selecting α} {f : α → Selecting β} (h : AgreeIn words limit x y) (hf : ∀ a, Quiet (f a)) :
    AgreeIn words limit (x >>= f) (y >>= f) := by
  intro w hw
  refine bind_at ((h w hw).and (Ensures.any _)) (fun a => .of_quiet (hf a)) (fun a => .of_quiet (hf a)) fun a w₁ _ => ?_
  exact agree_of_quiet (hf a) w₁

/-- Before anything is counted, nothing has to be said about the meter. -/
theorem bind_quiet {R : α → Prop} {x : Selecting α} {f g : α → Selecting β} (hx : Quiet x) (hyields : Yields words x R)
    (hfg : ∀ a, R a → AgreeIn words limit (f a) (g a)) : AgreeIn words limit (x >>= f) (x >>= g) := by
  intro w hw
  have hw₁ := hyields w hw
  obtain ⟨⟨a, w₁⟩, hrun, hgrows⟩ := hx w
  rw [hrun] at hw₁
  obtain ⟨hstore, ha⟩ := hw₁ (m := {}) rfl
  rw [OptionT.run_bind, OptionT.run_bind, Option.elimM, Option.elimM, StateT.run_bind, StateT.run_bind, hrun,
    pure_bind, pure_bind]
  cases a with
  | none => exact agree_pure ⟨rfl, hgrows⟩
  | some a => exact (hfg a (ha a rfl) w₁ hstore).imp fun r r' hr => ⟨hr.1, hgrows.trans hr.2⟩

end AgreeIn

end Deduction
