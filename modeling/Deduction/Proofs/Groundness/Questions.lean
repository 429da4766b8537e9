import Deduction.Proofs.Dedup
import Deduction.Proofs.Groundness.Stores
import Deduction.Proofs.Variants.Selections

/-!
# Questions with ground answers

Of all goals, aggregates alone ask questions. Their template and their goal are plugged first, which makes them instances
by the same values, so that what binds the template surely still does so (`exists_instances`). An answerer is as
good as another one if it gives whatever answers that one gives (`Secures`).
-/

namespace Deduction

variable {α β : Type} {src : Sources} {ask ask' : Answerer} {template goal result t g : Term} {rest ts : List Term}
  {env : EnvId} {w : Workspace} {f : String} {s s₁ s₂ : Store} {names names₁ names₂ : NameSupply} {agg : Bool}

/-! ### Results that another computation has as well -/

/-- Whatever result the first computation has, the second one has it as well, and it is as described. -/
def Secures (x y : Metered α) (P : α → Prop) : Prop := ∀ ⦃m a m'⦄, x.run m = .ok (a, m') → y.run m = .ok (a, m') ∧ P a

namespace Secures

variable {x y : Metered α} {P : α → Prop} {Q : β → Prop} {h k : α → Metered β}

theorem of_ensures (hx : Ensures x P) : Secures x x P := fun _ _ _ hrun => ⟨hrun, hx hrun⟩

theorem pure {a : α} (ha : P a) : Secures (Pure.pure a) (Pure.pure a) P := of_ensures (Ensures.pure ha)

theorem bind (hxy : Secures x y P) (hhk : ∀ a, P a → Secures (h a) (k a) Q) : Secures (x >>= h) (y >>= k) Q := by
  intro m b m' hrun
  obtain ⟨a, m₁, hx, ha⟩ := Metered.run_bind_eq_ok.1 hrun
  obtain ⟨hy, hP⟩ := hxy hx
  obtain ⟨hb, hQ⟩ := hhk a hP ha
  exact ⟨Metered.run_bind_eq_ok.2 ⟨a, m₁, hy, hb⟩, hQ⟩

theorem imp {P' : α → Prop} (hxy : Secures x y P) (hP : ∀ a, P a → P' a) : Secures x y P' :=
  fun _ _ _ hrun => (hxy hrun).imp_right (hP _)

end Secures

/-- Of basic goals, the second answerer knows all that the first one does, and the answers to ground questions are
ground. -/
def Answerer.Grounds (agg : Bool) (ask ask' : Answerer) : Prop :=
  ∀ template goal : Term, goal.IsBasic agg → Secures (ask (.all template goal)) (ask' (.all template goal)) fun ts =>
    Term.IsGroundQuestion template goal → ∀ t ∈ ts, t.isGround = true

/-! ### Values of aggregates -/

/-- The value of an aggregate. -/
def Answerer.aggregate (ask : Answerer) (config : Config) (f : String) (template goal : Term) : Metered Term :=
  if f = "setofall" then Term.list <$> ask.findAll config template goal else ask.count template goal

/-- The value of an aggregate is ground if its answers are, and numbers are anyway. -/
theorem secures_aggregate (hask : ask.Grounds agg ask') (config : Config) (f : String) (template : Term)
    (hgoal : goal.IsBasic agg) :
    Secures (ask.aggregate config f template goal) (ask'.aggregate config f template goal) fun value =>
      (f = "setofall" → Term.IsGroundQuestion template goal) → value.isGround = true := by
  unfold Answerer.aggregate
  split
  · rename_i hf
    unfold Answerer.findAll
    rw [map_bind, map_bind]
    refine (hask template goal hgoal).bind fun ts hts => ?_
    rw [map_pure]
    exact .pure fun hquestion => Term.isGround_list fun t ht => hts (hquestion hf) t ((DedupPolicy.mem_apply _).1 ht)
  · unfold Answerer.count
    exact (hask template goal hgoal).bind fun ts _ => .pure fun _ => rfl

theorem run_input_bind (h : w.store.plug t env env w.names = (g, (s, names))) (k : Term → Selecting α) :
    (Selecting.input t env >>= k).run.run w = (k g).run.run ⟨s, names⟩ := by
  have hinput : (Selecting.input t env).run.run w = pure (some (w.store.plug t env env w.names).1,
      ⟨(w.store.plug t env env w.names).2.1, (w.store.plug t env env w.names).2.2⟩) := rfl
  rw [OptionT.run_bind, Option.elimM, StateT.run_bind, hinput, pure_bind, h]
  rfl

theorem run_lift_bind (x : Metered α) (k : α → Selecting β) :
    (liftM x >>= k : Selecting β).run.run w = x >>= fun a => (k a).run.run w := by
  rw [OptionT.run_bind, Option.elimM, StateT.run_bind, Selecting.run_liftM, bind_assoc]
  rfl

theorem getM_some (a : α) : ((some a).getM : Selecting α) = pure a := rfl

/-- An aggregate selects its result, to be made equal to its value. -/
theorem run_selectAggregate (hf : isAggregate f = true) (ht : w.store.plug template env env w.names = (t, (s₁, names₁)))
    (hg : s₁.plug goal env env names₁ = (g, (s₂, names₂))) :
    (selectComputed src ask f (template :: goal :: result :: rest) env).run.run w =
      ask.aggregate src.config f t g >>= fun value => pure (some ⟨result, [value], env⟩, ⟨s₂, names₂⟩) := by
  have hcases : f = "setofall" ∨ f = "countofall" := by simpa [isAggregate] using hf
  rcases hcases with rfl | rfl
  · have hsteps : selectAggregate src ask "setofall" (template :: goal :: result :: rest) env =
        Selecting.input template env >>= fun t => Selecting.input goal env >>= fun g =>
          liftM (ask.findAll src.config t g) >>= fun answers => pure ⟨result, [.list answers], env⟩ := by
      unfold selectAggregate
      simp only [if_true, pure_bind, List.getElem?_cons_zero, List.getElem?_cons_succ, getM_some]
    have hselect : selectComputed src ask "setofall" (template :: goal :: result :: rest) env =
        selectAggregate src ask "setofall" (template :: goal :: result :: rest) env := rfl
    have hvalue : ask.aggregate src.config "setofall" t g = Term.list <$> ask.findAll src.config t g := if_pos rfl
    rw [hselect, hsteps, run_input_bind ht, run_input_bind (w := ⟨s₁, names₁⟩) hg, run_lift_bind, hvalue, bind_map_left]
    rfl
  · have hne : ¬"countofall" = "setofall" := by decide
    have hsteps : selectAggregate src ask "countofall" (template :: goal :: result :: rest) env =
        Selecting.input template env >>= fun t => Selecting.input goal env >>= fun g =>
          liftM (ask.count t g) >>= fun value => pure ⟨result, [value], env⟩ := by
      unfold selectAggregate
      simp only [if_neg hne, pure_bind, List.getElem?_cons_zero, List.getElem?_cons_succ, getM_some]
    have hselect : selectComputed src ask "countofall" (template :: goal :: result :: rest) env =
        selectAggregate src ask "countofall" (template :: goal :: result :: rest) env := rfl
    have hvalue : ask.aggregate src.config "countofall" t g = ask.count t g := if_neg hne
    rw [hselect, hsteps, run_input_bind ht, run_input_bind (w := ⟨s₁, names₁⟩) hg, run_lift_bind, hvalue]
    rfl

/-! ### Plugged questions -/

/-- Terms that are plugged one after the other become instances by the same values. -/
theorem exists_instances {n : Nat} {st₁ st₂ : Store × NameSupply} (hs : s.WellFormed) (henv : env < s.envs.size)
    (happart : ∀ t, s.PlugsApart env env t) (ht : Store.plugWithin env n env template (s, names) = some (t, st₁))
    (hg : Store.plugWithin env n env goal st₁ = some (g, st₂)) :
    ∃ σ : String → Term, t = template.instantiate σ ∧ g = goal.instantiate σ := by
  obtain ⟨σ, hσ⟩ := st₂.1.shows_instances env
  have hren := Store.Renames.of_plugWithin ht
  have hren' := Store.Renames.of_plugWithin hg
  obtain ⟨hwf, hsize⟩ := hs.of_plugWithin henv henv ht
  obtain ⟨s₁, names₁⟩ := st₁
  obtain ⟨s₂, names₂⟩ := st₂
  refine ⟨σ, hσ _ _ ?_, hσ _ _ ?_⟩
  · exact Store.shows_of_plugWithin hs henv henv (happart template) ht hren'.isExtension hren'.kept
  · have henv' : env < s₁.envs.size := hsize.symm ▸ henv
    exact Store.shows_of_plugWithin hwf henv' henv' ((happart goal).renames hren) hg .refl fun _ => rfl

end Deduction
