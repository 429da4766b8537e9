import Deduction.Proofs.Store.Rollback
import Deduction.Search.Query

/-!
# Selections that leave the meter alone

Most selections only read and plug terms: they have one outcome whatever the meter says. The store that they leave can
be taken back to any checkpoint that there was before, and has the same bindings then (`Store.Grows`).
-/

namespace Deduction

/-! ### Stores that can be taken back -/

namespace Store

variable {s s' s'' : Store}

/-- Going back from the second store to a checkpoint of the first one loses none of the bindings that the first one
has there. -/
structure Grows (s s' : Store) : Prop where
  size_trail : s.trail.size ≤ s'.trail.size
  below : ∀ cp, cp ≤ s.trail.size → (s.rollback cp).Below (s'.rollback cp)

namespace Grows

theorem refl (s : Store) : s.Grows s := ⟨Nat.le_refl _, fun _ _ => .refl _⟩

theorem trans (h : s.Grows s') (h' : s'.Grows s'') : s.Grows s'' where
  size_trail := Nat.le_trans h.size_trail h'.size_trail
  below cp hcp := (h.below cp hcp).trans (h'.below cp (Nat.le_trans hcp h.size_trail))

theorem of_extends (h : s.Extends s') : s.Grows s' where
  size_trail := h.size_trail
  below cp hcp := by
    rw [h.rollback hcp]
    exact .refl _

theorem newEnv (s : Store) : s.Grows s.newEnv.2 where
  size_trail := Nat.le_refl _
  below cp _ := by
    rw [rollback_newEnv]
    intro v env c hc
    rwa [lookup_newEnv]

end Grows

end Store

/-! ### Selections -/

variable {α β : Type}

theorem Selecting.run_liftM (x : Metered α) (w : Workspace) :
    (liftM x : Selecting α).run.run w = x >>= fun a => pure (some a, w) := by
  change ((StateT.lift x : StateT Workspace Metered α) >>= fun a => pure (some a)).run w = _
  rw [StateT.run_bind, StateT.run_lift, bind_assoc]
  rfl

/-- A computation in a workspace with one outcome, whatever the meter says. -/
def Quiet (x : Selecting α) : Prop := ∀ w, ∃ r, x.run.run w = pure r ∧ w.store.Grows r.2.store

namespace Quiet

theorem pure (a : α) : Quiet (Pure.pure a) := fun w => ⟨(some a, w), rfl, .refl _⟩

theorem failure : Quiet (failure : Selecting α) := fun w => ⟨(none, w), rfl, .refl _⟩

theorem getM (a : Option α) : Quiet (a.getM : Selecting α) := by
  cases a with
  | none => exact failure
  | some a => exact pure a

theorem modifyGet {f : Workspace → α × Workspace} (h : ∀ w : Workspace, w.store.Grows (f w).2.store) :
    Quiet (modifyGet f) := fun w => ⟨(some (f w).1, (f w).2), rfl, h w⟩

theorem get : Quiet (get : Selecting Workspace) := fun w => ⟨(some w, w), rfl, .refl _⟩

theorem bind {x : Selecting α} {f : α → Selecting β} (hx : Quiet x) (hf : ∀ a, Quiet (f a)) : Quiet (x >>= f) := by
  intro w
  obtain ⟨⟨a, w₁⟩, hrun, hgrows⟩ := hx w
  rw [OptionT.run_bind, Option.elimM, StateT.run_bind, hrun, pure_bind]
  cases a with
  | none => exact ⟨(none, w₁), rfl, hgrows⟩
  | some a =>
    obtain ⟨r, hr, hgrows'⟩ := hf a w₁
    exact ⟨r, hr, hgrows.trans hgrows'⟩

end Quiet

/-! ### Inputs -/

theorem quiet_input (t : Term) (env : EnvId) : Quiet (Selecting.input t env) :=
  .modifyGet fun w => .of_extends (Store.plug_extends w.store t env env w.names)

theorem quiet_inputs (env : EnvId) (ts : List Term) : Quiet (Selecting.inputs env ts) := by
  induction ts with
  | nil => exact .pure []
  | cons t ts ih =>
    unfold Selecting.inputs
    refine (quiet_input t env).bind fun value => ?_
    split
    · exact .failure
    · exact ih.bind fun values => .pure _

theorem quiet_freshVar : Quiet Selecting.freshVar := .modifyGet fun w => .refl w.store

theorem quiet_newEnv : Quiet Selecting.newEnv := .modifyGet fun w => .newEnv w.store

/-! ### Facts, elements and values -/

variable {src : Sources} {surroundings : Surroundings}

/-- The facts that could fit are selected in a fresh environment. -/
theorem run_selectFacts (src : Sources) (goal : Term) (env : EnvId) (w : Workspace) :
    (selectFacts src goal env).run.run w =
      pure (some ⟨goal, src.factsFor w.store goal env, w.store.newEnv.1⟩, ⟨w.store.newEnv.2, w.names⟩) := rfl

theorem quiet_selectDataset (goal name : Term) (env : EnvId) : Quiet (selectDataset src goal name env) := by
  unfold selectDataset
  refine (quiet_input name env).bind fun name => (Quiet.getM _).bind fun name => ?_
  exact Quiet.get.bind fun w => quiet_newEnv.bind fun e => .pure _

theorem quiet_selectMembers (item list : Term) (env : EnvId) : Quiet (selectMembers item list env) := by
  unfold selectMembers
  exact (quiet_input list env).bind fun list => .pure _

theorem quiet_selectGroups (args : List Term) (env : EnvId) : Quiet (selectGroups surroundings args env) := by
  unfold selectGroups
  refine (Quiet.getM _).bind fun t => (quiet_input t env).bind fun text => ?_
  refine (Quiet.getM _).bind fun t => (quiet_input t env).bind fun pattern => ?_
  refine (Quiet.getM _).bind fun t => (Quiet.getM _).bind fun p => (Quiet.getM _).bind fun groups => ?_
  dsimp only
  split
  · exact Quiet.failure.bind fun _ => .pure _
  · exact .pure _

theorem quiet_selectMatches (args : List Term) (env : EnvId) : Quiet (selectMatches surroundings args env) := by
  unfold selectMatches
  refine (Quiet.getM _).bind fun t => (quiet_input t env).bind fun text => ?_
  refine (Quiet.getM _).bind fun t => (quiet_input t env).bind fun pattern => ?_
  refine (Quiet.getM _).bind fun t => (Quiet.getM _).bind fun p => ?_
  exact (Quiet.getM _).bind fun output => .pure _

theorem quiet_selectCall (f : String) (args : List Term) (env : EnvId) :
    Quiet (selectCall surroundings f args env) := by
  unfold selectCall
  refine (Quiet.getM _).bind fun output => (quiet_inputs env _).bind fun values => ?_
  dsimp only
  split
  · exact (Quiet.getM _).bind fun value => .pure _
  · split
    · exact (Quiet.getM _).bind fun value => .pure _
    · exact (Quiet.getM _).bind fun value => .pure _

end Deduction
