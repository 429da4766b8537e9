import Deduction.Proofs.Store.Trees

/-!
# Runs of operations

A store changes by new environments, unification, matching, plugging, direct bindings and by going back. As long as only
free variables are bound directly, the trail holds the bound variables, each of them once (`Run.exact`), and going back to
a checkpoint gives all variables the values that they had there, if nothing went back beyond it in the meantime
(`Run.rollback_exact`).
-/

namespace Deduction.Store

variable {s s' : Store} {v w : String} {env env' : EnvId} {c : Closure} {cp cp' : Checkpoint} {b : Bool}

/-! ### Operations -/

/-- What changes a store. -/
inductive Operation where
  | newEnv
  | unify (x : Term) (ex : EnvId) (y : Term) (ey : EnvId)
  | matchInto (pattern : Term) (ep : EnvId) (t : Term) (et : EnvId)
  | plug (t : Term) (env target : EnvId) (names : NameSupply)
  | bind (v : String) (env : EnvId) (c : Closure)
  | rollback (cp : Checkpoint)

/-- The store after an operation, whether or not the operation succeeds. -/
def perform (s : Store) : Operation → Store
  | .newEnv => s.newEnv.2
  | .unify x ex y ey => (s.unify x ex y ey).2
  | .matchInto pattern ep t et => (s.matchInto pattern ep t et).2
  | .plug t env target names => (s.plug t env target names).2.1
  | .bind v env c => s.bind v env c
  | .rollback cp => s.rollback cp

/-- A variable that is bound directly is unbound, and its environment is one of the store. -/
def BindsFree (s : Store) : Operation → Prop
  | .bind v env _ => env < s.envs.size ∧ s.lookup v env = none
  | _ => True

/-- What an operation does: it makes an environment, it goes back, or it binds variables that were not bound. -/
theorem perform_cases {op : Operation} (hop : s.BindsFree op) :
    op = .newEnv ∨ (∃ cp, op = .rollback cp) ∨ s.Extends (s.perform op) := by
  cases op with
  | newEnv => exact Or.inl rfl
  | unify x ex y ey => exact Or.inr (Or.inr (s.extends_unify x ex y ey))
  | matchInto pattern ep t et => exact Or.inr (Or.inr (s.extends_matchInto pattern ep t et))
  | plug t env target names => exact Or.inr (Or.inr (s.plug_extends t env target names))
  | bind v env c => exact Or.inr (Or.inr (Extends.refl.bind v env c hop.2))
  | rollback cp => exact Or.inr (Or.inl ⟨cp, rfl⟩)

/-- The stores that come about from a store by operations, each of them admitted by the store that it is performed on. -/
inductive Run (admits : Store → Operation → Prop) (s : Store) : Store → Prop
  | refl : Run admits s s
  | step {s' : Store} (h : Run admits s s') (op : Operation) (hop : admits s' op) : Run admits s (s'.perform op)

/-! ### Exact trails -/

/-- The entries of the trail are the bound variables, each of them once. -/
structure Exact (s : Store) : Prop where
  nodup : s.trail.toList.Nodup
  mem_trail_iff : ∀ v env, (env, v) ∈ s.trail.toList ↔ ∃ c, s.lookup v env = some c

namespace Exact

theorem of_empty (b : Bool) : Exact { occursCheck := b } where
  nodup := List.nodup_nil
  mem_trail_iff v env := by simp [lookup]

theorem isTrailed (hs : s.Exact) : s.Trailed := fun v env c hc => (hs.mem_trail_iff v env).2 ⟨c, hc⟩

theorem newEnv (hs : s.Exact) : s.newEnv.2.Exact where
  nodup := hs.nodup
  mem_trail_iff v env := by
    rw [lookup_newEnv]
    exact hs.mem_trail_iff v env

theorem bind (hs : s.Exact) (hv : s.lookup v env = none) : (s.bind v env c).Exact := by
  by_cases henv : env < s.envs.size
  · have hnot : (env, v) ∉ s.trail.toList := by
      rw [hs.mem_trail_iff, hv]
      simp
    constructor
    · rw [trail_bind henv, Array.toList_push, List.nodup_append]
      refine ⟨hs.nodup, by simp, fun x hx y hy hxy => hnot ?_⟩
      rw [← List.mem_singleton.1 hy, ← hxy]
      exact hx
    · intro w env'
      rw [trail_bind henv, Array.toList_push, List.mem_append, List.mem_singleton, lookup_bind henv, hs.mem_trail_iff]
      by_cases hw : w = v ∧ env' = env
      · simp [hw]
      · rw [if_neg hw, Prod.mk.injEq]
        simp [show ¬ (env' = env ∧ w = v) from fun hc => hw hc.symm]
  · rwa [bind_of_not_lt henv]

theorem of_extends (hs : s.Exact) (hext : s.Extends s') : s'.Exact := by
  induction hext with
  | refl => exact hs
  | bind _ v env c hv ih => exact ih.bind hv

theorem rollback (hs : s.Exact) (cp : Checkpoint) : (s.rollback cp).Exact where
  nodup := by
    rw [toList_trail_rollback]
    exact hs.nodup.sublist (List.take_sublist cp _)
  mem_trail_iff v env := by
    have hsplit := hs.nodup
    rw [← List.take_append_drop cp s.trail.toList, List.nodup_append] at hsplit
    have hmem : (env, v) ∈ s.trail.toList ↔ (env, v) ∈ s.trail.toList.take cp ∨ (env, v) ∈ s.trail.toList.drop cp := by
      rw [← List.mem_append, List.take_append_drop]
    rw [toList_trail_rollback, lookup_rollback]
    by_cases hdrop : (env, v) ∈ s.trail.toList.drop cp
    · simp only [if_pos hdrop, reduceCtorEq, exists_false, iff_false]
      exact fun htake => hsplit.2.2 _ htake _ hdrop rfl
    · rw [if_neg hdrop, ← hs.mem_trail_iff, hmem]
      simp [hdrop]

/-- Every operation keeps the trail exact. -/
theorem perform {op : Operation} (hs : s.Exact) (hop : s.BindsFree op) : (s.perform op).Exact := by
  rcases perform_cases hop with rfl | ⟨cp, rfl⟩ | hext
  · exact hs.newEnv
  · exact hs.rollback cp
  · exact hs.of_extends hext

end Exact

theorem Run.exact (hs : s.Exact) (h : Run BindsFree s s') : s'.Exact := by
  induction h with
  | refl => exact hs
  | step _ op hop ih => exact ih.perform hop

/-! ### Going back to a checkpoint -/

/-- The operation does not go back beyond the checkpoint. -/
def Operation.Spares (cp : Checkpoint) : Operation → Prop
  | .rollback cp' => cp ≤ cp'
  | _ => True

/-- An operation that does not go back beyond a checkpoint changes nothing of what is found by going back to it, but for
further environments without bindings. -/
theorem perform_spares {op : Operation} (hop : s.BindsFree op) (hspares : op.Spares cp) (hcp : cp ≤ s.trail.size) :
    cp ≤ (s.perform op).trail.size ∧ (s.rollback cp).Widens ((s.perform op).rollback cp) := by
  rcases perform_cases hop with rfl | ⟨cp', rfl⟩ | hext
  · refine ⟨hcp, ?_⟩
    rw [perform, rollback_newEnv]
    exact Widens.newEnv _
  · have hle : cp ≤ cp' := hspares
    constructor
    · rw [perform, ← Array.length_toList, toList_trail_rollback, List.length_take, Array.length_toList]
      exact Nat.le_min.2 ⟨hle, hcp⟩
    · rw [perform, rollback_rollback hle]
      exact Widens.refl _
  · refine ⟨Nat.le_trans hcp hext.size_trail, ?_⟩
    rw [hext.rollback hcp]
    exact Widens.refl _

/-- Going back finds the store where the checkpoint was taken, if nothing went back beyond it. -/
theorem Run.widens_rollback (h : Run (fun t op => t.BindsFree op ∧ op.Spares s.checkpoint) s s') :
    s.checkpoint ≤ s'.trail.size ∧ s.Widens (s'.rollback s.checkpoint) := by
  induction h with
  | refl =>
    refine ⟨Nat.le_refl _, ?_⟩
    rw [checkpoint, rollback_size]
    exact Widens.refl s
  | step _ op hop ih =>
    obtain ⟨hle, hwidens⟩ := perform_spares hop.1 hop.2 ih.1
    exact ⟨hle, ih.2.trans hwidens⟩

/-- In every store that comes about from an empty one, the trail holds exactly the bound variables, each of them once.
And whatever is done after a checkpoint, short of going back beyond it: going back to it gives all variables the values,
and the trail the entries, that they had when it was taken. -/
theorem Run.rollback_exact (h : Run BindsFree { occursCheck := b } s) :
    s.trail.toList.Nodup ∧ (∀ v env, (env, v) ∈ s.trail.toList ↔ ∃ c, s.lookup v env = some c) ∧
      ∀ s', Run (fun t op => t.BindsFree op ∧ op.Spares s.checkpoint) s s' →
        (∀ v env, (s'.rollback s.checkpoint).lookup v env = s.lookup v env) ∧
          (s'.rollback s.checkpoint).trail = s.trail := by
  have hexact : s.Exact := Run.exact (Exact.of_empty b) h
  refine ⟨hexact.nodup, hexact.mem_trail_iff, fun s' hs' => ?_⟩
  obtain ⟨-, hwidens⟩ := hs'.widens_rollback
  exact ⟨hwidens.lookup_eq, hwidens.trail_eq⟩

/-- The store `linked`, then `g(Z)` of the first environment matched with `g(b)`, and `Y` of the second one bound to `Z`. -/
def crossed : Store :=
  (linked.perform (.matchInto (.compound "g" [.var "Z"]) 0 (.compound "g" [.sym "b"]) 1)).perform
    (.bind "Y" 1 ⟨.var "Z", 0⟩)

/-- Going back from there to the checkpoint of `linked` takes away both bindings and leaves the first one. -/
theorem rollback_exact_crossed :
    crossed.trail = #[(0, "X"), (0, "Z"), (1, "Y")] ∧ (crossed.rollback linked.checkpoint).trail = #[(0, "X")] ∧
      ∀ v env, (crossed.rollback linked.checkpoint).lookup v env = linked.lookup v env := by
  have hlinked : Run BindsFree { occursCheck := true } linked :=
    .step (.step (.step .refl .newEnv trivial) .newEnv trivial)
      (.unify (.var "X") 0 (.compound "f" [.var "Y"]) 1) trivial
  have hcrossed : Run (fun t op => t.BindsFree op ∧ op.Spares linked.checkpoint) linked crossed :=
    .step (.step .refl (.matchInto (.compound "g" [.var "Z"]) 0 (.compound "g" [.sym "b"]) 1) ⟨trivial, trivial⟩)
      (.bind "Y" 1 ⟨.var "Z", 0⟩) ⟨⟨by decide, by decide⟩, trivial⟩
  obtain ⟨hlookup, htrail⟩ := (Run.rollback_exact hlinked).2.2 crossed hcrossed
  exact ⟨by decide, htrail.trans (by decide), hlookup⟩

end Deduction.Store
