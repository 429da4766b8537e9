import Deduction.Proofs.Calls.Careful
import Deduction.Proofs.Calls.Links
import Deduction.Proofs.Calls.Values

/-!
# Selecting in coupled workspaces

Computations in a workspace plug terms and ask questions. From a pair of coupled workspaces (a `Scene`) they only give
names: the workspaces stay coupled, and what was plugged is linked without bound variables (`Scene.Drawn`). Computations
that plug linked terms and do the same with them have linked results (`Scene.Draws`); they are put together from parts
that do.
-/

namespace Deduction

variable {α β γ δ D : Type} [Values D]

/-! ### Names that are given -/

namespace Workspace

variable {env : EnvId} {w w' w'' : Workspace} {t u : Term} {ts us : List Term}

/-- Only names were given since, to variables of other environments, and nothing has changed if none were. -/
structure Renames (env : EnvId) (w w' : Workspace) : Prop where
  renames : Store.Renames env (w.store, w.names) (w'.store, w'.names)
  store_eq : w'.names.issued = w.names.issued → w'.store = w.store

namespace Renames

theorem refl (env : EnvId) (w : Workspace) : w.Renames env w := ⟨.refl _ _, fun _ => rfl⟩

theorem trans (h : w.Renames env w') (h' : w'.Renames env w'') : w.Renames env w'' where
  renames := h.renames.trans h'.renames
  store_eq heq := by
    have hle : w.names.issued ≤ w'.names.issued := h.renames.issued_le
    have hle' : w'.names.issued ≤ w''.names.issued := h'.renames.issued_le
    rw [h'.store_eq (by omega), h.store_eq (by omega)]

theorem of_plugWithin {s : Store} {names : NameSupply}
    (h : Store.plugWithin env allowance env t (w.store, w.names) = some (u, (s, names))) : w.Renames env ⟨s, names⟩ where
  renames := .of_plugWithin h
  store_eq heq := by
    -- A variable is bound only when a name is issued.
    have hkeeps : Store.KeepsRenaming (fun _ => True) env fun st =>
        w.names.issued ≤ st.2.issued ∧ (st.2.issued = w.names.issued → st.1 = w.store) := by
      refine ⟨fun _ _ _ => trivial, fun hst _ _ _ => ⟨Nat.le_succ_of_le hst.1, fun heq => ?_⟩⟩
      exact absurd heq (Nat.ne_of_gt (Nat.lt_succ_of_le hst.1))
    have hkept : w.names.issued ≤ (Store.plugAt env allowance env t (w.store, w.names)).2.2.issued ∧
        ((Store.plugAt env allowance env t (w.store, w.names)).2.2.issued = w.names.issued →
          (Store.plugAt env allowance env t (w.store, w.names)).2.1 = w.store) :=
      Store.plugAt_keeps hkeeps allowance t ⟨Nat.le_refl _, fun _ => rfl⟩ trivial
    rw [Store.plugAt_of_within h] at hkept
    exact hkept.2 heq

theorem freshVar (env : EnvId) (w : Workspace) : w.Renames env ⟨w.store, w.names.freshVar.2⟩ :=
  ⟨⟨.refl, fun _ => rfl, Nat.le_succ _⟩, fun _ => rfl⟩

theorem size_envs (h : w.Renames env w') : w'.store.envs.size = w.store.envs.size := h.renames.isExtension.size_envs

theorem onward (h : w.Renames env w') : w.Onward w' := .of_extends h.renames.isExtension h.renames.issued_le

theorem rollback (h : w.Renames env w') : w'.store.rollback w.store.checkpoint = w.store :=
  h.renames.isExtension.rollback_eq

end Renames

/-- The terms can be plugged one after the other, and there are so many names left then. -/
def Affords (room : Nat) (env : EnvId) (ts us : List Term) (w : Workspace) : Prop :=
  ∃ st, Store.threadMapWithin (Store.plugWithin env allowance env) ts (w.store, w.names) = some (us, st) ∧
    st.2.issued + room < UInt64.size

theorem affords_of_plugged (h : w.plugged env ts = some us) : w.Affords (us.flatMap Term.cells).length env ts us := by
  unfold plugged at h
  split at h
  · rename_i us' st hst
    obtain ⟨hlt, heq⟩ := Option.ite_none_right_eq_some.1 h
    cases heq
    exact ⟨st, hst, hlt⟩
  · cases h

variable {room : Nat}

theorem Affords.cons (h : w.Affords room env (t :: ts) us) : ∃ u us' s names, us = u :: us' ∧
    Store.plugWithin env allowance env t (w.store, w.names) = some (u, (s, names)) ∧
      Affords room env ts us' ⟨s, names⟩ := by
  obtain ⟨st, hus, hlt⟩ := h
  simp only [Store.threadMapWithin, Option.bind_eq_bind, Option.bind_eq_some_iff, Option.pure_def, Option.some.injEq] at hus
  obtain ⟨⟨u, s, names⟩, hu, ⟨us', st'⟩, hus', heq⟩ := hus
  cases heq
  exact ⟨u, us', s, names, rfl, hu, _, hus', hlt⟩

theorem Affords.issued_lt (h : w.Affords room env ts us) : w.names.issued + room < UInt64.size := by
  obtain ⟨st, hus, hlt⟩ := h
  have hle := (Store.Renames.of_threadMapWithin hus).issued_le
  dsimp only at hle
  omega

theorem Affords.eq_nil (h : w.Affords room env [] us) : us = [] := by
  obtain ⟨st, hus, -⟩ := h
  cases hus
  rfl

end Workspace

/-- What follows a term that was plugged. -/
theorem Selecting.run_input_bind {t u : Term} {env : EnvId} {w : Workspace} {s : Store} {names : NameSupply}
    (hu : Store.plugWithin env allowance env t (w.store, w.names) = some (u, (s, names))) (F : Term → Selecting α) :
    (Selecting.input t env >>= F).run.run w = (F u).run.run ⟨s, names⟩ := by
  have hplug : w.store.plug t env env w.names = (u, (s, names)) := Store.plugAt_of_within hu
  have hrun : (Selecting.input t env >>= F).run.run w = (F (w.store.plug t env env w.names).1).run.run
      ⟨(w.store.plug t env env w.names).2.1, (w.store.plug t env env w.names).2.2⟩ := rfl
  rw [hrun, hplug]

/-- Two variables may be taken for each other besides those of a term, if they do not occur. -/
theorem exists_relabel_with {π : Equiv.Perm String} {t : Term} {v v' : String} (hv : v ∉ t.vars)
    (hv' : v' ∉ (t.relabel π).vars) : ∃ ρ : Equiv.Perm String, t.relabel ρ = t.relabel π ∧ ρ v = v' := by
  refine ⟨Equiv.swap (π v) v' * π, ?_, ?_⟩
  · rw [Term.relabel_mul]
    refine Term.relabel_eq_self _ fun u hu => ?_
    refine Equiv.swap_apply_of_ne_of_ne (fun heq => ?_) fun heq => hv' (heq ▸ hu)
    rw [Term.vars_relabel] at hu
    obtain ⟨x, hx, rfl⟩ := List.mem_map.1 hu
    exact hv (π.injective heq ▸ hx)
  · rw [Equiv.Perm.mul_apply, Equiv.swap_apply_left]

/-! ### Scenes -/

/-- The workspaces of two searches, with the environments that their goals are read in. -/
structure Scene (D : Type) where
  occursCheck : Bool
  relation : Pairing D
  left : Workspace
  right : Workspace
  env : EnvId
  env' : EnvId

namespace Scene

/-- The workspaces are coupled, and the environments are among theirs. -/
structure Proper (x : Scene D) : Prop where
  suits : Values.Suits D x.occursCheck
  coupled : Coupled x.occursCheck x.relation x.left x.right
  env_lt : x.env < x.left.store.envs.size
  env_lt' : x.env' < x.right.store.envs.size

/-- The terms are linked. -/
abbrev Links (x : Scene D) (t t' : Term) : Prop := Linked x.relation x.left x.right ⟨t, x.env⟩ ⟨t', x.env'⟩

/-- Only names were given in the workspaces since, and the terms were plugged. -/
structure Drawn (x : Scene D) (vs vs' : List Term) (w w' : Workspace) : Prop where
  renames : x.left.Renames x.env w
  renames' : x.right.Renames x.env' w'
  plugged : Plugged x.occursCheck (x.relation.within w.store w'.store) w w' x.env x.env' vs vs'

variable {x : Scene D} {w w' : Workspace} {vs vs' ts ts' us us' : List Term} {t t' u u' : Term} {s s' : Store}
  {names names' : NameSupply}

namespace Drawn

theorem refl (hx : x.Proper) : x.Drawn [] [] x.left x.right := by
  refine ⟨.refl _ _, .refl _ _, .nil ?_⟩
  rw [hx.coupled.within_self]
  exact hx.coupled

theorem nil (h : x.Drawn vs vs' w w') : x.Drawn [] [] w w' := ⟨h.renames, h.renames', .nil h.plugged.coupled⟩

theorem env_lt (hx : x.Proper) (h : x.Drawn vs vs' w w') : x.env < w.store.envs.size :=
  h.renames.size_envs.symm ▸ hx.env_lt

theorem env_lt' (hx : x.Proper) (h : x.Drawn vs vs' w w') : x.env' < w'.store.envs.size :=
  h.renames'.size_envs.symm ▸ hx.env_lt'

/-- What was linked is linked still. -/
theorem linked (h : x.Drawn vs vs' w w') (ht : x.Links t t') :
    Linked (x.relation.within w.store w'.store) w w' ⟨t, x.env⟩ ⟨t', x.env'⟩ :=
  ht.mono (fun hR => hR.1) (Nat.le_of_eq h.renames.size_envs.symm) (Nat.le_of_eq h.renames'.size_envs.symm)

/-- What was plugged is the same but for the names of its variables. -/
theorem exists_relabel (hx : x.Proper) (h : x.Drawn vs vs' w w') :
    ∃ π : Equiv.Perm String, vs' = vs.map (Term.relabel π) ∧ ∀ t ∈ vs, ∀ v ∈ t.vars,
      Linked (x.relation.within w.store w'.store) w w' ⟨.var v, x.env⟩ ⟨.var (π v), x.env'⟩ :=
  h.plugged.coupled.exists_relabel hx.suits h.plugged.linked h.plugged.frees h.plugged.frees'

/-- What is made of the variables of what was plugged. -/
theorem of_vars (hx : x.Proper) (h : x.Drawn vs vs' w w') {π : Equiv.Perm String} (hπ : vs' = vs.map (Term.relabel π))
    (hlinked : ∀ t ∈ vs, ∀ v ∈ t.vars,
      Linked (x.relation.within w.store w'.store) w w' ⟨.var v, x.env⟩ ⟨.var (π v), x.env'⟩)
    (hts : ∀ t ∈ ts, ∀ v ∈ t.vars, ∃ u ∈ vs, v ∈ u.vars) : x.Drawn ts (ts.map (Term.relabel π)) w w' :=
  ⟨h.renames, h.renames', h.plugged.of_vars (h.env_lt hx) (h.env_lt' hx) hπ hlinked hts⟩

theorem of_ground (hx : x.Proper) (h : x.Drawn vs vs' w w') (hts : ∀ t ∈ ts, t.isGround = true) : x.Drawn ts ts w w' :=
  ⟨h.renames, h.renames', .of_ground h.plugged.coupled (h.env_lt hx) (h.env_lt' hx) hts⟩

theorem tail (h : x.Drawn (t :: vs) (t' :: vs') w w') : x.Drawn vs vs' w w' := by
  obtain ⟨hcoupled, hlinked, hfrees, hfrees'⟩ := h.plugged
  exact ⟨h.renames, h.renames', hcoupled, (List.forall₂_cons.1 hlinked).2, (Store.frees_cons.1 hfrees).2,
    (Store.frees_cons.1 hfrees').2⟩

/-- A further term is plugged. -/
theorem input (hx : x.Proper) (h : x.Drawn vs vs' w w') (ht : x.Links t t')
    (hu : Store.plugWithin x.env allowance x.env t (w.store, w.names) = some (u, (s, names)))
    (hu' : Store.plugWithin x.env' allowance x.env' t' (w'.store, w'.names) = some (u', (s', names')))
    (hsize : names.issued < UInt64.size) (hsize' : names'.issued < UInt64.size) :
    x.Drawn (vs ++ [u]) (vs' ++ [u']) ⟨s, names⟩ ⟨s', names'⟩ := by
  have hsingle {env : EnvId} {t u : Term} {st st' : Store × NameSupply}
      (h : Store.plugWithin env allowance env t st = some (u, st')) :
      Store.threadMapWithin (Store.plugWithin env allowance env) [t] st = some ([u], st') := by
    simp only [Store.threadMapWithin, h, Option.bind_eq_bind, Option.bind_some, Option.pure_def]
  have hrenames := Workspace.Renames.of_plugWithin hu
  have hrenames' := Workspace.Renames.of_plugWithin hu'
  have hbelow : w.store.Below s := hrenames.renames.isExtension.isBelow
  have hbelow' : w'.store.Below s' := hrenames'.renames.isExtension.isBelow
  have hplug := h.plugged.coupled.plug hx.suits (.cons (h.linked ht) .nil) (h.env_lt hx) (h.env_lt' hx) (hsingle hu)
    (hsingle hu') hsize hsize'
  rw [Pairing.within_within hbelow hbelow'] at hplug
  have hkept {w : Workspace} {env : EnvId} {s : Store} {names : NameSupply} (hren : w.Renames env ⟨s, names⟩)
      {vs : List Term} {u : Term} (hvs : w.store.Frees env vs) (hu : s.Frees env [u]) : s.Frees env (vs ++ [u]) :=
    List.forall_mem_append.2 ⟨fun t ht v hv => (hren.renames.kept v).trans (hvs t ht v hv), hu⟩
  refine ⟨h.renames.trans hrenames, h.renames'.trans hrenames', hplug.coupled, ?_, hkept hrenames h.plugged.frees hplug.frees,
    hkept hrenames' h.plugged.frees' hplug.frees'⟩
  refine List.rel_append ?_ hplug.linked
  exact h.plugged.linked.mono (fun hR => ⟨hR.1, hR.2.1.of_below hbelow, hR.2.2.of_below hbelow'⟩)
    (Nat.le_of_eq hrenames.size_envs.symm) (Nat.le_of_eq hrenames'.size_envs.symm)

/-- Names are issued. -/
theorem freshVar (h : x.Drawn vs vs' w w') :
    x.Drawn vs vs' ⟨w.store, w.names.freshVar.2⟩ ⟨w'.store, w'.names.freshVar.2⟩ where
  renames := h.renames.trans (.freshVar _ _)
  renames' := h.renames'.trans (.freshVar _ _)
  plugged := by
    refine ⟨h.plugged.coupled.widen (.refl _) (.refl _) (Nat.le_succ _) (Nat.le_succ _), ?_, h.plugged.frees, h.plugged.frees'⟩
    exact h.plugged.linked.mono id (Nat.le_refl _) (Nat.le_refl _)

/-- A name that is yet to be issued is not that of a variable of what was plugged. -/
theorem not_mem_vars (hx : x.Proper) (h : x.Drawn vs vs' w w') (hsize : w.names.issued + 1 < UInt64.size) (ht : t ∈ vs) :
    w.names.freshName.1 ∉ t.vars := fun hv =>
  h.plugged.not_isSpare hx.suits ht hv (.inr ⟨_, Nat.lt_succ_self _, hsize, rfl⟩)

theorem not_mem_vars' (hx : x.Proper) (h : x.Drawn vs vs' w w') (hsize : w'.names.issued + 1 < UInt64.size) (ht : t ∈ vs') :
    w'.names.freshName.1 ∉ t.vars := fun hv =>
  h.plugged.symm.not_isSpare hx.suits ht hv (.inr ⟨_, Nat.lt_succ_self _, hsize, rfl⟩)

end Drawn

/-! ### Computations -/

/-- Only names were given, and the results, if there are any, are related. -/
structure Outcomes (x : Scene D) (S : Workspace → Workspace → α → β → Prop) (r : Option α × Workspace)
    (r' : Option β × Workspace) : Prop where
  drawn : x.Drawn [] [] r.2 r'.2
  result : Option.Rel (S r.2 r'.2) r.1 r'.1

/-- After some terms were plugged, and when the further ones are plugged that the computations read, these have related
results. -/
def Draws (x : Scene D) (limit room room' : Nat) (S : Workspace → Workspace → α → β → Prop) (vs vs' ts ts' us us' : List Term)
    (f : Selecting α) (g : Selecting β) : Prop :=
  ∀ w w', x.Drawn vs vs' w w' → w.Affords room x.env ts us → w'.Affords room' x.env' ts' us' →
    Agree limit (x.Outcomes S) (f.run.run w) (g.run.run w')

namespace Draws

variable {limit room room' : Nat} {S : Workspace → Workspace → α → β → Prop} {f : γ → Selecting α} {g : δ → Selecting β}
  {P : γ → δ → Prop}

theorem pure {a : α} {b : β} (h : ∀ w w', x.Drawn vs vs' w w' → S w w' a b) :
    x.Draws limit room room' S vs vs' ts ts' us us' (Pure.pure a) (Pure.pure b) :=
  fun _ _ hw _ _ => agree_pure ⟨hw.nil, .some (h _ _ hw)⟩

theorem failure : x.Draws limit room room' S vs vs' ts ts' us us' failure failure :=
  fun _ _ hw _ _ => agree_pure ⟨hw.nil, .none⟩

theorem getM_bind {a : Option γ} {b : Option δ} (hab : Option.Rel P a b)
    (h : ∀ a b, P a b → x.Draws limit room room' S vs vs' ts ts' us us' (f a) (g b)) :
    x.Draws limit room room' S vs vs' ts ts' us us' (a.getM >>= f) (b.getM >>= g) := by
  cases hab with
  | none => exact failure
  | some hab => exact h _ _ hab

theorem lift_bind {a : Metered γ} {b : Metered δ} (hab : Agree limit P a b) (hf : ∀ a, CountsIn (f a))
    (hg : ∀ b, CountsIn (g b)) (h : ∀ a b, P a b → x.Draws limit room room' S vs vs' ts ts' us us' (f a) (g b)) :
    x.Draws limit room room' S vs vs' ts ts' us us' (liftM a >>= f) (liftM b >>= g) := by
  intro w w' hw hus hus'
  rw [OptionT.run_bind, OptionT.run_bind, Option.elimM, Option.elimM, StateT.run_bind, StateT.run_bind,
    Selecting.run_liftM, Selecting.run_liftM, bind_assoc, bind_assoc]
  refine hab.bind (fun a => ?_) (fun b => ?_) fun a b hab => ?_
  · rw [pure_bind]
    exact hf a w
  · rw [pure_bind]
    exact hg b w'
  · rw [pure_bind, pure_bind]
    exact h a b hab w w' hw hus hus'

/-- What follows a computation goes by its result. -/
theorem bind {T : Workspace → Workspace → γ → δ → Prop} {a : Selecting γ} {b : Selecting δ}
    (hab : x.Draws limit room room' T vs vs' ts ts' us us' a b) (hf : ∀ a, CountsIn (f a)) (hg : ∀ b, CountsIn (g b))
    (h : ∀ a b w w', T w w' a b → x.Drawn [] [] w w' → Agree limit (x.Outcomes S) ((f a).run.run w) ((g b).run.run w')) :
    x.Draws limit room room' S vs vs' ts ts' us us' (a >>= f) (b >>= g) := by
  intro w w' hw hus hus'
  rw [OptionT.run_bind, OptionT.run_bind, Option.elimM, Option.elimM, StateT.run_bind, StateT.run_bind]
  refine (hab w w' hw hus hus').bind (fun r => ?_) (fun r => ?_) fun r r' hr => ?_
  · obtain ⟨a, w⟩ := r
    cases a with
    | none => exact counts_pure _
    | some a => exact hf a w
  · obtain ⟨b, w⟩ := r
    cases b with
    | none => exact counts_pure _
    | some b => exact hg b w
  · obtain ⟨a, w⟩ := r
    obtain ⟨b, w'⟩ := r'
    obtain ⟨hdrawn, hresult⟩ := hr
    dsimp only at hdrawn hresult
    cases hresult with
    | none => exact agree_pure ⟨hdrawn, .none⟩
    | some hab => exact h _ _ _ _ hab hdrawn

variable {F : Term → Selecting α} {G : Term → Selecting β}

/-- A linked term is plugged. -/
theorem input_bind (hx : x.Proper) (ht : x.Links t t')
    (h : ∀ u u' rest rest', us = u :: rest → us' = u' :: rest' →
      x.Draws limit room room' S (vs ++ [u]) (vs' ++ [u']) ts ts' rest rest' (F u) (G u')) :
    x.Draws limit room room' S vs vs' (t :: ts) (t' :: ts') us us' (Selecting.input t x.env >>= F)
      (Selecting.input t' x.env' >>= G) := by
  intro w w' hw hus hus'
  obtain ⟨u, rest, s, names, rfl, hu, hrest⟩ := hus.cons
  obtain ⟨u', rest', s', names', rfl, hu', hrest'⟩ := hus'.cons
  rw [Selecting.run_input_bind hu F, Selecting.run_input_bind hu' G]
  have hlt := hrest.issued_lt
  have hlt' := hrest'.issued_lt
  dsimp only at hlt hlt'
  exact h u u' rest rest' rfl rfl _ _ (hw.input hx ht hu hu' (by omega) (by omega)) hrest hrest'

/-- An argument is plugged, if there is one. -/
theorem inputArg_bind (hx : x.Proper) {args args' : List Term} (hargs : List.Forall₂ x.Links args args') (i : Nat)
    {places : List Nat}
    (h : ∀ u u' rest rest', us = u :: rest → us' = u' :: rest' →
      x.Draws limit room room' S (vs ++ [u]) (vs' ++ [u']) (argsAt places args) (argsAt places args') rest rest' (F u)
        (G u')) :
    x.Draws limit room room' S vs vs' (argsAt (i :: places) args) (argsAt (i :: places) args') us us'
      (args[i]?.getM >>= fun t => Selecting.input t x.env >>= F)
      (args'[i]?.getM >>= fun t => Selecting.input t x.env' >>= G) := by
  have hi : Option.Rel x.Links args[i]? args'[i]? := by
    clear h
    induction hargs generalizing i with
    | nil => exact .none
    | cons ht _ ih =>
      cases i with
      | zero => exact .some ht
      | succ i => exact ih i
  unfold argsAt
  rw [List.flatMap_cons, List.flatMap_cons]
  generalize args[i]? = a at hi ⊢
  generalize args'[i]? = a' at hi ⊢
  cases hi with
  | none => exact failure
  | some ht => exact input_bind hx ht h

/-- Linked terms are plugged, up to the first one that is still a variable. -/
theorem inputs_bind (hx : x.Proper) (hts : List.Forall₂ x.Links ts ts') {F : List Term → Selecting α}
    {G : List Term → Selecting β}
    (h : x.Draws limit room room' S (vs ++ us) (vs' ++ us') [] [] [] [] (F us) (G us')) :
    x.Draws limit room room' S vs vs' ts ts' us us' (Selecting.inputs x.env ts >>= F)
      (Selecting.inputs x.env' ts' >>= G) := by
  induction hts generalizing vs vs' us us' F G with
  | nil =>
    intro w w' hw hus hus'
    obtain rfl := hus.eq_nil
    obtain rfl := hus'.eq_nil
    rw [List.append_nil, List.append_nil] at h
    exact h w w' hw hus hus'
  | @cons t t' ts ts' ht hts ih =>
    rw [Selecting.inputs, Selecting.inputs, bind_assoc, bind_assoc]
    refine input_bind hx ht fun u u' rest rest' hus hus' => ?_
    subst hus hus'
    intro w w' hw hrest hrest'
    have hvariable : u'.isVariable = u.isVariable := by
      obtain ⟨π, hπ, -⟩ := hw.exists_relabel hx
      have hlast := congrArg List.getLast? hπ
      rw [List.map_append, List.map_singleton, List.getLast?_append, List.getLast?_append] at hlast
      have hu' : u' = u.relabel π := Option.some.inj hlast
      rw [hu', Term.isVariable_relabel]
    revert w w'
    rw [hvariable]
    split
    · exact failure
    · rw [bind_assoc, bind_assoc]
      simp only [pure_bind]
      refine ih ?_
      rwa [List.append_assoc, List.append_assoc]

end Draws

end Scene

end Deduction
