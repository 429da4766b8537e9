import Deduction.Store.Plug
import Deduction.Store.Unify

/-!
# Going back in a store

A store is extended by binding variables that are not bound yet. Such bindings can be taken back exactly: going back
to a checkpoint that is not later than the extension gives the same store as before it (`Extends.rollback_eq`).
Unification, matching and plugging only extend a store (`extends_unify`, `extends_matchInto`, `plug_extends`), so an
attempt that fails leaves no trace (`orRollback_eq_of_fails`).
-/

namespace Deduction

/-! ### Environments -/

namespace Env

theorem lookup_erase (e : Env) (v w : String) :
    List.lookup w (Env.erase e v) = if w = v then none else List.lookup w e := by
  induction e with
  | nil => simp [Env.erase]
  | cons b e ih =>
    obtain ⟨u, c⟩ := b
    unfold Env.erase at ih ⊢
    rw [List.filter_cons]
    by_cases hu : u = v
    · subst hu
      rw [if_neg (by simp), ih, List.lookup_cons]
      by_cases hw : w = u
      · rw [if_pos hw, if_pos hw]
      · rw [if_neg hw, if_neg hw, beq_eq_false_iff_ne.2 hw]
    · rw [if_pos (by simpa using hu), List.lookup_cons, List.lookup_cons, ih]
      by_cases hw : w = u
      · subst hw
        rw [beq_self_eq_true, if_neg hu, if_neg hu]
      · rw [beq_eq_false_iff_ne.2 hw]

theorem erase_eq_self {e : Env} {v : String} (h : List.lookup v e = none) : Env.erase e v = e := by
  unfold Env.erase
  rw [List.filter_eq_self]
  intro b hb
  have hne : v ≠ b.1 := by simpa using List.lookup_eq_none_iff.1 h b hb
  simpa using hne.symm

theorem lookup_insert (e : Env) (v w : String) (c : Closure) :
    List.lookup w (Env.insert e v c) = if w = v then some c else List.lookup w e := by
  unfold Env.insert
  rw [List.lookup_cons, lookup_erase]
  by_cases hw : w = v
  · rw [if_pos hw, if_pos hw, beq_iff_eq.2 hw]
  · rw [if_neg hw, if_neg hw, beq_eq_false_iff_ne.2 hw]

theorem erase_insert {e : Env} {v : String} (h : List.lookup v e = none) (c : Closure) :
    Env.erase (Env.insert e v c) v = e := by
  have hcons : Env.erase ((v, c) :: e) v = Env.erase e v := by simp [Env.erase]
  unfold Env.insert
  rw [erase_eq_self h, hcons, erase_eq_self h]

end Env

namespace Store

variable {s s' : Store} {v w : String} {env env' : EnvId} {c : Closure} {cp cp' : Checkpoint}

/-! ### Looking up after one operation -/

theorem lookup_eq_bind (s : Store) (v : String) (env : EnvId) :
    s.lookup v env = (s.envs[env]?).bind fun e => List.lookup v e := by
  unfold lookup
  cases s.envs[env]? <;> rfl

theorem lt_size_of_lookup (h : s.lookup v env = some c) : env < s.envs.size := by
  rw [lookup_eq_bind] at h
  obtain ⟨e, he, -⟩ := Option.bind_eq_some_iff.1 h
  exact (Array.getElem?_eq_some_iff.1 he).1

theorem lookup_size_envs (s : Store) (v : String) : s.lookup v s.envs.size = none := by
  cases hc : s.lookup v s.envs.size with
  | none => rfl
  | some c => exact absurd (lt_size_of_lookup hc) (Nat.lt_irrefl _)

theorem lookup_bind (h : env < s.envs.size) :
    (s.bind v env c).lookup w env' = if w = v ∧ env' = env then some c else s.lookup w env' := by
  unfold bind
  rw [if_pos h, lookup_eq_bind, lookup_eq_bind]
  simp only [Array.getElem?_modify]
  by_cases he : env = env'
  · subst he
    rw [if_pos rfl, Array.getElem?_eq_getElem h]
    simp only [Option.map_some, Option.bind_some, Env.lookup_insert, and_true]
  · rw [if_neg he, if_neg (fun hc => he hc.2.symm)]

theorem bind_of_not_lt (h : ¬ env < s.envs.size) : s.bind v env c = s := by
  unfold bind
  rw [if_neg h]

@[simp] theorem size_envs_bind : (s.bind v env c).envs.size = s.envs.size := by
  unfold bind
  split
  · exact Array.size_modify
  · rfl

@[simp] theorem occursCheck_bind : (s.bind v env c).occursCheck = s.occursCheck := by
  unfold bind
  split <;> rfl

theorem trail_bind (h : env < s.envs.size) : (s.bind v env c).trail = s.trail.push (env, v) := by
  unfold bind
  rw [if_pos h]

@[simp] theorem lookup_newEnv (s : Store) : s.newEnv.2.lookup v env = s.lookup v env := by
  unfold newEnv
  rw [lookup_eq_bind, lookup_eq_bind]
  simp only [Array.getElem?_push]
  split
  · subst_vars
    simp
  · rfl

@[simp] theorem size_envs_newEnv (s : Store) : s.newEnv.2.envs.size = s.envs.size + 1 := by simp [newEnv]

@[simp] theorem trail_newEnv (s : Store) : s.newEnv.2.trail = s.trail := rfl

@[simp] theorem occursCheck_newEnv (s : Store) : s.newEnv.2.occursCheck = s.occursCheck := rfl

/-! ### Going back -/

@[simp] theorem size_unbind (envs : Array Env) (entry : EnvId × String) :
    (unbind envs entry).size = envs.size := by simp [unbind]

@[simp] theorem size_foldl_unbind (entries : List (EnvId × String)) (envs : Array Env) :
    (entries.foldl unbind envs).size = envs.size := by
  induction entries generalizing envs with
  | nil => rfl
  | cons entry entries ih => rw [List.foldl_cons, ih, size_unbind]

/-- Going back, with the trail read as a list. -/
theorem rollback_eq (s : Store) (cp : Checkpoint) :
    s.rollback cp =
      { s with envs := (s.trail.toList.drop cp).reverse.foldl unbind s.envs, trail := s.trail.shrink cp } := by
  unfold rollback Trail.unwind
  simp only [Array.toList_extract, List.extract_eq_take_drop]
  congr
  rw [List.take_of_length_le]
  simp

@[simp] theorem size_envs_rollback : (s.rollback cp).envs.size = s.envs.size := by
  rw [rollback_eq, size_foldl_unbind]

@[simp] theorem occursCheck_rollback : (s.rollback cp).occursCheck = s.occursCheck := rfl

theorem toList_trail_rollback : (s.rollback cp).trail.toList = s.trail.toList.take cp := by
  rw [rollback_eq]
  exact Array.toList_shrink

theorem size_trail_rollback (h : cp ≤ s.trail.size) : (s.rollback cp).trail.size = cp := by
  rw [← Array.length_toList, toList_trail_rollback, List.length_take, Array.length_toList]
  exact Nat.min_eq_left h

@[simp] theorem rollback_size (s : Store) : s.rollback s.trail.size = s := by
  rw [rollback_eq]
  have hd : s.trail.toList.drop s.trail.size = [] := by simp
  have ht : s.trail.shrink s.trail.size = s.trail := by simp
  rw [hd, ht]
  rfl

theorem rollback_rollback (h : cp ≤ cp') : (s.rollback cp').rollback cp = s.rollback cp := by
  rw [rollback_eq (s.rollback cp'), rollback_eq s cp, toList_trail_rollback]
  have htrail : (s.rollback cp').trail.shrink cp = s.trail.shrink cp := by
    apply Array.toList_inj.1
    rw [Array.toList_shrink, toList_trail_rollback, Array.toList_shrink, List.take_take, Nat.min_eq_left h]
  have hsplit : s.trail.toList.drop cp = (s.trail.toList.take cp').drop cp ++ s.trail.toList.drop cp' := by
    rw [List.drop_take, ← Nat.add_sub_cancel' h, ← List.drop_drop, Nat.add_sub_cancel_left, List.take_append_drop]
  rw [htrail, hsplit, List.reverse_append, List.foldl_append]
  conv => lhs; rw [rollback_eq s cp']

theorem unbind_modify_insert {envs : Array Env} {e : Env} (he : envs[env]? = some e) (h : List.lookup v e = none) :
    unbind (envs.modify env (Env.insert · v c)) (env, v) = envs := by
  unfold unbind
  apply Array.ext_getElem?
  intro i
  simp only [Array.getElem?_modify]
  by_cases hi : env = i
  · subst hi
    simp only [if_true, he, Option.map_some, Env.erase_insert h]
  · simp only [if_neg hi]

/-- The binding of a variable that was not bound is taken back by going back beyond it. -/
theorem rollback_bind (h : s.lookup v env = none) (hcp : cp ≤ s.trail.size) :
    (s.bind v env c).rollback cp = s.rollback cp := by
  by_cases he : env < s.envs.size
  · have hsome : s.envs[env]? = some s.envs[env] := Array.getElem?_eq_getElem he
    have hnone : List.lookup v s.envs[env] = none := by
      rw [lookup_eq_bind, hsome] at h
      exact h
    rw [rollback_eq, rollback_eq]
    unfold bind
    simp only [if_pos he, Array.toList_push]
    rw [List.drop_append_of_le_length (by simpa using hcp), List.reverse_append, List.reverse_singleton,
      List.singleton_append, List.foldl_cons, unbind_modify_insert hsome hnone]
    congr 1
    apply Array.toList_inj.1
    rw [Array.toList_shrink, Array.toList_shrink, Array.toList_push, List.take_append_of_le_length (by simpa using hcp)]
  · rw [bind_of_not_lt he]

theorem unbind_push_nil (envs : Array Env) (entry : EnvId × String) :
    unbind (envs.push []) entry = (unbind envs entry).push [] := by
  unfold unbind
  apply Array.ext_getElem?
  intro i
  simp only [Array.getElem?_modify, Array.getElem?_push, Array.size_modify]
  by_cases hi : i = envs.size
  · subst hi
    simp [Env.erase]
  · simp [hi]

theorem rollback_newEnv (s : Store) (cp : Checkpoint) : s.newEnv.2.rollback cp = (s.rollback cp).newEnv.2 := by
  have hfold (entries : List (EnvId × String)) (envs : Array Env) :
      entries.foldl unbind (envs.push []) = (entries.foldl unbind envs).push [] := by
    induction entries generalizing envs with
    | nil => rfl
    | cons entry entries ih => rw [List.foldl_cons, unbind_push_nil, ih, List.foldl_cons]
  rw [rollback_eq, rollback_eq]
  simp only [newEnv, hfold]

/-! ### Extensions -/

/-- The second store has the bindings of the first one. -/
def Below (s s' : Store) : Prop := ∀ v env c, s.lookup v env = some c → s'.lookup v env = some c

theorem Below.refl (s : Store) : Below s s := fun _ _ _ h => h

theorem Below.lookup_eq_none (h : Below s s') (hv : s'.lookup v env = none) : s.lookup v env = none := by
  cases hc : s.lookup v env with
  | none => rfl
  | some c =>
    rw [h v env c hc] at hv
    cases hv

theorem below_newEnv (s : Store) : Below s s.newEnv.2 := fun _ _ _ h => by rwa [lookup_newEnv]

theorem Below.trans {s'' : Store} (h : Below s s') (h' : Below s' s'') : Below s s'' :=
  fun v env c hc => h' v env c (h v env c hc)

/-- The second store has further bindings of variables that were not bound. -/
inductive Extends (s : Store) : Store → Prop
  | refl : Extends s s
  | bind {s' : Store} (h : Extends s s') (v : String) (env : EnvId) (c : Closure) (hv : s'.lookup v env = none) :
      Extends s (s'.bind v env c)

namespace Extends

theorem trans {s'' : Store} (h : Extends s s') (h' : Extends s' s'') : Extends s s'' := by
  induction h' with
  | refl => exact h
  | bind _ v env c hv ih => exact ih.bind v env c hv

theorem size_envs (h : Extends s s') : s'.envs.size = s.envs.size := by
  induction h with
  | refl => rfl
  | bind _ _ _ _ _ ih => rw [size_envs_bind, ih]

theorem occursCheck (h : Extends s s') : s'.occursCheck = s.occursCheck := by
  induction h with
  | refl => rfl
  | bind _ _ _ _ _ ih => rw [occursCheck_bind, ih]

theorem size_trail (h : Extends s s') : s.trail.size ≤ s'.trail.size := by
  induction h with
  | refl => exact Nat.le_refl _
  | bind _ v env c _ ih =>
    unfold Store.bind
    split
    · rw [Array.size_push]; omega
    · exact ih

/-- Bindings are never changed. -/
theorem lookup (h : Extends s s') (hv : s.lookup v env = some c) : s'.lookup v env = some c := by
  induction h with
  | refl => exact hv
  | @bind t _ w env' d hw ih =>
    by_cases he : env' < t.envs.size
    · rw [lookup_bind he, if_neg, ih]
      rintro ⟨rfl, rfl⟩
      rw [ih] at hw
      cases hw
    · rw [bind_of_not_lt he, ih]

theorem isBelow (h : Extends s s') : Below s s' := fun _ _ _ hv => h.lookup hv

theorem rollback (h : Extends s s') (hcp : cp ≤ s.trail.size) : s'.rollback cp = s.rollback cp := by
  induction h with
  | refl => rfl
  | bind h' v env c hv ih => rw [rollback_bind hv (Nat.le_trans hcp h'.size_trail), ih]

/-- Going back to where a store was extended gives the store as it was. -/
theorem rollback_eq (h : Extends s s') : s'.rollback s.checkpoint = s := by
  rw [checkpoint, h.rollback (Nat.le_refl _), rollback_size]

end Extends

/-! ### What unification and plugging keep

Both change a store only by binding variables that are not bound. So they keep whatever such a binding keeps, as long
as it is made among terms and environments that are closed under arguments and values. -/

/-- Kept by the bindings that unification makes, among closures from a set that arguments and values do not lead
out of. -/
structure Keeps (G : Term → EnvId → Prop) (P : Store → Prop) : Prop where
  arg : ∀ {f ts env t}, G (.compound f ts) env → t ∈ ts → G t env
  value : ∀ {s v env c}, P s → G (.var v) env → s.lookup v env = some c → G c.term c.env
  bind : ∀ {s v env c}, P s → G (.var v) env → G c.term c.env → s.lookup v env = none →
    s.leadsTo c.term c.env v env = false →
    (s.occursCheck = true → s.occurs v env c.term c.env = false) → P (s.bind v env c)

variable {G : Term → EnvId → Prop} {P : Store → Prop}

theorem Keeps.extends (s : Store) : Keeps (fun _ _ => True) (Extends s) where
  arg _ _ := trivial
  value _ _ _ := trivial
  bind h _ _ hv _ _ := h.bind _ _ _ hv

theorem allPairs_keeps {attempt : Term → Term → Store → Bool × Store} (xs ys : List Term)
    (h : ∀ x ∈ xs, ∀ y ∈ ys, ∀ s, P s → P (attempt x y s).2) (hs : P s) : P (allPairs attempt xs ys s).2 := by
  induction xs generalizing ys s with
  | nil => cases ys <;> exact hs
  | cons x xs ih =>
    cases ys with
    | nil => exact hs
    | cons y ys =>
      have hxy := h x List.mem_cons_self y List.mem_cons_self s hs
      unfold allPairs
      split
      · rename_i s' hs'
        rw [hs'] at hxy
        exact ih ys (fun x hx y hy => h x (List.mem_cons_of_mem _ hx) y (List.mem_cons_of_mem _ hy)) hxy
      · exact hxy

theorem unifyVar_keeps (hP : Keeps G P) {unify : Term → EnvId → Term → EnvId → Store → Bool × Store}
    (h : ∀ x ex y ey s, P s → G x ex → G y ey → P (unify x ex y ey s).2) {v : String} {ev : EnvId} {t : Term}
    (hs : P s) (hv : G (.var v) ev) (ht : G t env) : P (unifyVar unify v ev t env s).2 := by
  unfold unifyVar
  split
  · exact hs
  · split
    · rename_i c hc
      exact h _ _ _ _ _ hs (hP.value hs hv hc) ht
    · rename_i hnone
      split
      · exact hs
      · rename_i hlead
        split
        · exact hs
        · rename_i hocc
          refine hP.bind hs hv ht hnone (by simpa using hlead) fun hcheck => ?_
          simpa [hcheck] using hocc

theorem unifyAt_keeps (hP : Keeps G P) (n : Nat) {x : Term} {ex : EnvId} {y : Term} {ey : EnvId} (hs : P s)
    (hx : G x ex) (hy : G y ey) : P (unifyAt n x ex y ey s).2 := by
  induction n generalizing x ex y ey s with
  | zero => exact hs
  | succ n ih =>
    have ih' (x ex y ey s) (hs : P s) (hx : G x ex) (hy : G y ey) := ih hs hx hy
    cases x with
    | var v => exact unifyVar_keeps hP ih' hs hx hy
    | sym a =>
      cases y with
      | var w => exact unifyVar_keeps hP ih' hs hy hx
      | sym b => exact hs
      | compound g ys => exact hs
    | compound f xs =>
      cases y with
      | var w => exact unifyVar_keeps hP ih' hs hy hx
      | sym b => exact hs
      | compound g ys =>
        unfold unifyAt
        split
        · exact allPairs_keeps xs ys (fun x hxs y hys s hs => ih hs (hP.arg hx hxs) (hP.arg hy hys)) hs
        · exact hs

theorem unifyAt_extends (n : Nat) (x : Term) (ex : EnvId) (y : Term) (ey : EnvId) (s : Store) :
    Extends s (unifyAt n x ex y ey s).2 := unifyAt_keeps (Keeps.extends s) n .refl trivial trivial

/-- Matching only binds variables that are not bound. -/
theorem matchAt_extends (n : Nat) (pattern : Term) (ep : EnvId) (t : Term) (et : EnvId) (s : Store) :
    Extends s (matchAt n pattern ep t et s).2 := by
  induction n generalizing pattern ep t et s with
  | zero => exact .refl
  | succ n ih =>
    cases pattern with
    | var v =>
      unfold matchAt
      split
      · rename_i c _
        exact ih c.term c.env t et s
      · rename_i hv
        exact Extends.refl.bind v ep ⟨t, et⟩ hv
    | sym a => exact .refl
    | compound f ps =>
      cases t with
      | var w => exact .refl
      | sym b => exact .refl
      | compound g ts =>
        unfold matchAt
        split
        · exact allPairs_keeps ps ts (fun p _ u _ s' h => h.trans (ih p ep u et s')) .refl
        · exact .refl

/-- Kept by the bindings that plugging makes: variables of other environments are bound to fresh variables of the
target. -/
structure KeepsRenaming (H : EnvId → Prop) (target : EnvId) (Q : Store × NameSupply → Prop) : Prop where
  value : ∀ {s names v env c}, Q (s, names) → H env → s.lookup v env = some c → H c.env
  bind : ∀ {s names v env}, Q (s, names) → H env → env ≠ target → s.lookup v env = none →
    Q (s.bind v env ⟨names.freshVar.1, target⟩, names.freshVar.2)

variable {H : EnvId → Prop} {Q : Store × NameSupply → Prop}

theorem threadMap_keeps {f : Term → Store × NameSupply → Term × (Store × NameSupply)} (ts : List Term)
    (h : ∀ t ∈ ts, ∀ st, Q st → Q (f t st).2) {st : Store × NameSupply} (hs : Q st) : Q (threadMap f ts st).2 := by
  induction ts generalizing st with
  | nil => exact hs
  | cons t ts ih =>
    rw [List.forall_mem_cons] at h
    exact ih h.2 (h.1 st hs)

theorem plugAt_keeps {target : EnvId} (hQ : KeepsRenaming H target Q) (n : Nat) (t : Term)
    {st : Store × NameSupply} (hs : Q st) (ht : H env) : Q (plugAt target n env t st).2 := by
  induction n generalizing env t st with
  | zero => exact hs
  | succ n ih =>
    obtain ⟨s, names⟩ := st
    cases t with
    | var v =>
      unfold plugAt
      split
      · rename_i c hc
        exact ih c.term hs (hQ.value hs ht hc)
      · rename_i hv
        split
        · exact hs
        · rename_i hne
          exact hQ.bind hs ht hne hv
    | sym a => exact hs
    | compound f args => exact threadMap_keeps args (fun t _ st hs => ih t hs ht) hs

/-! ### Attempts that fail -/

/-- An attempt that extends the store leaves no trace if it fails. -/
theorem orRollback_eq_of_fails {r : Bool × Store} (hext : Extends s r.2)
    (h : orRollback s.checkpoint r = (false, s')) : s' = s := by
  obtain ⟨ok, t⟩ := r
  cases ok with
  | true => cases h
  | false =>
    simp only [orRollback, Prod.mk.injEq, true_and] at h
    rw [← h, hext.rollback_eq]

theorem orRollback_extends {r : Bool × Store} (hext : Extends s r.2) : Extends s (orRollback s.checkpoint r).2 := by
  obtain ⟨ok, t⟩ := r
  cases ok with
  | true => exact hext
  | false =>
    have heq : (orRollback s.checkpoint (false, t)).2 = s := orRollback_eq_of_fails hext rfl
    rw [heq]
    exact .refl

theorem extends_unify (s : Store) (x : Term) (ex : EnvId) (y : Term) (ey : EnvId) :
    Extends s (s.unify x ex y ey).2 := orRollback_extends (unifyAt_extends allowance x ex y ey s)

theorem extends_matchInto (s : Store) (pattern : Term) (ep : EnvId) (t : Term) (et : EnvId) :
    Extends s (s.matchInto pattern ep t et).2 := orRollback_extends (matchAt_extends allowance pattern ep t et s)

/-- An attempt to unify that fails leaves no trace. -/
theorem unify_eq_of_fails {x y : Term} {ex ey : EnvId} (h : s.unify x ex y ey = (false, s')) : s' = s :=
  orRollback_eq_of_fails (unifyAt_extends allowance x ex y ey s) h

/-- An attempt to match that fails leaves no trace. -/
theorem matchInto_eq_of_fails {pattern t : Term} {ep et : EnvId} (h : s.matchInto pattern ep t et = (false, s')) :
    s' = s := orRollback_eq_of_fails (matchAt_extends allowance pattern ep t et s) h

/-- What the outcome of an attempt says about the attempt within the allowance. -/
theorem unify_eq_true_iff {x y : Term} {ex ey : EnvId} :
    s.unify x ex y ey = (true, s') ↔ unifyAt allowance x ex y ey s = (true, s') := by
  unfold unify
  generalize unifyAt allowance x ex y ey s = r
  obtain ⟨ok, t⟩ := r
  cases ok <;> simp [orRollback]

theorem unify_fst (s : Store) (x : Term) (ex : EnvId) (y : Term) (ey : EnvId) :
    (s.unify x ex y ey).1 = (unifyAt allowance x ex y ey s).1 := by
  unfold unify
  generalize unifyAt allowance x ex y ey s = r
  obtain ⟨ok, t⟩ := r
  cases ok <;> rfl

/-- What unification within the allowance keeps is kept by an attempt to unify. -/
theorem unify_keeps (hP : Keeps G P) {x : Term} {ex : EnvId} {y : Term} {ey : EnvId} (hs : P s) (hx : G x ex)
    (hy : G y ey) : P (s.unify x ex y ey).2 := by
  have hkept := unifyAt_keeps hP allowance hs hx hy
  cases hok : (s.unify x ex y ey).1 with
  | true => rwa [unify_eq_true_iff.1 (Prod.ext hok rfl)] at hkept
  | false =>
    have heq : (s.unify x ex y ey).2 = s := unify_eq_of_fails (Prod.ext hok rfl)
    rwa [heq]

theorem unify_extends {x y : Term} {ex ey : EnvId} (h : s.unify x ex y ey = (true, s')) : Extends s s' := by
  have hext := s.extends_unify x ex y ey
  rwa [h] at hext

theorem plug_keeps {target : EnvId} {names : NameSupply} (hQ : KeepsRenaming H target Q) (t : Term)
    (hs : Q (s, names)) (ht : H env) : Q (s.plug t env target names).2 := plugAt_keeps hQ allowance t hs ht

theorem plug_extends (s : Store) (t : Term) (env target : EnvId) (names : NameSupply) :
    Extends s (s.plug t env target names).2.1 := by
  have hkeeps : KeepsRenaming (fun _ => True) target fun st => Extends s st.1 := by
    constructor
    · intro _ _ _ _ _ _ _ _
      trivial
    · intro _ _ _ _ h _ _ hv
      exact h.bind _ _ _ hv
  exact plug_keeps hkeeps t .refl trivial

/-- Whatever the bindings and the trail of a store, and whether or not it has the environments: an attempt to unify or to
match that fails leaves it as it was. -/
theorem unchanged_of_fails (s : Store) (x : Term) (ex : EnvId) (y : Term) (ey : EnvId) :
    ((s.unify x ex y ey).1 = false → (s.unify x ex y ey).2 = s) ∧
      ((s.matchInto x ex y ey).1 = false → (s.matchInto x ex y ey).2 = s) :=
  ⟨fun h => unify_eq_of_fails (Prod.ext h rfl), fun h => matchInto_eq_of_fails (Prod.ext h rfl)⟩

/-- Both attempts at `p(X,a)` and `p(b,c)` bind `X` before they fail. -/
theorem unchanged_of_fails_pair :
    let s := (newEnv {}).2
    let x := Term.compound "p" [.var "X", .sym "a"]
    let y := Term.compound "p" [.sym "b", .sym "c"]
    ((unifyAt allowance x 0 y 0 s).2.trail = #[(0, "X")] ∧ (s.unify x 0 y 0).2 = s) ∧
      (matchAt allowance x 0 y 0 s).2.trail = #[(0, "X")] ∧ (s.matchInto x 0 y 0).2 = s := by
  intro s x y
  obtain ⟨hunify, hmatch⟩ := unchanged_of_fails s x 0 y 0
  exact ⟨⟨by decide, hunify (by decide)⟩, by decide, hmatch (by decide)⟩

end Store

end Deduction
