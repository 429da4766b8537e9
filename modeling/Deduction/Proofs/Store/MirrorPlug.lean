import Deduction.Proofs.Store.MirrorUnify
import Deduction.Proofs.Store.Renaming

/-!
# Plugging in a mirror

A term that is plugged in a mirror is an instance of the term in the store that is mirrored: the bindings are applied,
and unbound variables have names of their own (`Mirrors.plug_isInstance`). A variable that was renamed before takes up
one more level of the allowance if it was bound since. So this holds as long as no renamed variable is bound, and
otherwise for terms that are plugged within the allowance.
-/

namespace Deduction.Store

open Search (queryEnv)

variable {Q : String → Prop} {s s' final : Store} {v name : String} {e : EnvId} {t u : Term}
  {start names names' : NameSupply} {p p' : Placement} {n m : Nat} {st st' : Store × NameSupply}

/-! ### Instances -/

/-- Names for the variables that a term leads to in the environment of the query: the variables of the query keep their
names, the others have new ones, and no two of them the same. -/
structure IsNaming (s : Store) (start : NameSupply) (t : Term) (name : String → EnvId → String) : Prop where
  query : ∀ v, name v queryEnv = v
  invented : ∀ {v e}, (v, e) ∈ s.unboundAt allowance t queryEnv → e ≠ queryEnv →
    ∃ n, start.issued < n ∧ n < UInt64.size ∧ name v e = s!"V{n}"
  inj : ∀ {v e w f}, (v, e) ∈ s.unboundAt allowance t queryEnv → (w, f) ∈ s.unboundAt allowance t queryEnv →
    name v e = name w f → v = w ∧ e = f

/-- The second term is the first one with the bindings of the store applied and names for its unbound variables, those
that are not variables of the query being new after the supply. -/
def IsInstance (s : Store) (start : NameSupply) (t u : Term) : Prop :=
  ∃ name, s.IsNaming start t name ∧ u = s.applyAt name allowance t queryEnv

/-! ### Names that plugging gives -/

namespace Placement

/-- The variables that were renamed are not bound. -/
def IsIdle (p : Placement) (s : Store) : Prop := ∀ {v e name}, p.name v e = some name → s.lookup v e = none

/-- The name that an unbound variable has where terms are plugged. -/
def nameOf (p : Placement) (v : String) (e : EnvId) : String := (p.cell v e).1

/-- Plugging has come to the variable: it belongs to the query or was renamed. -/
def Reaches (p : Placement) (v : String) (e : EnvId) : Prop := (p.cell v e).2 = queryEnv

theorem nameOf_of_some (h : p.name v e = some name) : p.nameOf v e = name := by rw [nameOf, cell_of_some h]

theorem reaches_of_some (h : p.name v e = some name) : p.Reaches v e := by rw [Reaches, cell_of_some h]

theorem IsClean.isIdle (h : p.IsClean) (s : Store) : p.IsIdle s := fun {v e _} hname => by
  rw [h v e] at hname
  cases hname

end Placement

namespace Mirrors

theorem name_query (h : Mirrors Q start names p s s') (v : String) : p.name v queryEnv = none := by
  cases hname : p.name v queryEnv with
  | none => rfl
  | some name => exact absurd rfl (h.named hname).2.1

theorem cell_query (h : Mirrors Q start names p s s') (v : String) : p.cell v queryEnv = (v, queryEnv) := by
  rw [Placement.cell_of_none (h.name_query v), h.env_query]

/-- No variable was renamed as long as no names were invented. -/
theorem isClean (h : Mirrors Q start start p s s') : p.IsClean := by
  intro v e
  cases hname : p.name v e with
  | none => rfl
  | some name =>
    obtain ⟨n, hlt, hle, -⟩ := (h.named hname).2.2.1
    omega

/-- The renaming of an unbound variable is read off its binding. -/
theorem name_of_lookup (h : Mirrors Q start names p s s') (hv : InScope Q s.envs.size ⟨.var v, e⟩)
    (hfree : s.lookup v e = none) (hlink : s'.lookup v (p.env e) = some ⟨.var name, queryEnv⟩) :
    p.name v e = some name := by
  cases hname : p.name v e with
  | none =>
    have hcell := h.lookup_cell hv
    rw [Placement.cell_of_none hname, hfree, hlink] at hcell
    cases hcell
  | some name' =>
    rw [(h.named hname).2.2.2] at hlink
    cases hlink
    rfl

/-- Where further variables are renamed, they are not bound. -/
theorem isIdle_of_extends {s'' : Store} (h : Mirrors Q start names p s s') (hp : p.IsIdle s)
    (h' : Mirrors Q start names' p' s s'') (henv : p'.env = p.env) (hext : s'.Extends s'') : p'.IsIdle s := by
  intro v e name hname
  obtain ⟨he, hne, hinv, hlink⟩ := h'.named hname
  have hold : p.name v e = none ∨ s.lookup v e = none := by
    cases hold : p.name v e with
    | none => exact .inl rfl
    | some name => exact .inr (hp hold)
  refine hold.elim (fun hold => ?_) id
  cases hc : s.lookup v e with
  | none => rfl
  | some c =>
    -- A binding that both stores have is to a term of the query, so to no variable that was invented.
    have hcell := h.lookup_cell (.of_ne he hne (.var v))
    rw [Placement.cell_of_none hold, hc] at hcell
    have hvalue := hext.lookup hcell
    rw [← henv, hlink] at hvalue
    obtain ⟨hterm, hcenv⟩ := Closure.mk.inj (Option.some.inj hvalue)
    have hquery : c.env = queryEnv := h.env_inj (h.inScope hc).env_lt h.query_lt (hcenv.symm.trans h.env_query.symm)
    have hQ : Q name := (h.inScope hc).mem hquery name (hterm ▸ Term.mem_vars_var.2 rfl)
    exact absurd hinv (h'.not_isInvented hQ)

/-- What was plugged, read in the store that is mirrored, and the unbound variables that were come to. -/
def Plugs (s : Store) (p : Placement) (k : Nat) (Q : String → Prop) (m : Nat) (t : Term) (e : EnvId) (u : Term) : Prop :=
  u = s.applyAt p.nameOf m t e ∧
    ∀ v f, (v, f) ∈ s.unboundAt m t e → p.Reaches v f ∧ InScope Q k ⟨.var v, f⟩

theorem plugs_free (hv : InScope Q s.envs.size ⟨.var v, e⟩) (hfree : s.lookup v e = none) (hreach : p.Reaches v e) :
    Plugs s p s.envs.size Q (m + 1) (.var v) e (.var (p.nameOf v e)) := by
  unfold Plugs applyAt unboundAt
  rw [hfree]
  refine ⟨rfl, fun w f hw => ?_⟩
  cases List.mem_singleton.1 hw
  exact ⟨hreach, hv⟩

theorem plugs_bound {c : Closure} (hc : s.lookup v e = some c)
    (h : Plugs s p s.envs.size Q m c.term c.env u) : Plugs s p s.envs.size Q (m + 1) (.var v) e u := by
  unfold Plugs applyAt unboundAt
  rw [hc]
  exact h

/-- Levels that suffice to plug in the mirror where others suffice in the store that is mirrored: the same ones if renamed
variables need none, or no more than these if the end of the levels is not come to. -/
def Suffices {α : Type} (s : Store) (p : Placement) (n m : Nat) (outcome : Option α) : Prop :=
  (p.IsIdle s ∧ n = m) ∨ (n ≤ m ∧ outcome.isSome = true)

namespace Suffices

variable {α β : Type} {outcome : Option α} {outcome' : Option β}

/-- One level is taken up on both sides. -/
theorem of_succ (h : Suffices s p (n + 1) (m + 1) outcome) (hsome : outcome.isSome = true → outcome'.isSome = true) :
    Suffices s p n m outcome' := by
  rcases h with ⟨hidle, heq⟩ | ⟨hle, ho⟩
  · exact .inl ⟨hidle, Nat.succ.inj heq⟩
  · exact .inr ⟨Nat.le_of_succ_le_succ hle, hsome ho⟩

theorem exists_succ (h : Suffices s p (n + 1) m outcome) : ∃ k, m = k + 1 := by
  rcases h with ⟨-, rfl⟩ | ⟨hle, -⟩
  · exact ⟨n, rfl⟩
  · exact ⟨m - 1, by omega⟩

end Suffices

section

variable (hlast : Mirrors Q start names p' s final)

include hlast

theorem threadMap_plugs {args : List Term} (h : Mirrors Q start st.2 p s st.1) (henv : p.env = p'.env)
    (hn : Suffices s p n m (threadMapWithin (plugWithin queryEnv n (p'.env e)) args st))
    (hren : Renames queryEnv (threadMap (plugAt queryEnv n (p'.env e)) args st).2 (final, names))
    (hone : ∀ t ∈ args, ∀ p st, Mirrors Q start st.2 p s st.1 → p.env = p'.env →
      Suffices s p n m (plugWithin queryEnv n (p'.env e) t st) →
      Renames queryEnv (plugAt queryEnv n (p'.env e) t st).2 (final, names) →
      Plugs s p' s.envs.size Q m t e (plugAt queryEnv n (p'.env e) t st).1) :
    (threadMap (plugAt queryEnv n (p'.env e)) args st).1 = args.map (s.applyAt p'.nameOf m · e) ∧
      ∀ v f, (v, f) ∈ args.flatMap (s.unboundAt m · e) → p'.Reaches v f ∧ InScope Q s.envs.size ⟨.var v, f⟩ := by
  induction args generalizing p st with
  | nil => exact ⟨rfl, fun _ _ hv => by cases hv⟩
  | cons t args ih =>
    -- The state that the first term leaves is mirrored as well.
    have hren₁ : Renames queryEnv (plugAt queryEnv n (p'.env e) t st).2 (final, names) :=
      (Renames.of_threadMap queryEnv n (p'.env e) args _).trans hren
    obtain ⟨p₁, hp₁, h₁⟩ := h.exists_plugAt n t (p'.env e) rfl (Nat.lt_of_le_of_lt hren₁.issued_le hlast.issued_lt)
    have hsplit : Suffices s p n m (plugWithin queryEnv n (p'.env e) t st) ∧
        Suffices s p₁ n m (threadMapWithin (plugWithin queryEnv n (p'.env e)) args
          (plugAt queryEnv n (p'.env e) t st).2) := by
      rcases hn with ⟨hidle, rfl⟩ | ⟨hle, hsome⟩
      · have hext := (Renames.of_plugAt queryEnv n (p'.env e) t st).isExtension
        exact ⟨.inl ⟨hidle, rfl⟩, .inl ⟨h.isIdle_of_extends hidle h₁ hp₁ hext, rfl⟩⟩
      · unfold threadMapWithin at hsome
        cases hw : plugWithin queryEnv n (p'.env e) t st with
        | none => simp [hw] at hsome
        | some r =>
          rw [plugAt_of_within hw]
          refine ⟨.inr ⟨hle, rfl⟩, .inr ⟨hle, ?_⟩⟩
          cases hws : threadMapWithin (plugWithin queryEnv n (p'.env e)) args r.2 with
          | none => simp [hw, hws] at hsome
          | some r' => rfl
    obtain ⟨hterm, hreach⟩ := hone t List.mem_cons_self p st h henv hsplit.1 hren₁
    obtain ⟨hterms, hreaches⟩ := ih h₁ (hp₁.trans henv) hsplit.2 hren fun u hu => hone u (List.mem_cons_of_mem _ hu)
    refine ⟨congr (congrArg List.cons hterm) hterms, fun v f hv => ?_⟩
    rcases List.mem_append.1 (List.flatMap_cons ▸ hv) with hv | hv
    · exact hreach v f hv
    · exact hreaches v f hv

/-- A variable that is not bound in the store that is mirrored is plugged to its name. -/
theorem plugAt_free (h : Mirrors Q start st.2 p s st.1) (henv : p.env = p'.env)
    (hv : InScope Q s.envs.size ⟨.var v, e⟩) (hfree : s.lookup v e = none)
    (hren : Renames queryEnv (plugAt queryEnv (n + 1) (p'.env e) (.var v) st).2 (final, names)) :
    (plugAt queryEnv (n + 1) (p'.env e) (.var v) st).1 = .var (p'.nameOf v e) ∧ p'.Reaches v e := by
  obtain ⟨s₁, names₁⟩ := st
  have hcell := h.lookup_cell hv
  rw [hfree] at hcell
  have hext := (Renames.of_plugAt queryEnv (n + 1) (p'.env e) (.var v) (s₁, names₁)).trans hren
  cases hname : p.name v e with
  | some name =>
    have hlink := (h.named hname).2.2.2
    rw [Placement.cell_of_some hname] at hcell
    rw [henv] at hlink
    have hname' : p'.name v e = some name := hlast.name_of_lookup hv hfree (hext.isExtension.lookup hlink)
    rw [Placement.nameOf_of_some hname']
    refine ⟨?_, Placement.reaches_of_some hname'⟩
    unfold plugAt
    simp only [hlink]
    cases n with
    | zero => rfl
    | succ n =>
      unfold plugAt
      simp only [show s₁.lookup name queryEnv = none from hcell, if_true]
  | none =>
    rw [Placement.cell_of_none hname, henv] at hcell
    have hnone : s₁.lookup v (p'.env e) = none := hcell
    unfold plugAt at hren ⊢
    simp only [hnone] at hren ⊢
    by_cases hquery : p'.env e = queryEnv
    · have he : e = queryEnv := hlast.env_inj hv.env_lt hlast.query_lt (hquery.trans hlast.env_query.symm)
      rw [if_pos hquery]
      unfold Placement.nameOf Placement.Reaches
      rw [he, hlast.cell_query]
      exact ⟨rfl, rfl⟩
    · rw [if_neg hquery] at hren ⊢
      -- The name that was invented just now is still there at the end.
      have hbound : (s₁.bind v (p'.env e) ⟨names₁.freshVar.1, queryEnv⟩).lookup v (p'.env e) =
          some ⟨names₁.freshVar.1, queryEnv⟩ := by
        rw [lookup_bind (henv ▸ h.env_lt hv.env_lt), if_pos ⟨rfl, rfl⟩]
      have hname' := hlast.name_of_lookup hv hfree (hren.isExtension.lookup hbound)
      exact ⟨congrArg Term.var (Placement.nameOf_of_some hname').symm, Placement.reaches_of_some hname'⟩

/-- A term that is plugged has the bindings of the store that is mirrored, and the names that it was renamed with. -/
theorem plugAt_plugs (h : Mirrors Q start st.2 p s st.1) (henv : p.env = p'.env) (ht : InScope Q s.envs.size ⟨t, e⟩)
    (hn : Suffices s p n m (plugWithin queryEnv n (p'.env e) t st))
    (hren : Renames queryEnv (plugAt queryEnv n (p'.env e) t st).2 (final, names)) :
    Plugs s p' s.envs.size Q m t e (plugAt queryEnv n (p'.env e) t st).1 := by
  induction n using Nat.strongRecOn generalizing m t e p st with
  | ind n ih =>
    cases n with
    | zero =>
      rcases hn with ⟨-, rfl⟩ | ⟨-, hsome⟩
      · exact ⟨rfl, fun _ _ hv => by cases hv⟩
      · cases hsome
    | succ n =>
      obtain ⟨m, rfl⟩ := hn.exists_succ
      cases t with
      | sym a => exact ⟨rfl, fun _ _ hv => by cases hv⟩
      | compound g args =>
        have hn' : Suffices s p n m (threadMapWithin (plugWithin queryEnv n (p'.env e)) args st) := by
          refine hn.of_succ fun hsome => ?_
          unfold plugWithin at hsome
          cases hw : threadMapWithin (plugWithin queryEnv n (p'.env e)) args st with
          | none => simp [hw] at hsome
          | some r => rfl
        obtain ⟨hterms, hreaches⟩ := threadMap_plugs hlast h henv hn' hren fun t ht' p st h henv hn hren =>
          ih n (Nat.lt_succ_self n) h henv (ht.arg ht') hn hren
        exact ⟨congrArg (Term.compound g) hterms, hreaches⟩
      | var v =>
        cases hc : s.lookup v e with
        | none =>
          obtain ⟨hterm, hreach⟩ := plugAt_free hlast h henv ht hc hren
          rw [hterm]
          exact plugs_free ht hc hreach
        | some c =>
          obtain ⟨s₁, names₁⟩ := st
          have hcell := h.lookup_cell ht
          rw [hc] at hcell
          refine plugs_bound hc ?_
          cases hname : p.name v e with
          | none =>
            rw [Placement.cell_of_none hname, henv] at hcell
            have hvalue : s₁.lookup v (p'.env e) = some ⟨c.term, p'.env c.env⟩ := henv ▸ hcell
            unfold plugAt at hren ⊢
            unfold plugWithin at hn
            simp only [hvalue] at hren hn ⊢
            exact ih n (Nat.lt_succ_self n) h henv (h.inScope hc) (hn.of_succ fun hsome => hsome) hren
          | some name =>
            rw [Placement.cell_of_some hname] at hcell
            have hlink : s₁.lookup v (p'.env e) = some ⟨.var name, queryEnv⟩ := henv ▸ (h.named hname).2.2.2
            have hvalue : s₁.lookup name queryEnv = some ⟨c.term, p'.env c.env⟩ := henv ▸ hcell
            rcases hn with ⟨hidle, -⟩ | ⟨hle, hsome⟩
            · rw [hidle hname] at hc
              cases hc
            · -- The variable that it was renamed to is followed as well, at the cost of one level.
              unfold plugWithin at hsome
              unfold plugAt at hren ⊢
              simp only [hlink] at hsome hren ⊢
              cases n with
              | zero => cases hsome
              | succ k =>
                unfold plugWithin at hsome
                unfold plugAt at hren ⊢
                simp only [hvalue] at hsome hren ⊢
                exact ih k (by omega) h henv (h.inScope hc) (.inr ⟨by omega, hsome⟩) hren

end

/-- A term of the query that is plugged in a mirror is an instance of it in the store that is mirrored. -/
theorem plug_isInstance (h : Mirrors Q start names p s s') (ht : InScope Q s.envs.size ⟨t, queryEnv⟩)
    (hn : p.IsIdle s ∨ (plugWithin queryEnv allowance queryEnv t (s', names)).isSome = true)
    (hlt : (s'.plug t queryEnv queryEnv names).2.2.issued < UInt64.size) :
    s.IsInstance start t (s'.plug t queryEnv queryEnv names).1 := by
  obtain ⟨p', hp', hlast⟩ := h.exists_plugAt allowance t queryEnv rfl hlt
  have hfirst : Mirrors Q start (s', names).2 p s (s', names).1 := h
  have hplugs := plugAt_plugs hlast (n := allowance) (m := allowance) hfirst hp'.symm ht
  rw [hp', h.env_query] at hplugs
  obtain ⟨hterm, hreaches⟩ := hplugs (hn.imp (fun hidle => ⟨hidle, rfl⟩) fun hsome => ⟨Nat.le_refl _, hsome⟩)
    (.refl queryEnv _)
  refine ⟨p'.nameOf, ⟨fun v => ?_, fun {v e} hv hne => ?_, fun {v e w f} hv hw heq => ?_⟩, hterm⟩
  · rw [Placement.nameOf, hlast.cell_query]
  · obtain ⟨hreach, hscope⟩ := hreaches v e hv
    cases hname : p'.name v e with
    | none =>
      unfold Placement.Reaches at hreach
      rw [Placement.cell_of_none hname] at hreach
      exact absurd (hlast.env_inj hscope.env_lt hlast.query_lt (hreach.trans hlast.env_query.symm)) hne
    | some name =>
      obtain ⟨k, hk, hle, rfl⟩ := (hlast.named hname).2.2.1
      exact ⟨k, hk, Nat.lt_of_le_of_lt hle hlast.issued_lt, Placement.nameOf_of_some hname⟩
  · obtain ⟨hreach, hscope⟩ := hreaches v e hv
    obtain ⟨hreach', hscope'⟩ := hreaches w f hw
    exact hlast.cell_inj hscope hscope' (Prod.ext heq (hreach.trans hreach'.symm))

end Mirrors

end Deduction.Store
