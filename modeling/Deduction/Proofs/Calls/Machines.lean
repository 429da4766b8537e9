import Deduction.Proofs.Calls.Selections

/-!
# Matched machines

Two machines match if their workspaces are coupled, and what they have left to prove and to try is linked, in the
workspaces themselves or in those that they go back to. The first machine may have left to do what comes to nothing: to go
on after the only goal of a body, to leave a rule or come back to it, and to go over rules that do not fit. Machines that
match still do when only names were given and environments were made (`Agenda.Matched.onward`), and when they
have gone over linked candidates or rules (`Machine.matched_tryCandidates`, `Machine.matched_tryRules`).
-/

namespace Deduction

variable {D : Type} [Values D] {b : Bool} {p : Term × Term} {R R₁ : Pairing D} {w w' w₁ w₁' : Workspace}
  {cp cp' : Checkpoint} {n n' : Agenda} {o o' : Alternatives}

/-- The workspaces that going back to the checkpoints leads to are coupled. -/
structure Coupled.Back (occursCheck : Bool) (R : Pairing D) (w w' : Workspace) (cp cp' : Checkpoint) : Prop where
  le : cp ≤ w.store.trail.size
  le' : cp' ≤ w'.store.trail.size
  coupled : Coupled occursCheck R (w.rollback cp) (w'.rollback cp')

theorem Coupled.Back.onward (h : Coupled.Back b R w w' cp cp') (hw : w.Onward w₁) (hw' : w'.Onward w₁') :
    Coupled.Back b R w₁ w₁' cp cp' where
  le := Nat.le_trans h.le hw.size_trail
  le' := Nat.le_trans h.le' hw'.size_trail
  coupled := h.coupled.widen (hw.widens cp h.le) (hw'.widens cp' h.le') hw.issued_le hw'.issued_le

theorem Workspace.rollback_checkpoint (w : Workspace) : w.rollback w.store.checkpoint = w := by
  unfold rollback Store.checkpoint
  rw [Store.rollback_size]

theorem Coupled.back (h : Coupled b R w w') : Coupled.Back b R w w' w.store.checkpoint w'.store.checkpoint := by
  refine ⟨Nat.le_refl _, Nat.le_refl _, ?_⟩
  rwa [Workspace.rollback_checkpoint, Workspace.rollback_checkpoint]

mutual
/-- What is left to prove is linked, up to what comes to nothing in the first agenda. -/
inductive Agenda.Matched (b : Bool) (p : Term × Term) : Pairing D → Workspace → Workspace → Agenda → Agenda → Prop
  | done {R : Pairing D} {w w' : Workspace}
    (h : Linked R w w' ⟨p.1, Search.queryEnv⟩ ⟨p.2, Search.queryEnv⟩) : Agenda.Matched b p R w w' .done .done
  | goals {R : Pairing D} {w w' : Workspace} {env env' : EnvId} {ts ts' : List Term}
    (h : LinkedAll R w w' env env' ts ts') {n n' : Agenda} (hn : Agenda.Matched b p R w w' n n') :
    Agenda.Matched b p R w w' (.goals env ts n) (.goals env' ts' n')
  | leave {R : Pairing D} {w w' : Workspace} (goal goal' : Term) (env env' : EnvId) {n n' : Agenda}
    (hn : Agenda.Matched b p R w w' n n') : Agenda.Matched b p R w w' (.leave goal env n) (.leave goal' env' n')
  | refuted {R R' : Pairing D} {w w' : Workspace} {cp cp' : Checkpoint} (h : Coupled.Back b R' w w' cp cp')
    {o o' : Alternatives} (ho : Alternatives.Matched b p R' (w.rollback cp) (w'.rollback cp') o o') :
    Agenda.Matched b p R w w' (.refuted cp o) (.refuted cp' o')
  /-- The only goal of a body was proved. -/
  | through {R : Pairing D} {w w' : Workspace} (env : EnvId) {n n' : Agenda} (hn : Agenda.Matched b p R w w' n n') :
    Agenda.Matched b p R w w' (.goals env [] n) n'
  /-- The rule is left. -/
  | out {R : Pairing D} {w w' : Workspace} (goal : Term) (env : EnvId) {n n' : Agenda}
    (hn : Agenda.Matched b p R w w' n n') : Agenda.Matched b p R w w' (.leave goal env n) n'

/-- What is left to try is linked where the searches go back to, up to what comes to nothing in the first search. -/
inductive Alternatives.Matched (b : Bool) (p : Term × Term) :
    Pairing D → Workspace → Workspace → Alternatives → Alternatives → Prop
  | none {R : Pairing D} {w w' : Workspace} : Alternatives.Matched b p R w w' .none .none
  | undo {R R' : Pairing D} {w w' : Workspace} {cp cp' : Checkpoint} (h : Coupled.Back b R' w w' cp cp')
    {o o' : Alternatives} (ho : Alternatives.Matched b p R' (w.rollback cp) (w'.rollback cp') o o') :
    Alternatives.Matched b p R w w' (.undo cp o) (.undo cp' o')
  | reenter {R : Pairing D} {w w' : Workspace} (goal goal' : Term) (env env' : EnvId) {o o' : Alternatives}
    (ho : Alternatives.Matched b p R w w' o o') :
    Alternatives.Matched b p R w w' (.reenter goal env o) (.reenter goal' env' o')
  | absent {R : Pairing D} {w w' : Workspace} {n n' : Agenda} (hn : Agenda.Matched b p R w w' n n')
    {o o' : Alternatives} (ho : Alternatives.Matched b p R w w' o o') :
    Alternatives.Matched b p R w w' (.absent n o) (.absent n' o')
  | disjuncts {R : Pairing D} {w w' : Workspace} {env env' : EnvId} {ts ts' : List Term}
    (h : LinkedAll R w w' env env' ts ts') {n n' : Agenda} (hn : Agenda.Matched b p R w w' n n') {o o' : Alternatives}
    (ho : Alternatives.Matched b p R w w' o o') :
    Alternatives.Matched b p R w w' (.disjuncts env ts n o) (.disjuncts env' ts' n' o')
  | candidates {R R' : Pairing D} {w w' : Workspace} {c c' : Cursor}
    (h : Coupled.Back b R' w w' c.checkpoint c'.checkpoint) (horigin : c'.origin = c.origin)
    (ht : Linked R' (w.rollback c.checkpoint) (w'.rollback c'.checkpoint) ⟨c.target, c.env⟩ ⟨c'.target, c'.env⟩)
    (hc : LinkedAll R' (w.rollback c.checkpoint) (w'.rollback c'.checkpoint) c.candidateEnv c'.candidateEnv c.candidates
      c'.candidates) {n n' : Agenda}
    (hn : Agenda.Matched b p R' (w.rollback c.checkpoint) (w'.rollback c'.checkpoint) n n') {o o' : Alternatives}
    (ho : Alternatives.Matched b p R' (w.rollback c.checkpoint) (w'.rollback c'.checkpoint) o o') :
    Alternatives.Matched b p R w w' (.candidates c n o) (.candidates c' n' o')
  | rules {R R' : Pairing D} {w w' : Workspace} {x x' : Expansion}
    (h : Coupled.Back b R' w w' x.checkpoint x'.checkpoint)
    (hgoal : Linked R' (w.rollback x.checkpoint) (w'.rollback x'.checkpoint) ⟨x.goal, x.env⟩ ⟨x'.goal, x'.env⟩)
    (hsame : x'.rules = x.rules)
    (hx : ∀ t ∈ x.rules,
      Linked R' (w.rollback x.checkpoint) (w'.rollback x'.checkpoint) ⟨t, x.ruleEnv⟩ ⟨t, x'.ruleEnv⟩)
    {n n' : Agenda} (hn : Agenda.Matched b p R' (w.rollback x.checkpoint) (w'.rollback x'.checkpoint) n n')
    {o o' : Alternatives} (ho : Alternatives.Matched b p R' (w.rollback x.checkpoint) (w'.rollback x'.checkpoint) o o') :
    Alternatives.Matched b p R w w' (.rules x n o) (.rules x' n' o')
  /-- The rule is come back to. -/
  | back {R : Pairing D} {w w' : Workspace} (goal : Term) (env : EnvId) {o o' : Alternatives}
    (ho : Alternatives.Matched b p R w w' o o') : Alternatives.Matched b p R w w' (.reenter goal env o) o'
  /-- No further rule fits. -/
  | past {R : Pairing D} {w w' : Workspace} {x : Expansion} (hx : ∀ t ∈ x.rules, x.goal.Passes t) (n : Agenda) :
    Alternatives.Matched b p R w w' (.rules x n .none) .none
end

mutual
/-- What is left to prove is linked still when related readings are, and nothing is lost. -/
theorem Agenda.Matched.onward : {R R₁ : Pairing D} → {w w' w₁ w₁' : Workspace} → {n n' : Agenda} →
    Agenda.Matched b p R w w' n n' → (∀ {θ θ'}, R₁ θ θ' → R θ θ') → w.Onward w₁ → w'.Onward w₁' →
      Agenda.Matched b p R₁ w₁ w₁' n n'
  | _, _, _, _, _, _, _, _, .done h, hR, hw, hw' => .done (h.mono hR hw.size_envs hw'.size_envs)
  | _, _, _, _, _, _, _, _, .goals h hn, hR, hw, hw' =>
    .goals (h.mono hR hw.size_envs hw'.size_envs) (hn.onward hR hw hw')
  | _, _, _, _, _, _, _, _, .leave goal goal' env env' hn, hR, hw, hw' => .leave goal goal' env env' (hn.onward hR hw hw')
  | _, _, _, _, _, _, _, _, .refuted h ho, _, hw, hw' =>
    .refuted (h.onward hw hw') (ho.onward id (hw.rollback h.le) (hw'.rollback h.le'))
  | _, _, _, _, _, _, _, _, .through env hn, hR, hw, hw' => .through env (hn.onward hR hw hw')
  | _, _, _, _, _, _, _, _, .out goal env hn, hR, hw, hw' => .out goal env (hn.onward hR hw hw')

theorem Alternatives.Matched.onward : {R R₁ : Pairing D} → {w w' w₁ w₁' : Workspace} → {o o' : Alternatives} →
    Alternatives.Matched b p R w w' o o' → (∀ {θ θ'}, R₁ θ θ' → R θ θ') → w.Onward w₁ → w'.Onward w₁' →
      Alternatives.Matched b p R₁ w₁ w₁' o o'
  | _, _, _, _, _, _, _, _, .none, _, _, _ => .none
  | _, _, _, _, _, _, _, _, .undo h ho, _, hw, hw' =>
    .undo (h.onward hw hw') (ho.onward id (hw.rollback h.le) (hw'.rollback h.le'))
  | _, _, _, _, _, _, _, _, .reenter goal goal' env env' ho, hR, hw, hw' =>
    .reenter goal goal' env env' (ho.onward hR hw hw')
  | _, _, _, _, _, _, _, _, .absent hn ho, hR, hw, hw' => .absent (hn.onward hR hw hw') (ho.onward hR hw hw')
  | _, _, _, _, _, _, _, _, .disjuncts h hn ho, hR, hw, hw' =>
    .disjuncts (h.mono hR hw.size_envs hw'.size_envs) (hn.onward hR hw hw') (ho.onward hR hw hw')
  | _, _, _, _, _, _, _, _, .candidates h horigin ht hc hn ho, _, hw, hw' =>
    have hback := hw.rollback h.le
    have hback' := hw'.rollback h.le'
    .candidates (h.onward hw hw') horigin (ht.mono id hback.size_envs hback'.size_envs)
      (hc.mono id hback.size_envs hback'.size_envs) (hn.onward id hback hback') (ho.onward id hback hback')
  | _, _, _, _, _, _, _, _, .rules h hgoal hsame hx hn ho, _, hw, hw' =>
    have hback := hw.rollback h.le
    have hback' := hw'.rollback h.le'
    .rules (h.onward hw hw') (hgoal.mono id hback.size_envs hback'.size_envs) hsame
      (fun t ht => (hx t ht).mono id hback.size_envs hback'.size_envs) (hn.onward id hback hback')
      (ho.onward id hback hback')
  | _, _, _, _, _, _, _, _, .back goal env ho, hR, hw, hw' => .back goal env (ho.onward hR hw hw')
  | _, _, _, _, _, _, _, _, .past hx n, _, _, _ => .past hx n
end

/-- The machines are in coupled workspaces, and what they are to do is linked, or both have tried everything. -/
inductive Machine.Matched (D : Type) [Values D] (b : Bool) (p : Term × Term) : Machine → Machine → Prop
  | prove {R : Pairing D} {w w' : Workspace} (h : Coupled b R w w') {goal goal' : Term} {env env' : EnvId}
    (hgoal : Linked R w w' ⟨goal, env⟩ ⟨goal', env'⟩) {n n' : Agenda} (hn : Agenda.Matched b p R w w' n n')
    {o o' : Alternatives} (ho : Alternatives.Matched b p R w w' o o') :
    Machine.Matched D b p ⟨.prove goal env n o, w⟩ ⟨.prove goal' env' n' o', w'⟩
  | proved {R : Pairing D} {w w' : Workspace} (h : Coupled b R w w') {n n' : Agenda}
    (hn : Agenda.Matched b p R w w' n n') {o o' : Alternatives} (ho : Alternatives.Matched b p R w w' o o') :
    Machine.Matched D b p ⟨.proved n o, w⟩ ⟨.proved n' o', w'⟩
  | failed {R : Pairing D} {w w' : Workspace} (h : Coupled b R w w') {o o' : Alternatives}
    (ho : Alternatives.Matched b p R w w' o o') : Machine.Matched D b p ⟨.failed o, w⟩ ⟨.failed o', w'⟩
  | ended (w w' : Workspace) : Machine.Matched D b p ⟨.failed .none, w⟩ ⟨.failed .none, w'⟩

/-! ### Unification -/

theorem triedWithin_cons {attempt : Term → Option (Option Store)} {t : Term} {ts : List Term}
    (h : triedWithin attempt (t :: ts) = true) :
    ∃ r, attempt t = some r ∧ (r = none → triedWithin attempt ts = true) := by
  unfold triedWithin at h
  split at h
  · rename_i s hs
    exact ⟨some s, hs, fun hr => by cases hr⟩
  · rename_i hs
    exact ⟨none, hs, fun _ => h⟩
  · cases h

/-- What comes after terms that are passed over is tried within the allowance as well. -/
theorem triedWithin_of_append {within : Term → Option (Option Store)} {attempt : Term → Bool × Store}
    (hends : ∀ t r, within t = some r → Store.Ends (attempt t) r) {ts us : List Term}
    (h : triedWithin within (ts ++ us) = true) (hts : ∀ t ∈ ts, (attempt t).1 = false) : triedWithin within us = true := by
  have hnone := passed_of_triedWithin hends h hts
  clear hts
  induction ts with
  | nil => exact h
  | cons t ts ih =>
    rw [List.forall_mem_cons] at hnone
    rw [List.cons_append, triedWithin, hnone.1] at h
    exact ih h hnone.2

namespace Coupled

variable {c c' d d' : Closure} {r r' : Option Store}

/-- Linked closures are made equal in both stores, which are coupled then, or in neither of them. -/
theorem unify_or (hD : Values.Suits D b) (h : Coupled b R w w') (hc : Linked R w w' c c') (hd : Linked R w w' d d')
    (hr : Store.unifyWithin allowance c.term c.env d.term d.env w.store = some r)
    (hr' : Store.unifyWithin allowance c'.term c'.env d'.term d'.env w'.store = some r') :
    (∃ s s', w.store.unify c.term c.env d.term d.env = (true, s) ∧
      w'.store.unify c'.term c'.env d'.term d'.env = (true, s') ∧
        Coupled b (R.within s s') ⟨s, w.names⟩ ⟨s', w'.names⟩) ∨
      r = none ∧ r' = none ∧ w.store.unify c.term c.env d.term d.env = (false, w.store) ∧
        w'.store.unify c'.term c'.env d'.term d'.env = (false, w'.store) := by
  have hrel := h.unify hD hc hd hr hr'
  have hunify := Store.unify_of_within hr
  have hunify' := Store.unify_of_within hr'
  cases hrel with
  | none => exact .inr ⟨rfl, rfl, hunify, hunify'⟩
  | some hs => exact .inl ⟨_, _, hunify, hunify', hs⟩

end Coupled

/-- What is bound in both stores is bound onward. -/
theorem Workspace.Onward.unify {x y : Term} {ex ey : EnvId} {s : Store} (h : w.store.unify x ex y ey = (true, s)) :
    w.Onward ⟨s, w.names⟩ := .of_extends (Store.unify_extends h) (Nat.le_refl _)

namespace Machine

variable {src : Sources} {limit : Nat}

/-- After a unification the searches go back to where they were. -/
theorem back_of_unify {x y x' y' : Term} {ex ey ex' ey' : EnvId} {s s' : Store} (h : Coupled b R w w')
    (hs : w.store.unify x ex y ey = (true, s)) (hs' : w'.store.unify x' ex' y' ey' = (true, s')) :
    Coupled.Back b R ⟨s, w.names⟩ ⟨s', w'.names⟩ w.store.checkpoint w'.store.checkpoint :=
  h.back.onward (.unify hs) (.unify hs')

theorem rollback_of_unify {x y : Term} {ex ey : EnvId} {s : Store} (hs : w.store.unify x ex y ey = (true, s)) :
    Workspace.rollback ⟨s, w.names⟩ w.store.checkpoint = w := by
  unfold Workspace.rollback
  dsimp only
  rw [(Store.unify_extends hs).rollback_eq]

variable {s s' : Store} {x y x' y' : Term} {ex ey ex' ey' : EnvId}

/-- Going on after a unification. -/
theorem matched_onward_of_unify (hs : w.store.unify x ex y ey = (true, s)) (hs' : w'.store.unify x' ex' y' ey' = (true, s'))
    (hn : Agenda.Matched b p R w w' n n') :
    Agenda.Matched b p (R.within s s') ⟨s, w.names⟩ ⟨s', w'.names⟩ n n' :=
  hn.onward (fun hR => hR.1) (.unify hs) (.unify hs')

/-- The candidates that are left to try after a unification are linked where the searches go back to. -/
theorem matched_others {c c' : Cursor} {l l' : List Term} (h : Coupled b R w w') (hn : Agenda.Matched b p R w w' n n')
    (ho : Alternatives.Matched b p R w w' o o') (hs : w.store.unify x ex y ey = (true, s))
    (hs' : w'.store.unify x' ex' y' ey' = (true, s')) (hcp : c.checkpoint = w.store.checkpoint)
    (hcp' : c'.checkpoint = w'.store.checkpoint) (horigin : c'.origin = c.origin)
    (ht : Linked R w w' ⟨c.target, c.env⟩ ⟨c'.target, c'.env⟩)
    (hl : LinkedAll R w w' c.candidateEnv c'.candidateEnv l l') :
    Alternatives.Matched b p (R.within s s') ⟨s, w.names⟩ ⟨s', w'.names⟩ (c.others l n o) (c'.others l' n' o') := by
  have hcandidates : Alternatives.Matched b p (R.within s s') ⟨s, w.names⟩ ⟨s', w'.names⟩
      (.candidates { c with candidates := l } n o) (.candidates { c' with candidates := l' } n' o') := by
    refine @Alternatives.Matched.candidates D _ b p _ R _ _ { c with candidates := l } { c' with candidates := l' } ?_ horigin
      ?_ ?_ n n' ?_ o o' ?_
    all_goals dsimp only
    all_goals rw [hcp, hcp']
    · exact back_of_unify h hs hs'
    all_goals rw [rollback_of_unify hs, rollback_of_unify hs']
    · exact ht
    · exact hl
    · exact hn
    · exact ho
  unfold Cursor.others
  dsimp only
  by_cases hfacts : c.origin = .facts
  · rw [if_pos hfacts, if_pos (horigin.trans hfacts)]
    exact .reenter _ _ _ _ hcandidates
  · rw [if_neg hfacts, if_neg (horigin ▸ hfacts)]
    exact hcandidates

/-- Going over linked candidates for linked targets. -/
theorem matched_tryCandidates (hD : Values.Suits D b) (h : Coupled b R w w') (hn : Agenda.Matched b p R w w' n n')
    (ho : Alternatives.Matched b p R w w' o o') {c c' : Cursor} {l l' : List Term}
    (hcp : c.checkpoint = w.store.checkpoint) (hcp' : c'.checkpoint = w'.store.checkpoint) (horigin : c'.origin = c.origin)
    (ht : Linked R w w' ⟨c.target, c.env⟩ ⟨c'.target, c'.env⟩)
    (hl : LinkedAll R w w' c.candidateEnv c'.candidateEnv l l')
    (hwithin : triedWithin (c.attemptWithin w.store) l = true)
    (hwithin' : triedWithin (c'.attemptWithin w'.store) l' = true) :
    Agree limit (Matched D b p) (tryCandidates src c n o l w) (tryCandidates src c' n' o' l' w') := by
  induction hl with
  | nil =>
    rw [tryCandidates_nil, tryCandidates_nil]
    exact .tick (agree_pure (.failed h ho))
  | @cons t t' rest rest' hcandidate hrest ih =>
    obtain ⟨r, hr, hmore⟩ := triedWithin_cons hwithin
    obtain ⟨r', hr', hmore'⟩ := triedWithin_cons hwithin'
    rcases h.unify_or hD ht hcandidate hr hr' with ⟨s, s', hs, hs', hcoupled⟩ | ⟨rfl, rfl, hs, hs'⟩
    · rw [tryCandidates_of_unify hs, tryCandidates_of_unify hs']
      refine .tick (.tick (agree_pure (.proved hcoupled (matched_onward_of_unify hs hs' hn) ?_)))
      exact matched_others h hn ho hs hs' hcp hcp' horigin ht hrest
    · rw [tryCandidates_of_not_unify (congrArg Prod.fst hs), tryCandidates_of_not_unify (congrArg Prod.fst hs')]
      exact .tick (ih (hmore rfl) (hmore' rfl))

/-- The rules that are left to try after a unification are linked where the searches go back to. -/
theorem matched_others_rules {e e' : Expansion} {l : List Term} (h : Coupled b R w w')
    (hn : Agenda.Matched b p R w w' n n') (ho : Alternatives.Matched b p R w w' o o')
    (hs : w.store.unify x ex y ey = (true, s)) (hs' : w'.store.unify x' ex' y' ey' = (true, s'))
    (hcp : e.checkpoint = w.store.checkpoint) (hcp' : e'.checkpoint = w'.store.checkpoint)
    (hgoal : Linked R w w' ⟨e.goal, e.env⟩ ⟨e'.goal, e'.env⟩)
    (hl : ∀ t ∈ l, Linked R w w' ⟨t, e.ruleEnv⟩ ⟨t, e'.ruleEnv⟩) :
    Alternatives.Matched b p (R.within s s') ⟨s, w.names⟩ ⟨s', w'.names⟩ (.rules { e with rules := l } n o)
      (.rules { e' with rules := l } n' o') := by
  refine @Alternatives.Matched.rules D _ b p _ R _ _ { e with rules := l } { e' with rules := l } ?_ ?_ rfl ?_ n n' ?_ o o' ?_
  all_goals dsimp only
  all_goals rw [hcp, hcp']
  · exact back_of_unify h hs hs'
  all_goals rw [rollback_of_unify hs, rollback_of_unify hs']
  · exact hgoal
  · exact hl
  · exact hn
  · exact ho

/-- Going over the same rules for linked goals. -/
theorem matched_tryRules (hD : Values.Suits D b) (h : Coupled b R w w') (hn : Agenda.Matched b p R w w' n n')
    (ho : Alternatives.Matched b p R w w' o o') {e e' : Expansion} {l : List Term}
    (hcp : e.checkpoint = w.store.checkpoint) (hcp' : e'.checkpoint = w'.store.checkpoint)
    (hgoal : Linked R w w' ⟨e.goal, e.env⟩ ⟨e'.goal, e'.env⟩)
    (hl : ∀ t ∈ l, Linked R w w' ⟨t, e.ruleEnv⟩ ⟨t, e'.ruleEnv⟩)
    (hwithin : triedWithin (e.attemptWithin w.store) l = true)
    (hwithin' : triedWithin (e'.attemptWithin w'.store) l = true) :
    Agree limit (Matched D b p) (tryRules src e n o l w) (tryRules src e' n' o' l w') := by
  induction l with
  | nil =>
    rw [tryRules_nil, tryRules_nil]
    exact .tick (agree_pure (.failed h ho))
  | cons t rest ih =>
    rw [List.forall_mem_cons] at hl
    obtain ⟨r, hr, hmore⟩ := triedWithin_cons hwithin
    obtain ⟨r', hr', hmore'⟩ := triedWithin_cons hwithin'
    unfold Expansion.attemptWithin at hr hr'
    cases hrule : t.asRule with
    | some rule =>
      obtain ⟨head, body⟩ := rule
      simp only [hrule] at hr hr'
      obtain rfl := Term.eq_of_asRule hrule
      have hparts := (h.args hD hl.1).2
      obtain ⟨hhead, hbody⟩ := List.forall₂_cons.1 hparts
      rcases h.unify_or hD hhead hgoal hr hr' with ⟨s, s', hs, hs', hcoupled⟩ | ⟨rfl, rfl, hs, hs'⟩
      · rw [tryRules_of_head hrule hs, tryRules_of_head hrule hs']
        refine .tick (agree_pure (.proved hcoupled (.goals ?_ (.leave _ _ _ _ (matched_onward_of_unify hs hs' hn))) ?_))
        · have honward := Workspace.Onward.unify hs
          have honward' := Workspace.Onward.unify hs'
          exact LinkedAll.mono hbody (fun hR => hR.1) honward.size_envs honward'.size_envs
        · exact matched_others_rules h hn ho hs hs' hcp hcp' hgoal hl.2
      · rw [tryRules_of_not_head hrule (congrArg Prod.fst hs), tryRules_of_not_head hrule (congrArg Prod.fst hs')]
        exact .tick (ih hl.2 (hmore rfl) (hmore' rfl))
    | none =>
      simp only [hrule] at hr hr'
      rcases h.unify_or hD hgoal hl.1 hr hr' with ⟨s, s', hs, hs', hcoupled⟩ | ⟨rfl, rfl, hs, hs'⟩
      · rw [tryRules_of_sentence hrule hs, tryRules_of_sentence hrule hs']
        refine .tick (.tick (agree_pure (.proved hcoupled (matched_onward_of_unify hs hs' hn) (.reenter _ _ _ _ ?_))))
        exact matched_others_rules h hn ho hs hs' hcp hcp' hgoal hl.2
      · rw [tryRules_of_not_sentence hrule (congrArg Prod.fst hs), tryRules_of_not_sentence hrule (congrArg Prod.fst hs')]
        exact .tick (ih hl.2 (hmore rfl) (hmore' rfl))

end Machine

end Deduction
