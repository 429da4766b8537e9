import Deduction.Proofs.Datalog.Offers

/-!
# Moves on a Datalog program

A move of a machine on a Datalog program leads to such a machine. What the machine offers afterwards it has offered
before, and unless an attempt to unify is cut off, it still offers what it has offered before
(`Machine.IsDatalog.move`).
-/

namespace Deduction

open Store (Flat IsFlatGoal IsArgument ReturnsLike)

variable {U : Term → Prop} {Q : String → Prop} {program : List Term} {s s' : Store} {x : Expansion} {c : Cursor}
  {t goal : Term} {env : EnvId} {next : Agenda} {otherwise : Alternatives} {w : Workspace} {ts rest : List Term}
  {M : Term → Prop} {θ : Valuation}

/-! ### Clauses as goals -/

theorem isDatalogGoal_of_isAtom (h : t.isAtom = true) (hconst : ∀ a, .sym a ∈ t.args → U (.sym a)) {k : Nat}
    (henv : env < k) (hne : env ≠ Search.queryEnv) : IsDatalogGoal U Q k t env := by
  refine ⟨h, ⟨?_, fun a ha => ?_⟩, henv⟩
  · cases t with
    | var v => cases h
    | sym a => rfl
    | compound f args => rfl
  · cases a with
    | var v => exact fun hc => absurd hc hne
    | sym b => exact hconst b ha
    | compound g us =>
      cases t with
      | var v => cases ha
      | sym a => cases ha
      | compound f args =>
        rw [Term.isAtom, Bool.and_eq_true, List.all_eq_true] at h
        have := h.2 _ ha
        cases this

/-- The head and the goals of a clause are goals in an environment of their own. -/
theorem isDatalogGoal_of_mem (hprogram : program.all Term.isClause = true) (hU : IsUniverse U program)
    (ht : t ∈ program) {k : Nat} (henv : env < k) (hne : env ≠ Search.queryEnv) :
    IsDatalogGoal U Q k t.headOrSelf env ∧ ∀ g ∈ t.body, IsDatalogGoal U Q k g env := by
  obtain ⟨hhead, hbody⟩ := Term.isAtom_of_isClause (List.all_eq_true.1 hprogram t ht)
  have hconst (g : Term) (hg : g ∈ t.headOrSelf :: t.body) (a : String) (ha : .sym a ∈ g.args) : U (.sym a) := by
    refine hU.constant t ht a ?_
    exact List.mem_flatMap.2 ⟨g, hg, List.mem_filterMap.2 ⟨_, ha, rfl⟩⟩
  refine ⟨isDatalogGoal_of_isAtom hhead (hconst _ List.mem_cons_self) henv hne, fun g hg => ?_⟩
  exact isDatalogGoal_of_isAtom (hbody g hg) (hconst g (List.mem_cons_of_mem _ hg)) henv hne

/-! ### Trying a clause -/

/-- A clause that fits leaves a flat store, with the valuations that make the goal an instance of its head. -/
theorem Expansion.IsDatalog.attempt (hx : x.IsDatalog U Q program s) (hs : s.Flat U Q Search.queryEnv)
    (hprogram : program.all Term.isClause = true) (hU : IsUniverse U program) (ht : t ∈ program)
    (h : x.attempt s t = (true, s')) :
    s'.Flat U Q Search.queryEnv ∧ s.Extends s' ∧
      ∀ θ : Valuation, θ.Respects s' ↔ θ.Respects s ∧ θ.read x.env x.goal = θ.read x.ruleEnv t.headOrSelf := by
  have hhead : IsDatalogGoal U Q s.envs.size t.headOrSelf x.ruleEnv :=
    (isDatalogGoal_of_mem hprogram hU ht hx.ruleEnv_lt hx.ruleEnv_ne).1
  cases hrule : t.asRule with
  | some rule =>
    obtain ⟨head, body⟩ := rule
    have hself : t.headOrSelf = head := by rw [Term.headOrSelf, hrule]
    rw [x.attempt_of_rule hrule] at h
    rw [hself] at hhead ⊢
    refine ⟨hs.unify hhead.flat hx.goal.flat hx.ruleEnv_lt hx.goal.env_lt h, Store.unify_extends h, fun θ => ?_⟩
    rw [hs.wellFormed.respects_unify hx.ruleEnv_lt hx.goal.env_lt h, eq_comm]
  | none =>
    have hself : t.headOrSelf = t := by rw [Term.headOrSelf, hrule]
    rw [x.attempt_of_sentence hrule] at h
    rw [hself] at hhead ⊢
    refine ⟨hs.unify hx.goal.flat hhead.flat hx.goal.env_lt hx.ruleEnv_lt h, Store.unify_extends h, fun θ => ?_⟩
    rw [hs.wellFormed.respects_unify hx.goal.env_lt hx.ruleEnv_lt h]

/-- No valuation makes the goal an instance of the head of a clause that does not fit. -/
theorem Expansion.IsDatalog.ne_of_attempt (hx : x.IsDatalog U Q program s) (hs : s.Flat U Q Search.queryEnv)
    (h : x.attemptWithin s t = some none) (hθ : θ.Respects s) :
    θ.read x.env x.goal ≠ θ.read x.ruleEnv t.headOrSelf := by
  unfold attemptWithin at h
  unfold Term.headOrSelf
  cases hrule : t.asRule with
  | some rule =>
    simp only [hrule] at h ⊢
    exact (Store.unifyWithin_valuations hs.wellFormed hθ hx.ruleEnv_lt hx.goal.env_lt h).symm
  | none =>
    simp only [hrule] at h ⊢
    exact Store.unifyWithin_valuations hs.wellFormed hθ hx.goal.env_lt hx.ruleEnv_lt h

/-! ### What is left to prove and to try -/

theorem holds_agenda : (x.agenda t next).Holds M θ ↔ (∀ g ∈ t.body, M (θ.read x.ruleEnv g)) ∧ next.Holds M θ := by
  unfold Term.body
  cases hrule : t.asRule with
  | some rule =>
    obtain ⟨head, body⟩ := rule
    rw [x.agenda_of_rule hrule]
    rfl
  | none =>
    rw [x.agenda_of_sentence hrule]
    simp

theorem isDatalog_agenda (hprogram : program.all Term.isClause = true) (hU : IsUniverse U program) (ht : t ∈ program)
    {k : Nat} (henv : x.ruleEnv < k) (hne : x.ruleEnv ≠ Search.queryEnv) (hnext : next.IsDatalog U Q k) :
    (x.agenda t next).IsDatalog U Q k := by
  have hbody := (isDatalogGoal_of_mem (Q := Q) hprogram hU ht henv hne).2
  unfold Term.body at hbody
  cases hrule : t.asRule with
  | some rule =>
    obtain ⟨head, body⟩ := rule
    rw [hrule] at hbody
    rw [x.agenda_of_rule hrule]
    exact .goals hbody (.leave hnext)
  | none => rwa [x.agenda_of_sentence hrule]

theorem offers_others : (x.others t rest next otherwise).Offers M θ s ↔
    (θ.Respects (s.rollback x.checkpoint) ∧ next.Holds M θ ∧ ∃ u ∈ rest, IsAnsweredBy M θ x.goal x.env u x.ruleEnv) ∨
      otherwise.Offers M θ s := by
  unfold Expansion.others
  split <;> rfl

theorem isDatalog_others {cp : Checkpoint}
    (h : (Alternatives.rules { x with rules := rest } next otherwise).IsDatalog U Q program s cp) :
    (x.others t rest next otherwise).IsDatalog U Q program s cp := by
  unfold Expansion.others
  split
  · exact h
  · exact .reenter h

/-! ### Trying clauses in turn -/

namespace Machine

/-- What is offered where clauses are about to be tried for a goal. -/
def OffersTrying (M : Term → Prop) (θ : Valuation) (x : Expansion) (next : Agenda) (otherwise : Alternatives)
    (ts : List Term) (s : Store) : Prop :=
  (θ.Respects s ∧ next.Holds M θ ∧ ∃ t ∈ ts, IsAnsweredBy M θ x.goal x.env t x.ruleEnv) ∨ otherwise.Offers M θ s

/-- The machine goes on as a machine on the program that is about to try clauses. -/
structure GoesOn (U : Term → Prop) (Q : String → Prop) (program : List Term) (x : Expansion) (next : Agenda)
    (otherwise : Alternatives) (ts : List Term) (s : Store) (m : Machine) : Prop where
  isDatalog : m.IsDatalog U Q program
  sound : ∀ M θ, m.Offers M θ → OffersTrying M θ x next otherwise ts s
  complete : triedWithin (x.attemptWithin s) ts = true → ∀ M θ, OffersTrying M θ x next otherwise ts s → m.Offers M θ

theorem moveRules_goesOn (hprogram : program.all Term.isClause = true) (hU : IsUniverse U program)
    (hs : w.store.Flat U Q Search.queryEnv) (hx : x.IsDatalog U Q program w.store) (hts : ∀ t ∈ ts, t ∈ program)
    (hcp : x.checkpoint = w.store.checkpoint) (hnext : next.IsDatalog U Q w.store.envs.size)
    (hother : otherwise.IsDatalog U Q program w.store x.checkpoint) :
    GoesOn U Q program x next otherwise ts w.store (moveRules x next otherwise ts w) := by
  have hquery : Search.queryEnv < w.store.envs.size := Nat.lt_of_le_of_lt (Nat.zero_le _) hx.ruleEnv_lt
  unfold moveRules
  cases hfit : firstFit (x.attempt w.store) ts with
  | none =>
    refine ⟨⟨hquery, hcp ▸ hother⟩, fun M θ h => Or.inr h, fun hwithin M θ h => ?_⟩
    rcases h with ⟨hθ, -, t, ht, hans, -⟩ | h
    · have hpassed := passed_of_triedWithin x.ends_attempt (ts.append_nil.symm ▸ hwithin) (firstFit_eq_none hfit)
      exact absurd hans (hx.ne_of_attempt hs (hpassed t ht) hθ)
    · exact h
  | some fit =>
    obtain ⟨t, rest, s'⟩ := fit
    obtain ⟨passed, rfl, hpassed, hattempt⟩ := firstFit_eq_some hfit
    have ht : t ∈ program := hts t (by simp)
    have hrest (u : Term) (hu : u ∈ rest) : u ∈ program := hts u (by simp [hu])
    obtain ⟨hflat, hext, hrespects⟩ := hx.attempt hs hprogram hU ht hattempt
    have hsize := hext.size_envs
    have hback : s'.rollback x.checkpoint = w.store := by rw [hcp, hext.rollback_eq]
    have hlike : ReturnsLike x.checkpoint w.store s' := hcp ▸ .of_extends hext
    have hoffers (M : Term → Prop) (θ : Valuation) :
        Offers M θ ⟨.proved (x.agenda t next) (x.others t rest next otherwise), ⟨s', w.names⟩⟩ ↔
          OffersTrying M θ x next otherwise (t :: rest) w.store := by
      unfold Offers OffersTrying
      dsimp only
      rw [hrespects θ, holds_agenda, offers_others, hback, hother.offers_iff hlike]
      simp only [List.exists_mem_cons_iff]
      constructor
      · rintro (⟨⟨hθ, heq⟩, hbody, hholds⟩ | ⟨hθ, hholds, h⟩ | h)
        · exact Or.inl ⟨hθ, hholds, Or.inl ⟨heq, hbody⟩⟩
        · exact Or.inl ⟨hθ, hholds, Or.inr h⟩
        · exact Or.inr h
      · rintro (⟨hθ, hholds, ⟨heq, hbody⟩ | h⟩ | h)
        · exact Or.inl ⟨⟨hθ, heq⟩, hbody, hholds⟩
        · exact Or.inr (Or.inl ⟨hθ, hholds, h⟩)
        · exact Or.inr (Or.inr h)
    refine ⟨⟨by rwa [hsize], hflat, ?_, isDatalog_others ?_⟩, fun M θ h => ?_, fun hwithin M θ h => ?_⟩
    · exact isDatalog_agenda hprogram hU ht (hsize.symm ▸ hx.ruleEnv_lt) hx.ruleEnv_ne (hsize.symm ▸ hnext)
    · refine .rules (hcp ▸ hext.size_trail) (by rwa [hback]) ?_ (hsize.symm ▸ hnext) (hother.returnsLike hlike)
      exact ⟨hsize.symm ▸ hx.goal, hsize.symm ▸ hx.ruleEnv_lt, hx.ruleEnv_ne, hrest⟩
    · refine ((hoffers M θ).1 h).imp (fun ⟨hθ, hholds, u, hu, hans⟩ => ⟨hθ, hholds, u, ?_, hans⟩) id
      exact List.mem_append_right _ hu
    · refine (hoffers M θ).2 (h.imp (fun ⟨hθ, hholds, u, hu, hans⟩ => ⟨hθ, hholds, u, ?_, hans⟩) id)
      refine (List.mem_append.1 hu).resolve_left fun hu' => ?_
      exact hx.ne_of_attempt hs (passed_of_triedWithin x.ends_attempt hwithin hpassed u hu') hθ hans.1

/-- A cursor on facts goes on like the clauses that it stands for. -/
theorem moveCandidates_goesOn (hprogram : program.all Term.isClause = true) (hU : IsUniverse U program)
    (hs : w.store.Flat U Q Search.queryEnv) (hx : c.expansion.IsDatalog U Q program w.store)
    (hfacts : c.origin = .facts) (hts : ∀ t ∈ ts, t ∈ program ∧ t.asRule = none)
    (hcp : c.checkpoint = w.store.checkpoint) (hnext : next.IsDatalog U Q w.store.envs.size)
    (hother : otherwise.IsDatalog U Q program w.store c.checkpoint) :
    GoesOn U Q program c.expansion next otherwise ts w.store (moveCandidates c next otherwise ts w) := by
  have hrules := moveRules_goesOn hprogram hU hs hx (fun t ht => (hts t ht).1) hcp hnext hother
  have hattempt (t : Term) (ht : t ∈ ts) : c.attempt w.store t = c.expansion.attempt w.store t :=
    (c.expansion.attempt_of_sentence (hts t ht).2 w.store).symm
  have hfit : firstFit (c.attempt w.store) ts = firstFit (c.expansion.attempt w.store) ts := firstFit_congr hattempt
  unfold moveCandidates
  unfold moveRules at hrules
  rw [hfit]
  cases hfirst : firstFit (c.expansion.attempt w.store) ts with
  | none =>
    simp only [hfirst] at hrules ⊢
    exact hrules
  | some fit =>
    obtain ⟨t, rest, s'⟩ := fit
    obtain ⟨passed, hsplit, -, -⟩ := firstFit_eq_some hfirst
    have hrule : t.asRule = none := (hts t (by simp [hsplit])).2
    have hrest (u : Term) (hu : u ∈ rest) : u.asRule = none := (hts u (by simp [hsplit, hu])).2
    simp only [hfirst, Expansion.agenda_of_sentence hrule, Expansion.others_of_sentence hrule] at hrules ⊢
    obtain ⟨⟨hquery, hflat, hagenda, hreenter⟩, hsound, hcomplete⟩ := hrules
    have hothers : c.others rest next otherwise =
        .reenter c.target c.env (.candidates { c with candidates := rest } next otherwise) := by
      unfold Cursor.others
      rw [if_pos hfacts]
    rw [hothers]
    refine ⟨⟨hquery, hflat, hagenda, ?_⟩, hsound, hcomplete⟩
    cases hreenter with
    | reenter h =>
      cases h with
      | rules hle hstore hx' hnext' h => exact .reenter (.candidates hle hstore hx' ⟨hfacts, hrest⟩ hnext' h)

/-! ### Moves -/

/-- The machine may still come to the instance of the query. -/
def Gives (U : Term → Prop) (program : List Term) (query : Term) (m : Machine) (a : Term) : Prop :=
  ∃ θ : Valuation, (∀ v env, U (θ v env)) ∧ m.Offers (LeastModel U program) θ ∧ θ.read Search.queryEnv query = a

/-- The second machine is on the program, and it gives what the first one gives. -/
structure Follows (U : Term → Prop) (Q : String → Prop) (program : List Term) (query : Term) (src : Sources)
    (m m' : Machine) : Prop where
  isDatalog : m'.IsDatalog U Q program
  sound : ∀ a, m'.Gives U program query a → m.Gives U program query a
  complete : m.triesWithin src = true → ∀ a, m.Gives U program query a → m'.Gives U program query a

variable {query : Term} {src : Sources} {m m' : Machine} {config : Config} {datasets : List (String × Theory)}

/-- A machine with the same offers gives the same. -/
theorem follows_of_offers_iff (h : m'.IsDatalog U Q program)
    (hoffers : ∀ M θ, m'.Offers M θ ↔ m.Offers M θ) : Follows U Q program query src m m' where
  isDatalog := h
  sound _ := fun ⟨θ, hU, hm, ha⟩ => ⟨θ, hU, (hoffers _ θ).1 hm, ha⟩
  complete _ _ := fun ⟨θ, hU, hm, ha⟩ => ⟨θ, hU, (hoffers _ θ).2 hm, ha⟩

/-- A machine that goes on to try clauses gives what is offered there. -/
theorem follows_of_goesOn (h : GoesOn U Q program x next otherwise ts s m')
    (hsound : ∀ θ : Valuation, (∀ v env, U (θ v env)) →
      OffersTrying (LeastModel U program) θ x next otherwise ts s → m.Offers (LeastModel U program) θ)
    (hwithin : m.triesWithin src = true → triedWithin (x.attemptWithin s) ts = true)
    (hcomplete : ∀ θ : Valuation, (∀ v env, U (θ v env)) → m.Offers (LeastModel U program) θ →
      ∃ θ' : Valuation, (∀ v env, U (θ' v env)) ∧ OffersTrying (LeastModel U program) θ' x next otherwise ts s ∧
        θ'.read Search.queryEnv query = θ.read Search.queryEnv query) : Follows U Q program query src m m' where
  isDatalog := h.isDatalog
  sound _ := fun ⟨θ, hU, hm, ha⟩ => ⟨θ, hU, hsound θ hU (h.sound _ θ hm), ha⟩
  complete htries _ := fun ⟨θ, hU, hm, ha⟩ =>
    have ⟨θ', hU', hm', ha'⟩ := hcomplete θ hU hm
    ⟨θ', hU', h.complete (hwithin htries) _ θ' hm', ha'.trans ha⟩

/-- An instance of a clause in the model makes its head follow. -/
theorem leastModel_of_isAnsweredBy {clause : Term} {clauseEnv : EnvId} (hθ : ∀ v env, U (θ v env)) (hclause : clause ∈ program)
    (h : IsAnsweredBy (LeastModel U program) θ goal env clause clauseEnv) : LeastModel U program (θ.read env goal) := by
  rw [h.1, Valuation.read_eq_instantiate]
  refine .intro hclause (fun v => hθ v clauseEnv) fun g hg => ?_
  rw [← Valuation.read_eq_instantiate]
  exact h.2 g hg

/-- A goal in the model is answered by some clause, with values for its variables in an environment that is new. -/
theorem exists_isAnsweredBy (h : LeastModel U program (θ.read env goal)) (hθ : ∀ v env, U (θ v env)) {clauseEnv : EnvId}
    (hne : env ≠ clauseEnv) :
    ∃ clause ∈ program, ∃ θ' : Valuation, (∀ v env, U (θ' v env)) ∧ (∀ v e, e ≠ clauseEnv → θ' v e = θ v e) ∧
      IsAnsweredBy (LeastModel U program) θ' goal env clause clauseEnv ∧
      ∃ σ, clause.headOrSelf.instantiate σ = θ.read env goal := by
  generalize ha : θ.read env goal = a at h
  cases h with
  | @intro clause σ hclause hσ hbody =>
    let θ' : Valuation := fun v e => if e = clauseEnv then σ v else θ v e
    have hnew (v : String) : θ' v clauseEnv = σ v := if_pos rfl
    have hold (v : String) (e : EnvId) (he : e ≠ clauseEnv) : θ' v e = θ v e := if_neg he
    have hread (g : Term) : θ'.read clauseEnv g = g.instantiate σ := by
      rw [Valuation.read_eq_instantiate]
      exact congrArg (fun σ => Term.instantiate σ g) (funext hnew)
    refine ⟨clause, hclause, θ', fun v e => ?_, hold, ⟨?_, fun g hg => hread g ▸ hbody g hg⟩, σ, rfl⟩
    · by_cases he : e = clauseEnv
      · rw [he, hnew]
        exact hσ v
      · rw [hold v e he]
        exact hθ v e
    · rw [hread, ← ha]
      exact Valuation.read_congr (fun v => hold v env hne) goal

theorem holds_congr {k : Nat} (h : next.IsDatalog U Q k) {θ' : Valuation} (heq : ∀ v e, e < k → θ' v e = θ v e) :
    next.Holds M θ' ↔ next.Holds M θ := by
  induction h with
  | done => rfl
  | leave _ ih => exact ih
  | goals hrest _ ih =>
    unfold Agenda.Holds
    rw [ih]
    refine and_congr_left fun _ => forall₂_congr fun t ht => ?_
    rw [Valuation.read_congr (fun v => heq v _ (hrest t ht).env_lt) t]

theorem respects_congr (hs : s.WellFormed) {θ' : Valuation} (heq : ∀ v e, e < s.envs.size → θ' v e = θ v e) :
    θ'.Respects s ↔ θ.Respects s := by
  refine forall₃_congr fun v e c => imp_congr_right fun hc => ?_
  rw [heq v e (Store.lt_size_of_lookup hc), Valuation.read_congr (fun v => heq v _ (hs.closed hc)) c.term]

/-- Coming to an atom whose relation has rules. -/
theorem follows_view (hprogram : program.all Term.isClause = true) (hU : IsUniverse U program)
    (hm : (⟨.prove goal env next otherwise, w⟩ : Machine).IsDatalog U Q program)
    {f : String} (hf : goal.functor? = some f)
    (hdefines : (Theory.ofList .rule (splitProgram program).2).defines f = true) :
    Follows U Q program query (.ofProgram program config datasets) ⟨.prove goal env next otherwise, w⟩
      (move (.ofProgram program config datasets) ⟨.prove goal env next otherwise, w⟩) := by
  obtain ⟨hsize, hs, hgoal, hnext, hother⟩ := hm
  dsimp only at hsize hs hgoal hnext hother
  set src := Sources.ofProgram program config datasets with hsrc
  set x := ruleExpansion src goal env w.store with hx
  have hresolve := Store.resolve_of_isAtom w.store hgoal.isAtom env
  have hkind : Goal.ofTerm src.rules goal = .view := by
    rw [Term.ofTerm_of_isAtom _ hgoal.isAtom hf, Goal.ofRelation]
    exact if_pos hdefines
  have hgrow : w.store.envs.size ≤ w.store.newEnv.2.envs.size := by
    rw [Store.size_envs_newEnv]
    exact Nat.le_succ _
  have hlike : ReturnsLike w.store.checkpoint w.store w.store.newEnv.2 := .of_newEnv _ _
  have hrules (t : Term) (ht : t ∈ src.rules.lookupIn w.store goal env) : t ∈ program := mem_of_mem_lookupIn_rules ht
  have hxdatalog : x.IsDatalog U Q program w.store.newEnv.2 :=
    ⟨hgoal.mono hgrow, Nat.lt_of_lt_of_eq (Nat.lt_succ_self _) (Store.size_envs_newEnv _).symm, Nat.ne_of_gt hsize,
      hrules⟩
  have hgoes := moveRules_goesOn (w := ⟨w.store.newEnv.2, w.names⟩) hprogram hU hs.newEnv hxdatalog hrules rfl
    (hnext.mono hgrow) (hother.returnsLike hlike)
  rw [move_view hresolve hkind]
  refine follows_of_goesOn hgoes (fun θ hθ h => ?_) (fun h => ?_) fun θ hθ h => ?_
  · rcases h with ⟨hrespects, hholds, t, ht, hans⟩ | h
    · exact Or.inl ⟨Valuation.respects_newEnv.1 hrespects,
        leastModel_of_isAnsweredBy hθ (hrules t ht) hans, hholds⟩
    · exact Or.inr ((hother.offers_iff hlike).1 h)
  · unfold triesWithin Goal.triedWithin at h
    dsimp only at h
    rw [hresolve] at h
    simp only [hkind] at h
    exact h
  · rcases h with ⟨hrespects, hmem, hholds⟩ | h
    · have hne : env ≠ x.ruleEnv := Nat.ne_of_lt hgoal.env_lt
      obtain ⟨t, ht, θ', hθ', hold, hans, σ, hσ⟩ := exists_isAnsweredBy hmem hθ hne
      have holder (v : String) (e : EnvId) (he : e < w.store.envs.size) : θ' v e = θ v e := hold v e (Nat.ne_of_lt he)
      have hhead : t.headOrSelf.functor? = some f := by
        have hatom := (Term.isAtom_of_isClause (List.all_eq_true.1 hprogram t ht)).1
        rw [← Term.functor_instantiate hatom σ, hσ, Valuation.read_eq_instantiate,
          Term.functor_instantiate hgoal.isAtom, hf]
      refine ⟨θ', hθ', Or.inl ⟨?_, (holds_congr hnext holder).2 hholds, t, ?_, hans⟩, ?_⟩
      · exact Valuation.respects_newEnv.2 ((respects_congr hs.wellFormed holder).2 hrespects)
      · exact mem_lookupIn_rules hprogram hgoal.isAtom hf ht hhead hdefines
      · exact Valuation.read_congr (fun v => holder v _ hsize) query
    · exact ⟨θ, hθ, Or.inr ((hother.offers_iff hlike).2 h), rfl⟩

/-- Coming to an atom whose relation has no rules. -/
theorem follows_base (hprogram : program.all Term.isClause = true) (hU : IsUniverse U program)
    (hm : (⟨.prove goal env next otherwise, w⟩ : Machine).IsDatalog U Q program)
    {f : String} (hf : goal.functor? = some f)
    (hdefines : (Theory.ofList .rule (splitProgram program).2).defines f = false) :
    Follows U Q program query (.ofProgram program config datasets) ⟨.prove goal env next otherwise, w⟩
      (move (.ofProgram program config datasets) ⟨.prove goal env next otherwise, w⟩) := by
  obtain ⟨hsize, hs, hgoal, hnext, hother⟩ := hm
  dsimp only at hsize hs hgoal hnext hother
  set src := Sources.ofProgram program config datasets with hsrc
  set c := factCursor src goal env w.store with hc
  have hresolve := Store.resolve_of_isAtom w.store hgoal.isAtom env
  have hkind : Goal.ofTerm src.rules goal = .base := by
    rw [Term.ofTerm_of_isAtom _ hgoal.isAtom hf, Goal.ofRelation]
    exact if_neg (by rw [← Bool.not_eq_true] at hdefines; exact hdefines)
  have hgrow : w.store.envs.size ≤ w.store.newEnv.2.envs.size := by
    rw [Store.size_envs_newEnv]
    exact Nat.le_succ _
  have hlike : ReturnsLike w.store.checkpoint w.store w.store.newEnv.2 := .of_newEnv _ _
  have hfacts (t : Term) (ht : t ∈ src.factsFor w.store goal env) : t ∈ program ∧ t.asRule = none :=
    mem_of_mem_lookupIn_facts hprogram ht
  have hcdatalog : c.expansion.IsDatalog U Q program w.store.newEnv.2 :=
    ⟨hgoal.mono hgrow, Nat.lt_of_lt_of_eq (Nat.lt_succ_self _) (Store.size_envs_newEnv _).symm, Nat.ne_of_gt hsize,
      fun t ht => (hfacts t ht).1⟩
  have hgoes := moveCandidates_goesOn (w := ⟨w.store.newEnv.2, w.names⟩) hprogram hU hs.newEnv hcdatalog rfl hfacts rfl
    (hnext.mono hgrow) (hother.returnsLike hlike)
  rw [move_base hresolve hkind]
  refine follows_of_goesOn hgoes (fun θ hθ h => ?_) (fun h => ?_) fun θ hθ h => ?_
  · rcases h with ⟨hrespects, hholds, t, ht, hans⟩ | h
    · exact Or.inl ⟨Valuation.respects_newEnv.1 hrespects, leastModel_of_isAnsweredBy hθ (hfacts t ht).1 hans, hholds⟩
    · exact Or.inr ((hother.offers_iff hlike).1 h)
  · unfold triesWithin Goal.triedWithin at h
    dsimp only at h
    rw [hresolve] at h
    simp only [hkind] at h
    exact (triedWithin_congr fun t ht => c.expansion_attemptWithin (hfacts t ht).2 _).trans h
  · rcases h with ⟨hrespects, hmem, hholds⟩ | h
    · have hne : env ≠ c.candidateEnv := Nat.ne_of_lt hgoal.env_lt
      obtain ⟨t, ht, θ', hθ', hold, hans, σ, hσ⟩ := exists_isAnsweredBy hmem hθ hne
      have holder (v : String) (e : EnvId) (he : e < w.store.envs.size) : θ' v e = θ v e := hold v e (Nat.ne_of_lt he)
      have hhead : t.headOrSelf.functor? = some f := by
        have hatom := (Term.isAtom_of_isClause (List.all_eq_true.1 hprogram t ht)).1
        rw [← Term.functor_instantiate hatom σ, hσ, Valuation.read_eq_instantiate,
          Term.functor_instantiate hgoal.isAtom, hf]
      refine ⟨θ', hθ', Or.inl ⟨?_, (holds_congr hnext holder).2 hholds, t, ?_, hans⟩, ?_⟩
      · exact Valuation.respects_newEnv.2 ((respects_congr hs.wellFormed holder).2 hrespects)
      · -- The fact is ground, so that it is the value of the goal and fits it.
        have hfact := mem_facts_of_not_defines hprogram ht hhead hdefines
        have hground := Term.isGround_of_mem_facts hprogram hfact
        have hvalue : θ.read env goal = t := by
          rw [← hσ, hground.2, Term.instantiate_of_isGround σ t hground.1]
        refine Theory.mem_lookupIn_of_fits (Theory.Reachable.ofList _ _).indexed ?_ (hvalue ▸ hrespects.fits goal env)
        rwa [Theory.toList_ofList]
      · exact Valuation.read_congr (fun v => holder v _ hsize) query
    · exact ⟨θ, hθ, Or.inr ((hother.offers_iff hlike).2 h), rfl⟩

/-- Going on with what is left to prove. -/
theorem follows_proved (hm : (⟨.proved next otherwise, w⟩ : Machine).IsDatalog U Q program) :
    Follows U Q program query src ⟨.proved next otherwise, w⟩ (moveOn next otherwise w) := by
  obtain ⟨hsize, hs, hnext, hother⟩ := hm
  cases hnext with
  | done => exact follows_of_offers_iff ⟨hsize, hs, .done, hother⟩ fun M θ => Iff.rfl
  | @goals env rest next hrest hnext =>
    cases rest with
    | nil =>
      refine follows_of_offers_iff ⟨hsize, hs, hnext, hother⟩ fun M θ => ?_
      simp [moveOn, Offers, Agenda.Holds]
    | cons g rest =>
      have hagenda := Agenda.IsDatalog.goals (fun t ht => hrest t (List.mem_cons_of_mem _ ht)) hnext
      refine follows_of_offers_iff ⟨hsize, hs, hrest g List.mem_cons_self, hagenda, hother⟩ fun M θ => ?_
      simp [moveOn, Offers, Agenda.Holds, and_assoc]
  | leave hnext => exact follows_of_offers_iff ⟨hsize, hs, hnext, .reenter hother⟩ fun M θ => Iff.rfl

/-- Going back to what is left to try. -/
theorem follows_failed (hprogram : program.all Term.isClause = true) (hU : IsUniverse U program)
    (hm : (⟨.failed otherwise, w⟩ : Machine).IsDatalog U Q program) :
    Follows U Q program query src ⟨.failed otherwise, w⟩ (moveBack otherwise w) := by
  obtain ⟨hsize, hother⟩ := hm
  dsimp only at hsize hother
  have hcheckpoint {cp : Checkpoint} (hcp : cp ≤ w.store.checkpoint) : cp = (w.store.rollback cp).checkpoint :=
    (Store.size_trail_rollback hcp).symm
  have hroll {x : Expansion} {cp : Checkpoint} (hx : x.IsDatalog U Q program w.store) :
      x.IsDatalog U Q program (w.store.rollback cp) :=
    ⟨Store.size_envs_rollback.symm ▸ hx.goal, Store.size_envs_rollback.symm ▸ hx.ruleEnv_lt, hx.ruleEnv_ne, hx.rule⟩
  cases hother with
  | none => exact follows_of_offers_iff ⟨hsize, .none⟩ fun M θ => Iff.rfl
  | reenter h => exact follows_of_offers_iff ⟨hsize, h⟩ fun M θ => Iff.rfl
  | @candidates _ c next otherwise hcp hstore hx hfacts hnext h =>
    have hlike := ReturnsLike.of_rollback w.store c.checkpoint
    have hgoes := moveCandidates_goesOn (w := ⟨w.store.rollback c.checkpoint, w.names⟩) hprogram hU hstore (hroll hx)
      hfacts.1 (fun t ht => ⟨hx.rule t ht, hfacts.2 t ht⟩) (hcheckpoint hcp) (Store.size_envs_rollback.symm ▸ hnext)
      (h.returnsLike hlike)
    refine follows_of_goesOn hgoes (fun θ _ hoffers => ?_) (fun htries => ?_) fun θ hθ hoffers => ⟨θ, hθ, ?_, rfl⟩
    · exact hoffers.imp_right (h.offers_iff hlike).1
    · exact (triedWithin_congr fun t ht => c.expansion_attemptWithin (hfacts.2 t ht) _).trans htries
    · exact hoffers.imp_right (h.offers_iff hlike).2
  | @rules _ x next otherwise hcp hstore hx hnext h =>
    have hlike := ReturnsLike.of_rollback w.store x.checkpoint
    have hgoes := moveRules_goesOn (w := ⟨w.store.rollback x.checkpoint, w.names⟩) hprogram hU hstore (hroll hx)
      hx.rule (hcheckpoint hcp) (Store.size_envs_rollback.symm ▸ hnext) (h.returnsLike hlike)
    refine follows_of_goesOn hgoes (fun θ _ hoffers => ?_) (fun htries => htries) fun θ hθ hoffers => ⟨θ, hθ, ?_, rfl⟩
    · exact hoffers.imp_right (h.offers_iff hlike).1
    · exact hoffers.imp_right (h.offers_iff hlike).2

/-- A move of a machine on a program leads to one that gives the same. -/
theorem IsDatalog.move (hm : m.IsDatalog U Q program) (hprogram : program.all Term.isClause = true)
    (hU : IsUniverse U program) :
    Follows U Q program query (.ofProgram program config datasets) m
      (Machine.move (.ofProgram program config datasets) m) := by
  obtain ⟨control, w⟩ := m
  cases control with
  | prove goal env next otherwise =>
    obtain ⟨f, hf, -⟩ := Term.exists_relation_of_isAtom hm.2.2.1.isAtom
    cases hdefines : (Theory.ofList .rule (splitProgram program).2).defines f with
    | true => exact follows_view hprogram hU hm hf hdefines
    | false => exact follows_base hprogram hU hm hf hdefines
  | proved next otherwise => exact follows_proved hm
  | failed otherwise => exact follows_failed hprogram hU hm

/-- Machines on a program come to plain goals only. -/
theorem IsDatalog.isPlain (hm : m.IsDatalog U Q program) : m.IsPlain src := by
  obtain ⟨control, w⟩ := m
  cases control with
  | prove goal env next otherwise =>
    have hatom := hm.2.2.1.isAtom
    obtain ⟨f, hf, -⟩ := Term.exists_relation_of_isAtom hatom
    unfold IsPlain
    dsimp only
    rw [Store.resolve_of_isAtom _ hatom, Term.ofTerm_of_isAtom _ hatom hf, Goal.ofRelation]
    split <;> rfl
  | proved next otherwise => trivial
  | failed otherwise => trivial

end Machine

end Deduction
