import Deduction.Proofs.Calls.Machines

/-!
# Steps of matched machines

A careful step of a machine is matched by one of the other machine, unless it comes to nothing (`Machine.Matched.step`).
What linked goals come to is linked: the sources are looked up by what they have in common, fresh environments are taken
for each other, and what a goal selects is tried where nothing was plugged yet.
-/

namespace Deduction

variable {D : Type} [Values D] {b : Bool} {p : Term × Term} {R : Pairing D} {w w' : Workspace} {n n' : Agenda}
  {o o' : Alternatives} {src : Sources} {ask : Answerer} {limit : Nat} {env env' : EnvId} {goal goal' t t' : Term}
  {f : String} {ts ts' : List Term}

/-! ### Kinds of goals -/

/-- The goals are of the same kind, on terms that belong together. -/
inductive Goal.Matched (P : Term → Term → Prop) : Goal → Goal → Prop
  | holds : Matched P .holds .holds
  | fails : Matched P .fails .fails
  | same {x x' y y' : Term} (hx : P x x') (hy : P y y') : Matched P (.same x y) (.same x' y')
  | distinct {x x' y y' : Term} (hx : P x x') (hy : P y y') : Matched P (.distinct x y) (.distinct x' y')
  | mutex {ts ts' : List Term} (h : List.Forall₂ P ts ts') : Matched P (.mutex ts) (.mutex ts')
  | member {item item' list list' : Term} (hitem : P item item') (hlist : P list list') :
    Matched P (.member item list) (.member item' list')
  | negation {g g' : Term} (h : P g g') : Matched P (.negation g) (.negation g')
  | conjunction {ts ts' : List Term} (h : List.Forall₂ P ts ts') : Matched P (.conjunction ts) (.conjunction ts')
  | disjunction {ts ts' : List Term} (h : List.Forall₂ P ts ts') : Matched P (.disjunction ts) (.disjunction ts')
  | dataset {g g' name name' : Term} (hg : P g g') (hname : P name name') : Matched P (.dataset g name) (.dataset g' name')
  | computed (f : String) {ts ts' : List Term} (h : List.Forall₂ P ts ts') : Matched P (.computed f ts) (.computed f ts')
  | view : Matched P .view .view
  | base : Matched P .base .base

theorem Goal.matched_ofRelation {P : Term → Term → Prop} (rules : Theory) (f : String) :
    Matched P (ofRelation rules f) (ofRelation rules f) := by
  unfold ofRelation
  split
  · exact .view
  · exact .base

/-- Compounds with the same functor are goals of the same kind. -/
theorem Goal.matched_ofTerm {P : Term → Term → Prop} (rules : Theory) (f : String) (h : List.Forall₂ P ts ts') :
    Matched P (ofTerm rules (.compound f ts)) (ofTerm rules (.compound f ts')) := by
  generalize hg : Term.compound f ts = g
  conv => arg 2; unfold ofTerm
  split
  case h_1 | h_2 | h_3 | h_4 => cases hg
  case h_5 args | h_6 args | h_8 args =>
    cases hg
    cases h with
    | nil => exact .fails
    | cons hx h =>
      cases h with
      | nil => exact .fails
      | cons hy h => first | exact .same hx hy | exact .distinct hx hy | exact .member hx hy
  case h_9 args =>
    cases hg
    cases h with
    | nil => exact .fails
    | cons hx h => exact .negation hx
  case h_7 | h_10 | h_11 =>
    cases hg
    first | exact .mutex h | exact .conjunction h | exact .disjunction h
  case h_12 x name =>
    cases hg
    obtain ⟨x', rest, hx, hrest, rfl⟩ := List.forall₂_cons_left_iff.1 h
    obtain ⟨name', rest', hname, hnil, rfl⟩ := List.forall₂_cons_left_iff.1 hrest
    rw [List.forall₂_nil_left_iff.1 hnil]
    exact .dataset hx hname
  case h_13 g args hsame hdistinct hmutex hmember hnot hand hor htrue =>
    cases hg
    rw [ofTerm]
    · split
      · exact .computed f h
      · exact matched_ofRelation rules f
    · exact hsame
    · exact hdistinct
    · exact hmutex
    · exact hmember
    · exact hnot
    · exact hand
    · exact hor
    · rintro x' name' hf rfl
      obtain ⟨x, rest, hx, hrest, rfl⟩ := List.forall₂_cons_right_iff.1 h
      obtain ⟨name, rest', hname, hnil, rfl⟩ := List.forall₂_cons_right_iff.1 hrest
      rw [List.forall₂_nil_right_iff.1 hnil] at htrue
      exact htrue x name hf rfl

theorem Linked.Shape.matched_ofTerm (rules : Theory) (h : Linked.Shape R w w' ⟨goal, env⟩ ⟨goal', env'⟩) :
    Goal.Matched (fun t t' => Linked R w w' ⟨t, env⟩ ⟨t', env'⟩) (Goal.ofTerm rules goal) (Goal.ofTerm rules goal') := by
  cases h with
  | var => exact .fails
  | sym a =>
    by_cases htrue : a = "true"
    · rw [htrue]
      exact .holds
    by_cases hfalse : a = "false"
    · rw [hfalse]
      exact .fails
    rw [Goal.ofTerm]
    · exact Goal.matched_ofRelation rules a
    · exact htrue
    · exact hfalse
  | compound f hts => exact Goal.matched_ofTerm rules f hts

/-! ### Sources -/

/-- The variables of the sources are not spelled like invented ones. -/
structure Sources.Owns (src : Sources) : Prop where
  fact : ∀ t ∈ src.facts.toList, ∀ v ∈ t.vars, IsOwn v
  added : ∀ overlay ∈ src.overlay, ∀ t ∈ overlay.adds.toList, ∀ v ∈ t.vars, IsOwn v
  dataset : ∀ name, ∀ dataset ∈ src.dataset? name, ∀ t ∈ dataset.toList, ∀ v ∈ t.vars, IsOwn v
  rule : ∀ t ∈ src.rules.toList, ∀ v ∈ t.vars, IsOwn v

namespace Sources.Owns

theorem of_mem_factsFor (h : src.Owns) {s : Store} (ht : t ∈ src.factsFor s goal env) : ∀ v ∈ t.vars, IsOwn v := by
  unfold factsFor at ht
  cases hoverlay : src.overlay with
  | none =>
    rw [hoverlay] at ht
    exact h.fact t (Theory.mem_of_mem_lookupIn ht)
  | some overlay =>
    rw [hoverlay] at ht
    rcases List.mem_append.1 ht with ht | ht
    · exact h.added overlay hoverlay t (Theory.mem_of_mem_lookupIn ht)
    · exact h.fact t (Theory.mem_of_mem_lookupIn (List.mem_filter.1 ht).1)

theorem of_mem_datasetFactsFor (h : src.Owns) {name : String} {s : Store} (ht : t ∈ src.datasetFactsFor name s goal env) :
    ∀ v ∈ t.vars, IsOwn v := by
  unfold datasetFactsFor at ht
  cases hdataset : src.dataset? name with
  | none =>
    rw [hdataset] at ht
    cases ht
  | some dataset =>
    rw [hdataset] at ht
    exact h.dataset name dataset hdataset t (Theory.mem_of_mem_lookupIn ht)

end Sources.Owns

/-- In fresh environments a term is linked with itself. -/
theorem linked_newEnv (ht : ∀ v ∈ t.vars, IsOwn v) :
    Linked (R.matching w.store.newEnv.1 w'.store.newEnv.1) ⟨w.store.newEnv.2, w.names⟩ ⟨w'.store.newEnv.2, w'.names⟩
      ⟨t, w.store.newEnv.1⟩ ⟨t, w'.store.newEnv.1⟩ where
  env_lt := by
    rw [Store.size_envs_newEnv]
    exact Nat.lt_succ_self _
  env_lt' := by
    rw [Store.size_envs_newEnv]
    exact Nat.lt_succ_self _
  read_eq hR := Reading.read_congr t fun v hv => hR.2 v (ht v hv)

theorem Linked.newEnv {c c' : Closure} (h : Linked R w w' c c') :
    Linked (R.matching w.store.newEnv.1 w'.store.newEnv.1) ⟨w.store.newEnv.2, w.names⟩ ⟨w'.store.newEnv.2, w'.names⟩ c c' :=
  h.mono (fun hR => hR.1) (Workspace.Onward.newEnv w).size_envs (Workspace.Onward.newEnv w').size_envs

theorem Agenda.Matched.newEnv (h : Agenda.Matched b p R w w' n n') :
    Agenda.Matched b p (R.matching w.store.newEnv.1 w'.store.newEnv.1) ⟨w.store.newEnv.2, w.names⟩
      ⟨w'.store.newEnv.2, w'.names⟩ n n' := h.onward (fun hR => hR.1) (.newEnv w) (.newEnv w')

theorem Alternatives.Matched.newEnv (h : Alternatives.Matched b p R w w' o o') :
    Alternatives.Matched b p (R.matching w.store.newEnv.1 w'.store.newEnv.1) ⟨w.store.newEnv.2, w.names⟩
      ⟨w'.store.newEnv.2, w'.names⟩ o o' := h.onward (fun hR => hR.1) (.newEnv w) (.newEnv w')

/-- The workspaces when names were given that are taken back again. -/
theorem Agenda.Matched.renamed {names names' : NameSupply} (h : Agenda.Matched b p R w w' n n')
    (hle : w.names.issued ≤ names.issued) (hle' : w'.names.issued ≤ names'.issued) :
    Agenda.Matched b p R ⟨w.store, names⟩ ⟨w'.store, names'⟩ n n' := h.onward id (.of_extends .refl hle) (.of_extends .refl hle')

theorem Alternatives.Matched.renamed {names names' : NameSupply} (h : Alternatives.Matched b p R w w' o o')
    (hle : w.names.issued ≤ names.issued) (hle' : w'.names.issued ≤ names'.issued) :
    Alternatives.Matched b p R ⟨w.store, names⟩ ⟨w'.store, names'⟩ o o' :=
  h.onward id (.of_extends .refl hle) (.of_extends .refl hle')

/-! ### What goals select -/

/-- Where a computation is interrupted unless something holds, it may be taken to hold. -/
theorem Agree.unlessInterrupted_left {α β : Type} {S : α → β → Prop} {x : Metered α} {y : Metered β} {c : Bool}
    (h : c = true → Agree limit S x y) : Agree limit S (if c = true then x else throw .stepBound) y := by
  intro m m' a a' m₁ m₁' hx hy hm hm'
  split at hx
  · rename_i hc
    exact h hc hx hy hm hm'
  · cases hx

/-- The same where both computations are. -/
theorem Agree.unlessInterrupted {α β : Type} {S : α → β → Prop} {x : Metered α} {y : Metered β} {c d : Bool}
    (h : c = true → d = true → Agree limit S x y) :
    Agree limit S (if c = true then x else throw .stepBound) (if d = true then y else throw .stepBound) := by
  refine .unlessInterrupted_left fun hc => ?_
  intro m m' a a' m₁ m₁' hx hy hm hm'
  split at hy
  · rename_i hd
    exact h hc hd hx hy hm hm'
  · cases hy

namespace Machine

/-- The facts that fit linked goals are tried in fresh environments. -/
theorem matched_base (hD : Values.Suits D b) (hown : src.Owns) (h : Coupled b R w w')
    (hgoal : Linked R w w' ⟨goal, env⟩ ⟨goal', env'⟩)
    (hrule : (w.store.resolve goal env).term.functor? ≠ some "rule") (hn : Agenda.Matched b p R w w' n n')
    (ho : Alternatives.Matched b p R w w' o o')
    (hwithin : triedWithin ((factCursor src goal env w.store).attemptWithin w.store.newEnv.2) (src.factsFor w.store goal env) = true)
    (hwithin' : triedWithin ((factCursor src goal' env' w'.store).attemptWithin w'.store.newEnv.2)
      (src.factsFor w'.store goal' env') = true) :
    Agree limit (Matched D b p) (select src .facts env (selectFacts src goal env) n o w)
      (select src .facts env' (selectFacts src goal' env') n' o' w') := by
  have hfacts : src.factsFor w'.store goal' env' = src.factsFor w.store goal env := h.factsFor_eq hD src hgoal hrule
  have hback (w : Workspace) : w.store.newEnv.2.rollback w.store.checkpoint = w.store.newEnv.2 := by
    rw [Store.rollback_newEnv, Store.checkpoint, Store.rollback_size]
  unfold select
  simp only [run_selectFacts, pure_bind, hback]
  unfold factCursor at hwithin hwithin'
  rw [hfacts] at hwithin' ⊢
  refine matched_tryCandidates hD h.newEnv hn.newEnv ho.newEnv rfl rfl rfl hgoal.newEnv ?_ hwithin hwithin'
  exact List.forall₂_same.2 fun t ht => linked_newEnv (hown.of_mem_factsFor ht)

/-- The rules for linked goals are tried in fresh environments. -/
theorem matched_expand (hD : Values.Suits D b) (hown : src.Owns) (h : Coupled b R w w')
    (hgoal : Linked R w w' ⟨goal, env⟩ ⟨goal', env'⟩)
    (hrule : (w.store.resolve goal env).term.functor? ≠ some "rule") (hn : Agenda.Matched b p R w w' n n')
    (ho : Alternatives.Matched b p R w w' o o')
    (hwithin : triedWithin ((ruleExpansion src goal env w.store).attemptWithin w.store.newEnv.2)
      (src.rules.lookupIn w.store goal env) = true)
    (hwithin' : triedWithin ((ruleExpansion src goal' env' w'.store).attemptWithin w'.store.newEnv.2)
      (src.rules.lookupIn w'.store goal' env') = true) :
    Agree limit (Matched D b p) (expand src goal env n o w) (expand src goal' env' n' o' w') := by
  have hrules : src.rules.lookupIn w'.store goal' env' = src.rules.lookupIn w.store goal env :=
    h.lookupIn_eq hD src.rules hgoal hrule
  unfold expand
  unfold ruleExpansion at hwithin hwithin'
  rw [hrules] at hwithin' ⊢
  refine .tick (matched_tryRules hD h.newEnv hn.newEnv ho.newEnv rfl rfl hgoal.newEnv ?_ hwithin hwithin')
  exact fun t ht => linked_newEnv (hown.rule t (Theory.mem_of_mem_lookupIn ht))

end Machine

/-! ### Computed goals -/

section

variable {x : Scene D} {w₁ w₁' : Workspace} {y y' : Selection} {r r' : Option Selection × Workspace}

/-- Ground terms are linked in all environments. -/
theorem linkedAll_of_isGround (henv : env < w.store.envs.size) (henv' : env' < w'.store.envs.size)
    (hts : ∀ t ∈ ts, t.isGround = true) : LinkedAll R w w' env env' ts ts :=
  List.forall₂_same.2 fun t ht =>
    ⟨henv, henv', fun _ => Reading.read_congr t fun v hv => absurd hv (t.isGround_iff.1 (hts t ht) v)⟩

/-- Settled candidates are linked where nothing is plugged yet. -/
theorem Scene.Fits.linkedAll (hx : x.Proper) (hdrawn : x.Drawn [] [] w₁ w₁') (h : x.Fits f w₁ w₁' y y')
    (hf : goal.functor? = some f) (hf' : goal'.functor? = some f)
    (hsettled : y.isSettled goal x.left.names w₁.names = true)
    (hsettled' : y'.isSettled goal' x.right.names w₁'.names = true) :
    LinkedAll x.relation ⟨x.left.store, w₁.names⟩ ⟨x.right.store, w₁'.names⟩ x.env x.env' y.candidates y'.candidates := by
  unfold Selection.isSettled at hsettled hsettled'
  simp only [Bool.or_eq_true, Bool.and_eq_true, decide_eq_true_iff, List.all_eq_true, hf, hf', Option.any_some,
    Bool.not_eq_true', ← Bool.not_eq_true, List.contains_iff_mem] at hsettled hsettled'
  by_cases hground : ∀ t ∈ y.candidates, t.isGround = true
  · obtain ⟨π, hπ, -⟩ := (h.candidates fun _ => hground).exists_relabel hx
    rw [hπ, List.map_congr_left fun t ht => Term.relabel_of_isGround (hground t ht), List.map_id']
    exact linkedAll_of_isGround hx.env_lt hx.env_lt' hground
  · -- Candidates with variables were selected without giving names, so both stores are as they were.
    obtain ⟨hnames, hword⟩ := hsettled.resolve_left hground
    have hcandidates := h.candidates fun hf => absurd hf hword
    obtain ⟨π, hπ, -⟩ := hcandidates.exists_relabel hx
    have hground' : ¬ ∀ t ∈ y'.candidates, t.isGround = true := by
      refine fun hall => hground fun t ht => ?_
      rw [← t.isGround_relabel]
      exact hall _ (hπ ▸ List.mem_map_of_mem ht)
    obtain ⟨hnames', -⟩ := hsettled'.resolve_left hground'
    have hstore := hdrawn.renames.store_eq (congrArg NameSupply.issued hnames.symm)
    have hstore' := hdrawn.renames'.store_eq (congrArg NameSupply.issued hnames'.symm)
    have hlinked := hcandidates.plugged.linked
    rw [hstore, hstore', hx.coupled.within_self] at hlinked
    exact hlinked.mono id (Nat.le_of_eq (congrArg (fun s => s.envs.size) hstore))
      (Nat.le_of_eq (congrArg (fun s => s.envs.size) hstore'))

namespace Machine

theorem offer_some (origin : Cursor.Origin) (env : EnvId) (checkpoint : Checkpoint) (n : Agenda) (o : Alternatives)
    (y : Selection) (w : Workspace) :
    offer src origin env checkpoint n o (some y, w) =
      tryCandidates src (offered origin env checkpoint y) n o y.candidates ⟨w.store.rollback checkpoint, w.names⟩ := rfl

/-- What a computed goal selects is tried where nothing is plugged yet. -/
theorem matched_offer (hx : x.Proper) (hn : Agenda.Matched x.occursCheck p x.relation x.left x.right n n')
    (ho : Alternatives.Matched x.occursCheck p x.relation x.left x.right o o') (hr : x.Outcomes (x.Fits f) r r')
    (hf : goal.functor? = some f) (hf' : goal'.functor? = some f)
    (hmay : mayOffer goal .computed x.env x.left r = true) (hmay' : mayOffer goal' .computed x.env' x.right r' = true) :
    Agree limit (Matched D x.occursCheck p) (offer src .computed x.env x.left.store.checkpoint n o r)
      (offer src .computed x.env' x.right.store.checkpoint n' o' r') := by
  obtain ⟨y, w₁⟩ := r
  obtain ⟨y', w₁'⟩ := r'
  obtain ⟨hdrawn, hresult⟩ := hr
  dsimp only at hdrawn hresult
  cases hresult with
  | none =>
    refine agree_pure (.failed hdrawn.plugged.coupled ?_)
    exact ho.onward (fun hR => hR.1) hdrawn.renames.onward hdrawn.renames'.onward
  | @some y y' hfits =>
    have hle : x.left.names.issued ≤ w₁.names.issued := hdrawn.renames.renames.issued_le
    have hle' : x.right.names.issued ≤ w₁'.names.issued := hdrawn.renames'.renames.issued_le
    simp only [mayOffer, Bool.and_eq_true] at hmay hmay'
    have hlinked := hfits.linkedAll hx hdrawn hf hf' hmay.2 hmay'.2
    rw [offer_some, offer_some]
    unfold offered at hmay hmay' ⊢
    rw [hdrawn.renames.rollback] at hmay ⊢
    rw [hdrawn.renames'.rollback] at hmay' ⊢
    rw [hfits.env_eq] at hmay ⊢
    rw [hfits.env_eq'] at hmay' ⊢
    refine matched_tryCandidates hx.suits (hx.coupled.widen (.refl _) (.refl _) hle hle') (hn.renamed hle hle')
      (ho.renamed hle hle') rfl rfl rfl ?_ hlinked hmay.1 hmay'.1
    exact hfits.target.mono id (Nat.le_refl _) (Nat.le_refl _)

/-- Computed goals that select alike come to machines that match. -/
theorem matched_selectCareful (hx : x.Proper) (hn : Agenda.Matched x.occursCheck p x.relation x.left x.right n n')
    (ho : Alternatives.Matched x.occursCheck p x.relation x.left x.right o o') {selecting selecting' : Selecting Selection}
    (hselect : Agree limit (x.Outcomes (x.Fits f)) (selecting.run.run x.left) (selecting'.run.run x.right))
    (hf : goal.functor? = some f) (hf' : goal'.functor? = some f) :
    Agree limit (Matched D x.occursCheck p) (selectCareful src goal .computed x.env selecting n o x.left)
      (selectCareful src goal' .computed x.env' selecting' n' o' x.right) := by
  refine hselect.bind (fun r => counts_ite (counts_offer _ _ _ _ _ r) (counts_throw _))
    (fun r => counts_ite (counts_offer _ _ _ _ _ r) (counts_throw _)) fun r r' hr => ?_
  exact .unlessInterrupted fun hmay hmay' => matched_offer hx hn ho hr hf hf' hmay hmay'

theorem run_selectDataset {u name : Term} {s : Store} {names : NameSupply}
    (hu : Store.plugWithin env allowance env name (w.store, w.names) = some (u, (s, names))) :
    (selectDataset src t name env).run.run w = pure (match u.asSymbol with
      | some a => (some ⟨t, src.datasetFactsFor a s t env, s.newEnv.1⟩, ⟨s.newEnv.2, names⟩)
      | none => (none, ⟨s, names⟩)) := by
  unfold selectDataset
  rw [Selecting.run_input_bind hu]
  cases u.asSymbol <;> rfl

/-- The facts of a dataset are tried in fresh environments, where nothing is plugged yet. -/
theorem matched_dataset (hx : x.Proper) (hown : src.Owns) (hn : Agenda.Matched x.occursCheck p x.relation x.left x.right n n')
    (ho : Alternatives.Matched x.occursCheck p x.relation x.left x.right o o') (hgoal : x.Links t t') {name name' : Term}
    (hname : x.Links name name') {us us' : List Term} (hus : x.left.plugged x.env [name] = some us)
    (hus' : x.right.plugged x.env' [name'] = some us') :
    Agree limit (Matched D x.occursCheck p)
      (selectCareful src goal .dataset x.env (selectDataset src t name x.env) n o x.left)
      (selectCareful src goal' .dataset x.env' (selectDataset src t' name' x.env') n' o' x.right) := by
  obtain ⟨u, rest, s, names, rfl, hu, hrest⟩ := (Workspace.affords_of_plugged hus).cons
  obtain ⟨u', rest', s', names', rfl, hu', hrest'⟩ := (Workspace.affords_of_plugged hus').cons
  have hlt := hrest.issued_lt
  have hlt' := hrest'.issued_lt
  dsimp only at hlt hlt'
  have hdrawn := (Scene.Drawn.refl hx).input hx hname hu hu' (by omega) (by omega)
  have hle : x.left.names.issued ≤ names.issued := hdrawn.renames.renames.issued_le
  have hle' : x.right.names.issued ≤ names'.issued := hdrawn.renames'.renames.issued_le
  have hsymbol : u'.asSymbol = u.asSymbol := by
    obtain ⟨π, hπ, -⟩ := hdrawn.exists_relabel hx
    obtain rfl : u' = u.relabel π := by simpa using hπ
    exact u.asSymbol_relabel
  unfold selectCareful
  rw [run_selectDataset hu, run_selectDataset hu', hsymbol]
  cases u.asSymbol with
  | none =>
    rw [pure_bind, pure_bind]
    refine .unlessInterrupted fun _ _ => agree_pure (.failed hdrawn.plugged.coupled ?_)
    exact ho.onward (fun hR => hR.1) hdrawn.renames.onward hdrawn.renames'.onward
  | some a =>
    rw [pure_bind, pure_bind]
    refine .unlessInterrupted fun hmay hmay' => ?_
    simp only [mayOffer, Bool.and_eq_true, decide_eq_true_iff] at hmay hmay'
    have hrule : (s.resolve t x.env).term.functor? ≠ some "rule" := by
      rw [← (Store.Widens.newEnv s).resolve_eq]
      exact hmay.2
    have hfacts := hdrawn.plugged.coupled.datasetFactsFor_eq hx.suits src a (hdrawn.linked hgoal) hrule
    have hback : s.newEnv.2.rollback x.left.store.checkpoint = x.left.store.newEnv.2 := by
      rw [Store.rollback_newEnv, hdrawn.renames.rollback]
    have hback' : s'.newEnv.2.rollback x.right.store.checkpoint = x.right.store.newEnv.2 := by
      rw [Store.rollback_newEnv, hdrawn.renames'.rollback]
    have henv : s.newEnv.1 = x.left.store.newEnv.1 := hdrawn.renames.size_envs
    have henv' : s'.newEnv.1 = x.right.store.newEnv.1 := hdrawn.renames'.size_envs
    rw [offer_some, offer_some]
    unfold offered at hmay hmay' ⊢
    dsimp only at hmay hmay' hfacts ⊢
    rw [hback, henv] at hmay ⊢
    rw [hback', henv', hfacts] at hmay' ⊢
    have hcoupled := hx.coupled.newEnv.widen (.refl _) (.refl _) hle hle'
    refine matched_tryCandidates hx.suits hcoupled (hn.newEnv.renamed hle hle') (ho.newEnv.renamed hle hle') rfl rfl rfl ?_ ?_
      hmay.1 hmay'.1
    · exact hgoal.newEnv.mono id (Nat.le_refl _) (Nat.le_refl _)
    · refine List.forall₂_same.2 fun c hc => ?_
      exact (linked_newEnv (hown.of_mem_datasetFactsFor hc)).mono id (Nat.le_refl _) (Nat.le_refl _)

/-! ### Goals -/

/-- An alternative that undoes the bindings since. -/
theorem matched_undo (h : Coupled b R w w') (ho : Alternatives.Matched b p R w w' o o') :
    Alternatives.Matched b p R w w' (.undo w.store.checkpoint o) (.undo w'.store.checkpoint o') := by
  refine .undo h.back ?_
  rwa [w.rollback_checkpoint, w'.rollback_checkpoint]

/-- The bindings of a unification are undone before anything else is tried. -/
theorem matched_undo_of_unify {s s' : Store} {x y x' y' : Term} {ex ey ex' ey' : EnvId} (h : Coupled b R w w')
    (ho : Alternatives.Matched b p R w w' o o') (hs : w.store.unify x ex y ey = (true, s))
    (hs' : w'.store.unify x' ex' y' ey' = (true, s')) :
    Alternatives.Matched b p (R.within s s') ⟨s, w.names⟩ ⟨s', w'.names⟩ (.undo w.store.checkpoint o)
      (.undo w'.store.checkpoint o') := by
  refine .undo (back_of_unify h hs hs') ?_
  rwa [rollback_of_unify hs, rollback_of_unify hs']

/-- Inputs that are compared. -/
theorem matched_mutex (hx : x.Proper) (hts : List.Forall₂ x.Links ts ts')
    (hn : Agenda.Matched x.occursCheck p x.relation x.left x.right n n')
    (ho : Alternatives.Matched x.occursCheck p x.relation x.left x.right o o') {us us' : List Term}
    (hus : x.left.plugged x.env ts = some us) (hus' : x.right.plugged x.env' ts' = some us') :
    Agree limit (Matched D x.occursCheck p)
      ((Selecting.inputs x.env ts).run.run x.left >>= fun r => match r with
        | (some values, w) => return ⟨if pairwiseDistinct values then .proved n o else .failed o, w⟩
        | (none, w) => return ⟨.failed o, w⟩)
      ((Selecting.inputs x.env' ts').run.run x.right >>= fun r => match r with
        | (some values, w) => return ⟨if pairwiseDistinct values then .proved n' o' else .failed o', w⟩
        | (none, w) => return ⟨.failed o', w⟩) := by
  refine Agree.bind (Scene.draws_inputs hx hts _ _ (.refl hx) (Workspace.affords_of_plugged hus)
    (Workspace.affords_of_plugged hus')) (fun r => ?_) (fun r => ?_) fun r r' hr => ?_
  · obtain ⟨values, w⟩ := r
    cases values <;> exact counts_pure _
  · obtain ⟨values, w⟩ := r
    cases values <;> exact counts_pure _
  · obtain ⟨values, w⟩ := r
    obtain ⟨values', w'⟩ := r'
    obtain ⟨hdrawn, hresult⟩ := hr
    dsimp only at hdrawn hresult
    have hn' : Agenda.Matched x.occursCheck p (x.relation.within w.store w'.store) w w' n n' :=
      hn.onward (fun hR => hR.1) hdrawn.renames.onward hdrawn.renames'.onward
    have ho' : Alternatives.Matched x.occursCheck p (x.relation.within w.store w'.store) w w' o o' :=
      ho.onward (fun hR => hR.1) hdrawn.renames.onward hdrawn.renames'.onward
    cases hresult with
    | none => exact agree_pure (.failed hdrawn.plugged.coupled ho')
    | @some values values' hvalues =>
      obtain ⟨π, rfl⟩ := hvalues
      dsimp only
      rw [pairwiseDistinct_relabel]
      split
      · exact agree_pure (.proved hdrawn.plugged.coupled hn' ho')
      · exact agree_pure (.failed hdrawn.plugged.coupled ho')

theorem functor_of_member {rules : Theory} {item list : Term} (h : Goal.ofTerm rules goal = .member item list) :
    goal.functor? = some "member" := by
  have hrelation (relation : String) : Goal.ofRelation rules relation ≠ .member item list := by
    unfold Goal.ofRelation
    split <;> simp
  unfold Goal.ofTerm at h
  split at h
  case h_4 a _ _ => exact absurd h (hrelation a)
  case h_8 => rfl
  case h_5 | h_6 | h_9 => split at h <;> cases h
  case h_13 =>
    split at h
    · cases h
    · exact absurd h (hrelation _)
  all_goals cases h

/-- A goal that sources answer, and that is no rule, is looked up as it is. -/
theorem resolve_functor_ne {rules : Theory} {s : Store} (hof : Goal.ofTerm rules goal ≠ .fails)
    (hrule : goal.functor? ≠ some "rule") : (s.resolve goal env).term.functor? ≠ some "rule" := by
  cases goal with
  | var v => exact absurd rfl hof
  | sym a => rwa [Store.resolve_sym]
  | compound f args => rwa [Store.resolve_compound]

/-- Linked goals whose variables are resolved come to machines that match. -/
theorem matched_proveCareful (hx : x.Proper) (hown : src.Owns) (hask : ask.Nameless limit) (hgoal : x.Links goal goal')
    (hshape : Linked.Shape x.relation x.left x.right ⟨goal, x.env⟩ ⟨goal', x.env'⟩)
    (hn : Agenda.Matched x.occursCheck p x.relation x.left x.right n n')
    (ho : Alternatives.Matched x.occursCheck p x.relation x.left x.right o o') {us us' : List Term}
    (hus : x.left.plugged x.env (Goal.ofTerm src.rules goal).inputs = some us)
    (hus' : x.right.plugged x.env' (Goal.ofTerm src.rules goal').inputs = some us')
    (hallows : (Goal.ofTerm src.rules goal).allows goal us = true)
    (hallows' : (Goal.ofTerm src.rules goal').allows goal' us' = true)
    (htried : Goal.triedWithin src goal x.env x.left.store = true)
    (htried' : Goal.triedWithin src goal' x.env' x.right.store = true) :
    Agree limit (Matched D x.occursCheck p) (proveCareful src ask goal x.env n o x.left)
      (proveCareful src ask goal' x.env' n' o' x.right) := by
  have hkind := hshape.matched_ofTerm src.rules
  unfold Goal.triedWithin at htried htried'
  unfold proveCareful proveResolved
  generalize hof : Goal.ofTerm src.rules goal = kind at hkind hus hallows htried ⊢
  generalize hof' : Goal.ofTerm src.rules goal' = kind' at hkind hus' hallows' htried' ⊢
  cases hkind with
  | holds => exact agree_pure (.proved hx.coupled hn (matched_undo hx.coupled ho))
  | fails => exact agree_pure (.failed hx.coupled ho)
  | same hleft hright =>
    obtain ⟨r, hr⟩ := Option.isSome_iff_exists.1 htried
    obtain ⟨r', hr'⟩ := Option.isSome_iff_exists.1 htried'
    rcases hx.coupled.unify_or hx.suits hleft hright hr hr' with ⟨s, s', hs, hs', hcoupled⟩ | ⟨-, -, hs, hs'⟩
    · dsimp only at hs hs' ⊢
      rw [hs, hs']
      exact agree_pure (.proved hcoupled (matched_onward_of_unify hs hs' hn) (matched_undo_of_unify hx.coupled ho hs hs'))
    · dsimp only at hs hs' ⊢
      rw [hs, hs']
      exact agree_pure (.failed hx.coupled ho)
  | distinct hleft hright =>
    obtain ⟨r, hr⟩ := Option.isSome_iff_exists.1 htried
    obtain ⟨r', hr'⟩ := Option.isSome_iff_exists.1 htried'
    rcases hx.coupled.unify_or hx.suits hleft hright hr hr' with ⟨s, s', hs, hs', -⟩ | ⟨-, -, hs, hs'⟩
    · dsimp only at hs hs' ⊢
      rw [hs, hs']
      dsimp only
      rw [(Store.unify_extends hs).rollback_eq, (Store.unify_extends hs').rollback_eq]
      exact agree_pure (.failed hx.coupled ho)
    · dsimp only at hs hs' ⊢
      rw [hs, hs']
      exact agree_pure (.proved hx.coupled hn ho)
  | mutex h => exact matched_mutex hx h hn ho hus hus'
  | member hitem hlist =>
    refine matched_selectCareful hx hn ho ?_ (functor_of_member hof) (functor_of_member hof')
    exact Scene.draws_selectMembers hx hitem hlist _ _ (.refl hx) (Workspace.affords_of_plugged hus)
      (Workspace.affords_of_plugged hus')
  | negation h =>
    refine agree_pure (.prove hx.coupled h (.refuted hx.coupled.back ?_) (.absent hn ho))
    rwa [x.left.rollback_checkpoint, x.right.rollback_checkpoint]
  | conjunction h => exact agree_pure (.proved hx.coupled (.goals h hn) ho)
  | disjunction h => exact agree_pure (.failed hx.coupled (.disjuncts h hn ho))
  | dataset hg hname => exact matched_dataset hx hown hn ho hg hname hus hus'
  | computed f h =>
    simp only [Goal.allows, Bool.and_eq_true, Bool.or_eq_true, Bool.not_eq_true', ← Bool.not_eq_true,
      List.contains_iff_mem, List.all_eq_true, decide_eq_true_iff, ne_eq] at hallows hallows'
    refine matched_selectCareful hx hn ho (Scene.draws_selectComputed hask hx h
      (fun hf => hallows.1.resolve_left (not_not_intro hf))
      (fun hf => ⟨Bool.eq_false_iff.2 (hallows.2.resolve_left (not_not_intro hf)),
        Bool.eq_false_iff.2 (hallows'.2.resolve_left (not_not_intro hf))⟩) (Nat.le_refl _) (Nat.le_refl _) _ _ (.refl hx)
      (Workspace.affords_of_plugged hus) (Workspace.affords_of_plugged hus')) ?_ ?_
    · rw [Goal.eq_of_computed hof]
      rfl
    · rw [Goal.eq_of_computed hof']
      rfl
  | view =>
    simp only [Goal.allows, decide_eq_true_iff] at hallows
    have hfails : Goal.ofTerm src.rules goal ≠ .fails := by simp [hof]
    exact matched_expand hx.suits hown hx.coupled hgoal (resolve_functor_ne hfails hallows) hn ho htried htried'
  | base =>
    simp only [Goal.allows, decide_eq_true_iff] at hallows
    have hfails : Goal.ofTerm src.rules goal ≠ .fails := by simp [hof]
    exact .tick (matched_base hx.suits hown hx.coupled hgoal (resolve_functor_ne hfails hallows) hn ho htried htried')

end Machine

end

end Deduction
