import Deduction.Proofs.Calls.Steps

/-!
# Runs of matched machines

A careful run of a machine comes to what a careful run of a machine that matches it comes to (`Search.matched_runCareful`).
The induction is on the steps of the first machine: those that come to nothing are made alone, the others together with one
step of the second machine. So searches that run alike give the same answers but for the names of their variables
(`Search.agree_takeCareful`), and questions that differ in their variables have the same answers, as long as these are ground
(`nameless_consultCareful`).
-/

namespace Deduction

variable {D : Type} [Values D] {b : Bool} {p : Term × Term} {R : Pairing D} {w w' : Workspace} {n n' : Agenda}
  {o o' : Alternatives} {src : Sources} {ask : Answerer} {limit : Nat} {env env' : EnvId} {goal goal' : Term}

/-! ### Steps -/

namespace Machine

/-- Linked goals come to machines that match. -/
theorem matched_prove (hD : Values.Suits D b) (hown : src.Owns) (hask : ask.Nameless limit) (h : Coupled b R w w')
    (hgoal : Linked R w w' ⟨goal, env⟩ ⟨goal', env'⟩) (hn : Agenda.Matched b p R w w' n n')
    (ho : Alternatives.Matched b p R w w' o o') {template template' : Term}
    (hcareful : isCareful src template ⟨.prove goal env n o, w⟩ = true)
    (hcareful' : isCareful src template' ⟨.prove goal' env' n' o', w'⟩ = true) :
    Agree limit (Matched D b p) (stepCareful src ask ⟨.prove goal env n o, w⟩)
      (stepCareful src ask ⟨.prove goal' env' n' o', w'⟩) := by
  have hlinked := h.resolve hgoal
  have hshape := h.shape hD hgoal
  unfold isCareful at hcareful hcareful'
  rw [Bool.and_eq_true] at hcareful hcareful'
  obtain ⟨htried, hplugged⟩ := hcareful
  obtain ⟨htried', hplugged'⟩ := hcareful'
  obtain ⟨us, hus, hallows⟩ := (Option.any_eq_true _ _).1 hplugged
  obtain ⟨us', hus', hallows'⟩ := (Option.any_eq_true _ _).1 hplugged'
  exact matched_proveCareful (x := ⟨b, R, w, w', _, _⟩) ⟨hD, h, hlinked.env_lt, hlinked.env_lt'⟩ hown hask hlinked hshape hn ho
    hus hus' hallows hallows' htried htried'

/-- The candidates that are left are gone over where the searches go back to. -/
theorem matched_candidates (hD : Values.Suits D b) {c c' : Cursor}
    (h : Coupled.Back b R w w' c.checkpoint c'.checkpoint) (horigin : c'.origin = c.origin)
    (ht : Linked R (w.rollback c.checkpoint) (w'.rollback c'.checkpoint) ⟨c.target, c.env⟩ ⟨c'.target, c'.env⟩)
    (hc : LinkedAll R (w.rollback c.checkpoint) (w'.rollback c'.checkpoint) c.candidateEnv c'.candidateEnv c.candidates
      c'.candidates) (hn : Agenda.Matched b p R (w.rollback c.checkpoint) (w'.rollback c'.checkpoint) n n')
    (ho : Alternatives.Matched b p R (w.rollback c.checkpoint) (w'.rollback c'.checkpoint) o o') {template template' : Term}
    (hcareful : isCareful src template ⟨.failed (.candidates c n o), w⟩ = true)
    (hcareful' : isCareful src template' ⟨.failed (.candidates c' n' o'), w'⟩ = true) :
    Agree limit (Matched D b p) (retreat src (.candidates c n o) w) (retreat src (.candidates c' n' o') w') := by
  unfold isCareful at hcareful hcareful'
  rw [Bool.and_eq_true] at hcareful hcareful'
  exact matched_tryCandidates hD h.coupled hn ho (Store.size_trail_rollback h.le).symm (Store.size_trail_rollback h.le').symm
    horigin ht hc hcareful.1 hcareful'.1

/-- The rules that are left are gone over where the searches go back to. -/
theorem matched_rules (hD : Values.Suits D b) {x x' : Expansion} (h : Coupled.Back b R w w' x.checkpoint x'.checkpoint)
    (hgoal : Linked R (w.rollback x.checkpoint) (w'.rollback x'.checkpoint) ⟨x.goal, x.env⟩ ⟨x'.goal, x'.env⟩)
    (hsame : x'.rules = x.rules)
    (hx : ∀ t ∈ x.rules,
      Linked R (w.rollback x.checkpoint) (w'.rollback x'.checkpoint) ⟨t, x.ruleEnv⟩ ⟨t, x'.ruleEnv⟩)
    (hn : Agenda.Matched b p R (w.rollback x.checkpoint) (w'.rollback x'.checkpoint) n n')
    (ho : Alternatives.Matched b p R (w.rollback x.checkpoint) (w'.rollback x'.checkpoint) o o') {template template' : Term}
    (hcareful : isCareful src template ⟨.failed (.rules x n o), w⟩ = true)
    (hcareful' : isCareful src template' ⟨.failed (.rules x' n' o'), w'⟩ = true) :
    Agree limit (Matched D b p) (retreat src (.rules x n o) w) (retreat src (.rules x' n' o') w') := by
  unfold isCareful at hcareful hcareful'
  rw [Bool.and_eq_true] at hcareful hcareful'
  unfold retreat
  have hcareful' := hcareful'.1
  unfold triesWithin at hcareful'
  dsimp only at hcareful' ⊢
  rw [hsame] at hcareful' ⊢
  exact matched_tryRules hD h.coupled hn ho (Store.size_trail_rollback h.le).symm (Store.size_trail_rollback h.le').symm
    hgoal hx hcareful.1 hcareful'

/-- Rules that do not fit are gone over. -/
theorem ensures_tryRules_of_passes {x : Expansion} {ts us : List Term} {P : Machine → Prop}
    (h : ∀ t ∈ ts, x.goal.Passes t) (hrest : Ensures (tryRules src x n o us w) P) :
    Ensures (tryRules src x n o (ts ++ us) w) P := by
  induction ts with
  | nil => exact hrest
  | cons t ts ih =>
    rw [List.forall_mem_cons] at h
    rw [List.cons_append, tryRules_of_passes h.1]
    exact Ensures.tick (ih h.2)

/-- If no rule fits there is no result. -/
theorem ensures_tryRules_of_all_pass {x : Expansion} {ts : List Term} {P : Machine → Prop}
    (h : ∀ t ∈ ts, x.goal.Passes t) (hP : P ⟨.failed o, w⟩) : Ensures (tryRules src x n o ts w) P := by
  rw [← ts.append_nil]
  exact ensures_tryRules_of_passes h (Ensures.tick (Ensures.pure hP))

end Machine

/-! ### Runs -/

/-- Is the machine neither at an answer nor at the end? -/
def Machine.IsUnderway : Machine → Prop
  | ⟨.proved .done _, _⟩ => False
  | ⟨.failed .none, _⟩ => False
  | _ => True

/-- The outcomes are answers to linked templates, and what is left to try is matched, or everything was tried. -/
inductive Search.Outcome.Matched (D : Type) [Values D] (b : Bool) (p : Term × Term) : Outcome → Outcome → Prop
  | answer {R : Pairing D} {w w' : Workspace} (h : Coupled b R w w')
    (hp : Linked R w w' ⟨p.1, queryEnv⟩ ⟨p.2, queryEnv⟩) (hplugged : (w.plugged queryEnv [p.1]).isSome = true)
    (hplugged' : (w'.plugged queryEnv [p.2]).isSome = true) {o o' : Alternatives}
    (ho : Alternatives.Matched b p R w w' o o') : Outcome.Matched D b p (.answer o w) (.answer o' w')
  | exhausted (w w' : Workspace) : Outcome.Matched D b p (.exhausted w) (.exhausted w')

namespace Search

section

variable {S : Outcome → Outcome → Prop} {P : Machine → Machine → Prop} {m m' : Machine} {template template' : Term}
  {k k' : Nat} {y : Metered Outcome}

theorem runCareful_succ (h : m.IsUnderway) : runCareful src ask template (k + 1) m = (do
    if ← Meter.isSpent src.config then return .limitReached m.work
    else if m.isCareful src template then
      let m ← m.stepCareful src ask
      runCareful src ask template k m
    else throw .stepBound) := by
  rw [runCareful]
  · rintro o w rfl
    exact h
  · rintro w rfl
    exact h

/-- A step of the first machine that comes to nothing. -/
theorem agree_runCareful_left {P : Machine → Prop} (hm : m.IsUnderway)
    (hstep : m.isCareful src template = true → Ensures (m.stepCareful src ask) P)
    (h : ∀ m₁, P m₁ → Agree src.config.limit S (runCareful src ask template k m₁) y) :
    Agree src.config.limit S (runCareful src ask template (k + 1) m) y := by
  rw [runCareful_succ hm]
  exact .unlessSpent_left (counts_pure _) (.unlessInterrupted_left fun hcareful => .bind_left (hstep hcareful) h)

/-- A step of both machines. -/
theorem agree_runCareful_both {P : Machine → Machine → Prop} (hask : ask.Counting) (hm : m.IsUnderway) (hm' : m'.IsUnderway)
    (hstep : m.isCareful src template = true → m'.isCareful src template' = true →
      Agree src.config.limit P (m.stepCareful src ask) (m'.stepCareful src ask))
    (h : ∀ k' m₁ m₁', P m₁ m₁' →
      Agree src.config.limit S (runCareful src ask template k m₁) (runCareful src ask template' k' m₁')) :
    Agree src.config.limit S (runCareful src ask template (k + 1) m) (runCareful src ask template' k' m') := by
  cases k' with
  | zero => exact agree_throw_right _ _
  | succ k' =>
    rw [runCareful_succ hm, runCareful_succ hm']
    refine .unlessSpent (counts_pure _) (counts_pure _) (.unlessInterrupted fun hcareful hcareful' => ?_)
    exact (hstep hcareful hcareful').bind (counts_runCareful hask template k) (counts_runCareful hask template' k') (h k')

end

/-- Both machines have tried everything. -/
theorem matched_exhausted (k k' : Nat) (w w' : Workspace) :
    Agree src.config.limit (Outcome.Matched D b p) (runCareful src ask p.1 (k + 1) ⟨.failed .none, w⟩)
      (runCareful src ask p.2 k' ⟨.failed .none, w'⟩) := by
  cases k' with
  | zero => exact agree_throw_right _ _
  | succ k' =>
    exact .unlessSpent (counts_pure _) (counts_pure _) (.unlessInterrupted fun _ _ => agree_pure (.exhausted w w'))

/-- Both machines are at an answer. -/
theorem matched_answer (k k' : Nat) (h : Coupled b R w w') (hp : Linked R w w' ⟨p.1, queryEnv⟩ ⟨p.2, queryEnv⟩)
    (ho : Alternatives.Matched b p R w w' o o') :
    Agree src.config.limit (Outcome.Matched D b p) (runCareful src ask p.1 (k + 1) ⟨.proved .done o, w⟩)
      (runCareful src ask p.2 k' ⟨.proved .done o', w'⟩) := by
  cases k' with
  | zero => exact agree_throw_right _ _
  | succ k' =>
    refine .unlessSpent (counts_pure _) (counts_pure _) (.unlessInterrupted fun hcareful hcareful' => ?_)
    unfold Machine.isCareful at hcareful hcareful'
    rw [Bool.and_eq_true] at hcareful hcareful'
    exact agree_pure (.answer h hp hcareful.2 hcareful'.2 ho)

section

variable (hD : Values.Suits D b) (hown : src.Owns) (hask : ask.Nameless src.config.limit)

include hD hown hask

/-- Machines that match come to outcomes that match. -/
theorem matched_runCareful {k k' : Nat} {m m' : Machine} (h : Machine.Matched D b p m m') :
    Agree src.config.limit (Outcome.Matched D b p) (runCareful src ask p.1 k m) (runCareful src ask p.2 k' m') := by
  induction k generalizing k' m m' with
  | zero => exact agree_throw_left _ _
  | succ k ih =>
    have hboth {m m' : Machine} (hm : m.IsUnderway) (hm' : m'.IsUnderway)
        (hstep : m.isCareful src p.1 = true → m'.isCareful src p.2 = true →
          Agree src.config.limit (Machine.Matched D b p) (m.stepCareful src ask) (m'.stepCareful src ask)) :
        Agree src.config.limit (Outcome.Matched D b p) (runCareful src ask p.1 (k + 1) m) (runCareful src ask p.2 k' m') :=
      agree_runCareful_both hask.counting hm hm' hstep fun _ _ _ h => ih h
    have hleft {m m' : Machine} (hm : m.IsUnderway) (hstep : Ensures (m.stepCareful src ask) (Machine.Matched D b p · m')) :
        Agree src.config.limit (Outcome.Matched D b p) (runCareful src ask p.1 (k + 1) m) (runCareful src ask p.2 k' m') :=
      agree_runCareful_left hm (fun _ => hstep) fun _ h => ih h
    cases h with
    | prove h hgoal hn ho =>
      exact hboth trivial trivial fun hcareful hcareful' =>
        Machine.matched_prove hD hown hask h hgoal hn ho hcareful hcareful'
    | proved h hn ho =>
      cases hn with
      | done hp => exact matched_answer k k' h hp ho
      | goals hts hn =>
        refine hboth trivial trivial fun _ _ => ?_
        cases hts with
        | nil => exact agree_pure (.proved h hn ho)
        | cons ht hts => exact agree_pure (.prove h ht (.goals hts hn) ho)
      | leave goal goal' env env' hn =>
        exact hboth trivial trivial fun _ _ => .tick (agree_pure (.proved h hn (.reenter _ _ _ _ ho)))
      | refuted hback ho => exact hboth trivial trivial fun _ _ => agree_pure (.failed hback.coupled ho)
      | through env hn => exact hleft trivial (Ensures.pure (.proved h hn ho))
      | out goal env hn => exact hleft trivial (Ensures.tick (Ensures.pure (.proved h hn (.back _ _ ho))))
    | failed h ho =>
      cases ho with
      | none => exact matched_exhausted k k' _ _
      | undo hback ho => exact hboth trivial trivial fun _ _ => agree_pure (.failed hback.coupled ho)
      | reenter goal goal' env env' ho => exact hboth trivial trivial fun _ _ => .tick (agree_pure (.failed h ho))
      | absent hn ho => exact hboth trivial trivial fun _ _ => agree_pure (.proved h hn ho)
      | disjuncts hts hn ho =>
        refine hboth trivial trivial fun _ _ => ?_
        cases hts with
        | nil => exact agree_pure (.failed h ho)
        | cons ht hts => exact agree_pure (.prove h ht hn (.disjuncts hts hn ho))
      | candidates hback horigin ht hc hn ho =>
        exact hboth trivial trivial fun hcareful hcareful' =>
          Machine.matched_candidates hD hback horigin ht hc hn ho hcareful hcareful'
      | rules hback hgoal hsame hx hn ho =>
        exact hboth trivial trivial fun hcareful hcareful' =>
          Machine.matched_rules hD hback hgoal hsame hx hn ho hcareful hcareful'
      | back goal env ho => exact hleft trivial (Ensures.tick (Ensures.pure (.failed h ho)))
      | past hx n => exact hleft trivial (Machine.ensures_tryRules_of_all_pass hx (.ended _ _))
    | ended w w' => exact matched_exhausted k k' w w'

end

end Search

/-! ### Searches -/

/-- The terms are the same but for the names of their variables. -/
def Term.Renaming (t u : Term) : Prop := ∃ π : Equiv.Perm String, u = t.relabel π

theorem Term.Renaming.eq_of_isGround {t u : Term} (h : t.Renaming u) (ht : t.isGround = true) : u = t := by
  obtain ⟨π, rfl⟩ := h
  exact Term.relabel_of_isGround ht

namespace Search

/-- Careful runs of the searches come to outcomes that match. -/
structure RunsAlike (src : Sources) (ask : Answerer) (D : Type) [Values D] (b : Bool) (x y : Search) : Prop where
  status_eq : y.status = x.status
  outcomes : ∀ k k', Agree src.config.limit (Outcome.Matched D b (x.template, y.template))
    (runCareful src ask x.template k x.machine) (runCareful src ask y.template k' y.machine)

/-- The searches have come to the same answer but for the names of its variables, or both to none, and run alike from there
on. -/
structure Concluded (src : Sources) (ask : Answerer) (D : Type) [Values D] (b : Bool) (r r' : Option Term × Search) :
    Prop where
  answer : Option.Rel Term.Renaming r.1 r'.1
  search : RunsAlike src ask D b r.2 r'.2

section

variable (hD : Values.Suits D b) (hown : src.Owns) (hask : ask.Nameless src.config.limit)

include hD hown hask

theorem runsAlike_of_matched {x y : Search} (h : Machine.Matched D b (x.template, y.template) x.machine y.machine)
    (hstatus : y.status = x.status) : RunsAlike src ask D b x y :=
  ⟨hstatus, fun _ _ => matched_runCareful hD hown hask h⟩

theorem concluded_of_matched {x y : Search} (hstatus : y.status = x.status) {r r' : Outcome}
    (h : Outcome.Matched D b (x.template, y.template) r r') :
    Concluded src ask D b (x.conclude r) (y.conclude r') := by
  cases h with
  | @answer R w w' h hp hplugged hplugged' o o' ho =>
    obtain ⟨us, hus⟩ := Option.isSome_iff_exists.1 hplugged
    obtain ⟨us', hus'⟩ := Option.isSome_iff_exists.1 hplugged'
    obtain ⟨u, rest, s, names, rfl, hu, hrest⟩ := (Workspace.affords_of_plugged hus).cons
    obtain ⟨u', rest', s', names', rfl, hu', hrest'⟩ := (Workspace.affords_of_plugged hus').cons
    have hx : Scene.Proper ⟨b, R, w, w', queryEnv, queryEnv⟩ := ⟨hD, h, hp.env_lt, hp.env_lt'⟩
    have hlt := hrest.issued_lt
    have hlt' := hrest'.issued_lt
    dsimp only at hlt hlt'
    have hdrawn := (Scene.Drawn.refl hx).input hx hp hu hu' (by omega) (by omega)
    obtain ⟨π, hπ, -⟩ := hdrawn.exists_relabel hx
    have hplug : w.store.plug x.template queryEnv queryEnv w.names = (u, (s, names)) := Store.plugAt_of_within hu
    have hplug' : w'.store.plug y.template queryEnv queryEnv w'.names = (u', (s', names')) := Store.plugAt_of_within hu'
    unfold conclude answer resume
    dsimp only
    rw [hplug, hplug']
    refine ⟨.some ⟨π, List.singleton_inj.1 hπ⟩, runsAlike_of_matched hD hown hask (.failed hdrawn.plugged.coupled ?_) hstatus⟩
    exact ho.onward (fun hR => hR.1) hdrawn.renames.onward hdrawn.renames'.onward
  | exhausted w w' =>
    exact ⟨.none, runsAlike_of_matched hD hown hask (.ended w w') rfl⟩

/-- The next answers are the same but for the names of their variables. -/
theorem agree_nextCareful {x y : Search} (h : RunsAlike src ask D b x y) :
    Agree src.config.limit (Concluded src ask D b) (x.nextCareful src ask) (y.nextCareful src ask) := by
  unfold nextCareful
  rw [h.status_eq]
  split
  · rw [map_eq_pure_bind, map_eq_pure_bind]
    exact (h.outcomes stepBound stepBound).bind (fun _ => counts_pure _) (fun _ => counts_pure _) fun r r' hr =>
      agree_pure (concluded_of_matched hD hown hask h.status_eq hr)
  · exact agree_pure ⟨.none, h⟩

theorem agree_pullCareful (k : Nat) {x y : Search} (h : RunsAlike src ask D b x y) {found found' : List Term}
    (hfound : List.Forall₂ Term.Renaming found found') :
    Agree src.config.limit (fun r r' => List.Forall₂ Term.Renaming r.1 r'.1) (x.pullCareful src ask k found)
      (y.pullCareful src ask k found') := by
  induction k generalizing x y found found' with
  | zero => exact agree_pure hfound
  | succ k ih =>
    have hcounts (found : List Term) (r : Option Term × Search) :
        Counts (r.1.elim (pure (found, r.2)) fun t => pullCareful src ask k r.2 (t :: found)) := by
      obtain ⟨answer, s⟩ := r
      cases answer with
      | none => exact counts_pure _
      | some t => exact counts_pullCareful hask.counting k s _
    refine (agree_nextCareful hD hown hask h).bind (hcounts found) (hcounts found') fun r r' hr => ?_
    obtain ⟨answer, x⟩ := r
    obtain ⟨answer', y⟩ := r'
    obtain ⟨hanswer, hsearch⟩ := hr
    dsimp only at hanswer hsearch
    cases hanswer with
    | none => exact agree_pure hfound
    | some ht => exact ih hsearch (.cons ht hfound)

theorem agree_takeCareful (k : Nat) {x y : Search} (h : RunsAlike src ask D b x y) :
    Agree src.config.limit (List.Forall₂ Term.Renaming) (x.takeCareful src ask k) (y.takeCareful src ask k) :=
  (agree_pullCareful hD hown hask k h .nil).bind (fun _ => counts_pure _) (fun _ => counts_pure _) fun _ _ hr =>
    agree_pure (List.rel_reverse hr)

end

end Search

/-! ### Searches from the start -/

/-- The variables of the query have the same values as those that have their places. -/
def Pairing.naming (D : Type) (π : Equiv.Perm String) (vs : List String) : Pairing D :=
  fun θ θ' => ∀ v ∈ vs, θ v Search.queryEnv = θ' (π v) Search.queryEnv

omit [Values D] in
theorem Pairing.flip_naming (π : Equiv.Perm String) (vs : List String) :
    flip (Pairing.naming D π vs) = Pairing.naming D π.symm (vs.map π) := by
  funext θ θ'
  refine propext ⟨fun h v hv => ?_, fun h v hv => ?_⟩
  · obtain ⟨u, hu, rfl⟩ := List.mem_map.1 hv
    rw [Equiv.symm_apply_apply]
    exact (h u hu).symm
  · have := h (π v) (List.mem_map_of_mem hv)
    rw [Equiv.symm_apply_apply] at this
    exact this.symm

/-- The store that a search starts with. -/
def Store.start (occursCheck : Bool) : Store := (Store.newEnv { occursCheck }).2

theorem Store.size_envs_start (occursCheck : Bool) : (Store.start occursCheck).envs.size = 1 := rfl

theorem Reading.solves_start (θ : Reading D) (occursCheck : Bool) : θ.Solves (Store.start occursCheck) :=
  Reading.solves_newEnv.2 fun v env c hc => by simp [Store.lookup] at hc

theorem Workspace.not_isSpare_start {names : NameSupply} {v : String} (h : ¬ names.WillIssue v) :
    ¬ Workspace.IsSpare ⟨Store.start b, names⟩ v Search.queryEnv :=
  not_or.2 ⟨by simp [Store.size_envs_start, Search.queryEnv], h⟩

theorem Pairing.Covers.start {names : NameSupply} {vs : List String} (π : Equiv.Perm String)
    (h : ∀ v ∈ vs, ¬ names.WillIssue v) : (Pairing.naming D π vs).Covers b ⟨Store.start b, names⟩ where
  sound := (Store.Sound.of_empty b).newEnv
  check := rfl
  solves _ := Reading.solves_start _ b
  total {θ} _ := ⟨fun v e => θ (π.symm v) e, fun v _ => congrArg (θ · _) (π.symm_apply_apply v).symm⟩
  spare hR heq v hv := by
    rw [heq v _ (Workspace.not_isSpare_start (h v hv))]
    exact hR v hv

/-- Searches start from coupled workspaces. -/
theorem coupled_start {names names' : NameSupply} (vs : List String) (π : Equiv.Perm String)
    (h : ∀ v ∈ vs, ¬ names.WillIssue v) (h' : ∀ v ∈ vs, ¬ names'.WillIssue (π v)) :
    Coupled b (Pairing.naming D π vs) ⟨Store.start b, names⟩ ⟨Store.start b, names'⟩ where
  left := .start π h
  right := by
    rw [Pairing.flip_naming]
    refine .start π.symm fun v hv => ?_
    obtain ⟨u, hu, rfl⟩ := List.mem_map.1 hv
    exact h' u hu

/-- Terms that differ in these variables only are linked. -/
theorem linked_start {names names' : NameSupply} {vs : List String} {π : Equiv.Perm String} {t : Term}
    (h : ∀ v ∈ t.vars, v ∈ vs) : Linked (Pairing.naming D π vs) ⟨Store.start b, names⟩ ⟨Store.start b, names'⟩
      ⟨t, Search.queryEnv⟩ ⟨t.relabel π, Search.queryEnv⟩ where
  env_lt := Nat.zero_lt_one
  env_lt' := Nat.zero_lt_one
  read_eq hR := Reading.read_relabel fun v hv => hR v (h v hv)

theorem NameSupply.not_willIssue_after {terms : List Term} {t : Term} {v : String} (ht : t ∈ terms) (hv : v ∈ t.vars) :
    ¬ (NameSupply.after terms).WillIssue v := by
  rintro ⟨n, hn, hsize, rfl⟩
  exact NameSupply.not_mem_vars_after ht hn hsize hv

theorem Values.exists_suits (occursCheck : Bool) : ∃ (D : Type) (_ : Values D), Values.Suits D occursCheck := by
  cases occursCheck with
  | false => exact ⟨Tree, _, Values.suits_tree⟩
  | true => exact ⟨Term, _, Values.suits_term⟩

/-- Searches for goals that differ in their variables run alike. -/
theorem Search.runsAlike_relabel (hD : Values.Suits D src.config.occursCheck) (hown : src.Owns)
    (hask : ask.Nameless src.config.limit) (π : Equiv.Perm String) (template goal : Term) :
    RunsAlike src ask D src.config.occursCheck (start src.config template goal)
      (start src.config (template.relabel π) (goal.relabel π)) := by
  have hvars {t : Term} (ht : t ∈ [template, goal]) {v : String} (hv : v ∈ t.vars) :
      v ∈ [template, goal].flatMap Term.vars := List.mem_flatMap.2 ⟨t, ht, hv⟩
  have htemplate := @hvars template (by simp)
  have hgoal := @hvars goal (by simp)
  refine runsAlike_of_matched hD hown hask (.prove (coupled_start ([template, goal].flatMap Term.vars) π ?_ ?_)
    (linked_start fun v hv => hgoal hv) (.done (linked_start fun v hv => htemplate hv)) .none) rfl
  · intro v hv
    obtain ⟨t, ht, hv⟩ := List.mem_flatMap.1 hv
    exact NameSupply.not_willIssue_after ht hv
  · intro v hv
    obtain ⟨t, ht, hv⟩ := List.mem_flatMap.1 hv
    refine NameSupply.not_willIssue_after (t := t.relabel π) ?_ ?_
    · exact List.mem_map_of_mem (f := Term.relabel π) ht
    · rw [Term.vars_relabel]
      exact List.mem_map_of_mem hv

/-! ### Questions -/

/-- Answers that are the same but for the names of their variables are the same if they are ground. -/
theorem agree_ifGround {ts us : List Term} (h : List.Forall₂ Term.Renaming ts us) :
    Agree limit Eq (ifGround ts) (ifGround us) := by
  refine .unlessInterrupted fun hts _ => agree_pure ?_
  rw [List.all_eq_true] at hts
  clear * - h hts
  induction h with
  | nil => rfl
  | cons h _ ih =>
    rw [List.forall_mem_cons] at hts
    rw [h.eq_of_isGround hts.1, ih hts.2]

theorem ensures_ifGround (ts : List Term) : Ensures (ifGround ts) fun ts => ∀ t ∈ ts, t.isGround = true := by
  unfold ifGround
  split
  · rename_i h
    exact Ensures.pure (List.all_eq_true.1 h)
  · exact Ensures.throw _

/-- Questions that differ in their variables have the same answers, as long as these are ground. -/
theorem nameless_consultCareful (hown : src.Owns) (k : Nat) : (consultCareful src k).Nameless src.config.limit := by
  induction k with
  | zero => exact ⟨counting_consultCareful src 0, fun _ => Ensures.throw _, fun _ _ => agree_throw _⟩
  | succ k ih =>
    obtain ⟨D, _, hD⟩ := Values.exists_suits src.config.occursCheck
    refine ⟨counting_consultCareful src (k + 1), fun q => ?_, fun π q => ?_⟩
    · cases q <;> exact (Ensures.any _).bind fun _ _ => ensures_ifGround _
    · cases q with
      | all template goal =>
        have halike := Search.runsAlike_relabel hD hown ih π template goal
        exact (Search.agree_takeCareful hD hown ih stepBound halike).bind counts_ifGround counts_ifGround fun _ _ h =>
          agree_ifGround h
      | first template goal =>
        have halike := Search.runsAlike_relabel hD hown ih π template goal
        refine (Search.agree_nextCareful hD hown ih halike).bind (fun _ => counts_ifGround _) (fun _ => counts_ifGround _)
          fun r r' hr => agree_ifGround ?_
        have hanswer := hr.answer
        generalize r.1 = answer at hanswer ⊢
        generalize r'.1 = answer' at hanswer ⊢
        cases hanswer with
        | none => exact .nil
        | some h => exact .cons h .nil
      | value expr =>
        refine Agree.bind (agreeOption_valueOf_relabel ih rfl π expr) (fun _ => counts_ifGround _)
          (fun _ => counts_ifGround _) fun a a' h => ?_
        subst h
        exact agree_ifGround (List.forall₂_same.2 fun t _ => ⟨1, (Term.relabel_one t).symm⟩)

end Deduction
