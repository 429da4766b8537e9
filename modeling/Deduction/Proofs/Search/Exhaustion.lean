import Deduction.Proofs.Search.Language
import Deduction.Proofs.Search.Limit
import Deduction.Proofs.Search.Visits

/-!
# What is left when everything was tried

Not every goal takes back what was bound since it was come to: tests and negations leave the variables that were renamed
when their inputs were plugged, and so do the answers. But nothing is renamed where nothing is bound. The first binding
was made by a goal that goes back to the beginning of the trail, and that goal is still to be tried as long as there is
any binding (`Machine.Backed`). So a search that has tried everything leaves no binding (`exhausted_leavesNothing`).
-/

namespace Deduction

variable {α β : Type}

/-! ### Bindings on the trail -/

namespace Store

variable {s s' : Store} {cp : Checkpoint}

/-- No binding is made by plugging where nothing is bound. -/
theorem plugAt_of_unbound (hs : ∀ v env, s.lookup v env = none) (n : Nat) (env : EnvId) (t : Term) (names : NameSupply) :
    (plugAt env n env t (s, names)).2 = (s, names) := by
  induction n generalizing t with
  | zero => rfl
  | succ n ih =>
    cases t with
    | var v =>
      unfold plugAt
      rw [hs]
      simp
    | sym a => rfl
    | compound f args =>
      suffices hargs : (threadMap (plugAt env n env) args (s, names)).2 = (s, names) from hargs
      induction args with
      | nil => rfl
      | cons t args ihargs =>
        unfold threadMap
        have ht := ih t
        generalize plugAt env n env t (s, names) = r at ht
        obtain ⟨u, st⟩ := r
        dsimp only at ht
        subst ht
        exact ihargs

theorem size_trail_rollback_le (s : Store) (cp : Checkpoint) : (s.rollback cp).trail.size ≤ cp := by
  rw [← Array.length_toList, toList_trail_rollback, List.length_take]
  exact Nat.min_le_left _ _

/-- All bindings are on the trail, and there are none if there were none before. -/
structure Stays (isEmpty : Prop) (s : Store) : Prop where
  trailed : s.Trailed
  size_trail : isEmpty → s.trail.size = 0

namespace Stays

variable {isEmpty : Prop}

theorem newEnv (h : s.Stays isEmpty) : s.newEnv.2.Stays isEmpty := ⟨h.trailed.newEnv, h.size_trail⟩

theorem plug (h : s.Stays isEmpty) (t : Term) (env : EnvId) (names : NameSupply) :
    (s.plug t env env names).2.1.Stays isEmpty where
  trailed := h.trailed.of_extends (plug_extends s t env env names)
  size_trail hempty := by
    have hnone := h.trailed.lookup_eq_none (h.size_trail hempty)
    have hplug : (s.plug t env env names).2.1 = s := congrArg Prod.fst (plugAt_of_unbound hnone allowance env t names)
    rw [hplug]
    exact h.size_trail hempty

end Stays

/-- Without bindings there is nothing to count. -/
theorem bindingCount_eq_zero (h : ∀ v env, s.lookup v env = none) : s.bindingCount = 0 := by
  have hnil (e : Env) (he : e ∈ s.envs.toList) : e = [] := by
    obtain ⟨i, hi, rfl⟩ := List.getElem_of_mem he
    have hi' : i < s.envs.size := by simpa using hi
    cases hcases : s.envs.toList[i] with
    | nil => rfl
    | cons b e =>
      have hlookup := h b.1 i
      rw [lookup_eq_bind, Array.getElem?_eq_getElem hi', ← Array.getElem_toList, hcases] at hlookup
      simp at hlookup
  have hsum (es : List Env) (hes : ∀ e ∈ es, e = []) : es.foldl (fun n e => n + e.length) 0 = 0 := by
    induction es with
    | nil => rfl
    | cons e es ih =>
      rw [List.foldl_cons, hes e List.mem_cons_self]
      exact ih fun e he => hes e (List.mem_cons_of_mem _ he)
  unfold bindingCount
  rw [← Array.foldl_toList]
  exact hsum _ hnil

end Store

/-! ### Selections -/

/-- A selection binds nothing where nothing is bound. -/
def Unbinding (x : Selecting α) : Prop :=
  ∀ (isEmpty : Prop) (w : Workspace), w.store.Stays isEmpty → Ensures (x.run.run w) fun r => r.2.store.Stays isEmpty

namespace Unbinding

theorem pure (a : α) : Unbinding (Pure.pure a) := fun _ _ hw => Ensures.pure hw

theorem failure : Unbinding (failure : Selecting α) := fun _ _ hw => Ensures.pure hw

theorem getM (a : Option α) : Unbinding (a.getM : Selecting α) := by
  cases a with
  | none => exact failure
  | some a => exact pure a

theorem lift (x : Metered α) : Unbinding (liftM x : Selecting α) := by
  intro isEmpty w hw
  rw [Selecting.run_liftM]
  exact (Ensures.any x).bind fun a _ => Ensures.pure hw

theorem bind {x : Selecting α} {f : α → Selecting β} (hx : Unbinding x) (hf : ∀ a, Unbinding (f a)) :
    Unbinding (x >>= f) := by
  intro isEmpty w hw
  rw [OptionT.run_bind, Option.elimM, StateT.run_bind]
  refine (hx isEmpty w hw).bind fun r hr => ?_
  obtain ⟨a, w₁⟩ := r
  cases a with
  | none => exact Ensures.pure hr
  | some a => exact hf a isEmpty w₁ hr

theorem get : Unbinding (get : Selecting Workspace) := fun _ _ hw => Ensures.pure hw

theorem input (t : Term) (env : EnvId) : Unbinding (Selecting.input t env) :=
  fun _ w hw => Ensures.pure (hw.plug t env w.names)

theorem inputs (env : EnvId) (ts : List Term) : Unbinding (Selecting.inputs env ts) := by
  induction ts with
  | nil => exact pure []
  | cons t ts ih =>
    unfold Selecting.inputs
    refine (input t env).bind fun value => ?_
    split
    · exact failure
    · exact ih.bind fun values => pure _

theorem freshVar : Unbinding Selecting.freshVar := fun _ _ hw => Ensures.pure hw

theorem newEnv : Unbinding Selecting.newEnv := fun _ _ hw => Ensures.pure hw.newEnv

variable {src : Sources} {ask : Answerer} {surroundings : Surroundings}

theorem selectFacts (goal : Term) (env : EnvId) : Unbinding (selectFacts src goal env) :=
  get.bind fun _ => newEnv.bind fun _ => pure _

theorem selectDataset (goal name : Term) (env : EnvId) : Unbinding (selectDataset src goal name env) :=
  (input name env).bind fun _ => (getM _).bind fun _ => get.bind fun _ => newEnv.bind fun _ => pure _

theorem selectMembers (item list : Term) (env : EnvId) : Unbinding (selectMembers item list env) :=
  (input list env).bind fun _ => pure _

theorem selectGroups (args : List Term) (env : EnvId) : Unbinding (selectGroups surroundings args env) := by
  unfold Deduction.selectGroups
  refine (getM _).bind fun t => (input t env).bind fun text => (getM _).bind fun u => (input u env).bind fun pattern => ?_
  refine (getM _).bind fun t => (getM _).bind fun p => (getM _).bind fun groups => ?_
  dsimp only
  split
  · exact failure.bind fun _ => pure _
  · exact pure _

theorem selectMatches (args : List Term) (env : EnvId) : Unbinding (selectMatches surroundings args env) := by
  unfold Deduction.selectMatches
  refine (getM _).bind fun t => (input t env).bind fun text => (getM _).bind fun u => (input u env).bind fun pattern => ?_
  exact (getM _).bind fun t => (getM _).bind fun p => (getM _).bind fun output => pure _

theorem mapRelation (relation : String) (items : List Term) : Unbinding (mapRelation ask relation items) := by
  induction items with
  | nil => exact pure []
  | cons item items ih =>
    unfold Deduction.mapRelation
    refine freshVar.bind fun out => (lift _).bind fun results => ?_
    split
    · exact ih.bind fun rest => pure _
    · exact failure

theorem selectMapped (args : List Term) (env : EnvId) : Unbinding (selectMapped ask args env) := by
  unfold Deduction.selectMapped
  refine (getM _).bind fun t => (getM _).bind fun relation => (getM _).bind fun u => (input u env).bind fun list => ?_
  exact (getM _).bind fun items => (mapRelation relation items).bind fun results => (getM _).bind fun output => pure _

theorem selectAggregate (f : String) (args : List Term) (env : EnvId) : Unbinding (selectAggregate src ask f args env) := by
  unfold Deduction.selectAggregate
  refine (getM _).bind fun t => (input t env).bind fun template => (getM _).bind fun u => (input u env).bind fun goal => ?_
  dsimp only
  split
  · exact (lift _).bind fun answers => (pure _).bind fun value => (getM _).bind fun output => pure _
  · exact (lift _).bind fun value => (getM _).bind fun output => pure _

theorem selectValue (args : List Term) (env : EnvId) : Unbinding (selectValue ask args env) := by
  unfold Deduction.selectValue
  refine (getM _).bind fun t => (input t env).bind fun expr => (lift _).bind fun values => ?_
  exact (getM _).bind fun value => (getM _).bind fun output => pure _

theorem selectCall (f : String) (args : List Term) (env : EnvId) : Unbinding (selectCall surroundings f args env) := by
  unfold Deduction.selectCall
  refine (getM _).bind fun output => (inputs env _).bind fun values => ?_
  dsimp only
  split
  · exact (getM _).bind fun value => pure _
  · split
    · exact (getM _).bind fun value => pure _
    · exact (getM _).bind fun value => pure _

theorem selectComputed (f : String) (args : List Term) (env : EnvId) : Unbinding (selectComputed src ask f args env) := by
  unfold Deduction.selectComputed
  split
  · exact selectValue _ env
  · exact selectGroups _ env
  · exact selectMatches _ env
  · exact selectMapped _ env
  · split
    · exact selectAggregate _ _ env
    · exact selectCall _ _ env

end Unbinding

/-! ### Going back to the beginning -/

/-- Is something left to try that goes back to the beginning of the trail first? -/
def Alternatives.clears : Alternatives → Bool
  | .none => false
  | .undo cp o => cp = 0 || o.clears
  | .reenter _ _ o | .absent _ o | .disjuncts _ _ _ o => o.clears
  | .candidates c _ o => c.checkpoint = 0 || o.clears
  | .rules x _ o => x.checkpoint = 0 || o.clears

/-- The bindings that there are at a checkpoint, if any, are taken back before everything was tried. -/
def Alternatives.Covers (o : Alternatives) (cp : Checkpoint) : Prop := cp = 0 ∨ o.clears = true

mutual
/-- Wherever a negation goes back to, the bindings there are taken back later. -/
inductive Agenda.Backed : Agenda → Prop
  | done : Agenda.Backed .done
  | goals (env : EnvId) (rest : List Term) {next : Agenda} (h : next.Backed) : Agenda.Backed (.goals env rest next)
  | leave (goal : Term) (env : EnvId) {next : Agenda} (h : next.Backed) : Agenda.Backed (.leave goal env next)
  | refuted {cp : Checkpoint} {o : Alternatives} (hcp : o.Covers cp) (ho : o.Backed) : Agenda.Backed (.refuted cp o)

/-- Wherever it goes back to, the bindings there are taken back later. -/
inductive Alternatives.Backed : Alternatives → Prop
  | none : Alternatives.Backed .none
  | undo {cp : Checkpoint} {o : Alternatives} (hcp : o.Covers cp) (ho : o.Backed) : Alternatives.Backed (.undo cp o)
  | reenter (goal : Term) (env : EnvId) {o : Alternatives} (ho : o.Backed) : Alternatives.Backed (.reenter goal env o)
  | absent {next : Agenda} {o : Alternatives} (hn : next.Backed) (ho : o.Backed) : Alternatives.Backed (.absent next o)
  | disjuncts (env : EnvId) (goals : List Term) {next : Agenda} {o : Alternatives} (hn : next.Backed) (ho : o.Backed) :
    Alternatives.Backed (.disjuncts env goals next o)
  | candidates {c : Cursor} {next : Agenda} {o : Alternatives} (hcp : o.Covers c.checkpoint) (hn : next.Backed)
    (ho : o.Backed) : Alternatives.Backed (.candidates c next o)
  | rules {x : Expansion} {next : Agenda} {o : Alternatives} (hcp : o.Covers x.checkpoint) (hn : next.Backed)
    (ho : o.Backed) : Alternatives.Backed (.rules x next o)
end

/-- What is left to try takes back the bindings that there are. -/
structure Workspace.Backed (o : Alternatives) (w : Workspace) : Prop where
  trailed : w.store.Trailed
  covers : o.Covers w.store.trail.size

/-- As long as there are bindings, something is left to try that takes all of them back. -/
inductive Machine.Backed : Machine → Prop
  | prove {w : Workspace} (goal : Term) (env : EnvId) {next : Agenda} {o : Alternatives} (hw : w.Backed o)
    (hn : next.Backed) (ho : o.Backed) : Machine.Backed ⟨.prove goal env next o, w⟩
  | proved {w : Workspace} {next : Agenda} {o : Alternatives} (hw : w.Backed o) (hn : next.Backed) (ho : o.Backed) :
    Machine.Backed ⟨.proved next o, w⟩
  | failed {w : Workspace} {o : Alternatives} (hw : w.Backed o) (ho : o.Backed) : Machine.Backed ⟨.failed o, w⟩

namespace Workspace.Backed

variable {s s' : Store} {names : NameSupply} {o o' : Alternatives} {w : Workspace}

/-- Once something is left to try that goes back to the beginning, any bindings may be made. -/
theorem of_clears (htrailed : s.Trailed) (h : o.clears = true) : Workspace.Backed o ⟨s, names⟩ := ⟨htrailed, Or.inr h⟩

theorem rollback {cp : Checkpoint} (htrailed : s.Trailed) (h : o.Covers cp) :
    Workspace.Backed o ⟨s.rollback cp, names⟩ where
  trailed := htrailed.rollback cp
  covers := by
    rcases h with rfl | hclears
    · exact Or.inl (Nat.le_zero.1 (s.size_trail_rollback_le 0))
    · exact Or.inr hclears

theorem newEnv (h : w.Backed o) : Workspace.Backed o ⟨w.store.newEnv.2, names⟩ := ⟨h.trailed.newEnv, h.covers⟩

/-- What happens to a store where nothing is bound unless something is. -/
theorem of_stays (h : w.Backed o) (hs : ∀ isEmpty, w.store.Stays isEmpty → s.Stays isEmpty) :
    Workspace.Backed o ⟨s, names⟩ := by
  have hstays := hs (w.store.trail.size = 0) ⟨h.trailed, id⟩
  exact ⟨hstays.trailed, h.covers.imp_left hstays.size_trail⟩

end Workspace.Backed

namespace Machine

variable {src : Sources} {ask : Answerer} {s : Store} {names : NameSupply} {next : Agenda} {o : Alternatives}
  {w : Workspace} {m : Machine}

/-! ### Candidates and rules -/

/-- A goal that goes back to where it was come to takes back what its candidates bind. -/
theorem backed_tryCandidates {c : Cursor} (hw : Workspace.Backed o ⟨s, names⟩) (hcp : o.Covers c.checkpoint)
    (hn : next.Backed) (ho : o.Backed) (candidates : List Term) :
    Ensures (tryCandidates src c next o candidates ⟨s, names⟩) Machine.Backed := by
  induction candidates with
  | nil => exact Ensures.tick (Ensures.pure (.failed hw ho))
  | cons t rest ih =>
    generalize h : s.unify c.target c.env t c.candidateEnv = r
    obtain ⟨ok, s'⟩ := r
    cases ok with
    | true =>
      rw [tryCandidates_of_unify h]
      refine Ensures.tick (Ensures.tick (Ensures.pure ?_))
      have hrest : Alternatives.Backed (.candidates { c with candidates := rest } next o) := .candidates hcp hn ho
      have hclears : Alternatives.clears (.candidates { c with candidates := rest } next o) = true := by
        simpa [Alternatives.clears, Alternatives.Covers, Store.checkpoint] using hcp
      have htrailed := hw.trailed.of_extends (Store.unify_extends h)
      unfold Cursor.others
      dsimp only
      split
      · exact .proved (.of_clears htrailed hclears) hn (.reenter _ _ hrest)
      · exact .proved (.of_clears htrailed hclears) hn hrest
    | false =>
      rw [tryCandidates_of_not_unify (congrArg Prod.fst h)]
      exact Ensures.tick ih

theorem backed_tryRules {x : Expansion} (hw : Workspace.Backed o ⟨s, names⟩) (hcp : o.Covers x.checkpoint)
    (hn : next.Backed) (ho : o.Backed) (rules : List Term) :
    Ensures (tryRules src x next o rules ⟨s, names⟩) Machine.Backed := by
  have hrest (rest : List Term) : Alternatives.Backed (.rules { x with rules := rest } next o) := .rules hcp hn ho
  have hclears (rest : List Term) : Alternatives.clears (.rules { x with rules := rest } next o) = true := by
    simpa [Alternatives.clears, Alternatives.Covers, Store.checkpoint] using hcp
  induction rules with
  | nil => exact Ensures.tick (Ensures.pure (.failed hw ho))
  | cons t rest ih =>
    cases hrule : t.asRule with
    | some rule =>
      obtain ⟨head, body⟩ := rule
      generalize h : s.unify head x.ruleEnv x.goal x.env = r
      obtain ⟨ok, s'⟩ := r
      cases ok with
      | true =>
        have htrailed := hw.trailed.of_extends (Store.unify_extends h)
        rw [tryRules_of_head hrule h]
        exact Ensures.tick (Ensures.pure (.proved (.of_clears htrailed (hclears rest)) (.goals _ _ (.leave _ _ hn)) (hrest rest)))
      | false =>
        rw [tryRules_of_not_head hrule (congrArg Prod.fst h)]
        exact Ensures.tick ih
    | none =>
      generalize h : s.unify x.goal x.env t x.ruleEnv = r
      obtain ⟨ok, s'⟩ := r
      cases ok with
      | true =>
        have htrailed := hw.trailed.of_extends (Store.unify_extends h)
        rw [tryRules_of_sentence hrule h]
        exact Ensures.tick (Ensures.tick (Ensures.pure
          (.proved (.of_clears htrailed (hclears rest)) hn (.reenter _ _ (hrest rest)))))
      | false =>
        rw [tryRules_of_not_sentence hrule (congrArg Prod.fst h)]
        exact Ensures.tick ih

theorem backed_select {selecting : Selecting Selection} (hselecting : Unbinding selecting) (origin : Cursor.Origin)
    (env : EnvId) (hw : w.Backed o) (hn : next.Backed) (ho : o.Backed) :
    Ensures (select src origin env selecting next o w) Machine.Backed := by
  have hrun (isEmpty : Prop) := hselecting isEmpty w
  unfold select
  intro meter m' meter' h
  obtain ⟨⟨selection, w₁⟩, meter₁, hselection, h⟩ := Metered.run_bind_eq_ok.1 h
  have hstays (isEmpty : Prop) (hempty : w.store.Stays isEmpty) : w₁.store.Stays isEmpty := hrun isEmpty hempty hselection
  cases selection with
  | none =>
    obtain ⟨rfl, -⟩ := Metered.run_pure_eq_ok.1 h
    exact .failed (hw.of_stays hstays) ho
  | some selection =>
    have htrailed : w₁.store.Trailed := (hstays False ⟨hw.trailed, False.elim⟩).trailed
    have hback : Workspace.Backed o ⟨w₁.store.rollback w.store.checkpoint, w₁.names⟩ := .rollback htrailed hw.covers
    have htry := @backed_tryCandidates src _ _ _ _
      (c := ⟨origin, selection.target, env, selection.candidates, selection.env, w.store.checkpoint⟩) hback hw.covers hn ho
    exact htry selection.candidates h

theorem backed_expand (goal : Term) (env : EnvId) (hw : w.Backed o) (hn : next.Backed) (ho : o.Backed) :
    Ensures (expand src goal env next o w) Machine.Backed := by
  unfold expand
  exact Ensures.tick (backed_tryRules hw.newEnv hw.covers hn ho _)

/-! ### Steps -/

theorem backed_proveResolved (goal : Term) (env : EnvId) (hw : w.Backed o) (hn : next.Backed) (ho : o.Backed) :
    Ensures (proveResolved src ask goal env next o w) Machine.Backed := by
  have hundo : Alternatives.clears (.undo w.store.checkpoint o) = true := by
    simpa [Alternatives.clears, Alternatives.Covers, Store.checkpoint] using hw.covers
  unfold proveResolved
  split
  · exact Ensures.pure (.failed hw ho)
  · exact Ensures.pure (.proved (.of_clears hw.trailed hundo) hn (.undo hw.covers ho))
  · rename_i x y _
    dsimp only
    generalize h : w.store.unify x env y env = r
    obtain ⟨ok, s⟩ := r
    cases ok with
    | true =>
      have htrailed := hw.trailed.of_extends (Store.unify_extends h)
      exact Ensures.pure (.proved (.of_clears htrailed hundo) hn (.undo hw.covers ho))
    | false =>
      rw [Store.unify_eq_of_fails h]
      exact Ensures.pure (.failed hw ho)
  · rename_i x y _
    dsimp only
    generalize h : w.store.unify x env y env = r
    obtain ⟨ok, s⟩ := r
    cases ok with
    | true =>
      simp only [(Store.unify_extends h).rollback_eq]
      exact Ensures.pure (.failed hw ho)
    | false =>
      rw [Store.unify_eq_of_fails h]
      exact Ensures.pure (.proved hw hn ho)
  · rename_i terms _
    intro meter m' meter' h
    obtain ⟨⟨values, w₁⟩, meter₁, hvalues, h⟩ := Metered.run_bind_eq_ok.1 h
    have hw₁ : Workspace.Backed o w₁ := hw.of_stays fun isEmpty hs => Unbinding.inputs env terms isEmpty w hs hvalues
    cases values with
    | none =>
      obtain ⟨rfl, -⟩ := Metered.run_pure_eq_ok.1 h
      exact .failed hw₁ ho
    | some values =>
      obtain ⟨rfl, -⟩ := Metered.run_pure_eq_ok.1 h
      split
      · exact .proved hw₁ hn ho
      · exact .failed hw₁ ho
  · exact Ensures.pure (.prove _ _ ⟨hw.trailed, hw.covers⟩ (.refuted hw.covers ho) (.absent hn ho))
  · exact Ensures.pure (.proved hw (.goals _ _ hn) ho)
  · exact Ensures.pure (.failed ⟨hw.trailed, hw.covers⟩ (.disjuncts _ _ hn ho))
  · exact backed_select (.selectMembers _ _ env) _ env hw hn ho
  · exact backed_select (.selectDataset _ _ env) _ env hw hn ho
  · exact backed_select (.selectComputed _ _ env) _ env hw hn ho
  · exact backed_expand _ _ hw hn ho
  · exact Ensures.tick (backed_select (.selectFacts _ env) _ env hw hn ho)

theorem backed_advance (hw : w.Backed o) (hn : next.Backed) (ho : o.Backed) :
    Ensures (advance src next o w) Machine.Backed := by
  cases hn with
  | done => exact Ensures.pure (.proved hw .done ho)
  | goals env rest hn =>
    cases rest with
    | nil => exact Ensures.pure (.proved hw hn ho)
    | cons goal rest => exact Ensures.pure (.prove _ _ hw (.goals _ _ hn) ho)
  | leave goal env hn => exact Ensures.tick (Ensures.pure (.proved ⟨hw.trailed, hw.covers⟩ hn (.reenter _ _ ho)))
  | refuted hcp ho' => exact Ensures.pure (.failed (.rollback hw.trailed hcp) ho')

theorem backed_retreat (hw : w.Backed o) (ho : o.Backed) : Ensures (retreat src o w) Machine.Backed := by
  cases ho with
  | none => exact Ensures.pure (.failed hw .none)
  | undo hcp ho => exact Ensures.pure (.failed (.rollback hw.trailed hcp) ho)
  | reenter goal env ho => exact Ensures.tick (Ensures.pure (.failed ⟨hw.trailed, hw.covers⟩ ho))
  | absent hn ho => exact Ensures.pure (.proved ⟨hw.trailed, hw.covers⟩ hn ho)
  | disjuncts env goals hn ho =>
    cases goals with
    | nil => exact Ensures.pure (.failed ⟨hw.trailed, hw.covers⟩ ho)
    | cons goal rest => exact Ensures.pure (.prove _ _ ⟨hw.trailed, hw.covers⟩ hn (.disjuncts _ _ hn ho))
  | candidates hcp hn ho => exact backed_tryCandidates (.rollback hw.trailed hcp) hcp hn ho _
  | rules hcp hn ho => exact backed_tryRules (.rollback hw.trailed hcp) hcp hn ho _

/-- One step leaves something to try that takes back all bindings. -/
theorem backed_step (hm : m.Backed) : Ensures (step src ask m) Machine.Backed := by
  cases hm with
  | prove goal env hw hn ho => exact backed_proveResolved _ _ hw hn ho
  | proved hw hn ho => exact backed_advance hw hn ho
  | failed hw ho => exact backed_retreat hw ho

end Machine

/-! ### Searches -/

/-- As long as there are bindings, something is left to try; when everything was tried, there are none. -/
structure Search.Backed (x : Search) : Prop where
  running : x.status = .running → x.machine.Backed
  exhausted : x.status = .exhausted → x.machine.work.store.Stays True

namespace Search

variable {src : Sources} {ask : Answerer} {x x' : Search} {meter meter' : Meter} {given : Option Term}

theorem backed_start (config : Config) (template goal : Term) : (start config template goal).Backed where
  running _ := .prove _ _ ⟨(Store.trailed_empty _).newEnv, Or.inl rfl⟩ .done .none
  exhausted h := by cases h

/-- The next answer, plugged or not, leaves something to try that takes back all bindings. -/
theorem backed_next (hx : x.Backed) (h : (x.next src ask).run meter = .ok ((given, x'), meter')) : x'.Backed := by
  by_cases hrunning : x.status = .running
  · unfold next at h
    rw [if_neg (by simp [hrunning])] at h
    obtain ⟨outcome, meter₁, hrun, h⟩ := Metered.run_bind_eq_ok.1 h
    have hend := run_keeps (P := fun m _ => m.Backed) (fun _ _ _ _ hm _ hstep => Machine.backed_step hm hstep)
      (hx.running hrunning) hrun
    cases outcome with
    | answer otherwise w =>
      obtain ⟨hpair, -⟩ := Metered.run_pure_eq_ok.1 h
      cases hpair
      cases hend with
      | proved hw _ ho =>
        refine ⟨fun _ => .failed (hw.of_stays fun _ hs => hs.plug _ _ _) ho, fun hstatus => ?_⟩
        dsimp only at hstatus
        rw [hrunning] at hstatus
        cases hstatus
    | exhausted w =>
      obtain ⟨hpair, -⟩ := Metered.run_pure_eq_ok.1 h
      cases hpair
      cases hend with
      | failed hw _ =>
        refine ⟨fun hstatus => (by cases hstatus), fun _ => ⟨hw.trailed, fun _ => ?_⟩⟩
        rcases hw.covers with hsize | hclears
        · exact hsize
        · cases hclears
    | limitReached w =>
      obtain ⟨hpair, -⟩ := Metered.run_pure_eq_ok.1 h
      cases hpair
      exact ⟨fun hstatus => (by cases hstatus), fun hstatus => by cases hstatus⟩
  · unfold next at h
    rw [if_pos hrunning] at h
    obtain ⟨hpair, -⟩ := Metered.run_pure_eq_ok.1 h
    cases hpair
    exact hx

end Search

theorem Solutions.backed_answers {n : Nat} {s s' : Solutions} {found : List (Option Term)} (hs : s.search.Backed)
    (h : answers n s = .ok (found, s')) : s'.search.Backed := by
  induction n generalizing s found with
  | zero =>
    cases h
    exact hs
  | succ n ih =>
    obtain ⟨answer, s₁, rest, hnext, hrest, -⟩ := answers_succ_eq_ok h
    exact ih (Search.backed_next hs (next_eq_ok hnext).1) hrest

/-- When there is no further answer and the limit was not reached, the trail is empty and nothing is bound, whatever
answers were given before. -/
theorem exhausted_leavesNothing (src : Sources) (template query : Term) (n : Nat) {found : List (Option Term)}
    {s s' : Solutions} (h : (src.solutions template query).answers n = .ok (found, s)) (hnext : s.next = .ok (none, s'))
    (hlimit : s'.limitReached = false) :
    s'.search.machine.work.store.trail = #[] ∧ s'.search.machine.work.store.bindingCount = 0 := by
  have hbacked := Solutions.backed_answers (Search.backed_start src.config template query) h
  obtain ⟨hrun, -⟩ := Solutions.next_eq_ok hnext
  have hstays := (Search.backed_next hbacked hrun).exhausted (Solutions.exhausted_of_next_none hnext hlimit)
  have hsize := hstays.size_trail trivial
  exact ⟨Array.eq_empty_of_size_eq_zero hsize, Store.bindingCount_eq_zero (hstays.trailed.lookup_eq_none hsize)⟩

/-- Any two terms are a pair; a pair is asked for of which the parts are not the same. -/
def pairs : Solutions :=
  Sources.solutions { rules := .ofList .rule [.compound "any" [.compound "pair" [.var "Y", .var "Z"]]] } (.var "X")
    (.compound "and" [.compound "any" [.var "X"], .compound "mutex" [.var "X", .sym "none"]])

/-- The answer renames the parts of the pair and leaves three bindings; none is left when there is no further answer. -/
theorem exhausted_leavesNothing_pairs :
    ∃ s s', pairs.answers 1 = .ok ([some (.compound "pair" [.var "V1", .var "V2"])], s) ∧ s.trailSize = 3 ∧
      s.next = .ok (none, s') ∧ s'.limitReached = false ∧ s'.search.machine.work.store.trail = #[] ∧
      s'.search.machine.work.store.bindingCount = 0 := by
  have hone : ∃ s, pairs.answers 1 = .ok ([some (.compound "pair" [.var "V1", .var "V2"])], s) ∧ s.trailSize = 3 ∧
      ∃ s', s.next = .ok (none, s') ∧ s'.limitReached = false := ⟨_, rfl, rfl, _, rfl, rfl⟩
  obtain ⟨s, hs, hsize, s', hnext, hlimit⟩ := hone
  obtain ⟨htrail, hcount⟩ := exhausted_leavesNothing _ _ _ 1 hs hnext hlimit
  exact ⟨s, s', hs, hsize, hnext, hlimit, htrail, hcount⟩

end Deduction
