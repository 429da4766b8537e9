import Deduction.Proofs.Search.Bounds
import Deduction.Proofs.Words

/-!
# Languages of goals and expressions

A language says which words no data hold, which terms may stand as goals, and which as expressions. If the sources keep
to a language that is closed under what a search does with goals and expressions, then the selections of goals
(`yields_selectComputed`) and the values of expressions (`ensuresOption_valueOf`) are without the words.
-/

namespace Deduction

variable {α β : Type} {words : List String}

/-! ### Stores -/

namespace Store

/-- None of the words comes up in a binding. -/
def Avoids (words : List String) (s : Store) : Prop := ∀ v env c, s.lookup v env = some c → c.term.Avoids words

variable {s s' : Store} {cp : Checkpoint} {x y t u : Term} {env target : EnvId} {names : NameSupply}

theorem Avoids.of_below (hs : s.Avoids words) (h : s'.Below s) : s'.Avoids words :=
  fun v env c hc => hs v env c (h v env c hc)

theorem Avoids.rollback (hs : s.Avoids words) (cp : Checkpoint) : (s.rollback cp).Avoids words :=
  hs.of_below (rollback_below s cp)

theorem Avoids.newEnv (hs : s.Avoids words) : s.newEnv.2.Avoids words := by
  intro v env c hc
  rw [lookup_newEnv] at hc
  exact hs v env c hc

theorem Avoids.bind (hs : s.Avoids words) {c : Closure} (hc : c.term.Avoids words) (v : String) (env : EnvId) :
    (s.bind v env c).Avoids words := by
  by_cases henv : env < s.envs.size
  · intro w env' d hd
    rw [lookup_bind henv] at hd
    split at hd
    · rw [← Option.some.inj hd]
      exact hc
    · exact hs w env' d hd
  · rw [bind_of_not_lt henv]
    exact hs

/-- Unification binds variables to parts of the terms. -/
theorem keeps_avoids (words : List String) : Keeps (fun t _ => t.Avoids words) (Avoids words) where
  arg h ht := (Term.avoids_compound.1 h).2 _ ht
  value hs _ hc := hs _ _ _ hc
  bind hs _ hc _ _ _ := hs.bind hc _ _

theorem Avoids.unify (hs : s.Avoids words) (hx : x.Avoids words) (hy : y.Avoids words) (ex ey : EnvId) :
    (s.unify x ex y ey).2.Avoids words := unify_keeps (keeps_avoids words) hs hx hy

/-- Plugging binds variables to variables. -/
theorem keepsRenaming_avoids (words : List String) (target : EnvId) :
    KeepsRenaming (fun _ => True) target (fun st => st.1.Avoids words) where
  value _ _ _ := trivial
  bind hs _ _ _ := Avoids.bind hs (Term.avoids_var _) _ _

theorem Avoids.plug (hs : s.Avoids words) (t : Term) (env target : EnvId) (names : NameSupply) :
    (s.plug t env target names).2.1.Avoids words := plug_keeps (keepsRenaming_avoids words target) t hs trivial

theorem threadMap_fills {f : Term → Store × NameSupply → Term × (Store × NameSupply)}
    (hfills : ∀ (t : Term) (st : Store × NameSupply), st.1.Avoids words → t.Fills words (f t st).1)
    (hkeeps : ∀ (t : Term) (st : Store × NameSupply), st.1.Avoids words → (f t st).2.1.Avoids words)
    (ts : List Term) {st : Store × NameSupply} (hst : st.1.Avoids words) :
    List.Forall₂ (Term.Fills words) ts (threadMap f ts st).1 := by
  induction ts generalizing st with
  | nil => exact .nil
  | cons t ts ih => exact .cons (hfills t st hst) (ih (hkeeps t st hst))

theorem plugAt_fills {n : Nat} {st : Store × NameSupply} (hst : st.1.Avoids words) :
    t.Fills words (plugAt target n env t st).1 := by
  induction n generalizing t env st with
  | zero => exact .refl words t
  | succ n ih =>
    obtain ⟨s, names⟩ := st
    cases t with
    | var v =>
      unfold plugAt
      split
      · rename_i c hc
        have hvalue : c.term.Fills words (plugAt target n c.env c.term (s, names)).1 := ih hst
        exact .var v (hvalue.avoids (hst v env c hc))
      · split
        · exact .refl words _
        · exact .var v (Term.avoids_var _)
    | sym a => exact .sym a
    | compound f args =>
      have hkeeps (t : Term) (st : Store × NameSupply) (hst : st.1.Avoids words) :
          (plugAt target n env t st).2.1.Avoids words :=
        plugAt_keeps (keepsRenaming_avoids words target) n t hst trivial
      exact .compound f (threadMap_fills (fun t st hst => ih hst) hkeeps args hst)

/-- Plugging puts terms without the words in the place of variables. -/
theorem plug_fills (hs : s.Avoids words) (t : Term) (env target : EnvId) (names : NameSupply) :
    t.Fills words (s.plug t env target names).1 := by
  have hst : Avoids words (s, names).1 := hs
  exact plugAt_fills hst

theorem resolveAt_avoids {n : Nat} (hs : s.Avoids words) (ht : t.Avoids words) : (s.resolveAt n t env).term.Avoids words := by
  induction n generalizing t env with
  | zero => exact ht
  | succ n ih =>
    cases t with
    | var v =>
      unfold resolveAt
      split
      · rename_i c hc
        exact ih (hs v env c hc)
      · exact Term.avoids_var v
    | sym a => exact ht
    | compound f args => exact ht

end Store

/-! ### Results of computations -/

/-- Every result of the computation is as described. -/
def Ensures (x : Metered α) (R : α → Prop) : Prop := ∀ ⦃m a m'⦄, x.run m = .ok (a, m') → R a

namespace Ensures

variable {R R' : α → Prop} {S : β → Prop} {x : Metered α} {f : α → Metered β}

theorem pure {a : α} (h : R a) : Ensures (Pure.pure a) R := by
  intro m b m' hrun
  obtain ⟨rfl, -⟩ := Metered.run_pure_eq_ok.1 hrun
  exact h

theorem throw (e : Interruption) : Ensures (throw e) R := by
  intro m a m' hrun
  cases hrun

theorem imp (h : Ensures x R) (hR : ∀ a, R a → R' a) : Ensures x R' := fun _ _ _ hrun => hR _ (h hrun)

theorem any (x : Metered α) : Ensures x fun _ => True := fun _ _ _ _ => trivial

theorem bind (h : Ensures x R) (hf : ∀ a, R a → Ensures (f a) S) : Ensures (x >>= f) S := by
  intro m b m' hrun
  obtain ⟨a, m₁, hx, hfa⟩ := Metered.run_bind_eq_ok.1 hrun
  exact hf a (h hx) hfa

/-- Counting and reporting make no difference. -/
theorem tick {x : Metered Unit} {y : Metered β} (h : Ensures y S) : Ensures (x >>= fun _ => y) S :=
  (any x).bind fun _ _ => h

end Ensures

/-- Every result of the computation, if it has one, is as described. -/
def EnsuresOption (x : OptionT Metered α) (R : α → Prop) : Prop := Ensures x.run fun a => ∀ b ∈ a, R b

namespace EnsuresOption

variable {R : α → Prop} {S : β → Prop}

theorem pure {a : α} (h : R a) : EnsuresOption (Pure.pure a) R :=
  Ensures.pure fun _ hb => Option.some.inj hb ▸ h

theorem failure : EnsuresOption (failure : OptionT Metered α) R := Ensures.pure fun _ hb => by cases hb

theorem any (x : OptionT Metered α) : EnsuresOption x fun _ => True := fun _ _ _ _ _ _ => trivial

theorem getM {a : Option α} (h : ∀ b ∈ a, R b) : EnsuresOption (a.getM : OptionT Metered α) R := by
  cases a with
  | none => exact failure
  | some a => exact pure (h a rfl)

theorem lift {x : Metered α} (h : Ensures x R) : EnsuresOption (liftM x : OptionT Metered α) R :=
  Ensures.bind (f := fun a => Pure.pure (some a)) h fun _ ha => Ensures.pure fun _ hb => Option.some.inj hb ▸ ha

theorem bind {x : OptionT Metered α} {f : α → OptionT Metered β} (h : EnsuresOption x R)
    (hf : ∀ a, R a → EnsuresOption (f a) S) : EnsuresOption (x >>= f) S := by
  unfold EnsuresOption
  rw [OptionT.run_bind]
  refine Ensures.bind h fun a ha => ?_
  cases a with
  | none => exact failure
  | some a => exact hf a (ha a rfl)

theorem mapM {f : α → OptionT Metered β} {as : List α} (hf : ∀ a ∈ as, EnsuresOption (f a) S) :
    EnsuresOption (as.mapM f) fun bs => ∀ b ∈ bs, S b := by
  induction as with
  | nil => exact pure fun _ hb => by cases hb
  | cons a as ih =>
    rw [List.mapM_cons]
    refine (hf a List.mem_cons_self).bind fun b hb => ?_
    exact (ih fun a' ha' => hf a' (List.mem_cons_of_mem a ha')).bind fun bs hbs => pure (List.forall_mem_cons.2 ⟨hb, hbs⟩)

end EnsuresOption

/-- In a store without the words the computation gives what is described, and leaves a store without them. -/
def Yields (words : List String) (x : Selecting α) (R : α → Prop) : Prop :=
  ∀ w : Workspace, w.store.Avoids words →
    Ensures (x.run.run w) fun r => r.2.store.Avoids words ∧ ∀ b ∈ r.1, R b

namespace Yields

variable {R : α → Prop} {S : β → Prop}

theorem pure {a : α} (h : R a) : Yields words (Pure.pure a) R :=
  fun _ hw => Ensures.pure ⟨hw, fun _ hb => Option.some.inj hb ▸ h⟩

theorem failure : Yields words (failure : Selecting α) R := fun _ hw => Ensures.pure ⟨hw, fun _ hb => by cases hb⟩

theorem getM {a : Option α} (h : ∀ b ∈ a, R b) : Yields words (a.getM : Selecting α) R := by
  cases a with
  | none => exact failure
  | some a => exact pure (h a rfl)

theorem lift {x : Metered α} (h : Ensures x R) : Yields words (liftM x : Selecting α) R := by
  intro w hw
  rw [Selecting.run_liftM]
  exact h.bind fun a ha => Ensures.pure ⟨hw, fun _ hb => Option.some.inj hb ▸ ha⟩

theorem bind {x : Selecting α} {f : α → Selecting β} (h : Yields words x R) (hf : ∀ a, R a → Yields words (f a) S) :
    Yields words (x >>= f) S := by
  intro w hw
  rw [OptionT.run_bind, Option.elimM, StateT.run_bind]
  refine Ensures.bind (h w hw) fun r hr => ?_
  obtain ⟨a, w₁⟩ := r
  cases a with
  | none => exact failure w₁ hr.1
  | some a => exact hf a (hr.2 a rfl) w₁ hr.1

theorem freshVar : Yields words Selecting.freshVar fun t => ∃ v, t = .var v :=
  fun _ hw => Ensures.pure ⟨hw, fun _ hb => Option.some.inj hb ▸ ⟨_, rfl⟩⟩

/-- A term with bindings applied. -/
theorem input (t : Term) (env : EnvId) : Yields words (Selecting.input t env) (t.Fills words) := by
  intro w hw
  exact Ensures.pure ⟨hw.plug t env env w.names, fun _ hb => Option.some.inj hb ▸ Store.plug_fills hw t env env w.names⟩

theorem inputs (env : EnvId) {ts : List Term} (hts : ∀ t ∈ ts, t.Avoids words) :
    Yields words (Selecting.inputs env ts) fun values => ∀ t ∈ values, t.Avoids words := by
  induction ts with
  | nil => exact pure fun _ ht => by cases ht
  | cons t ts ih =>
    rw [List.forall_mem_cons] at hts
    unfold Selecting.inputs
    refine (input t env).bind fun value hvalue => ?_
    split
    · exact failure
    · exact (ih hts.2).bind fun values hvalues => pure (List.forall_mem_cons.2 ⟨hvalue.avoids hts.1, hvalues⟩)

theorem newEnv : Yields words Selecting.newEnv fun _ => True := by
  intro w hw
  exact Ensures.pure ⟨hw.newEnv, fun _ _ => trivial⟩

end Yields

/-! ### Languages -/

/-- The words that no data hold, the terms that may stand as goals, and those that may stand as expressions. -/
structure Language where
  words : List String
  goal : Term → Prop
  expr : Term → Prop

namespace Language

/-- What a computed goal may be: its functor, and its arguments by what is done with them. -/
structure Computes (L : Language) (f : String) (args : List Term) : Prop where
  evaluate : f = "evaluate" → (∀ t ∈ args[0]?, L.expr t) ∧ ∀ t ∈ args[1]?, t.Avoids L.words
  map : f = "map" → (∀ t ∈ args[1]?, t.Avoids L.words) ∧ (∀ t ∈ args[2]?, t.Avoids L.words) ∧
    ∀ r item v, args[0]? = some (.sym r) → item.Avoids L.words → L.goal (.apply r [item, .var v])
  aggregate : isAggregate f = true → (∀ t ∈ args[0]?, t.Avoids L.words) ∧ (∀ t ∈ args[1]?, L.goal t) ∧
    ∀ t ∈ args[2]?, t.Avoids L.words
  call : f ≠ "evaluate" → f ≠ "map" → isAggregate f = false → f ∉ L.words ∧ ∀ t ∈ args, t.Avoids L.words

/-- The goals that come up for the elements of a list. -/
theorem Computes.map_goal {L : Language} {args : List Term} (h : L.Computes "map" args) :
    ∀ t ∈ args[0]?, ∀ r ∈ t.asSymbol, ∀ item v, item.Avoids L.words → L.goal (.apply r [item, .var v]) := by
  intro t ht r hr item v hitem
  cases t with
  | sym a =>
    cases hr
    exact (h.map rfl).2.2 r item v ht hitem
  | var w => cases hr
  | compound f args => cases hr

/-- What a goal may be made of. -/
def Admits (L : Language) (goal : Term) : Goal → Prop
  | .holds | .fails => True
  | .mutex terms => ∀ t ∈ terms, t.Avoids L.words
  | .same x y | .distinct x y | .member x y => x.Avoids L.words ∧ y.Avoids L.words
  | .negation g => L.goal g
  | .conjunction goals | .disjunction goals => ∀ g ∈ goals, L.goal g
  | .dataset g _ => g.Avoids L.words
  | .computed f args => L.Computes f args
  | .view | .base => goal.Avoids L.words

/-- Conditions and values that take turns. -/
def Branches (L : Language) : List Term → Prop
  | condition :: value :: rest => L.goal condition ∧ L.expr value ∧ L.Branches rest
  | _ => True

/-- What an expression may be made of. -/
structure Evaluates (L : Language) (f : String) (args : List Term) : Prop where
  map : f = "map" → ∀ t ∈ args, L.expr t
  find : isAggregate f = true ∨ f = "choose" → ∀ template goal rest, args = template :: goal :: rest →
    template.Avoids L.words ∧ L.goal goal
  branch : f = "if" → L.Branches args
  call : f ≠ "map" → isAggregate f = false → f ≠ "choose" → f ≠ "if" → f ∉ L.words ∧ ∀ t ∈ args, L.expr t

/-- What a sentence on the side of the rules may be. One that is no rule may hold a word if it is its functor: no goal
is about it then. -/
structure Rule (L : Language) (t : Term) : Prop where
  rule : ∀ head body, t.asRule = some (head, body) → head.Avoids L.words ∧ ∀ g ∈ body, L.goal g
  sentence : t.asRule = none → t.Avoids L.words ∨ ∃ f args, t = .compound f args ∧ f ∈ L.words

/-- The sources keep to the language, and nothing that is done with goals and expressions leads out of it. -/
structure Closed (L : Language) (src : Sources) : Prop where
  spare : ∀ w ∈ L.words, isSpareWord w = true
  builtin : ∀ f ∉ L.words, ∀ values surroundings v, (∀ t ∈ values, t.Avoids L.words) →
    callBuiltin f values surroundings = some v → v.Avoids L.words
  goal_fills : ∀ t u, L.goal t → t.Fills L.words u → L.goal u
  goal_value : ∀ v t, L.goal (.var v) → t.Avoids L.words → L.goal t
  goal_admits : ∀ t, L.goal t → L.Admits t (Goal.ofTerm src.rules t)
  expr_fills : ∀ t u, L.expr t → t.Fills L.words u → L.expr u
  expr_sym : ∀ a, L.expr (.sym a) → a ∉ L.words
  expr_evaluates : ∀ f args, L.expr (.compound f args) → L.Evaluates f args
  fact : ∀ t ∈ src.facts.toList, t.Avoids L.words
  added : ∀ overlay ∈ src.overlay, ∀ t ∈ overlay.adds.toList, t.Avoids L.words
  dataset : ∀ name, ∀ dataset ∈ src.dataset? name, ∀ t ∈ dataset.toList, t.Avoids L.words
  rule : ∀ t ∈ src.rules.toList, L.Rule t
  definition : ∀ e, L.expr e → ∀ t ∈ src.rules.toList, ∀ head body, t.asDefinition = some (head, body) →
    head.Avoids L.words ∧ L.expr body

/-- What may be asked. -/
def Asks (L : Language) : Question → Prop
  | .all template goal | .first template goal => template.Avoids L.words ∧ L.goal goal
  | .value e => L.expr e

/-- The answers are without the words, to whatever may be asked. -/
def Answers (L : Language) (ask : Answerer) : Prop :=
  ∀ q, L.Asks q → Ensures (ask q) fun ts => ∀ t ∈ ts, t.Avoids L.words

end Language

/-! ### Selections -/

variable {L : Language} {src : Sources} {ask : Answerer} {surroundings : Surroundings}

namespace Language

/-- The target and the candidates are without the words. -/
def Selects (L : Language) (selection : Selection) : Prop :=
  selection.target.Avoids L.words ∧ ∀ t ∈ selection.candidates, t.Avoids L.words

variable (hL : L.Closed src)

include hL

theorem avoids_factsFor {s : Store} {goal t : Term} {env : EnvId} (ht : t ∈ src.factsFor s goal env) :
    t.Avoids L.words := by
  unfold Sources.factsFor at ht
  dsimp only at ht
  split at ht
  · exact hL.fact t (Theory.mem_of_mem_lookupIn ht)
  · rename_i overlay hoverlay
    rcases List.mem_append.1 ht with ht | ht
    · exact hL.added overlay hoverlay t (Theory.mem_of_mem_lookupIn ht)
    · exact hL.fact t (Theory.mem_of_mem_lookupIn (List.mem_of_mem_filter ht))

theorem avoids_datasetFactsFor {name : String} {s : Store} {goal t : Term} {env : EnvId}
    (ht : t ∈ src.datasetFactsFor name s goal env) : t.Avoids L.words := by
  unfold Sources.datasetFactsFor at ht
  split at ht
  · rename_i dataset hdataset
    exact hL.dataset name dataset hdataset t (Theory.mem_of_mem_lookupIn ht)
  · cases ht

theorem yields_selectFacts {goal : Term} (hgoal : goal.Avoids L.words) (env : EnvId) :
    Yields L.words (selectFacts src goal env) L.Selects := by
  intro w hw
  rw [run_selectFacts]
  exact Ensures.pure ⟨hw.newEnv, fun _ hb => Option.some.inj hb ▸ ⟨hgoal, fun t ht => avoids_factsFor hL ht⟩⟩

theorem yields_selectDataset {goal : Term} (hgoal : goal.Avoids L.words) (name : Term) (env : EnvId) :
    Yields L.words (selectDataset src goal name env) L.Selects := by
  unfold selectDataset
  refine (Yields.input name env).bind fun name _ => (Yields.getM fun _ _ => trivial).bind fun name _ => ?_
  have hget : Yields L.words (get : Selecting Workspace) fun _ => True := fun w hw => Ensures.pure ⟨hw, fun _ _ => trivial⟩
  refine hget.bind fun w _ => Yields.newEnv.bind fun e _ => ?_
  exact .pure ⟨hgoal, fun t ht => avoids_datasetFactsFor hL ht⟩

omit hL in
theorem yields_selectMembers {item list : Term} (hitem : item.Avoids L.words) (hlist : list.Avoids L.words) (env : EnvId) :
    Yields L.words (selectMembers item list env) L.Selects := by
  unfold selectMembers
  refine (Yields.input list env).bind fun list' hlist' => .pure ⟨hitem, fun t ht => ?_⟩
  exact Term.avoids_of_mem_cells (hlist'.avoids hlist) ht

omit hL in
theorem selects_single {output value : Term} {env : EnvId} (houtput : output.Avoids L.words) (hvalue : value.Avoids L.words) :
    L.Selects ⟨output, [value], env⟩ := ⟨houtput, by simpa using hvalue⟩

theorem yields_selectGroups {args : List Term} (hargs : ∀ t ∈ args, t.Avoids L.words) (env : EnvId) :
    Yields L.words (selectGroups surroundings args env) L.Selects := by
  have houtputs : (Term.list (args.drop 2)).Avoids L.words :=
    avoids_list hL.spare fun t ht => hargs t (List.mem_of_mem_drop ht)
  have hstrings (texts : List String) : (Term.list (texts.map Term.string)).Avoids L.words :=
    avoids_strings hL.spare texts
  unfold selectGroups
  refine (Yields.getM fun _ _ => trivial).bind fun t _ => (Yields.input t env).bind fun text _ => ?_
  refine (Yields.getM fun _ _ => trivial).bind fun t _ => (Yields.input t env).bind fun pattern _ => ?_
  refine (Yields.getM fun _ _ => trivial).bind fun t _ => (Yields.getM fun _ _ => trivial).bind fun p _ => ?_
  refine (Yields.getM fun _ _ => trivial).bind fun groups _ => ?_
  dsimp only
  split
  · exact (Yields.failure (R := fun _ => True)).bind fun _ _ => .pure (selects_single houtputs (hstrings _))
  · exact .pure (selects_single houtputs (hstrings _))

theorem yields_selectMatches {args : List Term} (hargs : ∀ t ∈ args, t.Avoids L.words) (env : EnvId) :
    Yields L.words (selectMatches surroundings args env) L.Selects := by
  have houtput (t : Term) (ht : t ∈ args[2]?) : t.Avoids L.words := hargs t (List.mem_of_getElem? ht)
  unfold selectMatches
  refine (Yields.getM fun _ _ => trivial).bind fun t _ => (Yields.input t env).bind fun text _ => ?_
  refine (Yields.getM fun _ _ => trivial).bind fun t _ => (Yields.input t env).bind fun pattern _ => ?_
  refine (Yields.getM fun _ _ => trivial).bind fun t _ => (Yields.getM fun _ _ => trivial).bind fun p _ => ?_
  refine (Yields.getM houtput).bind fun output houtput => .pure ⟨houtput, fun u hu => ?_⟩
  obtain ⟨text, -, rfl⟩ := List.mem_map.1 hu
  exact avoids_string hL.spare text

theorem yields_selectCall {f : String} {args : List Term} (hf : f ∉ L.words) (hargs : ∀ t ∈ args, t.Avoids L.words)
    (env : EnvId) : Yields L.words (selectCall surroundings f args env) L.Selects := by
  have hoption {x : Option Term} (hx : ∀ v, x = some v → v.Avoids L.words) {output : Term} (houtput : output.Avoids L.words) :
      Yields L.words (x.getM >>= fun value => (return ⟨output, [value], env⟩ : Selecting Selection)) L.Selects :=
    (Yields.getM fun v hv => hx v hv).bind fun value hvalue => .pure (selects_single houtput hvalue)
  unfold selectCall
  refine (Yields.getM fun t ht => hargs t (List.mem_of_getLast? ht)).bind fun output houtput => ?_
  refine (Yields.inputs env fun t ht => hargs t (List.dropLast_subset args ht)).bind fun values hvalues => ?_
  dsimp only
  split
  · exact hoption (fun v hv => hL.builtin f hf values _ v hvalues hv) houtput
  · split
    · exact hoption (fun v hv => avoids_callMath hL.spare hv) houtput
    · refine hoption (fun v hv => ?_) houtput
      obtain ⟨list, -, hv⟩ := Option.bind_eq_some_iff.1 hv
      exact avoids_callListOperator hL.spare hv

section

variable (hask : L.Answers ask)

include hask

omit hL in
theorem ensures_findAll {template goal : Term} (config : Config) (htemplate : template.Avoids L.words) (hgoal : L.goal goal) :
    Ensures (ask.findAll config template goal) fun ts => ∀ t ∈ ts, t.Avoids L.words :=
  (hask (.all template goal) ⟨htemplate, hgoal⟩).bind fun _ hts =>
    Ensures.pure fun t ht => hts t ((DedupPolicy.mem_apply _).1 ht)

theorem ensures_count {template goal : Term} (htemplate : template.Avoids L.words) (hgoal : L.goal goal) :
    Ensures (ask.count template goal) fun t => t.Avoids L.words :=
  (hask (.all template goal) ⟨htemplate, hgoal⟩).bind fun _ _ => Ensures.pure (avoids_number hL.spare _)

omit hL in
theorem ensures_findFirst? {template goal : Term} (htemplate : template.Avoids L.words) (hgoal : L.goal goal) :
    Ensures (ask.findFirst? template goal) fun a => ∀ t ∈ a, t.Avoids L.words :=
  (hask (.first template goal) ⟨htemplate, hgoal⟩).bind fun _ hts =>
    Ensures.pure fun t ht => hts t (List.mem_of_head? ht)

omit hL in
theorem yields_mapRelation {relation : String}
    (hrelation : ∀ item v, item.Avoids L.words → L.goal (.apply relation [item, .var v])) {items : List Term}
    (hitems : ∀ t ∈ items, t.Avoids L.words) :
    Yields L.words (mapRelation ask relation items) fun results => ∀ t ∈ results, t.Avoids L.words := by
  induction items with
  | nil => exact .pure fun _ ht => by cases ht
  | cons item items ih =>
    rw [List.forall_mem_cons] at hitems
    unfold mapRelation
    refine Yields.freshVar.bind fun out hout => ?_
    obtain ⟨v, rfl⟩ := hout
    refine (Yields.lift (hask (.first _ _) ⟨Term.avoids_var v, hrelation item v hitems.1⟩)).bind fun results hresults => ?_
    cases results with
    | nil => exact .failure
    | cons result _ =>
      exact (ih hitems.2).bind fun rest hrest => .pure (List.forall_mem_cons.2 ⟨hresults result List.mem_cons_self, hrest⟩)

theorem yields_selectMapped {args : List Term} (hargs : L.Computes "map" args) (env : EnvId) :
    Yields L.words (selectMapped ask args env) L.Selects := by
  obtain ⟨hlist, houtput, -⟩ := hargs.map rfl
  unfold selectMapped
  refine (Yields.getM hargs.map_goal).bind fun t ht => (Yields.getM ht).bind fun relation hrelation => ?_
  refine (Yields.getM hlist).bind fun t ht => (Yields.input t env).bind fun list hlist => ?_
  refine (Yields.getM fun ts hts => Term.avoids_of_items? (hlist.avoids ht) hts).bind fun items hitems => ?_
  refine (yields_mapRelation hask hrelation hitems).bind fun results hresults => ?_
  exact (Yields.getM houtput).bind fun output houtput =>
    .pure (selects_single houtput (avoids_list hL.spare hresults))

theorem yields_selectAggregate {f : String} {args : List Term} (hargs : L.Computes f args) (hf : isAggregate f = true)
    (env : EnvId) : Yields L.words (selectAggregate src ask f args env) L.Selects := by
  obtain ⟨htemplate, hgoal, houtput⟩ := hargs.aggregate hf
  unfold selectAggregate
  refine (Yields.getM htemplate).bind fun t ht => (Yields.input t env).bind fun template htemplate => ?_
  refine (Yields.getM hgoal).bind fun g hg => (Yields.input g env).bind fun goal hgoal => ?_
  have htemplate := htemplate.avoids ht
  have hgoal := hL.goal_fills g goal hg hgoal
  dsimp only
  split
  · refine (Yields.lift (ensures_findAll hask _ htemplate hgoal)).bind fun answers hanswers => ?_
    refine (Yields.pure (R := fun t => t.Avoids L.words) (avoids_list hL.spare hanswers)).bind fun value hvalue => ?_
    exact (Yields.getM houtput).bind fun output houtput => .pure (selects_single houtput hvalue)
  · refine (Yields.lift (ensures_count hL hask htemplate hgoal)).bind fun value hvalue => ?_
    exact (Yields.getM houtput).bind fun output houtput => .pure (selects_single houtput hvalue)

theorem yields_selectValue {args : List Term} (hargs : L.Computes "evaluate" args) (env : EnvId) :
    Yields L.words (selectValue ask args env) L.Selects := by
  obtain ⟨hexpr, houtput⟩ := hargs.evaluate rfl
  unfold selectValue
  refine (Yields.getM hexpr).bind fun e he => (Yields.input e env).bind fun expr hexpr => ?_
  refine (Yields.lift (hask (.value expr) (hL.expr_fills e expr he hexpr))).bind fun values hvalues => ?_
  refine (Yields.getM fun t ht => hvalues t (List.mem_of_head? ht)).bind fun value hvalue => ?_
  exact (Yields.getM houtput).bind fun output houtput => .pure (selects_single houtput hvalue)

/-- What a computed goal selects. -/
theorem yields_selectComputed {f : String} {args : List Term} (hargs : L.Computes f args) (env : EnvId) :
    Yields L.words (selectComputed src ask f args env) L.Selects := by
  unfold selectComputed
  split
  · exact yields_selectValue hL hask hargs env
  · exact yields_selectGroups hL (hargs.call (by decide) (by decide) rfl).2 env
  · exact yields_selectMatches hL (hargs.call (by decide) (by decide) rfl).2 env
  · exact yields_selectMapped hL hask hargs env
  · rename_i hevaluate _ _ hmap
    split
    · rename_i hf
      exact yields_selectAggregate hL hask hargs hf env
    · rename_i hf
      obtain ⟨hword, hargs⟩ := hargs.call (fun h => hevaluate h) (fun h => hmap h) (by simpa using hf)
      exact yields_selectCall hL hword hargs env

/-! ### Values -/

theorem ensuresOption_applyDefinitions {e : Term} (he : L.expr e) {f : String} {call : Term} (hcall : call.Avoids L.words)
    {sentences : List Term} (hsentences : ∀ t ∈ sentences, t ∈ src.rules.toList) (isDefined : Bool) :
    EnsuresOption (applyDefinitions ask f call sentences isDefined) fun t => t.Avoids L.words := by
  induction sentences generalizing isDefined with
  | nil =>
    unfold applyDefinitions
    split
    · exact .failure
    · exact .pure hcall
  | cons sentence rest ih =>
    rw [List.forall_mem_cons] at hsentences
    have ih' (isDefined : Bool) := ih hsentences.2 isDefined
    unfold applyDefinitions
    split
    · exact ih' _
    · rename_i head body hdefinition
      obtain ⟨hhead, hbody⟩ := hL.definition e he sentence hsentences.1 head body hdefinition
      dsimp only
      split
      · exact ih' _
      · rename_i b hb
        have havoids : b.Avoids L.words := Bindings.avoids_of_unifier hhead hcall hb
        have hplug : L.expr (b.plug body) := hL.expr_fills _ _ hbody (havoids.plugAt _ body)
        refine (EnsuresOption.lift (Ensures.any Meter.infer)).bind fun _ _ => ?_
        refine (EnsuresOption.lift (hask (.value _) hplug)).bind fun values hvalues => ?_
        cases values with
        | nil => exact ih' _
        | cons value _ => exact .pure (hvalues value List.mem_cons_self)

theorem ensuresOption_applyFunctor {e : Term} (he : L.expr e) {f : String} (hf : f ∉ L.words) {values : List Term}
    (hvalues : ∀ t ∈ values, t.Avoids L.words) :
    EnsuresOption (applyFunctor src ask f values) fun t => t.Avoids L.words := by
  unfold applyFunctor
  split
  · exact .getM fun v hv => hL.builtin f hf values _ v hvalues hv
  · split
    · exact .getM fun v hv => avoids_callMath hL.spare hv
    · split
      · refine .getM fun v hv => ?_
        obtain ⟨list, -, hv⟩ := Option.bind_eq_some_iff.1 hv
        exact avoids_callListOperator hL.spare hv
      · exact ensuresOption_applyDefinitions hL hask he (Term.avoids_apply hf hvalues)
          (fun t ht => Theory.mem_of_mem_lookup ht) false

omit hL hask in
theorem ensuresOption_valuesOf {ts : List Term} (hts : ∀ t ∈ ts, EnsuresOption (valueOf src ask t) fun v => v.Avoids L.words) :
    EnsuresOption (valuesOf src ask ts) fun vs => ∀ v ∈ vs, v.Avoids L.words := by
  induction ts with
  | nil =>
    unfold valuesOf
    exact .pure fun _ hv => by cases hv
  | cons t ts ih =>
    rw [List.forall_mem_cons] at hts
    unfold valuesOf
    exact hts.1.bind fun v hv => (ih hts.2).bind fun vs hvs => .pure (List.forall_mem_cons.2 ⟨hv, hvs⟩)

omit hL hask in
theorem ensuresOption_valueOfBranch : (ts : List Term) → L.Branches ts →
    (∀ t ∈ ts, L.expr t → EnsuresOption (valueOf src ask t) fun v => v.Avoids L.words) →
      EnsuresOption (valueOfBranch src ask ts) fun v => v.Avoids L.words
  | [], _, _ => by
    unfold valueOfBranch
    exact .failure
  | [_], _, _ => by
    unfold valueOfBranch
    exact .failure
  | condition :: value :: rest, hbranches, hts => by
    obtain ⟨-, hvalue, hrest⟩ := hbranches
    unfold valueOfBranch
    refine (EnsuresOption.lift (Ensures.any (ask.holds condition))).bind fun holds _ => ?_
    split
    · exact hts value (by simp) hvalue
    · exact ensuresOption_valueOfBranch rest hrest fun t ht => hts t (by simp [ht])

theorem ensuresOption_mapped {e : Term} (he : L.expr e) {f : String} (hf : f ∉ L.words) {args : List Term}
    (hargs : ∀ t ∈ args, EnsuresOption (valueOf src ask t) fun v => v.Avoids L.words) :
    EnsuresOption (mapped src ask f args) fun v => v.Avoids L.words := by
  cases args with
  | nil => exact .failure
  | cons list _ =>
    refine (hargs list List.mem_cons_self).bind fun v hv => ?_
    refine (EnsuresOption.getM fun ts hts => Term.avoids_of_items? hv hts).bind fun items hitems => ?_
    refine (EnsuresOption.mapM fun item hitem => ?_).bind fun vs hvs => .pure (avoids_list hL.spare hvs)
    exact ensuresOption_applyFunctor hL hask he hf (by simpa using hitems item hitem)

theorem ensuresOption_compound {f : String} {args : List Term} (he : L.expr (.compound f args))
    (hargs : ∀ t ∈ args, L.expr t → EnsuresOption (valueOf src ask t) fun v => v.Avoids L.words) :
    EnsuresOption (valueOf src ask (.compound f args)) fun v => v.Avoids L.words := by
  have hparts := hL.expr_evaluates f args he
  unfold valueOf
  refine (EnsuresOption.lift (Ensures.any _)).bind fun spent _ => ?_
  split
  · exact .failure
  split
  · rename_i function rest
    have hexprs := hparts.map rfl
    refine (hargs function List.mem_cons_self (hexprs function List.mem_cons_self)).bind fun v hv => ?_
    refine (EnsuresOption.getM fun r hr => hv.asSymbol hr).bind fun r hr => ?_
    exact ensuresOption_mapped hL hask he hr fun t ht =>
      hargs t (List.mem_cons_of_mem _ ht) (hexprs t (List.mem_cons_of_mem _ ht))
  · rename_i template goal _
    obtain ⟨htemplate, hgoal⟩ := hparts.find (.inl rfl) template goal _ rfl
    exact (EnsuresOption.lift (ensures_findAll hask _ htemplate hgoal)).bind fun ts hts => .pure (avoids_list hL.spare hts)
  · rename_i template goal _
    obtain ⟨htemplate, hgoal⟩ := hparts.find (.inl rfl) template goal _ rfl
    exact .lift (ensures_count hL hask htemplate hgoal)
  · rename_i template goal _
    obtain ⟨htemplate, hgoal⟩ := hparts.find (.inr rfl) template goal _ rfl
    exact ensures_findFirst? hask htemplate hgoal
  · exact ensuresOption_valueOfBranch _ (hparts.branch rfl) hargs
  · rename_i hif _ _ _ _
    split
    · exact .failure
    · rename_i hspecial
      simp only [Bool.or_eq_true, decide_eq_true_eq, not_or, Bool.not_eq_true] at hspecial
      obtain ⟨hword, hexprs⟩ := hparts.call hspecial.1.1 hspecial.1.2 hspecial.2 hif
      exact (ensuresOption_valuesOf fun t ht => hargs t ht (hexprs t ht)).bind fun values hvalues =>
        ensuresOption_applyFunctor hL hask he hword hvalues

end

omit hL

mutual
/-- The value of an expression. -/
theorem ensuresOption_valueOf (hL : L.Closed src) (hask : L.Answers ask) :
    (t : Term) → L.expr t → EnsuresOption (valueOf src ask t) fun v => v.Avoids L.words
  | .var _, _ => by
    unfold valueOf
    exact .failure
  | .sym a, ht => by
    unfold valueOf
    exact .pure (Term.avoids_sym.2 (hL.expr_sym a ht))
  | .compound _ args, ht => ensuresOption_compound hL hask ht (ensuresOption_valueOf_of_mem hL hask args)

theorem ensuresOption_valueOf_of_mem (hL : L.Closed src) (hask : L.Answers ask) :
    (ts : List Term) → ∀ t ∈ ts, L.expr t → EnsuresOption (valueOf src ask t) fun v => v.Avoids L.words
  | [] => by simp
  | u :: us => List.forall_mem_cons.2 ⟨ensuresOption_valueOf hL hask u, ensuresOption_valueOf_of_mem hL hask us⟩
end

end Language

end Deduction
