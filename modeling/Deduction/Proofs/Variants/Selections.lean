import Deduction.Proofs.Variants.Bindings
import Deduction.Proofs.Variants.Following
import Deduction.Proofs.Variants.Rules
import Deduction.Proofs.Variants.Shallow
import Deduction.Proofs.Variants.Stores
import Deduction.Proofs.Variants.Textless

/-!
# Selections and values with other variables

Selections follow each other if they are made in workspaces that differ in the variables of every environment: what is
plugged, asked and computed differs in its variables only (`followsIn_selectComputed`). The values of expressions follow
each other in the same way (`followsOption_valueOf`). For that, inputs must be plugged within the allowance, and no text
may be made of variables or read as one.
-/

namespace Deduction

variable {α β γ δ : Type} {words : List String} {P : String → Prop} {ρ : Naming} {e : EnvId} {ts us vs : List Term}

/-! ### Workspaces -/

namespace Workspace

/-- The workspace with other variables. -/
def relabel (ρ : Naming) (w : Workspace) : Workspace := ⟨w.store.relabel ρ, w.names⟩

/-- The store is without the words and within its environments, and the naming is about these environments only. -/
structure Ready (words : List String) (ρ : Naming) (w : Workspace) : Prop where
  avoids : w.store.Avoids words
  proper : w.store.Proper
  eq_one : ∀ f, w.store.envs.size ≤ f → ρ f = 1

variable {w : Workspace} {t : Term}

theorem exists_plug (h : w.plugsWithin e (t :: ts) = true) : ∃ u st,
    Store.plugWithin e allowance e t (w.store, w.names) = some (u, st) ∧ plugsWithin e ts ⟨st.1, st.2⟩ = true := by
  unfold plugsWithin Store.threadMapWithin at h
  cases hu : Store.plugWithin e allowance e t (w.store, w.names) with
  | none =>
    rw [hu] at h
    cases h
  | some r =>
    refine ⟨r.1, r.2, rfl, ?_⟩
    rw [hu] at h
    unfold plugsWithin
    cases hus : Store.threadMapWithin (Store.plugWithin e allowance e) ts r.2 with
    | none =>
      simp [hus] at h
    | some r' => rfl

end Workspace

/-! ### Computations in a workspace -/

/-- The outcomes of the computations: the workspaces differ in their variables, and the results are related. If there is
one, the terms are still to be plugged. -/
structure Selected (words : List String) (ρ : Naming) (e : EnvId) (us : List Term) (R : EnvId → α → β → Prop)
    (w : Workspace) (r : Option α × Workspace) (r' : Option β × Workspace) : Prop where
  work : r'.2 = r.2.relabel ρ
  onward : w.store.Onward r.2.store
  ready : r.2.Ready words ρ
  result : Option.Rel (R r.2.store.envs.size) r.1 r'.1
  plugs : r.1.isSome = true → r.2.plugsWithin e us = true

/-- The second computation follows the first one in a workspace with other variables. Of the terms that are to be plugged,
some are left afterwards. The relation of the results may depend on how many environments there are then. -/
def FollowsIn (words : List String) (ρ : Naming) (e : EnvId) (ts us : List Term) (R : EnvId → α → β → Prop)
    (x : Selecting α) (y : Selecting β) : Prop :=
  ∀ w : Workspace, w.Ready words ρ → e < w.store.envs.size → w.plugsWithin e ts = true →
    Follows (Selected words ρ e us R w) (x.run.run w) (y.run.run (w.relabel ρ))

namespace FollowsIn

variable {R : α → β → Prop} {S : EnvId → γ → δ → Prop}

theorem pure {c : γ} {d : δ} (h : ∀ k, e < k → S k c d) : FollowsIn words ρ e ts ts S (Pure.pure c) (Pure.pure d) :=
  fun w hw he hts => follows_pure ⟨rfl, .refl w.store, hw, .some (h _ he), fun _ => hts⟩

theorem failure : FollowsIn words ρ e ts us S (failure : Selecting γ) (failure : Selecting δ) :=
  fun w hw _ _ => follows_pure ⟨rfl, .refl w.store, hw, .none, fun h => by cases h⟩

theorem getM {a : Option α} {b : Option β} (h : Option.Rel R a b) :
    FollowsIn words ρ e ts ts (fun _ => R) (a.getM : Selecting α) (b.getM : Selecting β) := by
  cases h with
  | none => exact failure
  | some h => exact pure fun _ _ => h

theorem lift {x : Metered α} {y : Metered β} (h : Follows R x y) :
    FollowsIn words ρ e ts ts (fun _ => R) (liftM x : Selecting α) (liftM y : Selecting β) := by
  intro w hw _ hts
  rw [Selecting.run_liftM, Selecting.run_liftM]
  exact h.bind fun a b hab => follows_pure ⟨rfl, .refl w.store, hw, .some hab, fun _ => hts⟩

theorem modifyGet {f : Workspace → γ × Workspace} {g : Workspace → δ × Workspace}
    (h : ∀ w : Workspace, w.Ready words ρ → e < w.store.envs.size → w.plugsWithin e ts = true →
      Selected words ρ e us S w (some (f w).1, (f w).2) (some (g (w.relabel ρ)).1, (g (w.relabel ρ)).2)) :
    FollowsIn words ρ e ts us S (modifyGet f) (modifyGet g) :=
  fun w hw he hts => follows_pure (h w hw he hts)

theorem bind {x : Selecting α} {y : Selecting β} {f : α → Selecting γ} {g : β → Selecting δ}
    (h : FollowsIn words ρ e ts us (fun _ => R) x y) (hfg : ∀ a b, R a b → FollowsIn words ρ e us vs S (f a) (g b)) :
    FollowsIn words ρ e ts vs S (x >>= f) (y >>= g) := by
  intro w hw he hts
  rw [OptionT.run_bind, Option.elimM, StateT.run_bind, OptionT.run_bind, Option.elimM, StateT.run_bind]
  refine (h w hw he hts).bind fun r r' hr => ?_
  obtain ⟨a, w₁⟩ := r
  obtain ⟨b, w₁'⟩ := r'
  obtain ⟨hwork, honward, hready, hresult, hplugs⟩ := hr
  dsimp only at hwork honward hready hresult hplugs
  subst hwork
  cases hresult with
  | none => exact follows_pure ⟨rfl, honward, hready, .none, fun h => by cases h⟩
  | some hab =>
    refine (hfg _ _ hab w₁ hready (Nat.lt_of_lt_of_le he honward.size_envs) (hplugs rfl)).imp fun r r' hr => ?_
    exact ⟨hr.work, honward.trans hr.onward, hr.ready, hr.result, hr.plugs⟩

/-- A term with bindings applied. -/
theorem input (hfresh : ∀ n : Nat, ρ e s!"V{n}" = s!"V{n}") (t : Term) :
    FollowsIn words ρ e (t :: ts) ts (fun _ a b => b = a.relabel (ρ e) ∧ t.Fills words a) (Selecting.input t e)
      (Selecting.input (t.relabel (ρ e)) e) := by
  refine modifyGet fun w hw he hts => ?_
  obtain ⟨u, st, hu, hrest⟩ := Workspace.exists_plug hts
  have hplug : w.store.plug t e e w.names = (u, st) := Store.plugAt_of_within hu
  have hplug' : (w.relabel ρ).store.plug (t.relabel (ρ e)) e e (w.relabel ρ).names =
      (u.relabel (ρ e), (st.1.relabel ρ, st.2)) := Store.plug_relabel hfresh hu
  have hext := Store.plug_extends w.store t e e w.names
  have havoids := hw.avoids.plug t e e w.names
  have hproper := hw.proper.plug t w.names he he
  have hfills := Store.plug_fills hw.avoids t e e w.names
  rw [hplug] at hext havoids hproper hfills
  dsimp only
  rw [hplug, hplug']
  refine ⟨rfl, .of_extends hext, ⟨havoids, hproper, fun f hf => ?_⟩, .some ⟨rfl, hfills⟩, fun _ => hrest⟩
  exact hw.eq_one f (Nat.le_trans (Nat.le_of_eq hext.size_envs.symm) hf)

theorem inputs (hfresh : ∀ n : Nat, ρ e s!"V{n}" = s!"V{n}") (hts : ∀ t ∈ ts, t.Avoids words) :
    FollowsIn words ρ e ts [] (fun _ a b => b = a.map (Term.relabel (ρ e)) ∧ ∀ t ∈ a, t.Avoids words)
      (Selecting.inputs e ts) (Selecting.inputs e (ts.map (Term.relabel (ρ e)))) := by
  induction ts with
  | nil => exact pure fun _ _ => ⟨rfl, fun _ ht => by cases ht⟩
  | cons t ts ih =>
    rw [List.forall_mem_cons] at hts
    rw [List.map_cons, Selecting.inputs, Selecting.inputs]
    refine (input hfresh t).bind fun a b hab => ?_
    obtain ⟨rfl, hfills⟩ := hab
    rw [Term.isVariable_relabel]
    split
    · exact failure
    · refine (ih hts.2).bind fun as bs habs => ?_
      obtain ⟨rfl, havoids⟩ := habs
      exact pure fun _ _ => ⟨rfl, List.forall_mem_cons.2 ⟨hfills.avoids hts.1, havoids⟩⟩

theorem freshVar (hfresh : ∀ n : Nat, ρ e s!"V{n}" = s!"V{n}") :
    FollowsIn words ρ e [] [] (fun _ a b => ∃ v, a = .var v ∧ b = a.relabel (ρ e)) Selecting.freshVar
      Selecting.freshVar := by
  refine modifyGet fun w hw he hts => ?_
  refine ⟨rfl, .refl w.store, ⟨hw.avoids, hw.proper, hw.eq_one⟩, .some ⟨s!"V{w.names.issued + 1}", rfl, ?_⟩, fun _ => rfl⟩
  exact congrArg Term.var (hfresh _).symm

end FollowsIn

/-! ### Sources and answerers -/

/-- The names that no rule gives up or is given: those that look invented, and those of the variables in definitions. -/
structure Reserves (P : String → Prop) (src : Sources) : Prop where
  invented : ∀ n : Nat, P s!"V{n}"
  index : ∀ v, (freshIndex? v).isSome = true → P v
  definition : ∀ t ∈ src.rules.toList, t.asDefinition.isSome = true → ∀ v ∈ t.vars, P v

/-- The sources are the same but for their rules, which are variants of each other. -/
structure Sources.Variants (P : String → Prop) (src src' : Sources) : Prop where
  facts : src'.facts = src.facts
  overlay : src'.overlay = src.overlay
  datasets : src'.datasets = src.datasets
  config : src'.config = src.config
  rules : src.rules.Variants P src'.rules

/-- The question with other variables. -/
def Question.relabel (π : Equiv.Perm String) : Question → Question
  | .all template goal => .all (template.relabel π) (goal.relabel π)
  | .first template goal => .first (template.relabel π) (goal.relabel π)
  | .value expr => .value (expr.relabel π)

/-- The answers of the second answerer to questions with other variables are those of the first one with these variables,
and none of them makes texts. -/
def Answerer.Followed (P : String → Prop) (ask ask' : Answerer) : Prop :=
  ∀ π, Spares P π → ∀ q, textless.Asks q →
    Follows (fun ts us => us = ts.map (Term.relabel π) ∧ ∀ t ∈ ts, t.Avoids textMakers) (ask q) (ask' (q.relabel π))

theorem Answerer.Followed.answers {ask ask' : Answerer} (h : ask.Followed P ask') : textless.Answers ask := by
  intro q hq m ts m' hrun
  obtain ⟨us, m₁, -, hus, -⟩ := h 1 (.one P) q hq hrun rfl
  exact hus.2

section Asking

variable {ask ask' : Answerer} {template goal : Term} {π : Equiv.Perm String}

/-- A term that may be asked for, with other variables. -/
def Relabelled (π : Equiv.Perm String) (t u : Term) : Prop := u = t.relabel π ∧ t.Avoids textMakers

variable (hask : ask.Followed P ask') (hπ : Spares P π) (htemplate : template.Avoids textMakers)
  (hgoal : goal.Avoids textMakers)

include hask hπ htemplate hgoal

theorem follows_findAll (config : Config) :
    Follows (fun ts us => us = ts.map (Term.relabel π) ∧ ∀ t ∈ ts, t.Avoids textMakers)
      (ask.findAll config template goal) (ask'.findAll config (template.relabel π) (goal.relabel π)) := by
  refine (hask π hπ (.all template goal) ⟨htemplate, hgoal⟩).bind fun ts us hus => follows_pure ?_
  obtain ⟨rfl, havoids⟩ := hus
  exact ⟨DedupPolicy.apply_map _ (Term.relabel_injective π) ts, fun t ht => havoids t ((DedupPolicy.mem_apply _).1 ht)⟩

theorem follows_count :
    Follows (Relabelled π) (ask.count template goal) (ask'.count (template.relabel π) (goal.relabel π)) := by
  refine (hask π hπ (.all template goal) ⟨htemplate, hgoal⟩).bind fun ts us hus => follows_pure ?_
  obtain ⟨rfl, -⟩ := hus
  rw [Dedup.length_distinct_map (Term.relabel_injective π)]
  exact ⟨(Term.relabel_number _).symm, avoids_number (by decide) _⟩

theorem follows_findFirst? :
    Follows (Option.Rel (Relabelled π)) (ask.findFirst? template goal)
      (ask'.findFirst? (template.relabel π) (goal.relabel π)) := by
  refine (hask π hπ (.first template goal) ⟨htemplate, hgoal⟩).bind fun ts us hus => follows_pure ?_
  obtain ⟨rfl, havoids⟩ := hus
  cases ts with
  | nil => exact .none
  | cons t ts => exact .some ⟨rfl, havoids t List.mem_cons_self⟩

omit htemplate in
theorem follows_holds : Follows (fun a b => b = a) (ask.holds goal) (ask'.holds (goal.relabel π)) := by
  have htrue : (Term.sym "true").Avoids textMakers := by decide
  refine (follows_findFirst? hask hπ htrue hgoal).bind fun a b hab => follows_pure ?_
  cases hab <;> rfl

end Asking

/-! ### Selections -/

/-- The selections differ in their variables, and the environment of the candidates is one of those that there are. -/
def Selection.Renamed (ρ : Naming) (e : EnvId) (k : EnvId) (x x' : Selection) : Prop :=
  x.env < k ∧ x' = ⟨x.target.relabel (ρ e), x.candidates.map (Term.relabel (ρ x.env)), x.env⟩

section Selections

variable {src src' : Sources} {ask ask' : Answerer} {args : List Term} {f : String} {surroundings : Surroundings}

theorem getElem?_rel (ts : List Term) (i : Nat) {π : Equiv.Perm String} :
    Option.Rel (fun t u => u = t.relabel π ∧ t ∈ ts) ts[i]? (ts.map (Term.relabel π))[i]? := by
  rw [List.getElem?_map]
  cases h : ts[i]? with
  | none => exact .none
  | some t => exact .some ⟨rfl, List.mem_of_getElem? h⟩

/-- An argument as it stands. -/
theorem FollowsIn.arg (args : List Term) (i : Nat) :
    FollowsIn words ρ e ts ts (fun _ t u => u = t.relabel (ρ e) ∧ t ∈ args) (args[i]?.getM : Selecting Term)
      ((args.map (Term.relabel (ρ e)))[i]?.getM : Selecting Term) :=
  .getM (getElem?_rel args i)

/-- An argument with bindings applied. -/
theorem FollowsIn.inputArg (hfresh : ∀ n : Nat, ρ e s!"V{n}" = s!"V{n}") {places : List Nat}
    {S : EnvId → γ → δ → Prop} {f : Term → Selecting γ} {g : Term → Selecting δ} (i : Nat)
    (h : ∀ t ∈ args, ∀ u, t.Fills words u →
      FollowsIn words ρ e (argsAt places args) vs S (f u) (g (u.relabel (ρ e)))) :
    FollowsIn words ρ e (argsAt (i :: places) args) vs S (args[i]?.getM >>= fun t => Selecting.input t e >>= f)
      ((args.map (Term.relabel (ρ e)))[i]?.getM >>= fun t => Selecting.input t e >>= g) := by
  rw [List.getElem?_map]
  unfold argsAt
  rw [List.flatMap_cons]
  cases ht : args[i]? with
  | none => exact .failure
  | some t =>
    have hinput (t' t'' : Term) (ht' : t' = t ∧ t'' = t.relabel (ρ e)) :
        FollowsIn words ρ e (t :: argsAt places args) vs S (Selecting.input t' e >>= f) (Selecting.input t'' e >>= g) := by
      obtain ⟨rfl, rfl⟩ := ht'
      refine (input hfresh t').bind fun u u' hu => ?_
      obtain ⟨rfl, hfills⟩ := hu
      exact h t' (List.mem_of_getElem? ht) u hfills
    exact (getM (.some ⟨rfl, rfl⟩)).bind hinput

theorem rel_eq (a : Option α) : Option.Rel (fun a b => b = a) a a := by
  cases a with
  | none => exact .none
  | some a => exact .some rfl

theorem FollowsIn.same (a : Option α) :
    FollowsIn words ρ e ts ts (fun _ a b => b = a) (a.getM : Selecting α) (a.getM : Selecting α) := .getM (rel_eq a)

theorem FollowsIn.single {output value value' : Term} (hvalue : value' = value.relabel (ρ e)) :
    FollowsIn words ρ e ts ts (Selection.Renamed ρ e) (Pure.pure ⟨output, [value], e⟩)
      (Pure.pure ⟨output.relabel (ρ e), [value'], e⟩) := by
  subst hvalue
  exact .pure fun _ he => ⟨he, rfl⟩

/-- Candidates that are read in a fresh environment, where variables keep their names. -/
theorem selected_fresh {w : Workspace} (hw : w.Ready words ρ) (goal : Term) (facts : List Term) :
    Selected words ρ e [] (Selection.Renamed ρ e) w
      (some ⟨goal, facts, w.store.newEnv.1⟩, ⟨w.store.newEnv.2, w.names⟩)
      (some ⟨goal.relabel (ρ e), facts, (w.store.relabel ρ).newEnv.1⟩, ⟨(w.store.relabel ρ).newEnv.2, w.names⟩) := by
  have hsize : w.store.envs.size < w.store.newEnv.2.envs.size := by
    rw [Store.size_envs_newEnv]
    exact Nat.lt_succ_self _
  have hone : ρ w.store.newEnv.1 = 1 := hw.eq_one _ (Nat.le_refl _)
  have hfacts : facts.map (Term.relabel (ρ w.store.newEnv.1)) = facts := by
    rw [hone, List.map_congr_left fun t _ => Term.relabel_one t, List.map_id']
  rw [Store.newEnv_relabel]
  refine ⟨rfl, .newEnv w.store, ⟨hw.avoids.newEnv, hw.proper.newEnv, fun f hf => ?_⟩, .some ⟨hsize, ?_⟩, fun _ => rfl⟩
  · exact hw.eq_one f (Nat.le_trans (Nat.le_of_lt hsize) hf)
  · dsimp only
    rw [hfacts]

theorem followsIn_selectFacts {src src' : Sources} (hsrc : src.Variants P src') (goal : Term) :
    FollowsIn words ρ e ts [] (Selection.Renamed ρ e) (selectFacts src goal e)
      (selectFacts src' (goal.relabel (ρ e)) e) := by
  have hfacts (s : Store) : src'.factsFor (s.relabel ρ) (goal.relabel (ρ e)) e = src.factsFor s goal e := by
    rw [← Sources.factsFor_relabel src s goal e]
    unfold Sources.factsFor
    rw [hsrc.facts, hsrc.overlay]
  intro w hw _ _
  rw [run_selectFacts, run_selectFacts]
  unfold Workspace.relabel
  rw [hfacts]
  exact follows_pure (selected_fresh hw goal _)

variable (hfresh : ∀ n : Nat, ρ e s!"V{n}" = s!"V{n}")

include hfresh

theorem followsIn_selectMembers (item list : Term) :
    FollowsIn words ρ e [list] [] (Selection.Renamed ρ e) (selectMembers item list e)
      (selectMembers (item.relabel (ρ e)) (list.relabel (ρ e)) e) := by
  unfold selectMembers
  refine (FollowsIn.input hfresh list).bind fun a b hab => ?_
  obtain ⟨rfl, -⟩ := hab
  refine .pure fun _ he => ⟨he, ?_⟩
  rw [Term.cells_relabel]

theorem followsIn_selectGroups (args : List Term) :
    FollowsIn words ρ e (argsAt [0, 1] args) [] (Selection.Renamed ρ e) (selectGroups surroundings args e)
      (selectGroups surroundings (args.map (Term.relabel (ρ e))) e) := by
  have hstrings (texts : List String) : Term.list (texts.map Term.string) =
      (Term.list (texts.map Term.string)).relabel (ρ e) := by
    rw [Term.relabel_list, List.map_map]
    rfl
  unfold selectGroups
  refine .inputArg hfresh 0 fun _ _ text _ => .inputArg hfresh 1 fun _ _ pattern _ => ?_
  rw [Term.stringText?_relabel, Term.stringText?_relabel]
  refine (FollowsIn.same _).bind fun a b hab => ?_
  subst hab
  refine (FollowsIn.same _).bind fun a b hab => ?_
  subst hab
  refine (FollowsIn.same _).bind fun a b hab => ?_
  subst hab
  dsimp only
  rw [← List.map_drop, List.length_map, ← Term.relabel_list]
  split
  · exact .failure
  · exact .single (hstrings _)

theorem followsIn_selectMatches (args : List Term) :
    FollowsIn words ρ e (argsAt [0, 1] args) [] (Selection.Renamed ρ e) (selectMatches surroundings args e)
      (selectMatches surroundings (args.map (Term.relabel (ρ e))) e) := by
  have hstrings (texts : List String) : texts.map Term.string = (texts.map Term.string).map (Term.relabel (ρ e)) := by
    rw [List.map_map]
    rfl
  unfold selectMatches
  refine .inputArg hfresh 0 fun _ _ text _ => .inputArg hfresh 1 fun _ _ pattern _ => ?_
  rw [Term.stringText?_relabel, Term.stringText?_relabel]
  refine (FollowsIn.same _).bind fun a b hab => ?_
  subst hab
  refine (FollowsIn.same _).bind fun a b hab => ?_
  subst hab
  refine (FollowsIn.arg args 2).bind fun output _ houtput => ?_
  obtain ⟨rfl, -⟩ := houtput
  refine .pure fun _ he => ⟨he, ?_⟩
  rw [← hstrings]

theorem followsIn_selectDataset {src src' : Sources} (hsrc : src.Variants P src') (goal name : Term) :
    FollowsIn words ρ e [name] [] (Selection.Renamed ρ e) (selectDataset src goal name e)
      (selectDataset src' (goal.relabel (ρ e)) (name.relabel (ρ e)) e) := by
  have hfacts (name : String) (s : Store) :
      src'.datasetFactsFor name (s.relabel ρ) (goal.relabel (ρ e)) e = src.datasetFactsFor name s goal e := by
    rw [← Sources.datasetFactsFor_relabel src name s goal e]
    unfold Sources.datasetFactsFor Sources.dataset?
    rw [hsrc.datasets]
  unfold selectDataset
  refine (FollowsIn.input hfresh name).bind fun a b hab => ?_
  obtain ⟨rfl, -⟩ := hab
  rw [Term.asSymbol_relabel]
  refine (FollowsIn.same _).bind fun a b hab => ?_
  subst hab
  intro w hw _ _
  have hrun (src : Sources) (goal : Term) (w : Workspace) :
      (do
        let facts := src.datasetFactsFor b (← get).store goal e
        return ⟨goal, facts, ← Selecting.newEnv⟩ : Selecting Selection).run.run w =
      Pure.pure (some ⟨goal, src.datasetFactsFor b w.store goal e, w.store.newEnv.1⟩, ⟨w.store.newEnv.2, w.names⟩) := rfl
  rw [hrun, hrun]
  unfold Workspace.relabel
  rw [hfacts]
  exact follows_pure (selected_fresh hw goal _)

theorem followsIn_selectCall (hf : f ∉ textMakers) (hargs : ∀ t ∈ args, t.Avoids textMakers) :
    FollowsIn textMakers ρ e args.dropLast [] (Selection.Renamed ρ e) (selectCall surroundings f args e)
      (selectCall surroundings f (args.map (Term.relabel (ρ e))) e) := by
  have hlast : Option.Rel (fun t u => u = t.relabel (ρ e)) args.getLast? (args.map (Term.relabel (ρ e))).getLast? := by
    rw [List.getLast?_map]
    cases args.getLast? with
    | none => exact .none
    | some t => exact .some rfl
  have hvalue {x : Option Term} {output : Term} :
      FollowsIn textMakers ρ e [] [] (Selection.Renamed ρ e)
        (x.getM >>= fun value => (Pure.pure ⟨output, [value], e⟩ : Selecting Selection))
        ((x.map (Term.relabel (ρ e))).getM >>= fun value =>
          (Pure.pure ⟨output.relabel (ρ e), [value], e⟩ : Selecting Selection)) := by
    cases x with
    | none => exact .failure
    | some value => exact .single rfl
  unfold selectCall
  refine (FollowsIn.getM hlast).bind fun output _ houtput => ?_
  subst houtput
  rw [← List.map_dropLast]
  refine (FollowsIn.inputs hfresh fun t ht => hargs t (List.dropLast_subset args ht)).bind fun values _ hvalues => ?_
  obtain ⟨rfl, -⟩ := hvalues
  dsimp only
  rw [callBuiltin_relabel (fun h => hf (List.mem_append_left _ h)), callMath_relabel]
  split
  · exact hvalue
  · split
    · exact hvalue
    · have hhead : (values.map (Term.relabel (ρ e))).head?.bind (callListOperator f) =
          (values.head?.bind (callListOperator f)).map (Term.relabel (ρ e)) := by
        cases values with
        | nil => rfl
        | cons v vs => exact callListOperator_relabel f v
      rw [hhead]
      exact hvalue

section

variable (hask : ask.Followed P ask') (hρ : Spares P (ρ e))

include hask hρ

theorem followsIn_mapRelation {relation : String} (hrelation : relation ∉ textMakers) {items : List Term}
    (hitems : ∀ t ∈ items, t.Avoids textMakers) :
    FollowsIn textMakers ρ e [] [] (fun _ a b => b = a.map (Term.relabel (ρ e)))
      (mapRelation ask relation items) (mapRelation ask' relation (items.map (Term.relabel (ρ e)))) := by
  induction items with
  | nil => exact .pure fun _ _ => rfl
  | cons item items ih =>
    rw [List.forall_mem_cons] at hitems
    rw [List.map_cons, mapRelation, mapRelation]
    refine (FollowsIn.freshVar hfresh).bind fun out _ hout => ?_
    obtain ⟨v, rfl, rfl⟩ := hout
    have hgoal : (Term.apply relation [item, .var v]).Avoids textMakers :=
      Term.avoids_apply hrelation (by simpa using hitems.1)
    have hasked := hask (ρ e) hρ (.first (.var v) (.apply relation [item, .var v])) ⟨Term.avoids_var v, hgoal⟩
    unfold Question.relabel at hasked
    dsimp only at hasked
    rw [Term.relabel_apply] at hasked
    refine (FollowsIn.lift hasked).bind fun results _ hresults => ?_
    obtain ⟨rfl, -⟩ := hresults
    cases results with
    | nil => exact .failure
    | cons result _ =>
      refine (ih hitems.2).bind fun rest _ hrest => ?_
      subst hrest
      exact .pure fun _ _ => rfl

theorem followsIn_selectMapped (hargs : ∀ t ∈ args, t.Avoids textMakers) :
    FollowsIn textMakers ρ e (argsAt [1] args) [] (Selection.Renamed ρ e) (selectMapped ask args e)
      (selectMapped ask' (args.map (Term.relabel (ρ e))) e) := by
  unfold selectMapped
  refine (FollowsIn.arg args 0).bind fun t _ ht => ?_
  obtain ⟨rfl, ht⟩ := ht
  rw [Term.asSymbol_relabel]
  have hsymbol : Option.Rel (fun a b => b = a ∧ a ∉ textMakers) t.asSymbol t.asSymbol := by
    cases t with
    | var v => exact .none
    | sym a => exact .some ⟨rfl, Term.avoids_sym.1 (hargs _ ht)⟩
    | compound g ts => exact .none
  refine (FollowsIn.getM hsymbol).bind fun relation _ hrelation => ?_
  obtain ⟨rfl, hrelation⟩ := hrelation
  refine .inputArg hfresh 1 fun t ht list hlist => ?_
  rw [Term.items?_relabel]
  have hitems : Option.Rel (fun a b => b = a.map (Term.relabel (ρ e)) ∧ ∀ t ∈ a, t.Avoids textMakers) list.items?
      (list.items?.map (List.map (Term.relabel (ρ e)))) := by
    cases h : list.items? with
    | none => exact .none
    | some items => exact .some ⟨rfl, Term.avoids_of_items? (hlist.avoids (hargs t ht)) h⟩
  refine (FollowsIn.getM hitems).bind fun items _ hitems => ?_
  obtain ⟨rfl, hitems⟩ := hitems
  refine (followsIn_mapRelation hfresh hask hρ hrelation hitems).bind fun results _ hresults => ?_
  subst hresults
  refine (FollowsIn.arg args 2).bind fun output _ houtput => ?_
  obtain ⟨rfl, -⟩ := houtput
  exact .single (Term.relabel_list results).symm

theorem followsIn_selectAggregate (hargs : ∀ t ∈ args, t.Avoids textMakers) (hsrc : src.Variants P src') :
    FollowsIn textMakers ρ e (argsAt [0, 1] args) [] (Selection.Renamed ρ e) (selectAggregate src ask f args e)
      (selectAggregate src' ask' f (args.map (Term.relabel (ρ e))) e) := by
  unfold selectAggregate
  rw [hsrc.config]
  refine .inputArg hfresh 0 fun t ht template htemplate => .inputArg hfresh 1 fun g hg goal hgoal => ?_
  have htemplate := htemplate.avoids (hargs t ht)
  have hgoal := hgoal.avoids (hargs g hg)
  dsimp only
  split
  · refine (FollowsIn.lift (follows_findAll hask hρ htemplate hgoal _)).bind fun ts _ hts => ?_
    obtain ⟨rfl, -⟩ := hts
    refine (FollowsIn.arg args 2).bind fun output _ houtput => ?_
    obtain ⟨rfl, -⟩ := houtput
    exact .single (Term.relabel_list ts).symm
  · refine (FollowsIn.lift (follows_count hask hρ htemplate hgoal)).bind fun value _ hvalue => ?_
    obtain ⟨rfl, -⟩ := hvalue
    refine (FollowsIn.arg args 2).bind fun output _ houtput => ?_
    obtain ⟨rfl, -⟩ := houtput
    exact .single rfl

theorem followsIn_selectValue (hargs : ∀ t ∈ args, t.Avoids textMakers) :
    FollowsIn textMakers ρ e (argsAt [0] args) [] (Selection.Renamed ρ e) (selectValue ask args e)
      (selectValue ask' (args.map (Term.relabel (ρ e))) e) := by
  unfold selectValue
  refine .inputArg hfresh 0 fun t ht expr hexpr => ?_
  refine (FollowsIn.lift (hask (ρ e) hρ (.value expr) (hexpr.avoids (hargs t ht)))).bind fun values _ hvalues => ?_
  obtain ⟨rfl, -⟩ := hvalues
  have hhead : Option.Rel (fun a b => b = a.relabel (ρ e)) values.head? (values.map (Term.relabel (ρ e))).head? := by
    cases values with
    | nil => exact .none
    | cons v vs => exact .some rfl
  refine (FollowsIn.getM hhead).bind fun value _ hvalue => ?_
  subst hvalue
  refine (FollowsIn.arg args 1).bind fun output _ houtput => ?_
  obtain ⟨rfl, -⟩ := houtput
  exact .single rfl

/-- What a computed goal selects differs in its variables only. -/
theorem followsIn_selectComputed (hsrc : src.Variants P src') (hf : f ∉ textMakers) (hargs : ∀ t ∈ args, t.Avoids textMakers) :
    FollowsIn textMakers ρ e (computedInputs f args) [] (Selection.Renamed ρ e) (selectComputed src ask f args e)
      (selectComputed src' ask' f (args.map (Term.relabel (ρ e))) e) := by
  unfold selectComputed
  rw [hsrc.config]
  split
  · exact followsIn_selectValue hfresh hask hρ hargs
  · exact followsIn_selectGroups hfresh args
  · exact followsIn_selectMatches hfresh args
  · exact followsIn_selectMapped hfresh hask hρ hargs
  · rename_i hevaluate hmatches hsubmatches hmap
    unfold computedInputs
    rw [if_neg hevaluate, if_neg hmap]
    cases haggregate : isAggregate f with
    | true =>
      rw [if_pos (by simp), if_pos rfl, if_pos rfl]
      exact followsIn_selectAggregate hfresh hask hρ hargs hsrc
    | false =>
      have hplain : ¬ (decide (f = "matches") || decide (f = "submatches") || false) = true := by
        simpa using ⟨fun h => hmatches h, fun h => hsubmatches h⟩
      rw [if_neg hplain, if_neg (by decide), if_neg (by decide)]
      exact followsIn_selectCall hfresh hf hargs

end

end Selections

end Deduction
