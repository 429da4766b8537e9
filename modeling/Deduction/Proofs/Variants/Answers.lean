import Deduction.Proofs.Variants.Machines

/-!
# Variants of rules give the same answers

A rule may be replaced by a variant of it (`answers_variants`). The names that look invented must be spared, and those of
the variables in definitions, which are applied as they stand. No text may be made of variables or read as one, and the
search must be shallow: a term that is cut off keeps the variables of a rule.
-/

namespace Deduction

variable {P : String → Prop} {π : Equiv.Perm String} {src src' : Sources} {ask ask' : Answerer}

/-! ### Searches -/

namespace Search

/-- The outcomes are of the same kind. Where the goal was proved, the machines differ in their variables, and the answer
stays within the allowance. -/
inductive Outcome.Renamed (P : String → Prop) (π : Equiv.Perm String) (template : Term) : Outcome → Outcome → Prop
  | answer {o o' : Alternatives} {w w' : Workspace} (hm : Machine.Renamed P π ⟨.proved .done o, w⟩ ⟨.proved .done o', w'⟩)
    (hwithin : Machine.Within textless ⟨.proved .done o, w⟩) (hplug : w.plugsWithin queryEnv [template] = true) :
    Outcome.Renamed P π template (.answer o w) (.answer o' w')
  | exhausted (w w' : Workspace) : Outcome.Renamed P π template (.exhausted w) (.exhausted w')
  | limitReached (w w' : Workspace) : Outcome.Renamed P π template (.limitReached w) (.limitReached w')

/-- The searches differ in their variables. -/
structure Renamed (P : String → Prop) (π : Equiv.Perm String) (x x' : Search) : Prop where
  template : x'.template = x.template.relabel π
  status : x'.status = x.status
  machine : x.status = .running → x.machine.Renamed P π x'.machine
  within : x.Within textless

variable {x x' : Search}

/-- The naming of the variables of the query alone. -/
def queryNaming (π : Equiv.Perm String) : Naming := fun e => if e = queryEnv then π else 1

/-- A search that has ended gives no answers, whatever machine it has. -/
theorem Renamed.ended (h : x.Renamed P π x') {status : Status} (hstatus : status ≠ .running) (m m' : Machine) :
    Renamed P π { x with machine := m, status } { x' with machine := m', status } :=
  ⟨h.template, rfl, fun hrunning => absurd hrunning hstatus, h.within.template, fun hrunning => absurd hrunning hstatus⟩

theorem renamed_start (hP : Reserves P src) (hπ : Spares P π) {config : Config} {template goal : Term}
    (htemplate : template.Avoids textMakers) (hgoal : goal.Avoids textMakers) :
    Renamed P π (start config template goal) (start config (template.relabel π) (goal.relabel π)) := by
  have hnames : NameSupply.after [template.relabel π, goal.relabel π] = .after [template, goal] :=
    NameSupply.after_relabel hP.index hπ [template, goal]
  have hquery : queryNaming π queryEnv = π := if_pos rfl
  have hone (e : EnvId) (he : queryEnv < e) : queryNaming π e = 1 := if_neg (Nat.ne_of_gt he)
  have hstore : Store.relabel (queryNaming π) (Store.newEnv { occursCheck := config.occursCheck }).2 =
      (Store.newEnv { occursCheck := config.occursCheck }).2 := by
    have hrelabel := congrArg Prod.snd (Store.newEnv_relabel (ρ := queryNaming π) { occursCheck := config.occursCheck })
    rw [Store.relabel_empty] at hrelabel
    exact hrelabel.symm
  have hempty : Store.Proper { occursCheck := config.occursCheck } := ⟨Store.wellFormed_empty _, .empty _ _⟩
  refine ⟨rfl, rfl, fun _ => ⟨queryNaming π, ⟨hempty.newEnv, fun e he => hone e he, fun e => ?_, hquery, ?_⟩, ?_, ?_⟩,
    within_start htemplate hgoal⟩
  · by_cases he : e = queryEnv
    · rwa [he, hquery]
    · rw [hone e (Nat.pos_of_ne_zero he)]
      exact .one P
  · exact Nat.zero_lt_one
  · unfold start Workspace.relabel
    dsimp only
    rw [hnames, hstore]
  · exact .prove Nat.zero_lt_one (by rw [← hquery]; rfl) .done .none

section

variable (hL : textless.Closed src) (hP : Reserves P src) (hsrc : src.Variants P src') (hask : ask.Followed P ask')

include hL hP hsrc hask

theorem follows_runShallow (template : Term) (n : Nat) {m m' : Machine} (h : m.Renamed P π m') (hm : m.Within textless) :
    Follows (Outcome.Renamed P π template) (runShallow src ask template n m) (run src' ask' n m') := by
  induction n generalizing m m' with
  | zero => exact follows_throw _ _
  | succ n ih =>
    unfold runShallow run
    rw [hsrc.config]
    refine (Follows.isSpent src.config).bind fun spent spent' hspent => ?_
    subst hspent
    split
    · exact follows_pure (.limitReached _ _)
    by_cases hshallow : m.isShallow src template = true
    · have hstep : Follows (Outcome.Renamed P π template) (m.step src ask >>= runShallow src ask template n)
          (m'.step src' ask' >>= run src' ask' n) := by
        refine ((Machine.follows_step hL hP hsrc hask h hm hshallow).and
          (Machine.within_step hL hask.answers hm)).bind fun m₁ m₁' h₁ => ih h₁.1 h₁.2
      rw [if_pos hshallow]
      obtain ⟨control, w⟩ := m
      obtain ⟨control', w'⟩ := m'
      have hmachine := h
      obtain ⟨ρ, hw, hwork, hcontrol⟩ := h
      cases hcontrol with
      | prove => exact hstep
      | proved hn ho =>
        cases hn with
        | done => exact follows_pure (.answer hmachine hm hshallow)
        | goals => exact hstep
        | leave => exact hstep
        | refuted => exact hstep
      | failed ho =>
        cases ho with
        | none => exact follows_pure (.exhausted _ _)
        | undo => exact hstep
        | reenter => exact hstep
        | absent => exact hstep
        | disjuncts => exact hstep
        | candidates => exact hstep
        | rules => exact hstep
    · rw [if_neg hshallow]
      exact follows_throw _ _

/-- The next answers differ in the variables of the query, and so do the searches from there on. -/
theorem follows_nextShallow (h : x.Renamed P π x') :
    Follows (fun r r' => Option.Rel (Relabelled π) r.1 r'.1 ∧ r.2.Renamed P π r'.2) (x.nextShallow src ask)
      (x'.next src' ask') := by
  rw [← nextWithin_stepBound]
  unfold nextShallow nextWithin
  rw [h.status]
  split
  · rename_i hrunning
    rw [map_eq_pure_bind, map_eq_pure_bind]
    refine (follows_runShallow hL hP hsrc hask x.template stepBound (h.machine hrunning) (h.within.machine hrunning)).bind
      fun outcome outcome' houtcome => follows_pure ?_
    cases houtcome with
    | exhausted w w' => exact ⟨.none, h.ended (by simp) _ _⟩
    | limitReached w w' => exact ⟨.none, h.ended (by simp) _ _⟩
    | @answer o o' w w' hm hwithin hplugs =>
      obtain ⟨ρ, hw, hwork, hcontrol⟩ := hm
      dsimp only at hw hwork hcontrol
      subst hwork
      obtain ⟨t, st, hplug, -⟩ := Workspace.exists_plug hplugs
      have hfresh (n : Nat) : ρ queryEnv s!"V{n}" = s!"V{n}" := hw.spares queryEnv _ (hP.invented n)
      have hleft : w.store.plug x.template queryEnv queryEnv w.names = (t, st) := Store.plugAt_of_within hplug
      have hright : (w.relabel ρ).store.plug x'.template queryEnv queryEnv (w.relabel ρ).names =
          (t.relabel π, (st.1.relabel ρ, st.2)) := by
        rw [h.template, ← hw.query]
        exact Store.plug_relabel hfresh hplug
      have hext := Store.plug_extends w.store x.template queryEnv queryEnv w.names
      have hproper := hw.proper.plug x.template w.names hw.lt_size hw.lt_size
      have havoids := hwithin.store.plug x.template queryEnv queryEnv w.names
      have hfills := Store.plug_fills hwithin.store x.template queryEnv queryEnv w.names
      rw [hleft] at hext hproper havoids hfills
      have honward := Store.Onward.of_extends hext
      unfold conclude answer resume
      dsimp only
      rw [hleft, hright]
      refine ⟨.some ⟨rfl, hfills.avoids h.within.template⟩, h.template, h.status, fun _ => ?_, h.within.template, fun _ => ?_⟩
      · cases hcontrol with
        | proved hn ho =>
          refine Machine.renamed_failed (w := ⟨st.1, st.2⟩) (hw.of_extends hproper hext) ?_
          exact ho.onward honward (Nat.le_refl _) honward.size_envs honward.size_trail
      · cases hwithin.control with
        | proved hn ho => exact Machine.within_failed ho havoids
  · exact follows_pure ⟨.none, h⟩

theorem follows_pullShallow (n : Nat) (h : x.Renamed P π x') {found found' : List Term}
    (hfound : RelabelledAll π found found') :
    Follows (fun r r' => RelabelledAll π r.1 r'.1) (x.pullShallow src ask n found) (x'.pull src' ask' n found') := by
  induction n generalizing x x' found found' with
  | zero => exact follows_pure hfound
  | succ n ih =>
    unfold pullShallow pull
    refine (follows_nextShallow hL hP hsrc hask h).bind fun r r' hr => ?_
    obtain ⟨given, x₁⟩ := r
    obtain ⟨given', x₁'⟩ := r'
    obtain ⟨hgiven, hx₁⟩ := hr
    dsimp only at hgiven hx₁
    cases hgiven with
    | none => exact follows_pure hfound
    | some ht =>
      obtain ⟨rfl, ht⟩ := ht
      obtain ⟨rfl, havoids⟩ := hfound
      exact ih hx₁ ⟨rfl, List.forall_mem_cons.2 ⟨ht, havoids⟩⟩

theorem follows_takeShallow (n : Nat) (h : x.Renamed P π x') :
    Follows (RelabelledAll π) (x.takeShallow src ask n) (x'.take src' ask' n) := by
  have hnone : RelabelledAll π [] [] := ⟨rfl, fun _ ht => by cases ht⟩
  refine (follows_pullShallow hL hP hsrc hask n h hnone).bind fun r r' hr => follows_pure ?_
  obtain ⟨hr, havoids⟩ := hr
  rw [hr]
  exact ⟨List.map_reverse.symm, fun t ht => havoids t (List.mem_reverse.1 ht)⟩

end

end Search

/-! ### Questions -/

/-- Questions are followed at any depth. -/
theorem followed_consult (hL : textless.Closed src) (hP : Reserves P src) (hsrc : src.Variants P src') (n : Nat) :
    (consultShallow src n).Followed P (consultAt src' n) := by
  have hlist (π : Equiv.Perm String) (a b : Option Term) (h : Option.Rel (Relabelled π) a b) :
      RelabelledAll π a.toList b.toList := by
    cases h with
    | none => exact ⟨rfl, fun _ ht => by cases ht⟩
    | some ht => exact .of_forall₂ (.cons ht .nil)
  induction n with
  | zero => exact fun _ _ _ _ => follows_throw _ _
  | succ n ih =>
    intro π hπ q hq
    cases q with
    | all template goal =>
      unfold consultShallow consultAt
      dsimp only [Question.relabel]
      rw [hsrc.config]
      exact Search.follows_takeShallow hL hP hsrc ih _ (Search.renamed_start hP hπ hq.1 hq.2)
    | first template goal =>
      unfold consultShallow consultAt
      dsimp only [Question.relabel]
      rw [hsrc.config]
      refine (Search.follows_nextShallow hL hP hsrc ih (Search.renamed_start hP hπ hq.1 hq.2)).bind
        fun r r' hr => follows_pure ?_
      exact hlist π _ _ hr.1
    | value expr =>
      unfold consultShallow consultAt
      dsimp only [Question.relabel]
      exact Follows.bind (followsOption_valueOf hP hL hsrc ih hπ expr hq) fun a b hab => follows_pure (hlist π a b hab)

/-! ### Queries -/

namespace Solutions

variable {y y' z z' : Solutions}

theorem nextShallow_eq_ok {answer : Option Term} (h : z.nextShallow = .ok (answer, z')) :
    (z.search.nextShallow z.sources (consultShallow z.sources stepBound)).run z.meter =
      .ok ((answer, z'.search), z'.meter) ∧ z'.sources = z.sources := by
  obtain ⟨r, hr, h⟩ := bind_eq_ok.1 h
  cases h
  exact ⟨hr, rfl⟩

theorem answersShallow_succ_eq_ok {n : Nat} {found : List (Option Term)}
    (h : answersShallow (n + 1) z = .ok (found, z')) :
    ∃ answer z₁ rest, z.nextShallow = .ok (answer, z₁) ∧ answersShallow n z₁ = .ok (rest, z') ∧ found = answer :: rest := by
  obtain ⟨⟨answer, z₁⟩, hnext, h⟩ := bind_eq_ok.1 h
  obtain ⟨⟨rest, z₂⟩, hrest, h⟩ := bind_eq_ok.1 h
  cases h
  exact ⟨answer, z₁, rest, hnext, hrest, rfl⟩

/-- The answers are searched in sources with variants of the rules, and as much was counted so far. -/
structure Followed (P : String → Prop) (z y : Solutions) : Prop where
  sources : z.sources.Variants P y.sources
  search : z.search.Renamed P 1 y.search
  spent_eq : y.meter.spent = z.meter.spent

/-- As long as the one search is shallow, the other one gives the same answers. -/
theorem Followed.answers (hL : textless.Closed z.sources) (hP : Reserves P z.sources) (h : z.Followed P y) {n : Nat}
    {found : List (Option Term)} (hz : answersShallow n z = .ok (found, z')) :
    ∃ y', answers n y = .ok (found, y') ∧ z'.Followed P y' := by
  induction n generalizing z y found with
  | zero =>
    cases hz
    exact ⟨y, rfl, h⟩
  | succ n ih =>
    obtain ⟨answer, z₁, rest, hnext, hrest, rfl⟩ := answersShallow_succ_eq_ok hz
    obtain ⟨hrun, hsources⟩ := nextShallow_eq_ok hnext
    have hask := followed_consult hL hP h.sources stepBound
    obtain ⟨⟨answer', x⟩, meter, hrun', ⟨hanswer, hx⟩, hspent⟩ :=
      Search.follows_nextShallow hL hP h.sources hask h.search hrun h.spent_eq
    have hsame : answer' = answer := by
      dsimp only at hanswer
      cases hanswer with
      | none => rfl
      | some ht => rw [ht.1, Term.relabel_one]
    have hnext' : y.next = .ok (answer, ⟨y.sources, x, meter⟩) := next_of_run (hsame ▸ hrun') rfl
    have hafter : z₁.Followed P ⟨y.sources, x, meter⟩ := ⟨hsources.symm ▸ h.sources, hx, hspent⟩
    obtain ⟨y', hy', hend⟩ := ih (hsources.symm ▸ hL) (hsources.symm ▸ hP) hafter hrest
    exact ⟨y', answers_succ hnext' hy', hend⟩

end Solutions

/-- The names of variables that no rule may give up or be given: those that look invented, and those of the variables in
definitions. -/
def Sources.IsReserved (src : Sources) (v : String) : Prop :=
  (freshIndex? v).isSome = true ∨ (∃ n : Nat, v = s!"V{n}") ∨
    ∃ t ∈ src.rules.toList, t.asDefinition.isSome = true ∧ v ∈ t.vars

/-- Rules may be replaced by variants of them: as long as the search is shallow, the answers are the same, and the search
ends in the same way. -/
theorem answers_variants (src : Sources) {rules' : Theory} (hrules : src.rules.Reachable) (hrules' : rules'.Reachable)
    (hmode : rules'.mode = src.rules.mode)
    (hvariants : List.Forall₂ (Term.Variant src.IsReserved) src.rules.toList rules'.toList) (htextless : src.Textless)
    {template query : Term} (htemplate : template.Avoids textMakers) (hquery : query.Avoids textMakers) {n : Nat}
    (hshallow : (src.solutions template query).staysShallow n = true) {found : List (Option Term)} {s : Solutions}
    (h : (src.solutions template query).answers n = .ok (found, s)) :
    ∃ s', (Sources.solutions { src with rules := rules' } template query).answers n = .ok (found, s') ∧
      s'.search.status = s.search.status := by
  have hL := closed_textless htextless
  have hP : Reserves src.IsReserved src :=
    ⟨fun n => .inr (.inl ⟨n, rfl⟩), fun v hv => .inl hv, fun t ht hdefinition v hv => .inr (.inr ⟨t, ht, hdefinition, hv⟩)⟩
  have hfollowed {th : Theory} (hth : th.Reachable) (hmode : th.mode = src.rules.mode)
      (hpermuted : List.Forall₂ (Term.Permuted src.IsReserved) src.rules.toList th.toList) :
      (src.solutions template query).Followed src.IsReserved
        (Sources.solutions { src with rules := th } template query) := by
    have hstart : Search.Renamed src.IsReserved 1 (.start src.config template query)
        (.start src.config template query) := by
      simpa only [Term.relabel_one] using Search.renamed_start hP (.one _) htemplate hquery
    exact ⟨⟨rfl, rfl, rfl, rfl, hrules.indexed, hth.indexed, hmode, hpermuted⟩, hstart, rfl⟩
  unfold Solutions.staysShallow at hshallow
  cases hz : (src.solutions template query).answersShallow n with
  | error e =>
    rw [hz] at hshallow
    cases hshallow
  | ok r =>
    obtain ⟨found₀, z⟩ := r
    -- The search follows its own shallow part as well, so the answers of that part are its answers.
    have hself : List.Forall₂ (Term.Permuted src.IsReserved) src.rules.toList src.rules.toList :=
      List.forall₂_same.2 fun t _ => ⟨1, .one _, (Term.relabel_one t).symm⟩
    obtain ⟨s₀, hs₀, hend₀⟩ := (hfollowed hrules rfl hself).answers hL hP hz
    obtain ⟨s', hs', hend⟩ := (hfollowed hrules' hmode (hvariants.imp fun _ _ => Term.Variant.permuted)).answers hL hP hz
    rw [h] at hs₀
    cases hs₀
    exact ⟨s', hs', hend.search.status.trans hend₀.search.status.symm⟩

/-- The rule that two things with these names are apart if terms on them with different functors are. -/
def apart (x y : String) : Theory :=
  .ofList .rule [.compound "rule" [.compound "apart" [.var x, .var y],
    .compound "mutex" [.compound "first" [.var x], .compound "second" [.var y]]]]

/-- The pairs of things that are apart. -/
def apartPairs (rules : Theory) : Solutions :=
  Sources.solutions { rules } (.compound "pair" [.var "A", .var "B"]) (.compound "apart" [.var "A", .var "B"])

/-- The names of the two things may change places: any two things are apart. -/
theorem answers_variants_apart : ∃ s s',
    (apartPairs (apart "X" "Y")).answers 2 = .ok ([some (.compound "pair" [.var "V3", .var "V4"]), none], s) ∧
      (apartPairs (apart "Y" "X")).answers 2 = .ok ([some (.compound "pair" [.var "V3", .var "V4"]), none], s') ∧
      s'.search.status = s.search.status := by
  have hfirst : ∃ s, (apartPairs (apart "X" "Y")).answers 2 =
      .ok ([some (.compound "pair" [.var "V3", .var "V4"]), none], s) := ⟨_, rfl⟩
  have hshallow : (apartPairs (apart "X" "Y")).staysShallow 2 = true := by decide +kernel
  have hfree (v : String) (hindex : freshIndex? v = none) (hfirst : v.toList.head? ≠ some 'V') :
      ¬ Sources.IsReserved { rules := apart "X" "Y" } v := by
    rintro (hv | ⟨n, rfl⟩ | ⟨t, ht, hdefinition, -⟩)
    · rw [hindex] at hv
      cases hv
    · exact hfirst (by simp [toString])
    · obtain rfl := List.mem_singleton.1 ht
      cases hdefinition
  have hreachable (x y : String) : (apart x y).Reachable := .ofList _ _
  have hvariant : List.Forall₂ (Term.Variant (Sources.IsReserved { rules := apart "X" "Y" })) (apart "X" "Y").toList
      (apart "Y" "X").toList := by
    refine .cons ⟨fun v => if v = "X" then "Y" else "X", by decide +kernel, fun v hv hreserved => ?_, by decide +kernel⟩ .nil
    have hv : v ∈ ["X", "Y"] := hv
    have hX := hfree "X" (by decide) (by decide)
    have hY := hfree "Y" (by decide) (by decide)
    simp only [List.mem_cons, List.not_mem_nil, or_false] at hv
    rcases hv with rfl | rfl
    · exact absurd hreserved (not_or.2 ⟨hX, hY⟩)
    · exact absurd hreserved (not_or.2 ⟨hY, hX⟩)
  have htextless : Sources.Textless { rules := apart "X" "Y" } :=
    ⟨by decide, fun _ h => (by cases h), fun _ _ h => (by cases h), by decide⟩
  obtain ⟨s, hs⟩ := hfirst
  obtain ⟨s', hs', hstatus⟩ := answers_variants { rules := apart "X" "Y" } (hreachable _ _) (hreachable "Y" "X") rfl
    hvariant htextless (by decide) (by decide) hshallow hs
  exact ⟨s, s', hs, hs', hstatus⟩

/-- A name that looks invented is taken for the other thing, which gets that name when it is plugged. -/
example : ∃ s, (apartPairs (apart "X" "V1")).answers 1 =
    .ok ([some (.compound "pair" [.var "V3", .var "V3"])], s) := ⟨_, rfl⟩

end Deduction
