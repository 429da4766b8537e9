import Deduction.Proofs.Backtracking.Moves
import Deduction.Proofs.Search.Hypothetical

/-!
# Answers of a depth-first search

The answers of a query are its template in the stores that the recursion over goals yields, in that order
(`answers_solve`). An answer renames the unbound variables of rules, and a disjunction does not take that back before
it goes on to its next goal. A renamed variable takes up one more level of the allowance. So once variables were
renamed, neither unification nor an answer must come to the end of the allowance.
-/

namespace Deduction

open Store (InScope Placement Mirrors)

variable {src : Sources} {Q : String → Prop} {start : NameSupply} {template query : Term} {x : Frontier} {m : Machine}
  {w : Workspace} {otherwise : Alternatives} {s : Store}

/-! ### Machines within the allowance -/

/-- The names that were invented are numbered within 64 bits. If there are any, the next step, or the answer that is
given, does not come to the end of the allowance. -/
def Machine.staysWithin (src : Sources) (template : Term) (start : NameSupply) (m : Machine) : Bool :=
  decide (m.work.names.issued < UInt64.size) && (decide (m.work.names = start) || (m.triesWithin src &&
    match m.control with
    | .proved .done _ =>
      (Store.plugWithin Search.queryEnv allowance Search.queryEnv template (m.work.store, m.work.names)).isSome
    | _ => true))

/-- All machines that a search comes to stay within the allowance once variables were renamed. -/
def Search.StaysWithin (src : Sources) (x : Search) : Prop :=
  ∀ n, (Search.machineAt src x n).staysWithin src x.template x.machine.work.names = true

/-- It is known from the machines up to the one where the search ends. -/
theorem Search.staysWithin_of_hasEnded {x : Search} {N : Nat} (hend : hasEnded (machineAt src x N) = true)
    (h : ∀ n, n ≤ N → (machineAt src x n).staysWithin src x.template x.machine.work.names = true) :
    x.StaysWithin src := by
  intro n
  rcases Nat.le_total n N with hn | hn
  · exact h n hn
  · rw [machineAt_of_hasEnded hend hn]
    exact h N (Nat.le_refl N)

namespace Machine

variable (h : m.staysWithin src template start = true)

include h

theorem issued_lt_of_staysWithin : m.work.names.issued < UInt64.size := by
  unfold staysWithin at h
  simp only [Bool.and_eq_true, decide_eq_true_eq] at h
  exact h.1

theorem triesWithin_of_staysWithin : m.work.names = start ∨ m.triesWithin src = true := by
  unfold staysWithin at h
  simp only [Bool.and_eq_true, Bool.or_eq_true, decide_eq_true_eq] at h
  exact h.2.imp id And.left

theorem plugsWithin_of_staysWithin (hm : m.control = .proved .done otherwise) : m.work.names = start ∨
    (Store.plugWithin Search.queryEnv allowance Search.queryEnv template (m.work.store, m.work.names)).isSome = true := by
  unfold staysWithin at h
  simp only [Bool.and_eq_true, Bool.or_eq_true, decide_eq_true_eq, hm] at h
  exact h.2.imp id And.right

end Machine

/-! ### Going on after an answer -/

namespace Search

/-- Where the goal was proved, the first branch is proved as well; the answer is the template in its store, and the other
branches are left. -/
theorem shows_resume (hm : (⟨.proved .done otherwise, w⟩ : Machine).Shows Q start x)
    (htemplate : ∀ v ∈ template.vars, Q v)
    (hwithin : w.names = start ∨ (Store.plugWithin queryEnv allowance queryEnv template (w.store, w.names)).isSome = true)
    (hlt : (resume template otherwise w).work.names.issued < UInt64.size) :
    ∃ s others, x = ⟨⟨[], s⟩ :: others, []⟩ ∧ s.IsInstance start template (answer template w) ∧
      (resume template otherwise w).Shows Q start ⟨others, []⟩ := by
  obtain ⟨p, goals, s, others, hbs, hreads, hscopes, hothers⟩ := hm
  obtain rfl : goals = [] := List.map_eq_nil_iff.1 hreads.closures.symm
  obtain ⟨bs, scopes⟩ := x
  obtain rfl : bs = _ := hbs
  obtain rfl : scopes = _ := hscopes
  have hm : Mirrors Q start w.names p s w.store := hreads.mirrors
  have hscope : InScope Q s.envs.size ⟨template, queryEnv⟩ := ⟨hm.query_lt, fun _ => htemplate⟩
  refine ⟨s, others, rfl, hm.plug_isInstance hscope (hwithin.imp (fun heq => ?_) id) hlt,
    hothers.of_advances (.plug Q start template w.store w.names hlt)⟩
  rw [heq] at hm
  exact hm.isClean.isIdle s

/-! ### The machine that a search starts from -/

/-- Variables of the query and the template. -/
def IsAsked (template query : Term) (v : String) : Prop := v ∈ template.vars ∨ v ∈ query.vars

/-- The store that a search starts from, with the environment of the query. -/
def startStore (config : Config) : Store := (Store.newEnv { occursCheck := config.occursCheck }).2

theorem lookup_startStore (config : Config) (v : String) (e : EnvId) : (startStore config).lookup v e = none := by
  unfold startStore
  rw [Store.lookup_newEnv]
  simp [Store.lookup]

theorem mirrors_start (config : Config) (template query : Term) :
    Mirrors (IsAsked template query) (.after [template, query]) (.after [template, query]) ⟨id, fun _ _ => none⟩
      (startStore config) (startStore config) where
  wellFormed := (Store.wellFormed_empty _).newEnv
  wellFormed' := (Store.wellFormed_empty _).newEnv
  chainsEnd := (Store.ChainsEnd.of_empty _).newEnv (Store.trailed_empty _)
  occursCheck := rfl
  inScope h := by
    rw [lookup_startStore] at h
    cases h
  query_lt := Nat.zero_lt_one
  env_query := rfl
  env_lt he := he
  env_inj _ _ h := h
  named h := by cases h
  name_inj h := by cases h
  lookup_cell _ := by
    rw [lookup_startStore, lookup_startStore]
    rfl
  new n hn hlt h := h.elim (NameSupply.not_mem_vars_after List.mem_cons_self hn hlt)
    (NameSupply.not_mem_vars_after (List.mem_cons_of_mem _ List.mem_cons_self) hn hlt)
  start_le := Nat.le_refl _
  issued_lt := NameSupply.after_lt _
  unused _ _ _ := lookup_startStore ..

/-- A search starts from the branch of the query. -/
theorem shows_start (config : Config) (template : Term) (hquery : query.isPlainGoal = true) :
    (Search.start config template query).machine.Shows (IsAsked template query) (.after [template, query])
      ⟨[⟨[⟨query, queryEnv⟩], startStore config⟩], []⟩ := by
  refine ⟨_, _, _, [], rfl, ⟨mirrors_start config template query, rfl, ?_⟩, rfl, rfl, rfl⟩
  refine List.forall_mem_singleton.2 ⟨hquery, ⟨Nat.zero_lt_one, fun _ v hv => .inr hv⟩⟩

/-! ### Answers given so far -/

/-- The instances of the template in the stores are the answers given so far, and the recursion yields these stores and
then those of the frontier that the machine has come to. -/
structure HasGiven (src : Sources) (template query : Term) (given : List Term) (m : Machine) : Prop where
  visits : ∃ n, m = machineAt src (Search.start src.config template query) n
  gives : ∃ stores x, m.Shows (IsAsked template query) (.after [template, query]) x ∧
    List.Forall₂ (fun s a => s.IsInstance (.after [template, query]) template a) stores given ∧
    ∀ n, ∃ k, ((Yield.all stores).append (x.found src n)).Le
      (src.solve k ⟨query, queryEnv⟩ (startStore src.config))

namespace HasGiven

variable {given : List Term} {m' : Machine}

theorem of_start (hquery : query.isPlainGoal = true) :
    HasGiven src template query [] (Search.start src.config template query).machine := by
  refine ⟨⟨0, rfl⟩, [], _, shows_start src.config template hquery, .nil, fun n => ⟨n, ?_⟩⟩
  have hfound : Frontier.found src n ⟨[⟨[⟨query, queryEnv⟩], startStore src.config⟩], []⟩ =
      src.solve n ⟨query, queryEnv⟩ (startStore src.config) :=
    (Yield.append_all_nil _).trans (Branch.solve_single _ _)
  rw [hfound]
  exact .refl _

theorem step {ask : Answerer} {meter meter' : Meter} (h : HasGiven src template query given m)
    (hrules : ∀ t ∈ src.rules.toList, t.hasPlainBody = true)
    (hwithin : (Search.start src.config template query).StaysWithin src)
    (hstep : (m.step src ask).run meter = .ok (m', meter')) : HasGiven src template query given m' := by
  obtain ⟨⟨n, hn⟩, stores, x, hshows, hgiven, hcovers⟩ := h
  obtain rfl := Machine.step_eq_move hshows.isPlain hstep
  have htries := Machine.triesWithin_of_staysWithin (hn ▸ hwithin n)
  obtain ⟨y, hy, hmove⟩ := hshows.move hrules htries
  refine ⟨?_, stores, y, hmove, hgiven, fun k => ?_⟩
  · by_cases hdone : onward src template m = m.move src
    · exact ⟨n + 1, by rw [← hdone, hn]; rfl⟩
    · -- Where an answer was found, a step changes nothing.
      obtain ⟨control, w⟩ := m
      unfold onward at hdone
      split at hdone
      · rename_i hcontrol
        cases hcontrol
        exact ⟨n, hn⟩
      · exact absurd rfl hdone
  · obtain ⟨i, hi⟩ := hy k
    obtain ⟨j, hj⟩ := hcovers i
    exact ⟨j, ((Yield.Le.refl _).append hi).trans hj⟩

theorem resume (h : HasGiven src template query given ⟨.proved .done otherwise, w⟩)
    (hwithin : (Search.start src.config template query).StaysWithin src) :
    HasGiven src template query (given ++ [answer template w]) (resume template otherwise w) := by
  obtain ⟨⟨n, hn⟩, stores, x, hshows, hgiven, hcovers⟩ := h
  have hplugs := Machine.plugsWithin_of_staysWithin (hn ▸ hwithin n) rfl
  have hnext : Search.resume template otherwise w = machineAt src (Search.start src.config template query) (n + 1) := by
    rw [machineAt, ← hn]
    rfl
  have hlt := Machine.issued_lt_of_staysWithin (hwithin (n + 1))
  rw [← hnext] at hlt
  obtain ⟨s, others, rfl, hinstance, hresume⟩ := shows_resume hshows (fun _ hv => .inl hv) hplugs hlt
  refine ⟨⟨n + 1, hnext⟩, stores ++ [s], _, hresume, List.rel_append hgiven (.cons hinstance .nil), fun k => ?_⟩
  obtain ⟨j, hj⟩ := hcovers k
  refine ⟨j, ?_⟩
  have hsplit : (Yield.all (stores ++ [s])).append (Frontier.found src k ⟨others, []⟩) =
      (Yield.all stores).append (Frontier.found src k ⟨⟨[], s⟩ :: others, []⟩) :=
    Yield.append_assoc (.all stores) (.all [s]) _
  rw [hsplit]
  exact hj

/-- Where everything was tried, the recursion yields nothing else. -/
theorem ended (h : HasGiven src template query given ⟨.failed .none, w⟩) :
    ∃ n stores, src.solve n ⟨query, queryEnv⟩ (startStore src.config) = .all stores ∧
      List.Forall₂ (fun s a => s.IsInstance (.after [template, query]) template a) stores given := by
  obtain ⟨-, stores, x, ⟨hbs, hscopes⟩, hgiven, hcovers⟩ := h
  obtain ⟨bs, scopes⟩ := x
  obtain rfl : bs = _ := hbs
  obtain rfl : scopes = _ := hscopes
  obtain ⟨k, hk⟩ := hcovers 0
  have hnone : (Yield.all stores).append (Frontier.found src 0 ⟨[], []⟩) = .all stores := Yield.append_all_nil _
  rw [hnone] at hk
  exact ⟨k, stores, hk.eq_of_isAll rfl, hgiven⟩

end HasGiven

end Search

/-! ### Runs -/

/-- What a run has given so far. -/
structure Solutions.Tracks (src : Sources) (template query : Term) (given : List Term) (s : Solutions) : Prop where
  sources : s.sources = src
  running : s.search.status = .running →
    s.search.template = template ∧ Search.HasGiven src template query given s.search.machine
  exhausted : s.search.status = .exhausted →
    ∃ n stores, src.solve n ⟨query, Search.queryEnv⟩ (Search.startStore src.config) = .all stores ∧
      List.Forall₂ (fun s a => s.IsInstance (.after [template, query]) template a) stores given

namespace Solutions

variable {given : List Term} {s s' : Solutions} {a : Option Term}
  (hrules : ∀ t ∈ src.rules.toList, t.hasPlainBody = true)
  (hwithin : (Search.start src.config template query).StaysWithin src)

include hrules hwithin

theorem Tracks.next (h : s.Tracks src template query given) (hnext : s.next = .ok (a, s')) :
    s'.Tracks src template query (given ++ a.toList) := by
  obtain ⟨hrun, hsources⟩ := next_eq_ok hnext
  by_cases hrunning : s.search.status = .running
  · obtain ⟨htemplate, hgiven⟩ := h.running hrunning
    rw [h.sources] at hrun
    rcases Search.next_keeps (P := fun m _ => Search.HasGiven src template query given m)
      (fun m _ m' _ hm _ hstep => hm.step hrules hwithin hstep) hgiven hrunning hrun with
      ⟨otherwise, w, hm, rfl, hsearch⟩ | ⟨rfl, hend⟩
    · refine ⟨hsources.trans h.sources, fun _ => ?_, fun hstatus => ?_⟩
      · rw [hsearch, htemplate]
        exact ⟨rfl, hm.resume hwithin⟩
      · rw [hsearch] at hstatus
        exact absurd (hrunning.symm.trans hstatus) (by simp)
    · refine ⟨hsources.trans h.sources, fun hr => absurd hr (Search.status_of_next_none hrun), fun he => ?_⟩
      obtain ⟨w, hm⟩ := hend he
      rw [Option.toList_none, List.append_nil]
      exact hm.ended
  · obtain ⟨rfl, hsearch⟩ := next_of_ended hrunning hnext
    rw [Option.toList_none, List.append_nil]
    exact ⟨hsources.trans h.sources, hsearch ▸ h.running, hsearch ▸ h.exhausted⟩

theorem Tracks.answers {n : Nat} {found : List (Option Term)} (h : s.Tracks src template query given)
    (hanswers : s.answers n = .ok (found, s')) : s'.Tracks src template query (given ++ found.flatMap Option.toList) := by
  induction n generalizing s given found with
  | zero =>
    cases hanswers
    rwa [List.flatMap_nil, List.append_nil]
  | succ n ih =>
    obtain ⟨a, s₁, rest, hnext, hrest, rfl⟩ := answers_succ_eq_ok hanswers
    rw [List.flatMap_cons, ← List.append_assoc]
    exact ih (h.next hrules hwithin hnext) hrest

end Solutions

/-- The answers of a query are those that the recursion over goals gives, in the same order, for all programs and queries
made of relations, symbols, `same`, `distinct`, `not`, `and` and `or`, when everything was tried before the limit. -/
theorem answers_solve (src : Sources) {template query : Term} (hquery : query.isPlainGoal = true)
    (hrules : ∀ t ∈ src.rules.toList, t.hasPlainBody = true) (n : Nat) {found : List (Option Term)} {s s' : Solutions}
    (h : (src.solutions template query).answers n = .ok (found, s)) (hnext : s.next = .ok (none, s'))
    (hlimit : s'.limitReached = false) (hwithin : (Search.start src.config template query).StaysWithin src) :
    ∃ depth stores, src.solve depth ⟨query, Search.queryEnv⟩ (Search.startStore src.config) = .all stores ∧
      List.Forall₂ (fun s a => s.IsInstance (.after [template, query]) template a) stores
        (found.flatMap Option.toList) := by
  have hstart : (src.solutions template query).Tracks src template query [] :=
    ⟨rfl, fun _ => ⟨rfl, .of_start hquery⟩, fun hstatus => by cases hstatus⟩
  have hend := (hstart.answers hrules hwithin h).next hrules hwithin hnext
  rw [List.nil_append, Option.toList_none, List.append_nil] at hend
  exact hend.exhausted (Solutions.exhausted_of_next_none hnext hlimit)

/-! ### An example -/

/-- Each item comes in a box together with something that is not known. -/
def boxes : Sources where
  facts := .ofList .full [.compound "item" [.sym "ball"], .compound "item" [.sym "cup"]]
  rules := .ofList .rule [.rule (.compound "boxed" [.var "X", .compound "box" [.var "X", .var "Y"]])
    [.compound "item" [.var "X"]]]

/-- The boxes, and that of the ball once more. -/
def askForBoxes : Term :=
  .compound "and" [.compound "boxed" [.var "X", .var "W"],
    .compound "or" [.compound "not" [.sym "false"], .compound "same" [.var "X", .sym "ball"]]]

/-- What the box of the ball is shared with keeps the name that it was given in the first answer when the box is found
again. The recursion has one store for each of the three answers. -/
theorem answers_solve_boxes :
    let answers := [.compound "box" [.sym "ball", .var "V1"], .compound "box" [.sym "ball", .var "V1"],
      .compound "box" [.sym "cup", .var "V2"]]
    ∃ s s', (boxes.solutions (.var "W") askForBoxes).answers 3 = .ok (answers.map some, s) ∧
      s.next = .ok (none, s') ∧ s'.limitReached = false ∧
      ∃ depth stores, boxes.solve depth ⟨askForBoxes, Search.queryEnv⟩ (Search.startStore {}) = .all stores ∧
        List.Forall₂ (fun s a => s.IsInstance (.after [.var "W", askForBoxes]) (.var "W") a) stores answers := by
  intro answers
  have hquery : askForBoxes.isPlainGoal = true := by decide +kernel
  have hrules : ∀ t ∈ boxes.rules.toList, t.hasPlainBody = true := by decide +kernel
  have hend : Search.hasEnded (Search.machineAt boxes (Search.start {} (.var "W") askForBoxes) 41) = true := by
    decide +kernel
  have hwithin : (Search.start {} (.var "W") askForBoxes).StaysWithin boxes :=
    Search.staysWithin_of_hasEnded hend (by decide +kernel)
  obtain ⟨s, s', hs, hnext, hlimit⟩ := Solutions.exists_of_answers_next (x := boxes.solutions (.var "W") askForBoxes)
    (n := 3) (a := answers.map some) (b := false) (by decide +kernel)
  exact ⟨s, s', hs, hnext, hlimit, answers_solve boxes hquery hrules 3 hs hnext hlimit hwithin⟩

end Deduction
