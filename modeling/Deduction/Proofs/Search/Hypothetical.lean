import Deduction.Proofs.Search.Avoiding
import Deduction.Proofs.Search.Lockstep
import Deduction.Proofs.Search.Straight
import Deduction.Proofs.Theory.Narrowing

/-!
# Hypothetical queries

A query under an overlay has the answers that it has on a theory of facts that was changed accordingly: the facts that
are taken to be added, and then those of the stored facts that are not taken to be removed (`answers_overlay`). The
candidates of the two queries are not the same, since each lookup goes by a key of its own. But a ground term that only
one of them offers does not fit the goal, and so it leaves no trace in any search that the query leads to.

The one lookup may follow a variable that the other one passes over. So where variables lead round, one query may be
answered while the other one goes on and on, and nothing is said about such queries.
-/

namespace Deduction

/-! ### Candidates under an overlay -/

/-- A ground term that a lookup leaves out cannot be made equal to the goal. -/
theorem Theory.unfit_of_not_admits (th : Theory) {s : Store} {goal t : Term} {env candidateEnv : EnvId}
    (ht : t.isGround = true) (h : th.admits (th.queryKeyIn s goal env) t = false) :
    s.Unfit goal env candidateEnv t := by
  intro s' hs'
  generalize hr : s'.unify goal env t candidateEnv = r
  obtain ⟨ok, s''⟩ := r
  cases ok with
  | false => rfl
  | true =>
    rw [th.admits_of_fits (Store.unify_fits hs' ht hr)] at h
    cases h

theorem Theory.unfit_of_ne (th th' : Theory) {s : Store} {goal t : Term} {env candidateEnv : EnvId}
    (ht : t.isGround = true)
    (h : th.admits (th.queryKeyIn s goal env) t ≠ th'.admits (th'.queryKeyIn s goal env) t) :
    s.Unfit goal env candidateEnv t := by
  cases hf : th.admits (th.queryKeyIn s goal env) t with
  | false => exact th.unfit_of_not_admits ht hf
  | true =>
    rw [hf] at h
    exact th'.unfit_of_not_admits ht (by simpa using h.symm)

variable {facts adds dels changed : Theory}

/-- An overlay offers the same candidates as the facts that were changed accordingly. -/
theorem sameExcept_overlay (hfacts : facts.Indexed) (hadds : adds.Indexed) (hdels : dels.Indexed)
    (hchanged : changed.Indexed) (gfacts : ∀ t ∈ facts.toList, t.isGround = true)
    (gadds : ∀ t ∈ adds.toList, t.isGround = true)
    (h : changed.toList = adds.toList ++ facts.toList.filter fun t => !dels.toList.contains t) (s : Store) (goal : Term)
    (env candidateEnv : EnvId) :
    SameExcept (s.Unfit goal env candidateEnv)
      (adds.lookupIn s goal env ++ (facts.lookupIn s goal env).filter fun t => !dels.contains t)
      (changed.lookupIn s goal env) := by
  have hcontains : (fun t => !dels.contains t) = fun t => !dels.toList.contains t := by
    funext t
    congr 1
    rw [Bool.eq_iff_iff, Theory.contains_iff hdels, List.contains_iff_mem]
  rw [Theory.lookupIn_eq hadds, Theory.lookupIn_eq hfacts, Theory.lookupIn_eq hchanged, h, hcontains,
    List.filter_append, List.filter_filter, List.filter_filter]
  apply SameExcept.append
  · exact .filter fun t ht hne => adds.unfit_of_ne changed (gadds t ht) hne
  · refine .filter fun t ht hne => facts.unfit_of_ne changed (gfacts t ht) fun heq => hne ?_
    rw [heq, Bool.and_comm]

/-- The sources with an overlay, and those with the facts changed, are alike. -/
theorem alike_overlay (src : Sources) (hfacts : facts.Indexed) (hadds : adds.Indexed) (hdels : dels.Indexed)
    (hchanged : changed.Indexed) (gfacts : ∀ t ∈ facts.toList, t.isGround = true)
    (gadds : ∀ t ∈ adds.toList, t.isGround = true)
    (h : changed.toList = adds.toList ++ facts.toList.filter fun t => !dels.toList.contains t) :
    Sources.Alike (.avoiding []) { src with facts, overlay := some ⟨adds, dels⟩ }
      { src with facts := changed, overlay := none } where
  config := rfl
  definitions := .refl _ _
  datasets := rfl
  goals _ _ := .inl rfl
  rules _ _ _ _ _ := .refl _ _
  facts := sameExcept_overlay hfacts hadds hdels hchanged gfacts gadds h

/-! ### Answers one at a time -/

/-- A run that does not end at the limit ends before it. -/
theorem Search.spent_lt_of_run {src : Sources} {ask : Answerer} {n : Nat} {m : Machine} {outcome : Outcome}
    {meter meter' : Meter} (h : (run src ask n m).run meter = .ok (outcome, meter'))
    (hlimit : ∀ w, outcome ≠ .limitReached w) : meter'.spent < src.config.limit := by
  induction n generalizing m meter with
  | zero => cases h
  | succ n ih =>
    unfold run at h
    obtain ⟨spent, meter₁, hspent, h⟩ := Metered.run_bind_eq_ok.1 h
    cases hspent
    split at h
    · obtain ⟨rfl, -⟩ := Metered.run_pure_eq_ok.1 h
      exact absurd rfl (hlimit _)
    · rename_i hle
      have hlt : meter.spent < src.config.limit := by
        rw [decide_eq_true_iff] at hle
        omega
      split at h
      · obtain ⟨-, rfl⟩ := Metered.run_pure_eq_ok.1 h
        exact hlt
      · obtain ⟨-, rfl⟩ := Metered.run_pure_eq_ok.1 h
        exact hlt
      · obtain ⟨m', meter₂, -, h⟩ := Metered.run_bind_eq_ok.1 h
        exact ih h

theorem Search.spent_lt_of_next {src : Sources} {ask : Answerer} {x x' : Search} {answer : Option Term}
    {meter meter' : Meter} (h : (x.next src ask).run meter = .ok ((answer, x'), meter')) (hx : x.status = .running)
    (hlimit : x'.status ≠ .limitReached) : meter'.spent < src.config.limit := by
  unfold next at h
  rw [if_neg (by simp [hx])] at h
  obtain ⟨outcome, meter₁, hrun, h⟩ := Metered.run_bind_eq_ok.1 h
  cases outcome with
  | answer otherwise w =>
    obtain ⟨-, rfl⟩ := Metered.run_pure_eq_ok.1 h
    exact spent_lt_of_run hrun fun w => by simp
  | exhausted w =>
    obtain ⟨-, rfl⟩ := Metered.run_pure_eq_ok.1 h
    exact spent_lt_of_run hrun fun w => by simp
  | limitReached w =>
    obtain ⟨hpair, -⟩ := Metered.run_pure_eq_ok.1 h
    rw [← (Prod.mk.inj hpair).2] at hlimit
    exact absurd rfl hlimit

/-- A search that has no further answer has ended. -/
theorem Search.status_of_next_none {src : Sources} {ask : Answerer} {x x' : Search} {meter meter' : Meter}
    (h : (x.next src ask).run meter = .ok ((none, x'), meter')) : x'.status ≠ .running := by
  unfold next at h
  split at h
  · rename_i hended
    obtain ⟨hpair, -⟩ := Metered.run_pure_eq_ok.1 h
    rwa [← (Prod.mk.inj hpair).2]
  · obtain ⟨outcome, meter₁, -, h⟩ := Metered.run_bind_eq_ok.1 h
    cases outcome with
    | answer otherwise w =>
      obtain ⟨hpair, -⟩ := Metered.run_pure_eq_ok.1 h
      cases (Prod.mk.inj hpair).1
    | exhausted w =>
      obtain ⟨hpair, -⟩ := Metered.run_pure_eq_ok.1 h
      rw [← (Prod.mk.inj hpair).2]
      simp
    | limitReached w =>
      obtain ⟨hpair, -⟩ := Metered.run_pure_eq_ok.1 h
      rw [← (Prod.mk.inj hpair).2]
      simp

/-- A search that has an answer goes on. -/
theorem Search.status_of_next_some {src : Sources} {ask : Answerer} {x x' : Search} {t : Term} {meter meter' : Meter}
    (h : (x.next src ask).run meter = .ok ((some t, x'), meter')) : x'.status = .running := by
  unfold next at h
  split at h
  · obtain ⟨hpair, -⟩ := Metered.run_pure_eq_ok.1 h
    cases (Prod.mk.inj hpair).1
  · rename_i hrunning
    obtain ⟨outcome, meter₁, -, h⟩ := Metered.run_bind_eq_ok.1 h
    cases outcome with
    | answer otherwise w =>
      obtain ⟨hpair, -⟩ := Metered.run_pure_eq_ok.1 h
      rw [← (Prod.mk.inj hpair).2]
      exact not_not.1 hrunning
    | exhausted w =>
      obtain ⟨hpair, -⟩ := Metered.run_pure_eq_ok.1 h
      cases (Prod.mk.inj hpair).1
    | limitReached w =>
      obtain ⟨hpair, -⟩ := Metered.run_pure_eq_ok.1 h
      cases (Prod.mk.inj hpair).1

namespace Solutions

/-- What is answered the next so many times. -/
def answers : Nat → Solutions → Except Interruption (List (Option Term) × Solutions)
  | 0, s => .ok ([], s)
  | n + 1, s => do
    let (answer, s) ← s.next
    let (rest, s) ← answers n s
    return (answer :: rest, s)

theorem next_eq_ok {s s' : Solutions} {answer : Option Term} (h : s.next = .ok (answer, s')) :
    (s.search.next s.sources s.sources.consult).run s.meter = .ok ((answer, s'.search), s'.meter) ∧
      s'.sources = s.sources := by
  obtain ⟨r, hr, h⟩ := bind_eq_ok.1 h
  cases h
  exact ⟨hr, rfl⟩

theorem next_of_run {s s' : Solutions} {answer : Option Term}
    (h : (s.search.next s.sources s.sources.consult).run s.meter = .ok ((answer, s'.search), s'.meter))
    (hsources : s'.sources = s.sources) : s.next = .ok (answer, s') := by
  refine bind_eq_ok.2 ⟨_, h, ?_⟩
  rw [← hsources]
  rfl

theorem answers_succ {n : Nat} {s s₁ s' : Solutions} {answer : Option Term} {rest : List (Option Term)}
    (hnext : s.next = .ok (answer, s₁)) (hrest : answers n s₁ = .ok (rest, s')) :
    answers (n + 1) s = .ok (answer :: rest, s') :=
  bind_eq_ok.2 ⟨_, hnext, bind_eq_ok.2 ⟨_, hrest, rfl⟩⟩

theorem answers_succ_eq_ok {n : Nat} {s s' : Solutions} {found : List (Option Term)}
    (h : answers (n + 1) s = .ok (found, s')) :
    ∃ answer s₁ rest, s.next = .ok (answer, s₁) ∧ answers n s₁ = .ok (rest, s') ∧ found = answer :: rest := by
  obtain ⟨⟨answer, s₁⟩, hnext, h⟩ := bind_eq_ok.1 h
  obtain ⟨⟨rest, s₂⟩, hrest, h⟩ := bind_eq_ok.1 h
  cases h
  exact ⟨answer, s₁, rest, hnext, hrest, rfl⟩

/-- What is answered without variables leading round is answered by any search. -/
theorem answers_of_answersStraight {n : Nat} {s s' : Solutions} {found : List (Option Term)}
    (h : s.answersStraight stepBound n = .ok (found, s')) : answers n s = .ok (found, s') := by
  induction n generalizing s found with
  | zero => exact h
  | succ n ih =>
    obtain ⟨⟨answer, s₁⟩, hnext, h⟩ := bind_eq_ok.1 h
    obtain ⟨⟨rest, s₂⟩, hrest, h⟩ := bind_eq_ok.1 h
    cases h
    have hsame : s.nextStraight stepBound = s.next := by
      rw [← nextWithin_stepBound]
      refine (s.nextStraight_cases stepBound).resolve_left fun hendless => ?_
      rw [hendless] at hnext
      cases hnext
    exact answers_succ (hsame ▸ hnext) (ih hrest)

/-- What a run gives, read off from its answers and from whether it reached the limit. -/
theorem exists_of_answers {x : Except Interruption (List (Option Term) × Solutions)} {a : List (Option Term)} {b : Bool}
    (h : x.toOption.map (fun r => (r.1, r.2.limitReached)) = some (a, b)) :
    ∃ s, x = .ok (a, s) ∧ s.limitReached = b := by
  cases x with
  | error e => cases h
  | ok r =>
    obtain ⟨rfl, rfl⟩ := Prod.mk.inj (Option.some.inj h)
    exact ⟨r.2, rfl, rfl⟩

/-- What a run gives up to where there is no further answer. -/
theorem exists_of_answers_next {x : Solutions} {n : Nat} {a : List (Option Term)} {b : Bool}
    (h : ((x.answers n).toOption.bind fun r => r.2.next.toOption.map fun r' => (r.1, r'.1, r'.2.limitReached)) =
      some (a, none, b)) : ∃ s s', x.answers n = .ok (a, s) ∧ s.next = .ok (none, s') ∧ s'.limitReached = b := by
  obtain ⟨⟨found, s⟩, hs, h⟩ := Option.bind_eq_some_iff.1 h
  obtain ⟨⟨last, s'⟩, hs', heq⟩ := Option.map_eq_some_iff.1 h
  obtain ⟨rfl, rfl, rfl⟩ : found = a ∧ last = none ∧ s'.limitReached = b := by simpa using heq
  have hok {α : Type} {y : Except Interruption α} {r : α} (hy : y.toOption = some r) : y = .ok r := by
    cases y with
    | error e => cases hy
    | ok r' => exact congrArg Except.ok (Option.some.inj hy)
  exact ⟨s, s', hok hs, hok hs', rfl⟩

/-- Everything was tried if there is no further answer and the limit was not reached. -/
theorem exhausted_of_next_none {s s' : Solutions} (h : s.next = .ok (none, s')) (hlimit : s'.limitReached = false) :
    s'.search.status = .exhausted := by
  have hstatus := Search.status_of_next_none (next_eq_ok h).1
  cases hcases : s'.search.status with
  | running => exact absurd hcases hstatus
  | exhausted => rfl
  | limitReached => simp [limitReached, hcases] at hlimit

/-- A search that has ended gives no more answers. -/
theorem next_of_ended {s s' : Solutions} {answer : Option Term} (hs : s.search.status ≠ .running)
    (h : s.next = .ok (answer, s')) : answer = none ∧ s'.search = s.search := by
  obtain ⟨hrun, -⟩ := next_eq_ok h
  unfold Search.next at hrun
  rw [if_pos hs] at hrun
  obtain ⟨hpair, -⟩ := Metered.run_pure_eq_ok.1 hrun
  obtain ⟨rfl, hsearch⟩ := Prod.mk.inj hpair
  exact ⟨rfl, hsearch.symm⟩

theorem limitReached_of_answers {n : Nat} {s s' : Solutions} {found : List (Option Term)}
    (h : answers n s = .ok (found, s')) (hs : s.limitReached = true) : s'.limitReached = true := by
  induction n generalizing s found with
  | zero =>
    cases h
    exact hs
  | succ n ih =>
    obtain ⟨answer, s₁, rest, hnext, hrest, -⟩ := answers_succ_eq_ok h
    have hended : s.search.status ≠ .running := by
      have : s.search.status = .limitReached := by simpa [limitReached] using hs
      rw [this]
      simp
    apply ih hrest
    unfold limitReached
    rw [(next_of_ended hended hnext).2]
    exact hs

/-- Queries within a language that differ in candidates and rules that do not fit only. -/
structure Alike (L : Language) (s t : Solutions) : Prop where
  closed : L.Closed s.sources
  true_not_mem : "true" ∉ L.words
  sources_alike : s.sources.Alike L t.sources
  search_alike : s.search.Alike t.search
  within : s.search.Within L

variable {L : Language}

theorem Alike.next {s s' t t' : Solutions} {a b : Option Term} (h : s.Alike L t) (hs : s.next = .ok (a, s'))
    (ht : t.next = .ok (b, t')) (hs' : s'.limitReached = false) (ht' : t'.limitReached = false) :
    a = b ∧ s'.Alike L t' := by
  obtain ⟨hrun, hsources⟩ := next_eq_ok hs
  obtain ⟨hrun', hsources'⟩ := next_eq_ok ht
  by_cases hstatus : s.search.status = .running
  · have hstatus' : t.search.status = .running := h.search_alike.status_eq ▸ hstatus
    have hlt := Search.spent_lt_of_next hrun hstatus (by simpa [limitReached] using hs')
    have hlt' := Search.spent_lt_of_next hrun' hstatus' (by simpa [limitReached] using ht')
    rw [← h.sources_alike.config] at hlt'
    have hask := alike_consultAt h.closed h.true_not_mem h.sources_alike stepBound
    obtain ⟨⟨hanswer, hsearch⟩, hwithin⟩ :=
      Search.agree_next h.closed h.sources_alike hask h.search_alike h.within hrun hrun' hlt hlt'
    refine ⟨hanswer, by rw [hsources]; exact h.closed, h.true_not_mem, ?_, hsearch, hwithin⟩
    rw [hsources, hsources']
    exact h.sources_alike
  · have hstatus' : t.search.status ≠ .running := h.search_alike.status_eq ▸ hstatus
    obtain ⟨rfl, hsearch⟩ := next_of_ended hstatus hs
    obtain ⟨rfl, hsearch'⟩ := next_of_ended hstatus' ht
    refine ⟨rfl, by rw [hsources]; exact h.closed, h.true_not_mem, by rw [hsources, hsources']; exact h.sources_alike, ?_, ?_⟩
    · rw [hsearch, hsearch']
      exact h.search_alike
    · rw [hsearch]
      exact h.within

theorem Alike.answers {n : Nat} {s s' t t' : Solutions} {a b : List (Option Term)} (h : s.Alike L t)
    (hs : answers n s = .ok (a, s')) (ht : answers n t = .ok (b, t')) (hs' : s'.limitReached = false)
    (ht' : t'.limitReached = false) : a = b ∧ s'.Alike L t' := by
  induction n generalizing s t a b with
  | zero =>
    cases hs
    cases ht
    exact ⟨rfl, h⟩
  | succ n ih =>
    obtain ⟨answer, s₁, rest, hnext, hrest, rfl⟩ := answers_succ_eq_ok hs
    obtain ⟨answer', t₁, rest', hnext', hrest', rfl⟩ := answers_succ_eq_ok ht
    have hs₁ : s₁.limitReached = false := by
      rw [Bool.eq_false_iff]
      intro hlimit
      rw [limitReached_of_answers hrest hlimit] at hs'
      cases hs'
    have ht₁ : t₁.limitReached = false := by
      rw [Bool.eq_false_iff]
      intro hlimit
      rw [limitReached_of_answers hrest' hlimit] at ht'
      cases ht'
    obtain ⟨rfl, hafter⟩ := h.next hnext hnext' hs₁ ht₁
    obtain ⟨rfl, hend⟩ := ih hafter hrest hrest'
    exact ⟨rfl, hend⟩

end Solutions

/-! ### Hypothetical queries -/

/-- A query under an overlay gives the answers, one by one, that it gives on the facts changed accordingly, as long as
neither reaches the limit and neither comes to a store in which variables lead round. -/
theorem answers_overlay (src : Sources) (hfacts : facts.Reachable) (hadds : adds.Reachable) (hdels : dels.Reachable)
    (hchanged : changed.Reachable) (gfacts : ∀ t ∈ facts.toList, t.isGround = true)
    (gadds : ∀ t ∈ adds.toList, t.isGround = true)
    (h : changed.toList = adds.toList ++ facts.toList.filter fun t => !dels.toList.contains t) (template query : Term)
    (n : Nat) {a b : List (Option Term)} {s t : Solutions}
    (hs : (Sources.solutions { src with facts, overlay := some ⟨adds, dels⟩ } template query).answersStraight stepBound n =
      .ok (a, s))
    (ht : (Sources.solutions { src with facts := changed, overlay := none } template query).answersStraight stepBound n =
      .ok (b, t))
    (hs' : s.limitReached = false) (ht' : t.limitReached = false) :
    a = b ∧ s.search.status = t.search.status := by
  have hsources := alike_overlay src hfacts.indexed hadds.indexed hdels.indexed hchanged.indexed gfacts gadds h
  have halike : (Sources.solutions { src with facts, overlay := some ⟨adds, dels⟩ } template query).Alike (.avoiding [])
      (Sources.solutions { src with facts := changed, overlay := none } template query) :=
    ⟨Language.closed_avoiding_nil _, List.not_mem_nil, hsources, Search.alike_start _ _ _,
      Search.within_start (Term.avoids_nil_words _) (Term.avoids_nil_words _)⟩
  obtain ⟨hanswers, hend⟩ := halike.answers (Solutions.answers_of_answersStraight hs)
    (Solutions.answers_of_answersStraight ht) hs' ht'
  exact ⟨hanswers, hend.search_alike.status_eq⟩

/-- The fact that the object is at the place. -/
def located (object place : String) : Term := .compound "at" [.sym object, .sym place]

/-- The box and the ball are in the hall. -/
def hall : Theory := .ofList .full [located "box" "hall", located "ball" "hall"]

/-- Under the overlay that moves the ball from the hall to the yard, it is found in the yard only. -/
theorem answers_overlay_move :
    ∃ s t, (Sources.solutions
          { facts := hall, overlay := some ⟨.ofList .shallow [located "ball" "yard"], .ofList .none [located "ball" "hall"]⟩ }
          (.var "X") (.compound "at" [.sym "ball", .var "X"])).answersStraight stepBound 2 =
        .ok ([some (.sym "yard"), none], s) ∧
      (Sources.solutions { facts := .ofList .rule [located "ball" "yard", located "box" "hall"] }
          (.var "X") (.compound "at" [.sym "ball", .var "X"])).answersStraight stepBound 2 =
        .ok ([some (.sym "yard"), none], t) ∧
      s.search.status = t.search.status := by
  have gfacts : ∀ t ∈ hall.toList, t.isGround = true := by decide
  have gadds : ∀ t ∈ (Theory.ofList .shallow [located "ball" "yard"]).toList, t.isGround = true := by decide
  have hplain : ∃ t, (Sources.solutions { facts := .ofList .rule [located "ball" "yard", located "box" "hall"] }
      (.var "X") (.compound "at" [.sym "ball", .var "X"])).answersStraight stepBound 2 =
        .ok ([some (.sym "yard"), none], t) ∧ t.limitReached = false := ⟨_, rfl, rfl⟩
  have hoverlay : ∃ s, (Sources.solutions
      { facts := hall, overlay := some ⟨.ofList .shallow [located "ball" "yard"], .ofList .none [located "ball" "hall"]⟩ }
      (.var "X") (.compound "at" [.sym "ball", .var "X"])).answersStraight stepBound 2 =
        .ok ([some (.sym "yard"), none], s) ∧ s.limitReached = false := ⟨_, rfl, rfl⟩
  obtain ⟨s, hs, hs'⟩ := hoverlay
  obtain ⟨t, ht, ht'⟩ := hplain
  have hend := answers_overlay {} (.ofList _ _) (.ofList _ _) (.ofList _ _) (.ofList _ _) gfacts gadds rfl _ _ 2 hs ht hs' ht'
  exact ⟨s, t, hs, ht, hend.2⟩

end Deduction
