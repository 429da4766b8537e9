import Deduction.Session
import Deduction.Proofs.Dedup
import Deduction.Proofs.Search.Hypothetical

/-!
# Different answers

A question with or without a bound on the answers goes through the same answers of the same search. Without a bound it
ends where the search does, and has the first occurrences of all the answers (`Search.answers_of_pullDistinct`). With a
bound it stops as soon as there are enough of them, but not before there is any (`Search.exists_pullDistinct_some`). So
what is told under a bound is the beginning of what is told without one (`Sources.ask_take`).
-/

namespace Deduction

/-! ### The beginning of a list without repeats -/

namespace Dedup

variable {kept terms : List Term} {t : Term}

theorem prefix_adjoin (kept : List Term) (t : Term) : kept <+: adjoin kept t := by
  unfold adjoin
  split
  · exact List.prefix_refl kept
  · exact List.prefix_append kept [t]

theorem prefix_foldl_adjoin (kept terms : List Term) : kept <+: terms.foldl adjoin kept := by
  induction terms generalizing kept with
  | nil => exact List.prefix_refl kept
  | cons t terms ih => exact (prefix_adjoin kept t).trans (ih (adjoin kept t))

theorem length_adjoin_le (kept : List Term) (t : Term) : (adjoin kept t).length ≤ kept.length + 1 := by
  unfold adjoin
  split
  · exact Nat.le_succ _
  · simp

theorem length_adjoin_pos (kept : List Term) (t : Term) : 0 < (adjoin kept t).length := by
  unfold adjoin
  split
  · rename_i hmem
    exact List.length_pos_of_mem (List.contains_iff_mem.1 hmem)
  · simp

/-- A term in front of those found so far, the last one first, unless it is one of them. -/
def meet (found : List Term) (t : Term) : List Term := if found.contains t then found else t :: found

theorem reverse_meet (found : List Term) (t : Term) : (meet found t).reverse = adjoin found.reverse t := by
  unfold adjoin meet
  rw [List.contains_reverse]
  split
  · rfl
  · rw [List.reverse_cons]

end Dedup

/-! ### Searches that are gone on with -/

namespace Search

open Dedup (meet)

variable {src : Sources} {s s₁ s' : Search} {n enough : Nat} {wanted : Option Nat} {t : Term} {found found' : List Term}
  {m m₁ m' : Meter}

theorem run_pullDistinct_of_none (h : (s.next src src.consult).run m = .ok ((none, s₁), m₁)) :
    (s.pullDistinct src wanted (n + 1) found).run m = .ok ((found, s₁), m₁) :=
  Metered.run_bind_eq_ok.2 ⟨_, _, h, rfl⟩

/-- After an answer the search is at an end if there are enough different ones, or else is gone on with. -/
theorem run_pullDistinct_of_some (h : (s.next src src.consult).run m = .ok ((some t, s₁), m₁)) :
    (s.pullDistinct src wanted (n + 1) found).run m =
      if wanted.any (· ≤ (meet found t).length) then .ok ((meet found t, s₁), m₁)
      else (s₁.pullDistinct src wanted n (meet found t)).run m₁ := by
  rw [pullDistinct, StateT.run_bind, h]
  change (if wanted.any (· ≤ (meet found t).length) then pure (meet found t, s₁)
    else s₁.pullDistinct src wanted n (meet found t)).run m₁ = _
  split <;> rfl

/-- Without a bound all answers are gone through, and the first occurrences are collected. -/
theorem answers_of_pullDistinct (h : (s.pullDistinct src none n found).run m = .ok ((found', s'), m')) :
    ∃ ts : List Term, (Solutions.mk src s m).answers (ts.length + 1) = .ok (ts.map some ++ [none], ⟨src, s', m'⟩) ∧
      found'.reverse = ts.foldl Dedup.adjoin found.reverse := by
  induction n generalizing s found m with
  | zero => cases h
  | succ n ih =>
    obtain ⟨⟨answer, s₁⟩, m₁, hrun, -⟩ := Metered.run_bind_eq_ok.1 h
    have hnext : (Solutions.mk src s m).next = .ok (answer, ⟨src, s₁, m₁⟩) := Solutions.next_of_run hrun rfl
    cases answer with
    | none =>
      rw [run_pullDistinct_of_none hrun] at h
      cases h
      exact ⟨[], Solutions.answers_succ hnext rfl, rfl⟩
    | some t =>
      rw [run_pullDistinct_of_some hrun, Option.any_none, if_neg Bool.false_ne_true] at h
      obtain ⟨ts, hts, hfound⟩ := ih h
      refine ⟨t :: ts, Solutions.answers_succ hnext hts, ?_⟩
      rw [List.foldl_cons, ← Dedup.reverse_meet, hfound]

/-- With a bound the same answers are gone through, until there are enough different ones. -/
theorem exists_pullDistinct_some (hfound : found.length < max enough 1)
    (h : (s.pullDistinct src none n found).run m = .ok ((found', s'), m')) :
    ∃ kept s₂ m₂, (s.pullDistinct src (some enough) n found).run m = .ok ((kept, s₂), m₂) ∧
      kept.reverse = found'.reverse.take (max enough 1) ∧
      decide (s₂.status = .limitReached) =
        (decide (s'.status = .limitReached) && decide (found'.length < max enough 1)) := by
  induction n generalizing s found m with
  | zero => cases h
  | succ n ih =>
    obtain ⟨⟨answer, s₁⟩, m₁, hrun, -⟩ := Metered.run_bind_eq_ok.1 h
    cases answer with
    | none =>
      rw [run_pullDistinct_of_none hrun] at h ⊢
      cases h
      refine ⟨_, _, _, rfl, ?_, by simp [hfound]⟩
      rw [List.take_of_length_le (by rw [List.length_reverse]; omega)]
    | some t =>
      rw [run_pullDistinct_of_some hrun] at h ⊢
      rw [Option.any_none, if_neg Bool.false_ne_true] at h
      have hmore : (meet found t).length ≤ found.length + 1 ∧ 0 < (meet found t).length := by
        have hreverse := congrArg List.length (Dedup.reverse_meet found t)
        have hle := Dedup.length_adjoin_le found.reverse t
        have hpos := Dedup.length_adjoin_pos found.reverse t
        rw [List.length_reverse] at hreverse hle
        omega
      by_cases henough : enough ≤ (meet found t).length
      · -- These are enough; without a bound the search goes on, and what it finds comes behind them.
        obtain ⟨ts, -, hfound'⟩ := answers_of_pullDistinct h
        have hfront := Dedup.prefix_foldl_adjoin (meet found t).reverse ts
        rw [← hfound'] at hfront
        have hlength : (meet found t).length = max enough 1 := by omega
        have hle := hfront.length_le
        rw [List.length_reverse, List.length_reverse] at hle
        rw [if_pos (by simpa using henough)]
        refine ⟨_, _, _, rfl, ?_, ?_⟩
        · rw [← hlength, ← List.length_reverse]
          exact List.prefix_iff_eq_take.1 hfront
        · rw [status_of_next_some hrun, decide_eq_false (show ¬found'.length < max enough 1 by omega), Bool.and_false]
          rfl
      · rw [if_neg (by simpa using henough)]
        exact ih (by omega) h

end Search

theorem Metered.result_eq_ok {α : Type} {x : Metered α} {a : α} : x.result = .ok a ↔ ∃ m, x.run {} = .ok (a, m) := by
  unfold result
  cases x.run {} with
  | error e => simp [Except.map]
  | ok r => simp [Except.map, Prod.ext_iff]

namespace Sources

variable {src : Sources} {template goal : Term} {kept : List Term} {limited : Bool}

/-- Without a bound, what is found are the first occurrences of all answers of the search. -/
theorem isFirsts_of_findDistinct (h : (src.findDistinct none template goal).result = .ok (kept, limited)) :
    ∃ ts s, (src.solutions template goal).answers (ts.length + 1) = .ok (ts.map some ++ [none], s) ∧
      s.limitReached = limited ∧ Dedup.IsFirsts ts kept := by
  obtain ⟨m, h⟩ := Metered.result_eq_ok.1 h
  obtain ⟨⟨found, s⟩, m₁, hpull, h⟩ := Metered.run_bind_eq_ok.1 h
  cases h
  obtain ⟨ts, hts, hfound⟩ := Search.answers_of_pullDistinct hpull
  exact ⟨ts, ⟨src, s, m⟩, hts, rfl, Dedup.isFirsts_iff.2 hfound⟩

/-- With a bound it is the beginning of what is found without one, but not the empty one if there is any other. -/
theorem findDistinct_some (h : (src.findDistinct none template goal).result = .ok (kept, limited)) (n : Nat) :
    (src.findDistinct (some n) template goal).result =
      .ok (kept.take (max n 1), limited && decide (kept.length < max n 1)) := by
  obtain ⟨m, h⟩ := Metered.result_eq_ok.1 h
  obtain ⟨⟨found, s⟩, m₁, hpull, h⟩ := Metered.run_bind_eq_ok.1 h
  cases h
  have hempty : ([] : List Term).length < max n 1 := Nat.lt_of_lt_of_le Nat.zero_lt_one (Nat.le_max_right n 1)
  obtain ⟨found', s', m', hrun, htake, hstatus⟩ := Search.exists_pullDistinct_some hempty hpull
  refine Metered.result_eq_ok.2 ⟨m', Metered.run_bind_eq_ok.2 ⟨_, _, hrun, ?_⟩⟩
  rw [List.length_reverse, ← htake, ← hstatus]
  rfl

end Sources

/-! ### Answers that are lists -/

theorem Store.exists_items_of_plugAt (target env : EnvId) (n : Nat) (ts : List Term) (st : Store × NameSupply) :
    ∃ items, (plugAt target n env (.list ts) st).1 = .list items ∧ items.length = ts.length := by
  induction ts generalizing n st with
  | nil => cases n <;> exact ⟨[], rfl, rfl⟩
  | cons t ts ih =>
    cases n with
    | zero => exact ⟨t :: ts, rfl, rfl⟩
    | succ n =>
      obtain ⟨items, hitems, hlength⟩ := ih n (plugAt target n env t st).2
      refine ⟨(plugAt target n env t st).1 :: items, ?_, by rw [List.length_cons, List.length_cons, hlength]⟩
      change Term.cons _ (plugAt target n env (.list ts) (plugAt target n env t st).2).1 = _
      rw [hitems]
      rfl

/-- An answer is the template with what is known of its variables, and the search keeps its template. -/
theorem Search.template_of_next {src : Sources} {ask : Answerer} {x x' : Search} {given : Option Term} {m m' : Meter}
    (h : (x.next src ask).run m = .ok ((given, x'), m')) :
    x'.template = x.template ∧ ∀ t, given = some t → ∃ w, t = answer x.template w := by
  rw [← nextWithin_stepBound] at h
  unfold nextWithin at h
  split at h
  · rw [map_eq_pure_bind] at h
    obtain ⟨outcome, m₁, -, h⟩ := Metered.run_bind_eq_ok.1 h
    obtain ⟨hpair, -⟩ := Metered.run_pure_eq_ok.1 h
    cases outcome with
    | answer otherwise w =>
      cases hpair
      exact ⟨rfl, fun t ht => ⟨w, (Option.some.inj ht).symm⟩⟩
    | exhausted w | limitReached w =>
      cases hpair
      exact ⟨rfl, fun t ht => by cases ht⟩
  · cases h
    exact ⟨rfl, fun t ht => by cases ht⟩

/-- The answers for a list are lists of that length. -/
theorem Solutions.exists_items {s s' : Solutions} {ts : List Term} {n : Nat} {a : List (Option Term)}
    (htemplate : s.search.template = .list ts) (h : s.answers n = .ok (a, s')) :
    ∀ t, some t ∈ a → ∃ items, t = .list items ∧ items.length = ts.length := by
  induction n generalizing s a with
  | zero =>
    cases h
    simp
  | succ n ih =>
    obtain ⟨given, s₁, rest, hnext, hrest, rfl⟩ := answers_succ_eq_ok h
    obtain ⟨hsame, hgiven⟩ := Search.template_of_next (next_eq_ok hnext).1
    intro t ht
    rcases List.mem_cons.1 ht with rfl | ht
    · obtain ⟨w, rfl⟩ := hgiven t rfl
      rw [htemplate]
      exact Store.exists_items_of_plugAt _ _ _ _ _
    · exact ih (hsame.trans htemplate) hrest t ht

/-! ### What is told of the variables -/

/-- What an instance of the list of the variables tells of them. -/
def Answer.ofInstance (vars : List String) (values : Term) : Answer := ⟨vars.zip (values.items?.getD [])⟩

theorem Answer.ofInstance_inj {vars : List String} {items items' : List Term} (h : items.length = vars.length)
    (h' : items'.length = vars.length) (heq : ofInstance vars (.list items) = ofInstance vars (.list items')) :
    items = items' := by
  have hzip : vars.zip items = vars.zip items' := by simpa [ofInstance] using heq
  rw [← List.map_snd_zip (Nat.le_of_eq h), hzip, List.map_snd_zip (Nat.le_of_eq h')]

namespace Sources

variable {src : Sources} {query : Term} {full : Answers}

theorem result_ask_eq_ok {wanted : Option Nat} {answers : Answers} :
    (src.ask query wanted).result = .ok answers ↔
      ∃ kept, (src.findDistinct wanted (.list (query.shownVars.map .var)) query).result =
        .ok (kept, answers.limitReached) ∧ answers.answers = kept.map (.ofInstance query.shownVars) := by
  simp only [Metered.result_eq_ok]
  constructor
  · rintro ⟨m, h⟩
    obtain ⟨⟨kept, limited⟩, m₁, hfind, h⟩ := Metered.run_bind_eq_ok.1 h
    cases h
    exact ⟨kept, ⟨m, hfind⟩, rfl⟩
  · rintro ⟨kept, ⟨m, hfind⟩, hanswers⟩
    obtain ⟨told, limited⟩ := answers
    subst hanswers
    exact ⟨m, Metered.run_bind_eq_ok.2 ⟨_, _, hfind, rfl⟩⟩

/-- Without a bound, the first occurrences of all answers of the search are told. -/
theorem isFirsts_of_ask (h : (src.ask query none).result = .ok full) :
    ∃ found kept s, (src.solutions (.list (query.shownVars.map .var)) query).answers (found.length + 1) =
        .ok (found.map some ++ [none], s) ∧ s.limitReached = full.limitReached ∧
      Dedup.IsFirsts found kept ∧ full.answers = kept.map (.ofInstance query.shownVars) := by
  obtain ⟨kept, hfind, hkept⟩ := result_ask_eq_ok.1 h
  obtain ⟨found, s, hfound, hlimit, hfirsts⟩ := isFirsts_of_findDistinct hfind
  exact ⟨found, kept, s, hfound, hlimit, hfirsts, hkept⟩

theorem nodup_of_ask (h : (src.ask query none).result = .ok full) : full.answers.Nodup := by
  obtain ⟨found, kept, s, hfound, -, hfirsts, hkept⟩ := isFirsts_of_ask h
  have hlist (t : Term) (ht : t ∈ kept) : ∃ items, t = .list items ∧ items.length = query.shownVars.length := by
    have hmem : some t ∈ found.map some ++ [none] :=
      List.mem_append_left _ (List.mem_map_of_mem ((hfirsts.mem_iff t).1 ht))
    simpa using Solutions.exists_items rfl hfound t hmem
  rw [hkept]
  -- Answers tell as much as the lists they are made of, which are as long as there are variables.
  refine (List.nodup_map_iff_inj_on hfirsts.nodup).2 fun t ht u hu heq => ?_
  obtain ⟨items, rfl, hitems⟩ := hlist t ht
  obtain ⟨items', rfl, hitems'⟩ := hlist u hu
  rw [Answer.ofInstance_inj hitems hitems' heq]

theorem ask_some (h : (src.ask query none).result = .ok full) (n : Nat) :
    (src.ask query (some n)).result =
      .ok ⟨full.answers.take (max n 1), full.limitReached && decide (full.answers.length < max n 1)⟩ := by
  obtain ⟨kept, hfind, hkept⟩ := result_ask_eq_ok.1 h
  refine result_ask_eq_ok.2 ⟨kept.take (max n 1), ?_, by rw [hkept, List.map_take]⟩
  rw [findDistinct_some hfind, hkept, List.length_map]

/-- Whatever is asked, the answers without a bound are different from each other, and in the order in which the search
first finds them. With a bound of `n` the answers are the first `n` of these, all of them if there are fewer; but a bound
of 0 is taken for one of 1. The limit is told of only if it kept the question from enough answers. -/
theorem ask_take (h : (src.ask query none).result = .ok full) :
    (∃ found kept s, (src.solutions (.list (query.shownVars.map .var)) query).answers (found.length + 1) =
        .ok (found.map some ++ [none], s) ∧ s.limitReached = full.limitReached ∧
      Dedup.IsFirsts found kept ∧ full.answers = kept.map (.ofInstance query.shownVars)) ∧
    full.answers.Nodup ∧
    ∀ n, (src.ask query (some n)).result =
      .ok ⟨full.answers.take (max n 1), full.limitReached && decide (full.answers.length < max n 1)⟩ :=
  ⟨isFirsts_of_ask h, nodup_of_ask h, ask_some h⟩

end Sources

/-- Three things at two places. -/
def stored : Sources where
  facts := .ofList .full
    [located "box" "hall", located "ball" "hall", located "cup" "yard"]

/-- Where is anything? -/
def whereAnything : Term := .compound "at" [.var "_", .var "Place"]

/-- The hall is found twice and told once. A bound of 2 gets both places, a bound of 0 the first one. -/
theorem ask_take_places :
    ∃ full, (stored.ask whereAnything none).result = .ok full ∧
      full.answers = [⟨[("Place", .sym "hall")]⟩, ⟨[("Place", .sym "yard")]⟩] ∧ full.limitReached = false ∧
      full.answers.Nodup ∧
      (stored.ask whereAnything (some 2)).result = .ok ⟨full.answers, false⟩ ∧
      (stored.ask whereAnything (some 0)).result = .ok ⟨[⟨[("Place", .sym "hall")]⟩], false⟩ := by
  have hvars : whereAnything.shownVars = ["Place"] := by decide +kernel
  have hfind : (stored.findDistinct none (.list [.var "Place"]) whereAnything).result =
      .ok ([.list [.sym "hall"], .list [.sym "yard"]], false) := by decide +kernel
  have hfull : (stored.ask whereAnything none).result =
      .ok ⟨[⟨[("Place", .sym "hall")]⟩, ⟨[("Place", .sym "yard")]⟩], false⟩ :=
    Sources.result_ask_eq_ok.2 ⟨_, by rw [hvars]; exact hfind, by rw [hvars]; rfl⟩
  obtain ⟨-, hnodup, hbounded⟩ := Sources.ask_take hfull
  exact ⟨_, hfull, rfl, rfl, hnodup, hbounded 2, hbounded 0⟩

end Deduction
