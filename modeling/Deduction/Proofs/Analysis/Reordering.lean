import Deduction.Proofs.Analysis.Negation
import Deduction.Proofs.Theory.Index
import Deduction.Proofs.Variables

/-!
# Diagnostics of reordered sentences

The numbers of strata change with the order of the sentences, but not which relations depend on each other. The checks
compare the number of a head only with those of relations that its body mentions, which are not above it, so that one of
them is not below the head exactly if it depends on the head in turn (`isAtOrAbove_iff`). Hence sentences in another order
have the same diagnostics in another order (`diagnose_perm`).

This takes that the relation a goal is about is one that the goal mentions. For a symbol that is named as a connective it
is not, nor for the symbol `false`: where a program has relations of these names, their numbers are compared with that of
a head which nothing links them to.
-/

namespace Deduction

variable {sentences sentences' : List Term} {a r : String} {t head goal : Term} {body goals : List Term} {n n' : Nat}

/-! ### The relation of a goal -/

namespace Term

/-- Names that have a meaning of their own. A goal that is made with one of them mentions no relation of that name; only a
symbol does. -/
def isReserved (f : String) : Bool :=
  f = "not" || isUpdateMarker f || f = "rule" || f = "and" || f = "or" || isAggregate f || isSelfContained f ||
    isComputed f

/-- What the goal is about is not in a handler or a definition. -/
def isOutright : Term → Bool
  | compound f (t :: _) => f ≠ "handler" && f ≠ "definition" && (!isWrapper f || isOutright t)
  | _ => true

/-- The goals of a rule. -/
def bodyGoals (t : Term) : List Term := t.asRule.elim [] Prod.snd

theorem mentions_compound {f : String} {args : List Term} (hf : isReserved f = false) :
    (compound f args).mentions = [f] := by
  simp only [isReserved, Bool.or_eq_false_iff, decide_eq_false_iff_not] at hf
  obtain ⟨⟨⟨⟨⟨⟨⟨hnot, hmark⟩, hrule⟩, hand⟩, hor⟩, hagg⟩, hself⟩, hcomputed⟩ := hf
  unfold mentions
  simp [hnot, hmark, hrule, hand, hor, hagg, hself, hcomputed]

/-- A goal mentions the relation that it is about, but for reserved names and the symbol `false`. -/
theorem mem_mentions_of_operator? : (goal : Term) → goal.isOutright = true → goal.operator? = some r →
    isReserved r = false → r ∈ goal.mentions ∨ goal.subject = sym "false"
  | var _, _, hr, _ => nomatch hr
  | sym s, _, hr, hreserved => by
    have hs : s = r := Option.some.inj hr
    subst hs
    by_cases hfalse : s = "false"
    · exact Or.inr (congrArg sym hfalse)
    · have htrue : s ≠ "true" := by
        rintro rfl
        exact absurd hreserved (by decide +kernel)
      simp [mentions, htrue, hfalse]
  | compound f [], _, hr, hreserved => by
    have hf : f = r := Option.some.inj hr
    rw [hf, mentions_compound hreserved]
    exact Or.inl (List.mem_singleton_self r)
  | compound f (t :: ts), hout, hr, hreserved => by
    by_cases hwrap : isWrapper f = true
    · have hsubject : (compound f (t :: ts)).subject = t.subject := by rw [subject, if_pos hwrap]
      unfold operator? at hr
      rw [hsubject] at hr ⊢
      simp only [isOutright, hwrap, Bool.not_true, Bool.false_or, Bool.and_eq_true, decide_eq_true_iff] at hout
      refine (mem_mentions_of_operator? t hout.2 hr hreserved).imp_left fun hmem => ?_
      -- What a definition or a handler is about, it does not mention.
      have hcases : f = "not" ∨ f = "rule" := by
        simp only [isWrapper, Bool.or_eq_true, decide_eq_true_iff] at hwrap
        tauto
      rcases hcases with rfl | rfl
      · simpa [mentions] using hmem
      · exact (mentions_rule t ts).symm ▸ mem_mentionsList.2 ⟨t, List.mem_cons_self, hmem⟩
    · have hsubject : (compound f (t :: ts)).subject = compound f (t :: ts) := by rw [subject, if_neg hwrap]
      unfold operator? at hr
      rw [hsubject] at hr
      have hf : f = r := Option.some.inj hr
      rw [hf, mentions_compound hreserved]
      exact Or.inl (List.mem_singleton_self r)

theorem bodyGoals_of_asRule (h : t.asRule = some (head, body)) : t.bodyGoals = body := by
  unfold bodyGoals
  rw [h]
  rfl

end Term

/-- What the goals of rules are about can be told from the names in them. -/
structure IsUnambiguous (sentences : List Term) : Prop where
  /-- No reserved name stands as a symbol where a relation does. -/
  names : ∀ r ∈ relationsOf sentences, Term.isReserved r = false
  /-- No goal of a rule is about what is in a handler or a definition. -/
  outright : ∀ t ∈ sentences, ∀ goal ∈ t.bodyGoals, goal.isOutright = true
  /-- No goal of a rule is made from the symbol `false`, except that symbol itself, if there is a relation of that name. -/
  constant : "false" ∈ relationsOf sentences → ∀ t ∈ sentences, ∀ goal ∈ t.bodyGoals,
    goal.subject = .sym "false" → goal = .sym "false"

namespace IsUnambiguous

/-- A relation that a goal of a rule mentions feeds the relation of the head. -/
theorem feedsIn_of_mentions (h : IsUnambiguous sentences) (ht : t ∈ sentences) (hrule : t.asRule = some (head, body))
    (ha : head.operator? = some a) (hrelation : a ∈ relationsOf sentences) (hgoal : goal ∈ body)
    (hr : r ∈ goal.mentions) : FeedsIn sentences r a := by
  have hmark : isUpdateMarker a = false := by
    have hreserved := h.names a hrelation
    simp only [Term.isReserved, Bool.or_eq_false_iff] at hreserved
    exact hreserved.1.1.1.1.1.1.2
  exact ⟨mem_relationsOf_of_body ht hrule hgoal hr, hrelation, hmark, t, ht, head, body, hrule, ha,
    mem_relationsOf.2 ⟨goal, hgoal, hr⟩⟩

/-- The relation that a goal is about is one that it mentions. -/
theorem mem_mentions (h : IsUnambiguous sentences) (ht : t ∈ sentences) (hrule : t.asRule = some (head, body))
    (hgoal : goal ∈ body) (hne : goal ≠ .sym "false") (hr : goal.operator? = some r) (hrelation : r ∈ relationsOf sentences) :
    r ∈ goal.mentions := by
  have hmem : goal ∈ t.bodyGoals := by rwa [Term.bodyGoals_of_asRule hrule]
  refine (Term.mem_mentions_of_operator? goal (h.outright t ht goal hmem) hr (h.names r hrelation)).resolve_right ?_
  intro hsubject
  have hfalse : r = "false" := by
    unfold Term.operator? at hr
    rw [hsubject] at hr
    exact (Option.some.inj hr).symm
  exact hne (h.constant (hfalse ▸ hrelation) t ht goal hmem hsubject)

/-- Whatever the check for negation looks at in a goal, the goal mentions. -/
theorem mem_mentions_of_examined (h : IsUnambiguous sentences) (ht : t ∈ sentences)
    (hrule : t.asRule = some (head, body)) (hgoal : goal ∈ body) (hr : r ∈ goal.examined)
    (hrelation : r ∈ relationsOf sentences) : r ∈ goal.mentions := by
  cases goal with
  | var _ => cases hr
  | sym _ => cases hr
  | compound f args =>
    unfold Term.examined at hr
    dsimp only at hr
    by_cases hnot : f = "not"
    · rw [if_pos hnot] at hr
      obtain ⟨inner, hinner, hoperator⟩ := List.mem_filterMap.1 hr
      match args, hinner with
      | inner' :: rest, hinner =>
        rw [List.mem_singleton.1 hinner] at hoperator
        have houter : (Term.compound f (inner' :: rest)).operator? = some r := by
          rw [← hoperator, hnot]
          rfl
        exact h.mem_mentions ht hrule hgoal nofun houter hrelation
    · rw [if_neg hnot] at hr
      by_cases hagg : isAggregate f = true
      · rwa [if_pos hagg] at hr
      · rw [if_neg hagg] at hr
        cases hr

end IsUnambiguous

/-! ### Dependencies of reordered sentences -/

section Reordered

variable (hperm : sentences.Perm sentences')

include hperm

theorem mem_relationsOf_perm : r ∈ relationsOf sentences ↔ r ∈ relationsOf sentences' := by
  rw [mem_relationsOf, mem_relationsOf]
  exact exists_congr fun t => and_congr_left fun _ => hperm.mem_iff

theorem feedsIn_perm (b a : String) : FeedsIn sentences b a ↔ FeedsIn sentences' b a := by
  unfold FeedsIn
  rw [mem_relationsOf_perm hperm, mem_relationsOf_perm hperm]
  simp only [hperm.mem_iff]

theorem reachesIn_perm (b a : String) : ReachesIn sentences b a ↔ ReachesIn sentences' b a := by
  have hfeeds : FeedsIn sentences = FeedsIn sentences' := by
    funext b a
    exact propext (feedsIn_perm hperm b a)
  unfold ReachesIn
  rw [hfeeds]

end Reordered

/-! ### Strata of reordered sentences -/

namespace Strata

theorem stratum?_eq_none (hr : r ∉ relationsOf sentences) : (ofSentences sentences).stratum? r = none := by
  rw [Option.eq_none_iff_forall_ne_some]
  intro n hn
  obtain ⟨c, hc, hrc⟩ := stratum?_eq_some_iff.1 hn
  exact hr (((partition_ofSentences sentences).2.2 r).1 (List.mem_flatten.2 ⟨c, List.mem_of_getElem? hc, hrc⟩))

/-- A relation that feeds the one of the head is not below it if they depend on each other. -/
theorem isAtOrAbove_iff (hn : (ofSentences sentences).stratum? a = some n)
    (hfeeds : r ∈ relationsOf sentences → FeedsIn sentences r a) :
    (ofSentences sentences).isAtOrAbove n r = true ↔ r ∈ relationsOf sentences ∧ ReachesIn sentences a r := by
  rw [isAtOrAbove_eq_true]
  by_cases hr : r ∈ relationsOf sentences
  · obtain ⟨m, hm⟩ := exists_stratum? hr
    constructor
    · rintro ⟨m', hm', hle⟩
      -- What feeds the head is not above it either, so both are in one stratum.
      have heq : n = m' := Nat.le_antisymm hle (stratum_le (.single (hfeeds hr)) hm' hn)
      exact ⟨hr, ((exists_stratum_iff hr).1 ((eq_iff_exists_stratum hn hm').1 heq)).2⟩
    · exact fun h => ⟨m, hm, stratum_le h.2 hn hm⟩
  · rw [stratum?_eq_none hr]
    constructor
    · rintro ⟨m, hm, -⟩
      cases hm
    · exact fun h => absurd h.1 hr

/-- Whether it is does not depend on the order of the sentences, though the numbers do. -/
theorem isAtOrAbove_perm (hperm : sentences.Perm sentences') (hn : (ofSentences sentences).stratum? a = some n)
    (hn' : (ofSentences sentences').stratum? a = some n') (hfeeds : r ∈ relationsOf sentences → FeedsIn sentences r a) :
    (ofSentences sentences).isAtOrAbove n r = (ofSentences sentences').isAtOrAbove n' r := by
  have hfeeds' (hr : r ∈ relationsOf sentences') : FeedsIn sentences' r a :=
    (feedsIn_perm hperm r a).1 (hfeeds ((mem_relationsOf_perm hperm).2 hr))
  rw [Bool.eq_iff_iff, isAtOrAbove_iff hn hfeeds, isAtOrAbove_iff hn' hfeeds', mem_relationsOf_perm hperm,
    reachesIn_perm hperm]

/-- The relation of a head has a number in both orders or in none. -/
theorem headStratum?_perm (hperm : sentences.Perm sentences') (head : Term) :
    ((ofSentences sentences).headStratum? head = none ∧ (ofSentences sentences').headStratum? head = none) ∨
      ∃ a n n', head.operator? = some a ∧ a ∈ relationsOf sentences ∧
        (ofSentences sentences).stratum? a = some n ∧ (ofSentences sentences').stratum? a = some n' ∧
        (ofSentences sentences).headStratum? head = some n ∧ (ofSentences sentences').headStratum? head = some n' := by
  unfold headStratum?
  cases ha : head.operator? with
  | none => exact Or.inl ⟨rfl, rfl⟩
  | some a =>
    rw [Option.bind_some, Option.bind_some]
    by_cases hrelation : a ∈ relationsOf sentences
    · obtain ⟨n, hn⟩ := exists_stratum? hrelation
      obtain ⟨n', hn'⟩ := exists_stratum? ((mem_relationsOf_perm hperm).1 hrelation)
      exact Or.inr ⟨a, n, n', rfl, hrelation, hn, hn', hn, hn'⟩
    · exact Or.inl ⟨stratum?_eq_none hrelation,
        stratum?_eq_none fun hmem => hrelation ((mem_relationsOf_perm hperm).2 hmem)⟩

theorem isNegationStratified_perm (h : IsUnambiguous sentences) (hperm : sentences.Perm sentences') (ht : t ∈ sentences) :
    (ofSentences sentences).isNegationStratified t = (ofSentences sentences').isNegationStratified t := by
  unfold isNegationStratified
  cases hrule : t.asRule with
  | none => rfl
  | some p =>
    obtain ⟨head, body⟩ := p
    dsimp only
    rcases headStratum?_perm hperm head with ⟨hnone, hnone'⟩ | ⟨a, n, n', ha, hrelation, hn, hn', hhead, hhead'⟩
    · rw [hnone, hnone']
    · rw [hhead, hhead', Bool.eq_iff_iff, List.all_eq_true, List.all_eq_true]
      refine forall₂_congr fun goal hgoal => ?_
      rw [isGoalStratified_iff, isGoalStratified_iff]
      refine forall₂_congr fun r hr => ?_
      rw [isAtOrAbove_perm hperm hn hn' fun hmem => h.feedsIn_of_mentions ht hrule ha hrelation hgoal
        (h.mem_mentions_of_examined ht hrule hgoal hr hmem)]

end Strata

/-! ### Covered variables -/

namespace Term

/-- Every variable of a goal on the one side is in one on the other side. -/
theorem areCovered_partition {p : Term → Bool} :
    areCovered (goals.partition p).1 (bindAll (goals.partition p).2 []) = true ↔
      ∀ g ∈ goals, p g = true → ∀ v ∈ g.vars, ∃ g' ∈ goals, p g' = false ∧ v ∈ g'.vars := by
  unfold areCovered isCovered bindAll
  rw [List.partition_eq_filter_filter]
  simp [mem_addVarsList, and_assoc, or_iff_not_imp_left]

/-- It makes no difference on which side a goal without variables is. -/
theorem areCovered_partition_congr {p q : Term → Bool} (h : ∀ g ∈ goals, p g = q g ∨ g.vars = []) :
    areCovered (goals.partition p).1 (bindAll (goals.partition p).2 []) =
      areCovered (goals.partition q).1 (bindAll (goals.partition q).2 []) := by
  have hside (g : Term) (hg : g ∈ goals) (v : String) (hv : v ∈ g.vars) : p g = q g :=
    (h g hg).resolve_right fun hnone => List.not_mem_nil (hnone ▸ hv)
  rw [Bool.eq_iff_iff, areCovered_partition, areCovered_partition]
  constructor
  · intro hp g hg hq v hv
    obtain ⟨g', hg', hp', hv'⟩ := hp g hg ((hside g hg v hv).trans hq) v hv
    exact ⟨g', hg', (hside g' hg' v hv').symm.trans hp', hv'⟩
  · intro hq g hg hp v hv
    obtain ⟨g', hg', hq', hv'⟩ := hq g hg ((hside g hg v hv).symm.trans hp) v hv
    exact ⟨g', hg', (hside g' hg' v hv').trans hq', hv'⟩

end Term

theorem Strata.isRecursionStratified_perm (h : IsUnambiguous sentences) (hperm : sentences.Perm sentences')
    (ht : t ∈ sentences) :
    (ofSentences sentences).isRecursionStratified t = (ofSentences sentences').isRecursionStratified t := by
  unfold isRecursionStratified
  cases hrule : t.asRule with
  | none => rfl
  | some p =>
    obtain ⟨head, body⟩ := p
    dsimp only
    rcases headStratum?_perm hperm head with ⟨hnone, hnone'⟩ | ⟨a, n, n', ha, hrelation, hn, hn', hhead, hhead'⟩
    · rw [hnone, hnone']
    · rw [hhead, hhead']
      refine Term.areCovered_partition_congr fun goal hgoal => ?_
      have hbody : goal ∈ body := List.mem_of_mem_filter hgoal
      -- The symbol `false` may be on either side, depending on the order, but it has no variables.
      by_cases hfalse : goal = .sym "false"
      · exact Or.inr (hfalse ▸ rfl)
      · left
        unfold isGoalAtOrAbove
        cases hr : goal.operator? with
        | none => rfl
        | some r =>
          exact isAtOrAbove_perm hperm hn hn' fun hmem => h.feedsIn_of_mentions ht hrule ha hrelation hbody
            (h.mem_mentions ht hrule hbody hfalse hr hmem)

/-! ### Numbers of arguments -/

/-- A relation has mixed arities if two of its uses have different numbers of arguments. -/
theorem mem_mixedArities : r ∈ mixedArities sentences ↔
    ∃ m n, (r, m) ∈ sentences.flatMap Term.uses ∧ (r, n) ∈ sentences.flatMap Term.uses ∧ m ≠ n := by
  unfold mixedArities
  dsimp only
  generalize sentences.flatMap Term.uses = uses
  have hlookup {m : Nat} (hm : uses.lookup r = some m) : (r, m) ∈ uses := by
    obtain ⟨before, after, rfl, -⟩ := List.lookup_eq_some_iff.1 hm
    exact List.mem_append_right _ List.mem_cons_self
  have hsome {n : Nat} (hn : (r, n) ∈ uses) : ∃ m, uses.lookup r = some m :=
    Option.isSome_iff_exists.1 (List.lookup_isSome_iff.2 ⟨_, hn, beq_self_eq_true r⟩)
  rw [List.mem_filter, List.mem_eraseDups, List.mem_map, List.any_eq_true]
  simp only [Bool.and_eq_true, decide_eq_true_iff]
  constructor
  · rintro ⟨-, ⟨_, n⟩, hn, rfl, hne⟩
    obtain ⟨m, hm⟩ := hsome hn
    exact ⟨m, n, hlookup hm, hn, fun heq => hne (heq ▸ hm)⟩
  · rintro ⟨m, n, hm, hn, hne⟩
    refine ⟨⟨(r, m), hm, rfl⟩, ?_⟩
    by_cases hfirst : uses.lookup r = some m
    · exact ⟨(r, n), hn, rfl, fun heq => hne (Option.some.inj (hfirst.symm.trans heq))⟩
    · exact ⟨(r, m), hm, rfl, hfirst⟩

theorem mixedArities_perm (hperm : sentences.Perm sentences') : (mixedArities sentences).Perm (mixedArities sentences') := by
  have hnodup (sentences : List Term) : (mixedArities sentences).Nodup := (nodup_eraseDups _).filter _
  rw [List.perm_ext_iff_of_nodup (hnodup sentences) (hnodup sentences')]
  intro r
  rw [mem_mixedArities, mem_mixedArities]
  simp only [(hperm.flatMap_right Term.uses).mem_iff]

/-! ### Diagnostics -/

theorem filter_perm {p p' : Term → Bool} (hperm : sentences.Perm sentences') (h : ∀ t ∈ sentences, p t = p' t) :
    (sentences.filter p).Perm (sentences'.filter p') := by
  rw [List.filter_congr h]
  exact hperm.filter p'

/-- The same sentences in another order have the same diagnostics in another order. -/
theorem diagnose_perm (h : IsUnambiguous sentences) (hperm : sentences.Perm sentences') :
    (diagnose sentences).Perm (diagnose sentences') := by
  have hsafe : (sentences.filter fun t => !t.isSafe).Perm (sentences'.filter fun t => !t.isSafe) := hperm.filter _
  have hrecursion : (sentences.filter fun t => !(Strata.ofSentences sentences).isRecursionStratified t).Perm
      (sentences'.filter fun t => !(Strata.ofSentences sentences').isRecursionStratified t) :=
    filter_perm hperm fun t ht => congrArg not (Strata.isRecursionStratified_perm h hperm ht)
  have hnegation : (sentences.filter fun t => !(Strata.ofSentences sentences).isNegationStratified t).Perm
      (sentences'.filter fun t => !(Strata.ofSentences sentences').isNegationStratified t) :=
    filter_perm hperm fun t ht => congrArg not (Strata.isNegationStratified_perm h hperm ht)
  exact ((((mixedArities_perm hperm).map _).append (hsafe.map _)).append (hrecursion.map _)).append (hnegation.map _)

/-- A position is won if there is a move to one that is not; one relation has two arities. -/
def strategy : List Term :=
  [.compound "move" [.sym "a", .sym "b"],
    .rule (.compound "won" [.var "X"])
      [.compound "move" [.var "X", .var "Y"], .negation (.compound "won" [.var "Y"])],
    .rule (.compound "move" [.var "X"]) [.compound "move" [.var "X", .var "Y"]],
    .rule (.compound "path" [.var "X", .var "Z"])
      [.compound "move" [.var "X", .var "Y"], .compound "path" [.var "Y", .var "Z"]]]

theorem diagnose_perm_strategy :
    (IsUnambiguous strategy ∧ strategy.Perm strategy.reverse) ∧ (diagnose strategy).Perm (diagnose strategy.reverse) := by
  have hstrategy : IsUnambiguous strategy := by
    constructor <;> decide +kernel
  have hperm : strategy.Perm strategy.reverse := strategy.reverse_perm.symm
  exact ⟨⟨hstrategy, hperm⟩, diagnose_perm hstrategy hperm⟩

/-- The symbol `false` mentions no relation, but under a `not` its number is looked up as that of one. -/
example :
    let fact : Term := .compound "false" [.sym "a"]
    let rule : Term := .rule (.compound "p" [.var "X"]) [.compound "q" [.var "X"], .negation (.sym "false")]
    diagnose [fact, rule] = [.mixedArity "false", .unstratifiedNegation rule] ∧
      diagnose [rule, fact] = [.mixedArity "false"] := by
  decide +kernel

end Deduction
