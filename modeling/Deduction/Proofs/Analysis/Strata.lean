import Mathlib.Data.List.Nodup
import Deduction.Proofs.Analysis.Components

/-!
# The strata of a program

The strata of some sentences are the classes of relations that depend on each other, and every relation is in a stratum
that is not below those of the relations it depends on (`ofSentences_condensation`). Both come from what the search for
components puts down (`Dependencies.layered_search`).
-/

namespace Deduction

/-! ### Dependencies between relations -/

/-- The first relation is mentioned in the body of a rule of the second one. Marks of updates do not depend on anything. -/
def FeedsIn (sentences : List Term) (b a : String) : Prop :=
  b ∈ relationsOf sentences ∧ a ∈ relationsOf sentences ∧ isUpdateMarker a = false ∧
    ∃ t ∈ sentences, ∃ head body, t.asRule = some (head, body) ∧ head.operator? = some a ∧ b ∈ relationsOf body

/-- The second relation depends on the first one, directly, through others or as the same. -/
def ReachesIn (sentences : List Term) : String → String → Prop := Relation.ReflTransGen (FeedsIn sentences)

/-- A table of what a function gives for the relations of a list. -/
theorem lookup_map_pair {β : Type} (f : String → β) {rs : List String} {r : String} (hr : r ∈ rs) :
    (rs.map fun x => (x, f x)).lookup r = some (f r) := by
  induction rs with
  | nil => cases hr
  | cons x rs ih =>
    rw [List.map_cons, List.lookup_cons]
    by_cases hx : r = x
    · rw [hx, beq_self_eq_true]
    · rw [beq_eq_false_iff_ne.2 hx]
      exact ih ((List.mem_cons.1 hr).resolve_left hx)

theorem lookup_map_pair_of_not_mem {β : Type} (f : String → β) {rs : List String} {r : String} (hr : r ∉ rs) :
    (rs.map fun x => (x, f x)).lookup r = none := by
  rw [List.lookup_eq_none_iff]
  intro p hp
  obtain ⟨x, hx, rfl⟩ := List.mem_map.1 hp
  exact bne_iff_ne.2 fun hrx => hr (hrx ▸ hx)

namespace Dependencies

variable {sentences : List Term} {a b : String}

theorem relations_ofSentences (sentences : List Term) : (ofSentences sentences).relations = relationsOf sentences := by
  unfold relations ofSentences
  rw [List.map_map]
  exact List.map_id _

/-- The edges of a sentence lead from what the body of a rule mentions to the relation of the head. -/
theorem mem_edges {t : Term} : (b, a) ∈ edges t ↔
    ∃ head body, t.asRule = some (head, body) ∧ head.operator? = some a ∧ b ∈ relationsOf body := by
  unfold edges
  cases ht : t.asRule with
  | none => simp
  | some p =>
    obtain ⟨head, body⟩ := p
    dsimp only
    cases hhead : head.operator? with
    | none => simp [hhead]
    | some r =>
      dsimp only
      rw [List.mem_map]
      constructor
      · rintro ⟨x, hx, hpair⟩
        cases hpair
        exact ⟨head, body, rfl, hhead, hx⟩
      · rintro ⟨head', body', hrule, hhead', hb⟩
        cases hrule
        rw [hhead] at hhead'
        cases hhead'
        exact ⟨b, hb, rfl⟩

theorem feeds_ofSentences : (ofSentences sentences).Feeds b a ↔ FeedsIn sentences b a := by
  unfold Feeds dependents FeedsIn ofSentences
  dsimp only
  by_cases hb : b ∈ relationsOf sentences
  · rw [lookup_map_pair _ hb, Option.getD_some, List.mem_filter, List.mem_eraseDups, List.mem_map]
    simp only [List.mem_filter, List.mem_flatMap, decide_eq_true_iff, Bool.and_eq_true, Bool.not_eq_true',
      List.contains_iff_mem, Prod.exists]
    constructor
    · rintro ⟨⟨x, y, ⟨⟨t, ht, hxy⟩, rfl⟩, rfl⟩, hmark, ha⟩
      exact ⟨hb, ha, hmark, t, ht, mem_edges.1 hxy⟩
    · rintro ⟨-, ha, hmark, t, ht, hedge⟩
      exact ⟨⟨b, a, ⟨⟨t, ht, mem_edges.2 hedge⟩, rfl⟩, rfl⟩, hmark, ha⟩
  · rw [lookup_map_pair_of_not_mem _ hb]
    constructor
    · intro h
      cases h
    · exact fun h => absurd h.1 hb

theorem reaches_ofSentences : (ofSentences sentences).Reaches b a ↔ ReachesIn sentences b a := by
  have hfeeds : (ofSentences sentences).Feeds = FeedsIn sentences := by
    funext x y
    exact propext feeds_ofSentences
  unfold Reaches ReachesIn
  rw [hfeeds]

theorem isClosed_ofSentences (sentences : List Term) : (ofSentences sentences).IsClosed := by
  intro x y h
  rw [relations_ofSentences]
  exact (feeds_ofSentences.1 h).2.1

end Dependencies

namespace Strata

variable {sentences : List Term} {a b : String} {n : Nat}

/-- The strata are components of the dependencies between the relations, and every relation is in one. -/
theorem layered_ofSentences (sentences : List Term) :
    Dependencies.Layered (Dependencies.ofSentences sentences) (ofSentences sentences) ∧
      ∀ r, r ∈ (ofSentences sentences).flatten ↔ r ∈ relationsOf sentences := by
  obtain ⟨hlayered, hall⟩ := Dependencies.layered_search (Dependencies.isClosed_ofSentences sentences)
  rw [Dependencies.relations_ofSentences] at hall
  exact ⟨hlayered, hall⟩

/-- Two relations share a stratum if they depend on each other. -/
theorem exists_stratum_iff (ha : a ∈ relationsOf sentences) :
    (∃ c ∈ ofSentences sentences, a ∈ c ∧ b ∈ c) ↔ ReachesIn sentences a b ∧ ReachesIn sentences b a := by
  obtain ⟨hlayered, hall⟩ := layered_ofSentences sentences
  rw [← Dependencies.reaches_ofSentences, ← Dependencies.reaches_ofSentences]
  constructor
  · rintro ⟨c, hc, hac, hbc⟩
    obtain ⟨r, -, hclass⟩ := hlayered.isClass c hc
    exact ((hclass a).1 hac).symm.trans ((hclass b).1 hbc)
  · intro hmutual
    obtain ⟨c, hc, hac⟩ := List.mem_flatten.1 ((hall a).2 ha)
    obtain ⟨r, -, hclass⟩ := hlayered.isClass c hc
    exact ⟨c, hc, hac, (hclass b).2 (((hclass a).1 hac).trans hmutual)⟩

/-- The strata are a partition of the relations. -/
theorem partition_ofSentences (sentences : List Term) :
    (ofSentences sentences).flatten.Nodup ∧ [] ∉ ofSentences sentences ∧
      ∀ r, r ∈ (ofSentences sentences).flatten ↔ r ∈ relationsOf sentences := by
  obtain ⟨hlayered, hall⟩ := layered_ofSentences sentences
  refine ⟨List.nodup_flatten.2 ⟨hlayered.nodup, hlayered.ordered.imp fun h x hx hy => h x hx x hy .refl⟩, fun hnil => ?_,
    hall⟩
  obtain ⟨r, hr, -⟩ := hlayered.isClass [] hnil
  exact List.not_mem_nil hr

/-- The number of the stratum of a relation is the position of the stratum. -/
theorem stratum?_eq_some_iff {r : String} :
    (ofSentences sentences).stratum? r = some n ↔ ∃ c, (ofSentences sentences)[n]? = some c ∧ r ∈ c := by
  obtain ⟨hlayered, -⟩ := layered_ofSentences sentences
  unfold stratum?
  rw [List.findIdx?_eq_some_iff_getElem]
  constructor
  · rintro ⟨hn, hr, -⟩
    exact ⟨_, List.getElem?_eq_getElem hn, List.contains_iff_mem.1 hr⟩
  · rintro ⟨c, hc, hrc⟩
    obtain ⟨hn, rfl⟩ := List.getElem?_eq_some_iff.1 hc
    refine ⟨hn, List.contains_iff_mem.2 hrc, fun j hj hcontains => ?_⟩
    have hbefore := List.pairwise_iff_getElem.1 hlayered.ordered j n (Nat.lt_trans hj hn) hn hj
    exact hbefore r (List.contains_iff_mem.1 hcontains) r hrc .refl

theorem exists_stratum? (hr : r ∈ relationsOf sentences) : ∃ n, (ofSentences sentences).stratum? r = some n := by
  obtain ⟨c, hc, hrc⟩ := List.mem_flatten.1 (((partition_ofSentences sentences).2.2 r).2 hr)
  obtain ⟨n, hn, hget⟩ := List.getElem_of_mem hc
  exact ⟨n, stratum?_eq_some_iff.2 ⟨c, by rw [List.getElem?_eq_getElem hn, hget], hrc⟩⟩

/-- What depends on a relation is not in a lower stratum. -/
theorem stratum_le {m : Nat} (hreach : ReachesIn sentences b a) (hb : (ofSentences sentences).stratum? b = some m)
    (ha : (ofSentences sentences).stratum? a = some n) : m ≤ n := by
  obtain ⟨hlayered, -⟩ := layered_ofSentences sentences
  obtain ⟨c, hc, hbc⟩ := stratum?_eq_some_iff.1 hb
  obtain ⟨c', hc', hac⟩ := stratum?_eq_some_iff.1 ha
  obtain ⟨hm, rfl⟩ := List.getElem?_eq_some_iff.1 hc
  obtain ⟨hn, rfl⟩ := List.getElem?_eq_some_iff.1 hc'
  rcases Nat.lt_or_ge n m with hlt | hle
  · have hbefore := List.pairwise_iff_getElem.1 hlayered.ordered n m hn hm hlt
    exact absurd (Dependencies.reaches_ofSentences.2 hreach) (hbefore a hac b hbc)
  · exact hle

/-- Relations with the same number are in one stratum. -/
theorem eq_iff_exists_stratum {m : Nat} (hb : (ofSentences sentences).stratum? b = some m)
    (ha : (ofSentences sentences).stratum? a = some n) :
    m = n ↔ ∃ c ∈ ofSentences sentences, a ∈ c ∧ b ∈ c := by
  constructor
  · rintro rfl
    obtain ⟨c, hc, hac⟩ := stratum?_eq_some_iff.1 ha
    obtain ⟨c', hc', hbc⟩ := stratum?_eq_some_iff.1 hb
    rw [hc] at hc'
    cases hc'
    exact ⟨c, List.mem_of_getElem? hc, hac, hbc⟩
  · rintro ⟨c, hc, hac, hbc⟩
    obtain ⟨k, hk⟩ := List.mem_iff_getElem?.1 hc
    have hka := stratum?_eq_some_iff.2 ⟨c, hk, hac⟩
    have hkb := stratum?_eq_some_iff.2 ⟨c, hk, hbc⟩
    rw [ha] at hka
    rw [hb] at hkb
    rw [Option.some.inj hka, Option.some.inj hkb]

/-- The strata of some sentences are the classes of relations that depend on each other, each relation in one of them. A
relation is in no higher stratum than the relations of the rules that mention it, and in a lower one unless they depend
on each other. The number of a stratum is its position. -/
theorem ofSentences_condensation (sentences : List Term) :
    ((ofSentences sentences).flatten.Nodup ∧ [] ∉ ofSentences sentences ∧
        ∀ r, r ∈ (ofSentences sentences).flatten ↔ r ∈ relationsOf sentences) ∧
      (∀ a ∈ relationsOf sentences, ∀ b ∈ relationsOf sentences,
        (∃ c ∈ ofSentences sentences, a ∈ c ∧ b ∈ c) ↔ ReachesIn sentences a b ∧ ReachesIn sentences b a) ∧
      (∀ b a, FeedsIn sentences b a → ∃ m n, (ofSentences sentences).stratum? b = some m ∧
        (ofSentences sentences).stratum? a = some n ∧ m ≤ n ∧
          (m = n ↔ ∃ c ∈ ofSentences sentences, a ∈ c ∧ b ∈ c)) ∧
      ∀ r n, (ofSentences sentences).stratum? r = some n ↔
        ∃ c, (ofSentences sentences)[n]? = some c ∧ r ∈ c := by
  refine ⟨partition_ofSentences sentences, fun a ha b _ => exists_stratum_iff ha, fun b a hfeeds => ?_,
    fun r n => stratum?_eq_some_iff⟩
  obtain ⟨m, hm⟩ := exists_stratum? hfeeds.1
  obtain ⟨n, hn⟩ := exists_stratum? hfeeds.2.1
  exact ⟨m, n, hm, hn, stratum_le (.single hfeeds) hm hn, eq_iff_exists_stratum hm hn⟩

/-- Two relations that depend on each other are above the one that feeds them, and what depends on them is above both. -/
example : ofSentences [.rule (.sym "s") [.sym "p"], .rule (.sym "p") [.sym "q", .sym "r"], .rule (.sym "q") [.sym "p"]] =
    [["r"], ["q", "p"], ["s"]] := by decide +kernel

end Strata

end Deduction
