import Mathlib.Data.List.Nodup
import Mathlib.Logic.Relation
import Deduction.Analysis.Stratification

/-!
# The search for components

Tarjan's search puts down the classes of relations that depend on each other, each before those that it depends on
(`layered_search`). The relations that the search has come to and is not done with make up a path: each of them is
followed by the later ones, and everything on the stack comes back to one of them (`Search.Regular`). A relation whose
low number is its own is the first of its component: what lies above it on the stack leads to nothing below it, so
it is closed but for the components that were put down before (`Search.Follows.closed`).
-/

namespace Deduction.Dependencies

variable {deps : Dependencies} {r x y z : String}

/-! ### Dependence -/

/-- The relations, in order. -/
def relations (deps : Dependencies) : List String := deps.map Prod.fst

/-- The second relation depends on the first one directly. -/
def Feeds (deps : Dependencies) (x y : String) : Prop := y ∈ deps.dependents x

/-- The second relation depends on the first one, directly, through others or as the same. -/
def Reaches (deps : Dependencies) : String → String → Prop := Relation.ReflTransGen deps.Feeds

/-- The relations depend on each other. -/
def Mutual (deps : Dependencies) (x y : String) : Prop := deps.Reaches x y ∧ deps.Reaches y x

theorem Mutual.symm (h : deps.Mutual x y) : deps.Mutual y x := ⟨h.2, h.1⟩

theorem Mutual.trans (h : deps.Mutual x y) (h' : deps.Mutual y z) : deps.Mutual x z :=
  ⟨h.1.trans h'.1, h'.2.trans h.2⟩

/-- Whatever depends on a relation is a relation itself. -/
def IsClosed (deps : Dependencies) : Prop := ∀ x y, deps.Feeds x y → y ∈ deps.relations

/-- A way does not lead out of a list that no step leads out of. -/
theorem Reaches.mem {done : List String} (h : deps.Reaches x y) (hdone : ∀ x ∈ done, ∀ y, deps.Feeds x y → y ∈ done)
    (hx : x ∈ done) : y ∈ done := by
  induction h with
  | refl => exact hx
  | tail _ hlast ih => exact hdone _ ih _ hlast

/-! ### Components -/

/-- The components, the last one first, are classes of relations that depend on each other, and no relation depends on
one that was put down after it. -/
structure Layered (deps : Dependencies) (components : List (List String)) : Prop where
  isClass : ∀ c ∈ components, ∃ r ∈ c, ∀ x, x ∈ c ↔ deps.Mutual r x
  nodup : ∀ c ∈ components, c.Nodup
  /-- What depends on a relation of a component has a component. -/
  closed : ∀ x ∈ components.flatten, ∀ y, deps.Feeds x y → y ∈ components.flatten
  ordered : components.Pairwise fun c c' => ∀ x ∈ c, ∀ y ∈ c', ¬ deps.Reaches y x

variable {components : List (List String)} {c : List String}

theorem layered_nil (deps : Dependencies) : Layered deps [] where
  isClass _ h := absurd h List.not_mem_nil
  nodup _ h := absurd h List.not_mem_nil
  closed _ h := absurd h List.not_mem_nil
  ordered := .nil

/-- Relations that depend on each other are a component when what depends on them is one of them or has a component. -/
theorem Layered.cons (h : Layered deps components) (hr : r ∈ c) (hmutual : ∀ x ∈ c, deps.Mutual r x) (hnodup : c.Nodup)
    (hnew : ∀ x ∈ c, x ∉ components.flatten) (hclosed : ∀ x ∈ c, ∀ y, deps.Feeds x y → y ∈ c ∨ y ∈ components.flatten) :
    Layered deps (c :: components) := by
  have hall : ∀ x ∈ (c :: components).flatten, ∀ y, deps.Feeds x y → y ∈ (c :: components).flatten := by
    intro x hx y hy
    rw [List.flatten_cons, List.mem_append] at hx ⊢
    rcases hx with hx | hx
    · exact hclosed x hx y hy
    · exact Or.inr (h.closed x hx y hy)
  refine ⟨fun c' hc' => ?_, fun c' hc' => ?_, hall, List.pairwise_cons.2 ⟨fun c' hc' x hx y hy hreach => ?_, h.ordered⟩⟩
  · rcases List.mem_cons.1 hc' with rfl | hc'
    · refine ⟨r, hr, fun x => ⟨hmutual x, fun hx => ?_⟩⟩
      have hmem := hx.1.mem hall (List.mem_append_left _ hr)
      rw [List.flatten_cons, List.mem_append] at hmem
      exact hmem.resolve_right fun hold => hnew r hr (hx.2.mem h.closed hold)
    · exact h.isClass c' hc'
  · rcases List.mem_cons.1 hc' with rfl | hc'
    · exact hnodup
    · exact h.nodup c' hc'
  · exact hnew x hx (hreach.mem h.closed (List.mem_flatten.2 ⟨c', hc', hy⟩))

namespace Search

variable {s s' s'' : Search} {path done : List String} {n : Nat}

/-! ### What the search has come to -/

/-- The search has come to the relation. -/
def Seen (s : Search) (x : String) : Prop := (s.index.lookup x).isSome

theorem lookup_cons_of_ne {β : Type} {b : β} {table : List (String × β)} (hx : x ≠ r) :
    ((r, b) :: table).lookup x = table.lookup x := by
  rw [List.lookup_cons, beq_eq_false_iff_ne.2 hx]

theorem seen_enter : (s.enter r).Seen x ↔ x = r ∨ s.Seen x := by
  unfold Seen enter
  by_cases hx : x = r
  · simp [hx]
  · simp [lookup_cons_of_ne hx, hx]

theorem indexOf_enter_self : (s.enter r).indexOf r = s.nextIndex := by
  unfold indexOf enter
  rw [List.lookup_cons_self, Option.getD_some]

theorem indexOf_enter_of_ne (hx : x ≠ r) : (s.enter r).indexOf x = s.indexOf x := by
  unfold indexOf enter
  rw [lookup_cons_of_ne hx]

theorem lowOf_enter_self : (s.enter r).lowOf r = s.nextIndex := by
  unfold lowOf enter
  rw [List.lookup_cons_self, Option.getD_some]

theorem lowOf_lower_self : (s.lower r n).lowOf r = min (s.lowOf r) n := by
  unfold lowOf lower
  rw [List.lookup_cons_self, Option.getD_some]
  rfl

/-- The second search goes on from the first one: what the first one has noted stays as it is. -/
structure Extends (s s' : Search) : Prop where
  stack : s.stack <:+ s'.stack
  index : ∀ x, s.Seen x → s'.index.lookup x = s.index.lookup x
  low : ∀ x, s.Seen x → s'.low.lookup x = s.low.lookup x

theorem Extends.seen (h : s.Extends s') (hx : s.Seen x) : s'.Seen x := by
  unfold Seen at hx ⊢
  rwa [h.index x hx]

theorem Extends.indexOf (h : s.Extends s') (hx : s.Seen x) : s'.indexOf x = s.indexOf x := by
  unfold Search.indexOf
  rw [h.index x hx]

theorem Extends.lowOf (h : s.Extends s') (hx : s.Seen x) : s'.lowOf x = s.lowOf x := by
  unfold Search.lowOf
  rw [h.low x hx]

theorem Extends.trans (h : s.Extends s') (h' : s'.Extends s'') : s.Extends s'' where
  stack := h.stack.trans h'.stack
  index x hx := (h'.index x (h.seen hx)).trans (h.index x hx)
  low x hx := (h'.low x (h.seen hx)).trans (h.low x hx)

theorem Extends.enter (hr : ¬ s.Seen r) : s.Extends (s.enter r) where
  stack := List.suffix_cons r s.stack
  index _ hx := lookup_cons_of_ne fun hxr => hr (hxr ▸ hx)
  low _ hx := lookup_cons_of_ne fun hxr => hr (hxr ▸ hx)

theorem Extends.lower (h : s.Extends s') (hr : ¬ s.Seen r) : s.Extends (s'.lower r n) where
  stack := h.stack
  index := h.index
  low x hx := by
    have hne : x ≠ r := fun hxr => hr (hxr ▸ hx)
    exact (lookup_cons_of_ne hne).trans (h.low x hx)

/-! ### How deep the search may have to go -/

/-- The relations that the search has not come to. -/
def unseen (deps : Dependencies) (s : Search) : List String := deps.relations.filter fun x => (s.index.lookup x).isNone

theorem isNone_lookup_iff : (s.index.lookup x).isNone = true ↔ ¬ s.Seen x := by
  unfold Seen
  rw [Option.isNone_iff_eq_none, Option.isSome_iff_ne_none, not_not]

theorem mem_unseen : x ∈ s.unseen deps ↔ x ∈ deps.relations ∧ ¬ s.Seen x := by
  unfold unseen
  rw [List.mem_filter, isNone_lookup_iff]

theorem length_unseen_lt (h : ∀ x, s.Seen x → s'.Seen x) (hr : r ∈ deps.relations) (hbefore : ¬ s.Seen r)
    (hafter : s'.Seen r) : (s'.unseen deps).length < (s.unseen deps).length := by
  have hsub : (s'.unseen deps).Sublist ((s.unseen deps).filter (· ≠ r)) := by
    unfold unseen
    rw [List.filter_filter]
    refine List.monotone_filter_right _ fun x hx => ?_
    rw [isNone_lookup_iff] at hx
    rw [Bool.and_eq_true, isNone_lookup_iff, decide_eq_true_iff]
    exact ⟨fun hxr => hx (hxr ▸ hafter), fun hseen => hx (h x hseen)⟩
  refine Nat.lt_of_le_of_lt hsub.length_le ?_
  rw [List.length_filter_lt_length_iff_exists]
  exact ⟨r, mem_unseen.2 ⟨hr, hbefore⟩, by simp⟩

/-! ### What holds of the search at any time -/

/-- What holds of the search at any time; the path has the relations that it has come to and is not done with. -/
structure Regular (deps : Dependencies) (path : List String) (s : Search) : Prop where
  mem_relations : ∀ x, s.Seen x → x ∈ deps.relations
  seen_iff : ∀ x, s.Seen x ↔ x ∈ s.stack ∨ x ∈ s.components.flatten
  onStack_iff : ∀ x, s.onStack.lookup x = some true ↔ x ∈ s.stack
  /-- The numbers on the stack go down. -/
  sorted : s.stack.Pairwise fun x y => s.indexOf y < s.indexOf x
  below : ∀ x ∈ s.stack, s.indexOf x < s.nextIndex
  apart : ∀ x ∈ s.stack, x ∉ s.components.flatten
  layered : Layered deps s.components
  mem_stack : ∀ x ∈ path, x ∈ s.stack
  /-- What was put on the stack after a relation of the path depends on it. -/
  later : ∀ x ∈ path, ∀ y ∈ s.stack, s.indexOf x ≤ s.indexOf y → deps.Reaches x y
  /-- A relation of the path depends on whatever is on the stack, one that is no later. -/
  back : ∀ y ∈ s.stack, ∃ x ∈ path, deps.Reaches y x ∧ s.indexOf x ≤ s.indexOf y
  /-- What the search is done with has been followed. -/
  passed : ∀ x ∈ s.stack, x ∉ path → ∀ y, deps.Feeds x y → s.Seen y

theorem regular_empty (deps : Dependencies) : Regular deps [] {} where
  mem_relations _ h := absurd h Bool.false_ne_true
  seen_iff _ := ⟨fun h => absurd h Bool.false_ne_true, fun h => absurd h (by simp)⟩
  onStack_iff _ := ⟨fun h => absurd h (by simp), fun h => absurd h List.not_mem_nil⟩
  sorted := .nil
  below _ h := absurd h List.not_mem_nil
  apart _ h := absurd h List.not_mem_nil
  layered := layered_nil deps
  mem_stack _ h := absurd h List.not_mem_nil
  later _ h := absurd h List.not_mem_nil
  back _ h := absurd h List.not_mem_nil
  passed _ h := absurd h List.not_mem_nil

theorem Regular.seen_of_mem (h : s.Regular deps path) (hx : x ∈ s.stack) : s.Seen x := (h.seen_iff x).2 (Or.inl hx)

theorem Regular.nodup_stack (h : s.Regular deps path) : s.stack.Nodup := by
  refine h.sorted.imp fun hlt heq => ?_
  rw [heq] at hlt
  exact Nat.lt_irrefl _ hlt

theorem Regular.lower (h : s.Regular deps path) : (s.lower r n).Regular deps path where
  mem_relations := h.mem_relations
  seen_iff := h.seen_iff
  onStack_iff := h.onStack_iff
  sorted := h.sorted
  below := h.below
  apart := h.apart
  layered := h.layered
  mem_stack := h.mem_stack
  later := h.later
  back := h.back
  passed := h.passed

theorem Regular.indexOf_enter (h : s.Regular deps path) (hseen : ¬ s.Seen r) (hx : x ∈ s.stack) :
    (s.enter r).indexOf x = s.indexOf x :=
  indexOf_enter_of_ne fun hxr => hseen (hxr ▸ h.seen_of_mem hx)

theorem Regular.enter (h : s.Regular deps path) (hr : r ∈ deps.relations) (hseen : ¬ s.Seen r)
    (hpath : ∀ x ∈ path, deps.Reaches x r) : (s.enter r).Regular deps (r :: path) where
  mem_relations x hx := by
    rcases seen_enter.1 hx with rfl | hx
    · exact hr
    · exact h.mem_relations x hx
  seen_iff x := by
    rw [seen_enter, h.seen_iff, ← or_assoc]
    exact or_congr_left List.mem_cons.symm
  onStack_iff x := by
    rw [show (s.enter r).stack = r :: s.stack from rfl, List.mem_cons]
    by_cases hx : x = r
    · simp [Search.enter, hx]
    · rw [or_iff_right hx, ← h.onStack_iff]
      unfold Search.enter
      rw [lookup_cons_of_ne hx]
  sorted := by
    refine List.pairwise_cons.2 ⟨fun x hx => ?_, h.sorted.imp_of_mem fun hx hy hlt => ?_⟩
    · rw [h.indexOf_enter hseen hx, indexOf_enter_self]
      exact h.below x hx
    · rwa [h.indexOf_enter hseen hx, h.indexOf_enter hseen hy]
  below x hx := by
    rcases List.mem_cons.1 hx with rfl | hx
    · rw [indexOf_enter_self]
      exact Nat.lt_succ_self _
    · rw [h.indexOf_enter hseen hx]
      exact Nat.lt_succ_of_lt (h.below x hx)
  apart x hx := by
    rcases List.mem_cons.1 hx with rfl | hx
    · exact fun hmem => hseen ((h.seen_iff x).2 (Or.inr hmem))
    · exact h.apart x hx
  layered := h.layered
  mem_stack x hx := by
    rcases List.mem_cons.1 hx with rfl | hx
    · exact List.mem_cons_self
    · exact List.mem_cons_of_mem r (h.mem_stack x hx)
  later x hx y hy hle := by
    rcases List.mem_cons.1 hx with hxr | hxpath <;> rcases List.mem_cons.1 hy with hyr | hystack
    · rw [hxr, hyr]
      exact .refl
    · have hlt := h.below y hystack
      rw [hxr, indexOf_enter_self, h.indexOf_enter hseen hystack] at hle
      omega
    · rw [hyr]
      exact hpath x hxpath
    · rw [h.indexOf_enter hseen (h.mem_stack x hxpath), h.indexOf_enter hseen hystack] at hle
      exact h.later x hxpath y hystack hle
  back y hy := by
    rcases List.mem_cons.1 hy with rfl | hy
    · exact ⟨y, List.mem_cons_self, .refl, Nat.le_refl _⟩
    · obtain ⟨x, hx, hreach, hle⟩ := h.back y hy
      refine ⟨x, List.mem_cons_of_mem r hx, hreach, ?_⟩
      rwa [h.indexOf_enter hseen (h.mem_stack x hx), h.indexOf_enter hseen hy]
  passed x hx hout y hy := by
    rw [List.mem_cons, not_or] at hout
    exact seen_enter.2 (Or.inr (h.passed x ((List.mem_cons.1 hx).resolve_left hout.1) hout.2 y hy))

/-! ### Visits -/

/-- What a visit to a relation comes to: what it leaves on the stack above leads to nothing below that is earlier than
the relation's low number, and something on the stack that depends on the relation has that number, unless the relation
has a component. -/
structure Visited (deps : Dependencies) (path : List String) (s : Search) (r : String) (s' : Search) : Prop where
  regular : s'.Regular deps path
  extended : s.Extends s'
  seen : s'.Seen r
  exists_low : ∃ z, deps.Reaches r z ∧ s'.indexOf z = s'.lowOf r ∧ (z ∈ s'.stack ∨ s.nextIndex ≤ s'.lowOf r)
  low_le : ∀ y ∈ s'.stack, y ∉ s.stack → ∀ z ∈ s.stack, deps.Feeds y z → s'.lowOf r ≤ s'.indexOf z

/-- How far a visit to a relation has come that has followed some of what depends on it. -/
structure Follows (deps : Dependencies) (path : List String) (s : Search) (r : String) (done : List String)
    (s' : Search) : Prop where
  regular : s'.Regular deps (r :: path)
  extended : s.Extends s'
  stack : r :: s.stack <:+ s'.stack
  indexOf_self : s'.indexOf r = s.nextIndex
  low_le_index : s'.lowOf r ≤ s'.indexOf r
  exists_low : ∃ z ∈ s'.stack, deps.Reaches r z ∧ s'.indexOf z = s'.lowOf r
  seen : ∀ x ∈ done, s'.Seen x
  low_le : ∀ y ∈ s'.stack, y ∉ s.stack → ∀ z ∈ s.stack, deps.Feeds y z → (y = r → z ∈ done) → s'.lowOf r ≤ s'.indexOf z

theorem Follows.mem_stack (h : Follows deps path s r done s') : r ∈ s'.stack := h.stack.subset List.mem_cons_self

theorem Follows.lowOf_lt (h : Follows deps path s r done s') : s'.lowOf r < s'.nextIndex :=
  Nat.lt_of_le_of_lt h.low_le_index (h.regular.below r h.mem_stack)

theorem follows_enter (h : s.Regular deps path) (hr : r ∈ deps.relations) (hseen : ¬ s.Seen r)
    (hpath : ∀ x ∈ path, deps.Reaches x r) : Follows deps path s r [] (s.enter r) where
  regular := h.enter hr hseen hpath
  extended := .enter hseen
  stack := List.suffix_rfl
  indexOf_self := indexOf_enter_self
  low_le_index := Nat.le_of_eq (lowOf_enter_self.trans indexOf_enter_self.symm)
  exists_low := ⟨r, List.mem_cons_self, .refl, by rw [lowOf_enter_self, indexOf_enter_self]⟩
  seen _ hx := absurd hx List.not_mem_nil
  low_le y hy hout _ _ _ hdone :=
    absurd (hdone ((List.mem_cons.1 hy).resolve_right hout)) List.not_mem_nil

/-- One more dependency that is followed leads to one more relation at most. -/
theorem Follows.low_le_of_ne (h : Follows deps path s r done s') (hy : y ∈ s'.stack) (hout : y ∉ s.stack) (hz : z ∈ s.stack)
    (hfeeds : deps.Feeds y z) (hdone : y = r → z ∈ done ++ [x]) (hne : z ≠ x) : s'.lowOf r ≤ s'.indexOf z := by
  refine h.low_le y hy hout z hz hfeeds fun hyr => ?_
  exact (List.mem_append.1 (hdone hyr)).resolve_right fun hmem => hne (List.mem_singleton.1 hmem)

/-- Following a dependency to a relation that the search has not come to: the relation is visited. -/
theorem Follows.visited {t : Search} (h : Follows deps path s r done s') (hseen : ¬ s.Seen r) (hx : deps.Feeds r x)
    (hnew : ¬ s'.Seen x) (hvisited : Visited deps (r :: path) s' x t) :
    Follows deps path s r (done ++ [x]) (t.lower r (t.lowOf x)) := by
  have hrseen := h.regular.seen_of_mem h.mem_stack
  have hindex : t.indexOf r = s'.indexOf r := hvisited.extended.indexOf hrseen
  have hself : (t.lower r (t.lowOf x)).lowOf r = min (s'.lowOf r) (t.lowOf x) := by
    rw [lowOf_lower_self, hvisited.extended.lowOf hrseen]
  exact {
    regular := hvisited.regular.lower
    extended := (h.extended.trans hvisited.extended).lower hseen
    stack := h.stack.trans hvisited.extended.stack
    indexOf_self := hindex.trans h.indexOf_self
    low_le_index := by
      rw [hself]
      exact Nat.le_trans (Nat.min_le_left _ _) (Nat.le_trans h.low_le_index (Nat.le_of_eq hindex.symm))
    exists_low := by
      rw [hself]
      rcases Nat.le_total (s'.lowOf r) (t.lowOf x) with hle | hle
      · obtain ⟨z, hz, hreach, hzlow⟩ := h.exists_low
        refine ⟨z, hvisited.extended.stack.subset hz, hreach, ?_⟩
        rw [Nat.min_eq_left hle, ← hzlow]
        exact hvisited.extended.indexOf (h.regular.seen_of_mem hz)
      · obtain ⟨z, hreach, hzlow, hz | hlater⟩ := hvisited.exists_low
        · exact ⟨z, hz, hreach.head hx, hzlow.trans (Nat.min_eq_right hle).symm⟩
        · have hlt := h.lowOf_lt
          omega
    seen := List.forall_mem_append.2
      ⟨fun y hy => hvisited.extended.seen (h.seen y hy), List.forall_mem_singleton.2 hvisited.seen⟩
    low_le := fun y hy hout z hz hfeeds hdone => by
      rw [hself]
      have hzseen := h.regular.seen_of_mem (h.extended.stack.subset hz)
      by_cases hyold : y ∈ s'.stack
      · have hle := h.low_le_of_ne hyold hout hz hfeeds hdone fun hzx => hnew (hzx ▸ hzseen)
        exact Nat.le_trans (Nat.min_le_left _ _) (Nat.le_trans hle (Nat.le_of_eq (hvisited.extended.indexOf hzseen).symm))
      · exact Nat.le_trans (Nat.min_le_right _ _)
          (hvisited.low_le y hy hyold z (h.extended.stack.subset hz) hfeeds) }

/-- Following a dependency to a relation that is on the stack. -/
theorem Follows.onStack (h : Follows deps path s r done s') (hseen : ¬ s.Seen r) (hx : deps.Feeds r x)
    (hmem : x ∈ s'.stack) : Follows deps path s r (done ++ [x]) (s'.lower r (s'.indexOf x)) := by
  have hself : (s'.lower r (s'.indexOf x)).lowOf r = min (s'.lowOf r) (s'.indexOf x) := lowOf_lower_self
  exact {
    regular := h.regular.lower
    extended := h.extended.lower hseen
    stack := h.stack
    indexOf_self := h.indexOf_self
    low_le_index := by
      rw [hself]
      exact Nat.le_trans (Nat.min_le_left _ _) h.low_le_index
    exists_low := by
      rw [hself]
      rcases Nat.le_total (s'.lowOf r) (s'.indexOf x) with hle | hle
      · obtain ⟨z, hz, hreach, hzlow⟩ := h.exists_low
        exact ⟨z, hz, hreach, hzlow.trans (Nat.min_eq_left hle).symm⟩
      · exact ⟨x, hmem, .single hx, (Nat.min_eq_right hle).symm⟩
    seen := List.forall_mem_append.2 ⟨h.seen, List.forall_mem_singleton.2 (h.regular.seen_of_mem hmem)⟩
    low_le := fun y hy hout z hz hfeeds hdone => by
      rw [hself]
      by_cases hzx : z = x
      · rw [hzx]
        exact Nat.min_le_right _ _
      · exact Nat.le_trans (Nat.min_le_left _ _) (h.low_le_of_ne hy hout hz hfeeds hdone hzx) }

/-- Following a dependency to a relation that has a component. -/
theorem Follows.hasComponent (h : Follows deps path s r done s') (hx : s'.Seen x) (hmem : x ∉ s'.stack) :
    Follows deps path s r (done ++ [x]) s' where
  regular := h.regular
  extended := h.extended
  stack := h.stack
  indexOf_self := h.indexOf_self
  low_le_index := h.low_le_index
  exists_low := h.exists_low
  seen := List.forall_mem_append.2 ⟨h.seen, List.forall_mem_singleton.2 hx⟩
  low_le _ hy hout _ hz hfeeds hdone :=
    h.low_le_of_ne hy hout hz hfeeds hdone fun hzx => hmem (hzx ▸ h.extended.stack.subset hz)

/-! ### Leaving -/

theorem popTo_append {above stack : List String} (hr : r ∉ above) :
    popTo r (above ++ r :: stack) = (above ++ [r], stack) := by
  induction above with
  | nil => simp [popTo]
  | cons x above ih =>
    rw [List.mem_cons, not_or] at hr
    rw [List.cons_append, popTo, if_neg (Ne.symm hr.1), ih hr.2]
    rfl

/-- What lies on the stack above a relation is what came to it since. -/
theorem Follows.exists_above (h : Follows deps path s r done s') :
    ∃ above, s'.stack = above ++ r :: s.stack ∧ r ∉ above ∧
      ∀ x, x ∈ above ++ [r] ↔ x ∈ s'.stack ∧ x ∉ s.stack := by
  obtain ⟨above, habove⟩ := h.stack
  have hnodup := h.regular.nodup_stack
  rw [← habove, List.nodup_append] at hnodup
  obtain ⟨-, hbelow, hapart⟩ := hnodup
  refine ⟨above, habove.symm, fun hr => hapart r hr r List.mem_cons_self rfl, fun x => ?_⟩
  rw [← habove, List.mem_append, List.mem_singleton, List.mem_append, List.mem_cons]
  constructor
  · rintro (hx | rfl)
    · exact ⟨Or.inl hx, fun hold => hapart x hx x (List.mem_cons_of_mem r hold) rfl⟩
    · exact ⟨Or.inr (Or.inl rfl), (List.nodup_cons.1 hbelow).1⟩
  · rintro ⟨hx | hx | hx, hold⟩
    · exact Or.inl hx
    · exact Or.inr hx
    · exact absurd hx hold

theorem Follows.indexOf_lt (h : Follows deps path s r done s') (hz : z ∈ s.stack) : s'.indexOf z < s'.indexOf r :=
  (List.pairwise_cons.1 (h.regular.sorted.sublist h.stack.sublist)).1 z hz

theorem Follows.le_indexOf (h : Follows deps path s r done s') (hy : y ∈ s'.stack) (hout : y ∉ s.stack) :
    s'.indexOf r ≤ s'.indexOf y := by
  obtain ⟨above, habove, -, hmem⟩ := h.exists_above
  rcases List.mem_append.1 ((hmem y).2 ⟨hy, hout⟩) with hy | hy
  · have hsorted := h.regular.sorted
    rw [habove, List.pairwise_append] at hsorted
    exact Nat.le_of_lt (hsorted.2.2 y hy r List.mem_cons_self)
  · exact Nat.le_of_eq (by rw [List.mem_singleton.1 hy])

/-- Everything that depends on a relation above the old stack has been come to. -/
theorem Follows.passed (h : Follows deps path s r (deps.dependents r) s') (hpath : ∀ x ∈ path, x ∈ s.stack)
    (hy : y ∈ s'.stack) (hout : y ∉ s.stack) (hfeeds : deps.Feeds y z) : s'.Seen z := by
  by_cases hyr : y = r
  · exact h.seen z (hyr ▸ hfeeds)
  · refine h.regular.passed y hy (fun hmem => ?_) z hfeeds
    exact hout (hpath y ((List.mem_cons.1 hmem).resolve_left hyr))

/-- If the relation's low number is its own, no dependency leads down to the old stack. -/
theorem Follows.closed (h : Follows deps path s r (deps.dependents r) s') (hpath : ∀ x ∈ path, x ∈ s.stack)
    (hlow : s'.lowOf r = s'.indexOf r) (hy : y ∈ s'.stack) (hout : y ∉ s.stack) (hfeeds : deps.Feeds y z) :
    (z ∈ s'.stack ∧ z ∉ s.stack) ∨ z ∈ s'.components.flatten := by
  refine ((h.regular.seen_iff z).1 (h.passed hpath hy hout hfeeds)).imp_left fun hz => ⟨hz, fun hold => ?_⟩
  have hle := h.low_le y hy hout z hold hfeeds fun hyr => hyr ▸ hfeeds
  have hlt := h.indexOf_lt hold
  omega

/-- Then what lies above it and the relation depend on each other: a way back that led to an earlier relation of the
path would lead down to the old stack. -/
theorem Follows.mutual (h : Follows deps path s r (deps.dependents r) s') (hpath : ∀ x ∈ path, x ∈ s.stack)
    (hlow : s'.lowOf r = s'.indexOf r) (hy : y ∈ s'.stack) (hout : y ∉ s.stack) : deps.Mutual r y := by
  refine ⟨h.regular.later r List.mem_cons_self y hy (h.le_indexOf hy hout), ?_⟩
  obtain ⟨x, hx, hreach, -⟩ := h.regular.back y hy
  rcases List.mem_cons.1 hx with rfl | hx
  · exact hreach
  · obtain ⟨above, -, -, hmem⟩ := h.exists_above
    have hstays : x ∈ (above ++ [r]) ++ s'.components.flatten := by
      refine hreach.mem (fun u hu v huv => ?_) (List.mem_append_left _ ((hmem y).2 ⟨hy, hout⟩))
      rw [List.mem_append, hmem] at hu ⊢
      rcases hu with hu | hu
      · exact h.closed hpath hlow hu.1 hu.2 huv
      · exact Or.inr (h.regular.layered.closed u hu v huv)
    have hold := hpath x hx
    rw [List.mem_append, hmem] at hstays
    rcases hstays with hstays | hstays
    · exact absurd hold hstays.2
    · exact absurd hstays (h.regular.apart x (h.extended.stack.subset hold))

theorem lookup_map_false (popped : List String) (table : List (String × Bool)) :
    (popped.map (·, false) ++ table).lookup x = some true ↔ x ∉ popped ∧ table.lookup x = some true := by
  induction popped with
  | nil => simp
  | cons y popped ih =>
    rw [List.map_cons, List.cons_append]
    by_cases hxy : x = y
    · simp [hxy]
    · rw [lookup_cons_of_ne hxy, ih, List.mem_cons, not_or]
      simp [hxy]

/-- The search with a component put down and the rest of the stack left. -/
def putDown (s : Search) (component stack : List String) : Search :=
  { s with
    stack
    onStack := component.map (·, false) ++ s.onStack
    components := component :: s.components }

/-- A relation whose low number is its own is put down with what came to the stack since. -/
theorem Follows.exists_putDown (h : Follows deps path s r done s') (hlow : s'.lowOf r = s'.indexOf r) :
    ∃ c, s'.leave r = s'.putDown c s.stack ∧ c.Nodup ∧ ∀ x, x ∈ c ↔ x ∈ s'.stack ∧ x ∉ s.stack := by
  obtain ⟨above, habove, hr, hmem⟩ := h.exists_above
  refine ⟨above ++ [r], ?_, ?_, hmem⟩
  · unfold Search.leave putDown
    rw [if_pos hlow, habove, popTo_append hr]
  · have hnodup := h.regular.nodup_stack
    rw [habove, List.append_cons] at hnodup
    exact (List.nodup_append.1 hnodup).1

theorem Follows.layered_putDown (h : Follows deps path s r (deps.dependents r) s') (hpath : ∀ x ∈ path, x ∈ s.stack)
    (hlow : s'.lowOf r = s'.indexOf r) (hr : r ∈ c) (hnodup : c.Nodup)
    (hmem : ∀ x, x ∈ c ↔ x ∈ s'.stack ∧ x ∉ s.stack) : Layered deps (c :: s'.components) := by
  refine h.regular.layered.cons hr (fun x hx => ?_) hnodup (fun x hx => ?_) fun x hx y hy => ?_
  · exact h.mutual hpath hlow ((hmem x).1 hx).1 ((hmem x).1 hx).2
  · exact h.regular.apart x ((hmem x).1 hx).1
  · rw [hmem]
    exact h.closed hpath hlow ((hmem x).1 hx).1 ((hmem x).1 hx).2 hy

theorem Follows.regular_putDown (h : Follows deps path s r done s') (hpath : ∀ x ∈ path, x ∈ s.stack) (hr : r ∉ s.stack)
    (hlayered : Layered deps (c :: s'.components)) (hmem : ∀ x, x ∈ c ↔ x ∈ s'.stack ∧ x ∉ s.stack) :
    (s'.putDown c s.stack).Regular deps path where
  mem_relations := h.regular.mem_relations
  seen_iff x := by
    refine (h.regular.seen_iff x).trans ?_
    rw [putDown, List.flatten_cons, List.mem_append, hmem]
    constructor
    · intro hx
      by_cases hxold : x ∈ s.stack
      · exact Or.inl hxold
      · exact Or.inr (hx.imp_left fun hx => ⟨hx, hxold⟩)
    · rintro (hx | hx | hx)
      · exact Or.inl (h.extended.stack.subset hx)
      · exact Or.inl hx.1
      · exact Or.inr hx
  onStack_iff x := by
    rw [putDown, lookup_map_false, h.regular.onStack_iff, hmem]
    exact ⟨fun hx => by_contra fun hout => hx.1 ⟨hx.2, hout⟩,
      fun hx => ⟨fun hout => hout.2 hx, h.extended.stack.subset hx⟩⟩
  sorted := h.regular.sorted.sublist h.extended.stack.sublist
  below x hx := h.regular.below x (h.extended.stack.subset hx)
  apart x hx := by
    rw [putDown, List.flatten_cons, List.mem_append, hmem, not_or]
    exact ⟨fun hout => hout.2 hx, h.regular.apart x (h.extended.stack.subset hx)⟩
  layered := hlayered
  mem_stack := hpath
  later x hx y hy := h.regular.later x (List.mem_cons_of_mem r hx) y (h.extended.stack.subset hy)
  back y hy := by
    obtain ⟨x, hx, hreach, hle⟩ := h.regular.back y (h.extended.stack.subset hy)
    refine ⟨x, (List.mem_cons.1 hx).resolve_left fun hxr => ?_, hreach, hle⟩
    have hlt := h.indexOf_lt hy
    rw [← hxr] at hlt
    exact absurd hle (Nat.not_le.2 hlt)
  passed x hx hout y hy := by
    refine h.regular.passed x (h.extended.stack.subset hx) (fun hmem' => ?_) y hy
    exact hr ((List.mem_cons.1 hmem').resolve_right hout ▸ hx)

/-- A relation whose low number is its own is left with its component. -/
theorem Follows.leave_of_eq (h : Follows deps path s r (deps.dependents r) s') (hs : s.Regular deps path)
    (hlow : s'.lowOf r = s'.indexOf r) : Visited deps path s r (s'.leave r) := by
  obtain ⟨c, hleave, hnodup, hmem⟩ := h.exists_putDown hlow
  have hr : r ∉ s.stack := fun hr => Nat.lt_irrefl _ (h.indexOf_lt hr)
  have hlayered := h.layered_putDown hs.mem_stack hlow ((hmem r).2 ⟨h.mem_stack, hr⟩) hnodup hmem
  rw [hleave]
  exact {
    regular := h.regular_putDown hs.mem_stack hr hlayered hmem
    extended := ⟨List.suffix_rfl, h.extended.index, h.extended.low⟩
    seen := h.regular.seen_of_mem h.mem_stack
    exists_low := ⟨r, .refl, hlow.symm, Or.inr (Nat.le_of_eq (hlow.trans h.indexOf_self).symm)⟩
    low_le := fun _ hy hout => absurd hy hout }

/-- If the low number of the relation is not its own, the relations on the stack lead to earlier ones of the path without
it: the way back to the relation goes on to an earlier one, and from there to the path. -/
theorem Follows.exists_back (h : Follows deps path s r done s') (hlow : s'.lowOf r ≠ s'.indexOf r) (hy : y ∈ s'.stack) :
    ∃ x ∈ path, deps.Reaches y x ∧ s'.indexOf x ≤ s'.indexOf y := by
  have hlt : s'.lowOf r < s'.indexOf r := Nat.lt_of_le_of_ne h.low_le_index hlow
  obtain ⟨x, hx, hreach, hle⟩ := h.regular.back y hy
  rcases List.mem_cons.1 hx with rfl | hx
  · obtain ⟨w, hw, hxw, hwlow⟩ := h.exists_low
    obtain ⟨u, hu, hwu, hule⟩ := h.regular.back w hw
    refine ⟨u, (List.mem_cons.1 hu).resolve_left fun hux => ?_, hreach.trans (hxw.trans hwu), by omega⟩
    rw [hux] at hule
    omega
  · exact ⟨x, hx, hreach, hle⟩

theorem Follows.regular_of_ne (h : Follows deps path s r (deps.dependents r) s') (hpath : ∀ x ∈ path, x ∈ s.stack)
    (hlow : s'.lowOf r ≠ s'.indexOf r) : s'.Regular deps path where
  mem_relations := h.regular.mem_relations
  seen_iff := h.regular.seen_iff
  onStack_iff := h.regular.onStack_iff
  sorted := h.regular.sorted
  below := h.regular.below
  apart := h.regular.apart
  layered := h.regular.layered
  mem_stack x hx := h.extended.stack.subset (hpath x hx)
  later x hx := h.regular.later x (List.mem_cons_of_mem r hx)
  back _ hy := h.exists_back hlow hy
  passed x hx hout y hy := by
    by_cases hxr : x = r
    · exact h.seen y (hxr ▸ hy)
    · exact h.regular.passed x hx (fun hmem => hout ((List.mem_cons.1 hmem).resolve_left hxr)) y hy

/-- Any other relation is left on the stack, where an earlier one depends on it. -/
theorem Follows.leave_of_ne (h : Follows deps path s r (deps.dependents r) s') (hs : s.Regular deps path)
    (hlow : s'.lowOf r ≠ s'.indexOf r) : Visited deps path s r (s'.leave r) := by
  have hleave : s'.leave r = s' := by
    unfold Search.leave
    rw [if_neg hlow]
  obtain ⟨w, hw, hrw, hwlow⟩ := h.exists_low
  rw [hleave]
  exact {
    regular := h.regular_of_ne hs.mem_stack hlow
    extended := h.extended
    seen := h.regular.seen_of_mem h.mem_stack
    exists_low := ⟨w, hrw, hwlow, Or.inl hw⟩
    low_le := fun y hy hout z hz hfeeds => h.low_le y hy hout z hz hfeeds fun hyr => hyr ▸ hfeeds }

theorem Follows.leave (h : Follows deps path s r (deps.dependents r) s') (hs : s.Regular deps path) :
    Visited deps path s r (s'.leave r) := by
  by_cases hlow : s'.lowOf r = s'.indexOf r
  · exact h.leave_of_eq hs hlow
  · exact h.leave_of_ne hs hlow

/-! ### The whole search -/

/-- When a relation may be visited: the path leads to it, and the search may go deep enough to come everywhere. -/
structure MayVisit (deps : Dependencies) (n : Nat) (path : List String) (s : Search) (r : String) : Prop where
  regular : s.Regular deps path
  mem_relations : r ∈ deps.relations
  unseen : ¬ s.Seen r
  leads : ∀ x ∈ path, deps.Reaches x r
  enough : (s.unseen deps).length ≤ n

/-- One dependency is followed. -/
theorem Follows.follow {visit : Search → String → Search}
    (hvisit : ∀ t x, MayVisit deps n (r :: path) t x → Visited deps (r :: path) t x (visit t x))
    (hdeps : deps.IsClosed) (hmay : MayVisit deps (n + 1) path s r) (h : Follows deps path s r done s')
    (hx : deps.Feeds r x) : Follows deps path s r (done ++ [x]) (s'.follow visit r x) := by
  unfold Search.follow
  by_cases hnew : s'.Seen x
  · rw [if_neg (isNone_lookup_iff.not.2 (not_not.2 hnew))]
    by_cases hstack : x ∈ s'.stack
    · rw [if_pos ((h.regular.onStack_iff x).2 hstack)]
      exact h.onStack hmay.unseen hx hstack
    · rw [if_neg ((h.regular.onStack_iff x).not.2 hstack)]
      exact h.hasComponent hnew hstack
  · rw [if_pos (isNone_lookup_iff.2 hnew)]
    refine h.visited hmay.unseen hx hnew (hvisit s' x ⟨h.regular, hdeps r x hx, hnew, fun y hy => ?_, ?_⟩)
    · rcases List.mem_cons.1 hy with rfl | hy
      · exact .single hx
      · exact (hmay.leads y hy).tail hx
    · have hlt := length_unseen_lt (fun _ => h.extended.seen) hmay.mem_relations hmay.unseen
        (h.regular.seen_of_mem h.mem_stack)
      have henough := hmay.enough
      omega

theorem Follows.foldl {visit : Search → String → Search} {rest : List String}
    (hvisit : ∀ t x, MayVisit deps n (r :: path) t x → Visited deps (r :: path) t x (visit t x))
    (hdeps : deps.IsClosed) (hmay : MayVisit deps (n + 1) path s r) (h : Follows deps path s r done s')
    (hrest : ∀ x ∈ rest, deps.Feeds r x) :
    Follows deps path s r (done ++ rest) (rest.foldl (Search.follow visit r) s') := by
  induction rest generalizing done s' with
  | nil => rwa [List.append_nil]
  | cons x rest ih =>
    have hnext := h.follow hvisit hdeps hmay (hrest x List.mem_cons_self)
    rw [List.append_cons]
    exact ih hnext fun y hy => hrest y (List.mem_cons_of_mem x hy)

/-- By induction on how deep the search may go: what depends on the relation is followed, then the relation is left. -/
theorem visited_visit (hdeps : deps.IsClosed) (h : MayVisit deps n path s r) :
    Visited deps path s r (visit deps n s r) := by
  induction n generalizing path s r with
  | zero =>
    have hmem := mem_unseen.2 ⟨h.mem_relations, h.unseen⟩
    rw [List.length_eq_zero_iff.1 (Nat.le_zero.1 h.enough)] at hmem
    exact absurd hmem List.not_mem_nil
  | succ n ih =>
    have hstart := follows_enter h.regular h.mem_relations h.unseen h.leads
    have hend := hstart.foldl (fun t x ht => ih ht) hdeps h fun x hx => hx
    rw [List.nil_append] at hend
    exact hend.leave h.regular

end Search

/-- A visit to a relation that the search has not come to starts with an empty path. -/
theorem visited_of_unseen {s : Search} (hdeps : deps.IsClosed) (h : s.Regular deps []) (hr : r ∈ deps.relations)
    (hseen : ¬ s.Seen r) : Search.Visited deps [] s r (visit deps deps.length s r) := by
  refine Search.visited_visit hdeps ⟨h, hr, hseen, fun _ hx => absurd hx List.not_mem_nil, ?_⟩
  refine Nat.le_trans (List.length_filter_le _ _) (Nat.le_of_eq ?_)
  unfold relations
  rw [List.length_map]

/-- The search that starts from some relations in turn comes to all of them. -/
theorem regular_foldl_visitNew {s : Search} {rs : List String} (hdeps : deps.IsClosed) (h : s.Regular deps [])
    (hrs : ∀ r ∈ rs, r ∈ deps.relations) :
    (rs.foldl (visitNew deps) s).Regular deps [] ∧ ∀ r, s.Seen r ∨ r ∈ rs → (rs.foldl (visitNew deps) s).Seen r := by
  induction rs generalizing s with
  | nil => exact ⟨h, fun r hr => hr.resolve_right List.not_mem_nil⟩
  | cons r rs ih =>
    have hfirst : (visitNew deps s r).Regular deps [] ∧ (visitNew deps s r).Seen r ∧
        ∀ x, s.Seen x → (visitNew deps s r).Seen x := by
      unfold visitNew
      by_cases hseen : s.Seen r
      · rw [if_neg (Search.isNone_lookup_iff.not.2 (not_not.2 hseen))]
        exact ⟨h, hseen, fun _ hx => hx⟩
      · rw [if_pos (Search.isNone_lookup_iff.2 hseen)]
        have hvisited := visited_of_unseen hdeps h (hrs r List.mem_cons_self) hseen
        exact ⟨hvisited.regular, hvisited.seen, fun _ => hvisited.extended.seen⟩
    obtain ⟨hregular, hall⟩ := ih hfirst.1 fun x hx => hrs x (List.mem_cons_of_mem r hx)
    refine ⟨hregular, fun x hx => hall x ?_⟩
    rcases hx with hx | hx
    · exact Or.inl (hfirst.2.2 x hx)
    · rcases List.mem_cons.1 hx with rfl | hx
      · exact Or.inl hfirst.2.1
      · exact Or.inr hx

/-- The components that the search puts down are the classes of relations that depend on each other, and every relation
has one. -/
theorem layered_search (hdeps : deps.IsClosed) :
    Layered deps deps.search.components ∧ ∀ r, r ∈ deps.search.components.flatten ↔ r ∈ deps.relations := by
  obtain ⟨hregular, hall⟩ := regular_foldl_visitNew hdeps (Search.regular_empty deps) fun r (hr : r ∈ deps.relations) => hr
  refine ⟨hregular.layered, fun r => ⟨fun hr => ?_, fun hr => ?_⟩⟩
  · exact hregular.mem_relations r ((hregular.seen_iff r).2 (Or.inr hr))
  · -- Nothing is left on the stack, as the path is empty.
    refine ((hregular.seen_iff r).1 (hall r (Or.inr hr))).resolve_left fun hmem => ?_
    obtain ⟨x, hx, -⟩ := hregular.back r hmem
    exact List.not_mem_nil hx

end Deduction.Dependencies
