import Deduction.Search.Basic

/-!
# Solving goals by recursion

The stores in which a goal holds, in the order in which depth-first search with backtracking finds them, by plain
recursion over goals. A goal may have no end of stores, so the recursion is cut off at a depth: what is found above
that depth is the beginning of what there is, and it is known whether it is all there is (`Sources.solve_le`).
-/

namespace Deduction

/-! ### Yields -/

/-- Stores found one after the other, and whether they are all there are. -/
structure Yield where
  stores : List Store
  isAll : Bool

namespace Yield

/-- Nothing is known. -/
def cut : Yield := ⟨[], false⟩

/-- These stores and no others. -/
def all (stores : List Store) : Yield := ⟨stores, true⟩

/-- What the second one yields comes after all that the first one yields. -/
def append (x y : Yield) : Yield := if x.isAll then ⟨x.stores ++ y.stores, y.isAll⟩ else x

/-- What all of them yield, one after the other. -/
def join (xs : List Yield) : Yield := xs.foldr append (all [])

/-- Goes on from every store. -/
def bind (x : Yield) (f : Store → Yield) : Yield := (join (x.stores.map f)).append ⟨[], x.isAll⟩

/-- The store, unless something is found. -/
def negation (x : Yield) (s : Store) : Yield :=
  match x.stores, x.isAll with
  | _ :: _, _ => all []
  | [], true => all [s]
  | [], false => cut

/-! ### Sums -/

variable {x y z x' y' : Yield} {f g : Store → Yield} {s : Store}

@[simp] theorem append_of_isAll (h : x.isAll = true) : x.append y = ⟨x.stores ++ y.stores, y.isAll⟩ := if_pos h

@[simp] theorem append_of_not_isAll (h : x.isAll = false) : x.append y = x := if_neg (by simp [h])

@[simp] theorem all_nil_append (x : Yield) : (all []).append x = x := rfl

@[simp] theorem append_all_nil (x : Yield) : x.append (all []) = x := by
  obtain ⟨stores, isAll⟩ := x
  cases isAll with
  | true => simp [all]
  | false => simp

theorem append_assoc (x y z : Yield) : (x.append y).append z = x.append (y.append z) := by
  cases hx : x.isAll with
  | false => simp [hx]
  | true =>
    cases hy : y.isAll with
    | false => simp [hx, hy]
    | true => simp [hx, hy]

@[simp] theorem join_nil : join [] = all [] := rfl

@[simp] theorem join_cons (x : Yield) (xs : List Yield) : join (x :: xs) = x.append (join xs) := rfl

theorem join_append (xs ys : List Yield) : join (xs ++ ys) = (join xs).append (join ys) := by
  induction xs with
  | nil => rfl
  | cons x xs ih => rw [List.cons_append, join_cons, join_cons, ih, append_assoc]

theorem join_map_all {α : Type} (f : α → List Store) (as : List α) :
    join (as.map fun a => all (f a)) = all (as.flatMap f) := by
  induction as with
  | nil => rfl
  | cons a as ih => rw [List.map_cons, join_cons, ih, append_of_isAll rfl, List.flatMap_cons]; rfl

@[simp] theorem all_bind (stores : List Store) (f : Store → Yield) : (all stores).bind f = join (stores.map f) :=
  append_all_nil _

theorem bind_of_not_isAll (h : x.isAll = false) (f : Store → Yield) : (x.bind f).isAll = false := by
  unfold bind
  rw [h]
  cases hj : (join (x.stores.map f)).isAll with
  | true => rw [append_of_isAll hj]
  | false => rw [append_of_not_isAll hj, hj]

theorem append_bind (x y : Yield) (f : Store → Yield) : (x.append y).bind f = (x.bind f).append (y.bind f) := by
  cases hx : x.isAll with
  | false => rw [append_of_not_isAll hx, append_of_not_isAll (bind_of_not_isAll hx f)]
  | true =>
    unfold bind
    rw [append_of_isAll hx, List.map_append, join_append, hx, append_assoc]
    exact congrArg (Yield.append · _) (append_all_nil _).symm

theorem join_bind (xs : List Yield) (f : Store → Yield) : (join xs).bind f = join (xs.map (·.bind f)) := by
  induction xs with
  | nil => rfl
  | cons x xs ih => rw [join_cons, append_bind, ih, List.map_cons, join_cons]

theorem bind_assoc (x : Yield) (f g : Store → Yield) : (x.bind f).bind g = x.bind fun s => (f s).bind g := by
  change ((join (x.stores.map f)).append ⟨[], x.isAll⟩).bind g = _
  rw [append_bind, join_bind, List.map_map]
  rfl

theorem bind_all_single (x : Yield) : (x.bind fun s => all [s]) = x := by
  unfold bind
  rw [join_map_all (fun s => [s]), List.flatMap_singleton', append_of_isAll rfl]
  simp [all]

/-! ### More of the same -/

/-- The second one begins with all that the first one yields, and it is the first one if that is all there is. -/
structure Le (x y : Yield) : Prop where
  isPrefix : x.stores <+: y.stores
  eq_of_isAll : x.isAll = true → y = x

namespace Le

theorem refl (x : Yield) : Le x x := ⟨List.prefix_rfl, fun _ => rfl⟩

theorem of_cut (x : Yield) : Le cut x := ⟨List.nil_prefix, fun h => by cases h⟩

theorem trans (h : Le x y) (h' : Le y z) : Le x z := by
  refine ⟨h.isPrefix.trans h'.isPrefix, fun hx => ?_⟩
  obtain rfl := h.eq_of_isAll hx
  exact h'.eq_of_isAll hx

theorem append (h : Le x x') (h' : Le y y') : Le (x.append y) (x'.append y') := by
  cases hx : x.isAll with
  | true =>
    obtain rfl := h.eq_of_isAll hx
    rw [append_of_isAll hx, append_of_isAll hx]
    refine ⟨(List.prefix_append_right_inj _).2 h'.isPrefix, fun hy => ?_⟩
    obtain rfl := h'.eq_of_isAll hy
    rfl
  | false =>
    rw [append_of_not_isAll hx]
    refine ⟨h.isPrefix.trans ?_, fun hall => absurd hall (by simp [hx])⟩
    cases hx' : x'.isAll with
    | true =>
      rw [append_of_isAll hx']
      exact List.prefix_append _ _
    | false => simp [hx']

theorem join {α : Type} {f g : α → Yield} {as : List α} (h : ∀ a ∈ as, Le (f a) (g a)) :
    Le (Yield.join (as.map f)) (Yield.join (as.map g)) := by
  induction as with
  | nil => exact refl _
  | cons a as ih =>
    exact (h a List.mem_cons_self).append (ih fun b hb => h b (List.mem_cons_of_mem _ hb))

theorem bind (h : Le x y) (hfg : ∀ s, Le (f s) (g s)) : Le (x.bind f) (y.bind g) := by
  cases hx : x.isAll with
  | true =>
    obtain rfl := h.eq_of_isAll hx
    exact (join fun s _ => hfg s).append (refl _)
  | false =>
    obtain ⟨rest, hrest⟩ := h.isPrefix
    unfold Yield.bind
    rw [← hrest, hx, List.map_append, join_append, append_assoc]
    exact (join fun s _ => hfg s).append (of_cut _)

theorem negation (h : Le x y) (s : Store) : Le (x.negation s) (y.negation s) := by
  obtain ⟨stores, isAll⟩ := x
  cases stores with
  | cons t ts =>
    obtain ⟨rest, hrest⟩ := h.isPrefix
    unfold Yield.negation
    rw [← hrest]
    exact refl _
  | nil =>
    cases isAll with
    | true =>
      obtain rfl := h.eq_of_isAll rfl
      exact refl _
    | false => exact of_cut _

end Le

end Yield

/-- The store that an attempt leaves if it succeeds. -/
def made : Bool × Store → Option Store
  | (true, s) => some s
  | (false, _) => none

/-- Goals that are proved from left to right, each from the stores of the one before. -/
def through (solve : Closure → Store → Yield) : List Closure → Store → Yield
  | [], s => .all [s]
  | goal :: goals, s => (solve goal s).bind (through solve goals)

namespace Sources

/-- The stores in which a goal holds, from a store, as far as they are found without coming to the given depth. Goals
that compute a value, or read a list or a dataset, have none here. -/
def solve (src : Sources) : Nat → Closure → Store → Yield
  | 0, _, _ => .cut
  | n + 1, c, s =>
    let goal := s.resolve c.term c.env
    let (fresh, store) := s.newEnv
    match Goal.ofTerm src.rules goal.term with
    | .holds => .all [s]
    | .same x y => .all (made (s.unify x goal.env y goal.env)).toList
    | .distinct x y => .all (if (s.unify x goal.env y goal.env).1 then [] else [s])
    | .negation g => (solve src n ⟨g, goal.env⟩ s).negation s
    | .conjunction gs => through (solve src n) (gs.map (⟨·, goal.env⟩)) s
    | .disjunction gs => .join (gs.map fun g => solve src n ⟨g, goal.env⟩ s)
    | .base =>
      .all ((src.factsFor s goal.term goal.env).filterMap fun fact => made (store.unify goal.term goal.env fact fresh))
    | .view =>
      .join ((src.rules.lookupIn s goal.term goal.env).map fun sentence =>
        match sentence.asRule with
        | some (head, body) =>
          match made (store.unify head fresh goal.term goal.env) with
          | some s => through (solve src n) (body.map (⟨·, fresh⟩)) s
          | none => .all []
        | none => .all (made (store.unify goal.term goal.env sentence fresh)).toList)
    | _ => .all []

end Sources

/-! ### Looking deeper -/

section

variable {solve solve' : Closure → Store → Yield}

theorem through_le (h : ∀ goal s, (solve goal s).Le (solve' goal s)) (goals : List Closure) (s : Store) :
    (through solve goals s).Le (through solve' goals s) := by
  induction goals generalizing s with
  | nil => exact .refl _
  | cons goal goals ih => exact (h goal s).bind ih

theorem through_append (goals goals' : List Closure) (s : Store) :
    through solve (goals ++ goals') s = (through solve goals s).bind (through solve goals') := by
  induction goals generalizing s with
  | nil => exact (Yield.append_all_nil _).symm.trans (Yield.all_bind [s] _).symm
  | cons goal goals ih =>
    rw [List.cons_append, through, through, Yield.bind_assoc]
    exact congrArg _ (funext ih)

end

/-- Looking deeper finds the same stores first, and no others once all were found. -/
theorem Sources.solve_le (src : Sources) (n : Nat) (c : Closure) (s : Store) :
    (src.solve n c s).Le (src.solve (n + 1) c s) := by
  induction n generalizing c s with
  | zero => exact .of_cut _
  | succ n ih =>
    rw [solve, solve]
    dsimp only
    split
    case h_1 | h_2 | h_3 | h_7 | h_9 => exact .refl _
    case h_4 => exact (ih _ _).negation s
    case h_5 => exact through_le ih _ _
    case h_6 => exact .join fun g _ => ih _ _
    case h_8 =>
      refine .join fun sentence _ => ?_
      split
      · split
        · exact through_le ih _ _
        · exact .refl _
      · exact .refl _

end Deduction
