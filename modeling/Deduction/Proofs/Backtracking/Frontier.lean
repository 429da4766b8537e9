import Deduction.Proofs.Backtracking.Solve

/-!
# Frontiers

Depth-first search goes from one list of branches to the next: a branch is replaced by those that its first goal leads
to. A negation opens a scope for the branches of its goal; the first solution there, or the lack of one, closes it.
A frontier is made of the branches and of the scopes around them, and it yields what its branches solve. Whatever the
next frontier yields, the one before it yields as well, when it is looked at more deeply (`Frontier.Covers`).
-/

namespace Deduction

variable {src : Sources} {n m : Nat} {goal : Closure} {goals : List Closure} {s : Store}

/-! ### Branches -/

/-- Goals that are left to prove from a store. -/
structure Branch where
  goals : List Closure
  store : Store

namespace Branch

variable {b : Branch} {bs bs' : List Branch}

/-- The stores in which all goals hold. -/
def solve (src : Sources) (n : Nat) (b : Branch) : Yield := through (src.solve n) b.goals b.store

/-- The branch with further goals. -/
def andThen (goals : List Closure) (b : Branch) : Branch := ⟨b.goals ++ goals, b.store⟩

/-- What all branches solve, one after the other. -/
def solveAll (src : Sources) (n : Nat) (bs : List Branch) : Yield := .join (bs.map (·.solve src n))

@[simp] theorem solveAll_nil : solveAll src n [] = .all [] := rfl

@[simp] theorem solveAll_cons : solveAll src n (b :: bs) = (b.solve src n).append (solveAll src n bs) := rfl

theorem solveAll_append : solveAll src n (bs ++ bs') = (solveAll src n bs).append (solveAll src n bs') := by
  unfold solveAll
  rw [List.map_append, Yield.join_append]

@[simp] theorem solve_nil (s : Store) : solve src n ⟨[], s⟩ = .all [s] := rfl

theorem solve_cons (goal : Closure) (goals : List Closure) (s : Store) :
    solve src n ⟨goal :: goals, s⟩ = (src.solve n goal s).bind (through (src.solve n) goals) := rfl

theorem solve_single (goal : Closure) (s : Store) : solve src n ⟨[goal], s⟩ = src.solve n goal s :=
  Yield.bind_all_single _

theorem solveAll_andThen : solveAll src n (bs.map (andThen goals)) =
    (solveAll src n bs).bind (through (src.solve n) goals) := by
  unfold solveAll
  rw [Yield.join_bind, List.map_map, List.map_map]
  exact congrArg Yield.join (List.map_congr_left fun b _ => through_append b.goals goals b.store)

theorem solve_le (b : Branch) : (b.solve src n).Le (b.solve src (n + 1)) := through_le (src.solve_le n) _ _

theorem solveAll_le (bs : List Branch) : (solveAll src n bs).Le (solveAll src (n + 1) bs) := .join fun b _ => b.solve_le

/-! ### Branches of a goal -/

/-- The goal was made equal to a fact. -/
def ofFact (goal : Closure) (fresh : EnvId) (s : Store) (fact : Term) : Option Branch :=
  (made (s.unify goal.term goal.env fact fresh)).map (⟨[], ·⟩)

/-- The goal was made equal to the head of a rule, whose body is left to prove, or to another sentence. -/
def ofSentence (goal : Closure) (fresh : EnvId) (s : Store) (sentence : Term) : Option Branch :=
  match sentence.asRule with
  | some (head, body) => (made (s.unify head fresh goal.term goal.env)).map (⟨body.map (⟨·, fresh⟩), ·⟩)
  | none => (made (s.unify goal.term goal.env sentence fresh)).map (⟨[], ·⟩)

/-- The branches that a goal leads to whose variables are resolved, unless it is a negation. -/
def expand (src : Sources) (goal : Closure) (s : Store) : List Branch :=
  match Goal.ofTerm src.rules goal.term with
  | .holds => [⟨[], s⟩]
  | .same x y => (made (s.unify x goal.env y goal.env)).toList.map (⟨[], ·⟩)
  | .distinct x y => if (s.unify x goal.env y goal.env).1 then [] else [⟨[], s⟩]
  | .conjunction gs => [⟨gs.map (⟨·, goal.env⟩), s⟩]
  | .disjunction gs => gs.map fun g => ⟨[⟨g, goal.env⟩], s⟩
  | .base => (src.factsFor s goal.term goal.env).filterMap (ofFact goal s.newEnv.1 s.newEnv.2)
  | .view => (src.rules.lookupIn s goal.term goal.env).filterMap (ofSentence goal s.newEnv.1 s.newEnv.2)
  | _ => []

theorem solveAll_map_nil (stores : List Store) : solveAll src n (stores.map (⟨[], ·⟩)) = .all stores := by
  unfold solveAll
  rw [List.map_map]
  exact (Yield.join_map_all (fun s => [s]) stores).trans (congrArg Yield.all (List.flatMap_singleton' _))

theorem solveAll_filterMap {α : Type} (f : α → Option Branch) (as : List α) :
    solveAll src n (as.filterMap f) =
      .join (as.map fun a => match f a with | some b => b.solve src n | none => .all []) := by
  induction as with
  | nil => rfl
  | cons a as ih =>
    rw [List.map_cons, Yield.join_cons, ← ih]
    cases hf : f a with
    | none => rw [List.filterMap_cons_none hf]; rfl
    | some b => rw [List.filterMap_cons_some hf]; rfl

/-- A goal yields what its branches solve one level deeper. -/
theorem solve_eq_expand (hgoal : ∀ g, Goal.ofTerm src.rules (s.resolve goal.term goal.env).term ≠ .negation g) :
    src.solve (n + 1) goal s = solveAll src n (expand src (s.resolve goal.term goal.env) s) := by
  unfold Sources.solve expand
  dsimp only
  cases hkind : Goal.ofTerm src.rules (s.resolve goal.term goal.env).term with
  | negation g => exact absurd hkind (hgoal g)
  | holds => rfl
  | same x y => exact (solveAll_map_nil _).symm
  | distinct x y => dsimp only; split <;> rfl
  | conjunction gs => exact (Yield.append_all_nil _).symm
  | disjunction gs =>
    unfold solveAll
    rw [List.map_map]
    exact congrArg Yield.join (List.map_congr_left fun g _ => (solve_single _ s).symm)
  | base =>
    refine (solveAll_map_nil _).symm.trans (congrArg (solveAll src n) ?_)
    rw [List.map_filterMap]
    rfl
  | view =>
    refine Eq.trans ?_ (solveAll_filterMap _ _).symm
    refine congrArg Yield.join (List.map_congr_left fun sentence _ => ?_)
    unfold ofSentence
    cases sentence.asRule with
    | none =>
      dsimp only
      cases made (s.newEnv.2.unify _ _ sentence s.newEnv.1) <;> rfl
    | some rule =>
      dsimp only
      cases made (s.newEnv.2.unify rule.1 s.newEnv.1 _ _) <;> rfl
  | fails | mutex | member | dataset | computed => rfl

end Branch

/-! ### Scopes -/

/-- A negation whose goal is being proved: the branch to go on with if the goal has no solution, and the branches after
it. -/
structure Scope where
  absent : Branch
  others : List Branch

/-- The branches that are left to try, and the negations around them, the innermost one first. -/
structure Frontier where
  branches : List Branch
  scopes : List Scope

namespace Frontier

variable {b : Branch} {bs bs' : List Branch} {scopes : List Scope} {x y z : Frontier}

/-- The stores that branches yield within negations. -/
def foundIn (src : Sources) (n : Nat) : List Branch → List Scope → Yield
  | bs, [] => Branch.solveAll src n bs
  | bs, scope :: scopes =>
    match (Branch.solveAll src n bs).stores, (Branch.solveAll src n bs).isAll with
    | _ :: _, _ => foundIn src n scope.others scopes
    | [], true => foundIn src n (scope.absent :: scope.others) scopes
    | [], false => .cut

/-- The stores that a frontier yields. -/
def found (src : Sources) (n : Nat) (x : Frontier) : Yield := foundIn src n x.branches x.scopes

theorem foundIn_le (hnm : ∀ bs, (Branch.solveAll src n bs).Le (Branch.solveAll src m bs))
    (h : (Branch.solveAll src n bs).Le (Branch.solveAll src m bs')) (scopes : List Scope) :
    (foundIn src n bs scopes).Le (foundIn src m bs' scopes) := by
  induction scopes generalizing bs bs' with
  | nil => exact h
  | cons scope scopes ih =>
    unfold foundIn
    generalize hx : Branch.solveAll src n bs = x at h
    generalize hy : Branch.solveAll src m bs' = y at h
    obtain ⟨stores, isAll⟩ := x
    cases stores with
    | cons t ts =>
      obtain ⟨rest, hrest⟩ := h.isPrefix
      rw [← hrest]
      exact ih (hnm _)
    | nil =>
      cases isAll with
      | true =>
        rw [h.eq_of_isAll rfl]
        exact ih (hnm _)
      | false => exact .of_cut _

/-- Whatever the second frontier yields, the first one yields it at some depth. -/
def Covers (src : Sources) (x y : Frontier) : Prop := ∀ n, ∃ m, (y.found src n).Le (x.found src m)

theorem Covers.refl (x : Frontier) : x.Covers src x := fun n => ⟨n, .refl _⟩

/-- The first goal is replaced by the branches that it leads to. -/
theorem covers_expand (hgoal : ∀ g, Goal.ofTerm src.rules (s.resolve goal.term goal.env).term ≠ .negation g) :
    Covers src ⟨⟨goal :: goals, s⟩ :: bs, scopes⟩
      ⟨(Branch.expand src (s.resolve goal.term goal.env) s).map (Branch.andThen goals) ++ bs, scopes⟩ := by
  refine fun n => ⟨n + 1, foundIn_le Branch.solveAll_le ?_ scopes⟩
  rw [Branch.solveAll_append, Branch.solveAll_andThen, Branch.solveAll_cons, Branch.solve_cons,
    Branch.solve_eq_expand hgoal]
  exact ((Yield.Le.refl _).bind fun s => through_le (src.solve_le n) goals s).append (Branch.solveAll_le bs)

/-- A negation opens a scope. -/
theorem covers_negation {g : Term} (hgoal : Goal.ofTerm src.rules (s.resolve goal.term goal.env).term = .negation g) :
    Covers src ⟨⟨goal :: goals, s⟩ :: bs, scopes⟩
      ⟨[⟨[⟨g, (s.resolve goal.term goal.env).env⟩], s⟩], ⟨⟨goals, s⟩, bs⟩ :: scopes⟩ := by
  intro n
  refine ⟨n + 1, ?_⟩
  have hsolve : src.solve (n + 1) goal s =
      (src.solve n ⟨g, (s.resolve goal.term goal.env).env⟩ s).negation s := by
    rw [Sources.solve]
    dsimp only
    rw [hgoal]
  have hinner : Branch.solveAll src n [⟨[⟨g, (s.resolve goal.term goal.env).env⟩], s⟩] =
      src.solve n ⟨g, (s.resolve goal.term goal.env).env⟩ s := by
    rw [Branch.solveAll_cons, Branch.solve_single]
    exact Yield.append_all_nil _
  have houter : Branch.solveAll src (n + 1) (⟨goal :: goals, s⟩ :: bs) =
      (((src.solve n ⟨g, (s.resolve goal.term goal.env).env⟩ s).negation s).bind
        (through (src.solve (n + 1)) goals)).append (Branch.solveAll src (n + 1) bs) := by
    rw [Branch.solveAll_cons, Branch.solve_cons, hsolve]
  unfold found
  dsimp only
  rw [foundIn]
  simp only [hinner]
  generalize src.solve n ⟨g, (s.resolve goal.term goal.env).env⟩ s = x at houter ⊢
  obtain ⟨stores, isAll⟩ := x
  cases stores with
  | cons t ts => exact foundIn_le Branch.solveAll_le (houter ▸ Branch.solveAll_le bs) scopes
  | nil =>
    cases isAll with
    | true =>
      refine foundIn_le Branch.solveAll_le (houter ▸ ?_) scopes
      have hstep : (Yield.negation ⟨[], true⟩ s).bind (through (src.solve (n + 1)) goals) =
          Branch.solve src (n + 1) ⟨goals, s⟩ := (Yield.all_bind [s] _).trans (Yield.append_all_nil _)
      rw [hstep]
      exact Branch.solveAll_le (⟨goals, s⟩ :: bs)
    | false => exact .of_cut _

/-- A solution of its goal refutes a negation. -/
theorem covers_refuted (scope : Scope) :
    Covers src ⟨⟨[], s⟩ :: bs, scope :: scopes⟩ ⟨scope.others, scopes⟩ := fun n => ⟨n, .refl _⟩

/-- A negation holds if its goal has no solution. -/
theorem covers_absent (scope : Scope) :
    Covers src ⟨[], scope :: scopes⟩ ⟨scope.absent :: scope.others, scopes⟩ := fun n => ⟨n, .refl _⟩

end Frontier

end Deduction
