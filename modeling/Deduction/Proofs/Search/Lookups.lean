import Mathlib.Data.List.Basic
import Deduction.Proofs.Theory.Reordered
import Deduction.Search.Query

/-!
# Searches look rules up

A search asks three things of the rules: which of them could fit a goal, which of them define a functor, and whether a
relation has any. Theories that hold the same terms in the same order answer alike, wherever the terms are placed and
whatever holes are between them. So every query has the same answers with either of them, and takes the same on the meter
(`consult_relisted`).
-/

namespace Deduction

/-! ### Theories with the same terms -/

namespace Theory

variable {th th' : Theory} {p : Term → Bool}

/-- The theories hold the same terms in the same order. -/
def Relisted (th th' : Theory) : Prop := th.Reordered (fun _ => false) th'

theorem Reachable.relisted (h : th.Reachable) (h' : th'.Reachable) (hmode : th.mode = th'.mode)
    (hterms : th.toList = th'.toList) : th.Relisted th' where
  left := h
  right := h'
  mode_eq := hmode
  perm := hterms ▸ .refl _
  others := by rw [hterms]

namespace Relisted

variable (h : th.Relisted th')

include h

theorem lookup_eq (query : Term) : th.lookup query = th'.lookup query := by
  simpa only [Bool.not_false, List.filter_true] using h.lookup_others query

theorem lookupIn_eq (s : Store) (query : Term) (env : EnvId) : th.lookupIn s query env = th'.lookupIn s query env := by
  simpa only [Bool.not_false, List.filter_true] using h.lookupIn_others s query env

end Relisted

/-- The kind of a goal depends only on which relations have rules. -/
theorem Reordered.ofTerm_eq (h : th.Reordered p th') (goal : Term) : Goal.ofTerm th goal = Goal.ofTerm th' goal := by
  have hrelation : Goal.ofRelation th = Goal.ofRelation th' := by
    funext relation
    unfold Goal.ofRelation
    rw [h.defines_eq]
  unfold Goal.ofTerm
  rw [hrelation]

end Theory

variable {src : Sources} {rules : Theory} (h : src.rules.Relisted rules) (ask : Answerer)

/-! ### Values -/

include h in
theorem applyFunctor_relisted : applyFunctor { src with rules } ask = applyFunctor src ask := by
  funext f values
  unfold applyFunctor
  rw [h.lookup_eq]

theorem valuesOf_relisted {ts : List Term} (hts : ∀ t ∈ ts, valueOf { src with rules } ask t = valueOf src ask t) :
    valuesOf { src with rules } ask ts = valuesOf src ask ts := by
  induction ts with
  | nil => rfl
  | cons t ts ih =>
    rw [List.forall_mem_cons] at hts
    unfold valuesOf
    rw [hts.1, ih hts.2]

theorem valueOfBranch_relisted : (ts : List Term) →
    (∀ t ∈ ts, valueOf { src with rules } ask t = valueOf src ask t) →
      valueOfBranch { src with rules } ask ts = valueOfBranch src ask ts
  | [], _ => by
    unfold valueOfBranch
    rfl
  | [_], _ => by
    unfold valueOfBranch
    rfl
  | condition :: value :: rest, hts => by
    unfold valueOfBranch
    rw [hts value (by simp), valueOfBranch_relisted rest fun t ht => hts t (by simp [ht])]

include h in
theorem valueOf_compound_relisted (f : String) {args : List Term}
    (hargs : ∀ t ∈ args, valueOf { src with rules } ask t = valueOf src ask t) :
    valueOf { src with rules } ask (.compound f args) = valueOf src ask (.compound f args) := by
  have hvalues := valuesOf_relisted ask hargs
  have hbranch := valueOfBranch_relisted ask args hargs
  unfold valueOf
  refine bind_congr fun spent => ?_
  rw [applyFunctor_relisted h]
  split
  · rfl
  · split
    · -- Of `map`, the function and the list are evaluated, and the function is applied to the elements.
      rename_i function rest
      rw [hargs function List.mem_cons_self]
      cases rest with
      | nil => rfl
      | cons list rest => simp only [hargs list (by simp)]
    · rfl
    · rfl
    · rfl
    · exact hbranch
    · rw [hvalues]

mutual
theorem valueOf_relisted (h : src.rules.Relisted rules) (ask : Answerer) :
    (t : Term) → valueOf { src with rules } ask t = valueOf src ask t
  | .var _ => rfl
  | .sym _ => rfl
  | .compound f args => valueOf_compound_relisted h ask f (valueOf_relisted_of_mem h ask args)

theorem valueOf_relisted_of_mem (h : src.rules.Relisted rules) (ask : Answerer) :
    (ts : List Term) → ∀ t ∈ ts, valueOf { src with rules } ask t = valueOf src ask t
  | [] => by simp
  | t :: ts => List.forall_mem_cons.2 ⟨valueOf_relisted h ask t, valueOf_relisted_of_mem h ask ts⟩
end

/-! ### The machine -/

namespace Machine

theorem tryCandidates_relisted (c : Cursor) (next : Agenda) (otherwise : Alternatives) :
    tryCandidates { src with rules } c next otherwise = tryCandidates src c next otherwise := by
  funext ts w
  induction ts generalizing w with
  | nil => rfl
  | cons t ts ih =>
    unfold tryCandidates
    simp only [ih]

theorem tryRules_relisted (x : Expansion) (next : Agenda) (otherwise : Alternatives) :
    tryRules { src with rules } x next otherwise = tryRules src x next otherwise := by
  funext ts w
  induction ts generalizing w with
  | nil => rfl
  | cons t ts ih =>
    unfold tryRules
    simp only [ih]

theorem select_relisted (origin : Cursor.Origin) (env : EnvId) (selecting : Selecting Selection) (next : Agenda)
    (otherwise : Alternatives) (w : Workspace) :
    select { src with rules } origin env selecting next otherwise w =
      select src origin env selecting next otherwise w := by
  unfold select
  simp only [tryCandidates_relisted]

theorem retreat_relisted (otherwise : Alternatives) (w : Workspace) :
    retreat { src with rules } otherwise w = retreat src otherwise w := by
  unfold retreat
  simp only [tryCandidates_relisted, tryRules_relisted]

include h

theorem expand_relisted (goal : Term) (env : EnvId) (next : Agenda) (otherwise : Alternatives) (w : Workspace) :
    expand { src with rules } goal env next otherwise w = expand src goal env next otherwise w := by
  unfold expand
  simp only [h.lookupIn_eq, tryRules_relisted]

theorem proveResolved_relisted (goal : Term) (env : EnvId) (next : Agenda) (otherwise : Alternatives) (w : Workspace) :
    proveResolved { src with rules } ask goal env next otherwise w =
      proveResolved src ask goal env next otherwise w := by
  unfold proveResolved
  rw [h.ofTerm_eq]
  simp only [select_relisted, expand_relisted h]
  rfl

theorem step_relisted (m : Machine) : step { src with rules } ask m = step src ask m := by
  unfold step
  simp only [proveResolved_relisted h, retreat_relisted]
  rfl

end Machine

/-! ### Queries -/

namespace Search

include h

theorem run_relisted (n : Nat) (m : Machine) : run { src with rules } ask n m = run src ask n m := by
  induction n generalizing m with
  | zero => rfl
  | succ n ih =>
    unfold run
    simp only [Machine.step_relisted h, ih]

theorem next_relisted (s : Search) : s.next { src with rules } ask = s.next src ask := by
  unfold next
  simp only [run_relisted h]

theorem pull_relisted (n : Nat) (s : Search) (found : List Term) :
    s.pull { src with rules } ask n found = s.pull src ask n found := by
  induction n generalizing s found with
  | zero => rfl
  | succ n ih =>
    unfold pull
    simp only [next_relisted h, ih]

end Search

include h

theorem consultAt_relisted (n : Nat) : consultAt { src with rules } n = consultAt src n := by
  induction n with
  | zero => rfl
  | succ n ih =>
    -- The questions that come up on the way are answered one level deeper.
    funext question
    unfold consultAt Search.take
    simp only [ih, Search.pull_relisted h, Search.next_relisted h, valueOf_relisted h]

/-- Every question has the same answer, and takes the same on the meter. -/
theorem consult_relisted : Sources.consult { src with rules } = src.consult := consultAt_relisted h stepBound

end Deduction
