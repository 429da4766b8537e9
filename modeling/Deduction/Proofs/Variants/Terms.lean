import Deduction.Proofs.Sentences
import Deduction.Proofs.Variables
import Deduction.Search.Basic
import Mathlib.Algebra.Group.End
import Mathlib.Data.List.Basic

/-!
# Terms with other variables

A permutation of the names of variables acts on terms. What a search reads off a term but does not take for a variable is
the same afterwards: its symbols, its relation, its value as a number. What it takes out of a term commutes with the
permutation: its arguments, the elements of a list, the goal that it is, the value of a builtin that neither shows nor
reads variables as texts (`callBuiltin_relabel`).
-/

namespace Deduction

variable {π : Equiv.Perm String} {v : String} {t u : Term} {f : String} {ts us : List Term}

namespace Term

/-! ### The action on terms -/

mutual
/-- The term with other variables. -/
def relabel (π : Equiv.Perm String) : Term → Term
  | var v => var (π v)
  | sym a => sym a
  | compound f args => compound f (relabelList π args)

def relabelList (π : Equiv.Perm String) : List Term → List Term
  | [] => []
  | t :: ts => relabel π t :: relabelList π ts
end

@[simp] theorem relabelList_eq (π : Equiv.Perm String) (ts : List Term) : relabelList π ts = ts.map (relabel π) := by
  induction ts with
  | nil => rfl
  | cons t ts ih => rw [relabelList, ih, List.map_cons]

@[simp] theorem relabel_var (π : Equiv.Perm String) (v : String) : (var v).relabel π = var (π v) := rfl

@[simp] theorem relabel_sym (π : Equiv.Perm String) (a : String) : (sym a).relabel π = sym a := rfl

@[simp] theorem relabel_compound (π : Equiv.Perm String) (f : String) (args : List Term) :
    (compound f args).relabel π = compound f (args.map (relabel π)) := by rw [relabel, relabelList_eq]

mutual
/-- Variables that keep their names leave the term as it is. -/
theorem relabel_eq_self : (t : Term) → (∀ v ∈ t.vars, π v = v) → t.relabel π = t
  | var v, h => by rw [relabel_var, h v (mem_vars_var.2 rfl)]
  | sym _, _ => rfl
  | compound f args, h => by
    rw [relabel_compound, relabel_eq_self_list args fun t ht v hv => h v (mem_vars_compound.2 ⟨t, ht, hv⟩)]

theorem relabel_eq_self_list : (ts : List Term) → (∀ t ∈ ts, ∀ v ∈ t.vars, π v = v) → ts.map (relabel π) = ts
  | [], _ => rfl
  | t :: ts, h => by
    rw [List.map_cons, relabel_eq_self t (h t List.mem_cons_self),
      relabel_eq_self_list ts fun u hu => h u (List.mem_cons_of_mem t hu)]
end

@[simp] theorem relabel_one (t : Term) : t.relabel 1 = t := relabel_eq_self t fun _ _ => rfl

mutual
theorem relabel_mul (π π' : Equiv.Perm String) : (t : Term) → t.relabel (π * π') = (t.relabel π').relabel π
  | var _ => rfl
  | sym _ => rfl
  | compound f args => by
    rw [relabel_compound, relabel_compound, relabel_compound, List.map_map, relabel_mul_list π π' args]

theorem relabel_mul_list (π π' : Equiv.Perm String) :
    (ts : List Term) → ts.map (relabel (π * π')) = ts.map (relabel π ∘ relabel π')
  | [] => rfl
  | t :: ts => by
    rw [List.map_cons, List.map_cons, relabel_mul π π' t, relabel_mul_list π π' ts]
    rfl
end

theorem relabel_injective (π : Equiv.Perm String) : Function.Injective (relabel π) := by
  intro t u h
  have hinv := congrArg (relabel π⁻¹) h
  rwa [← relabel_mul, ← relabel_mul, inv_mul_cancel, relabel_one, relabel_one] at hinv

@[simp] theorem relabel_inj : t.relabel π = u.relabel π ↔ t = u := (relabel_injective π).eq_iff

/-! ### What is the same afterwards -/

@[simp] theorem asSymbol_relabel (t : Term) : (t.relabel π).asSymbol = t.asSymbol := by
  cases t <;> simp [asSymbol]

@[simp] theorem isVariable_relabel (t : Term) : (t.relabel π).isVariable = t.isVariable := by
  cases t <;> simp [isVariable]

@[simp] theorem isCompound_relabel (t : Term) : (t.relabel π).isCompound = t.isCompound := by
  cases t <;> simp [isCompound]

@[simp] theorem functor?_relabel (t : Term) : (t.relabel π).functor? = t.functor? := by
  cases t <;> simp [functor?]

@[simp] theorem stringText?_relabel (t : Term) : (t.relabel π).stringText? = t.stringText? := by
  cases t <;> simp [stringText?]

@[simp] theorem isNil_relabel (t : Term) : (t.relabel π).isNil = t.isNil := by
  cases t <;> simp [isNil]

@[simp] theorem value_relabel (t : Term) : (t.relabel π).value = t.value := by
  cases t <;> simp [value]

mutual
theorem symbolsThen_relabel : (t : Term) → (rest : List String) → (t.relabel π).symbolsThen rest = t.symbolsThen rest
  | var _, _ => rfl
  | sym _, _ => rfl
  | compound f args, rest => by
    rw [relabel_compound, symbolsThen, symbolsThen, symbolsThenList_relabel args rest]

theorem symbolsThenList_relabel : (ts : List Term) → (rest : List String) →
    symbolsThenList (ts.map (relabel π)) rest = symbolsThenList ts rest
  | [], _ => rfl
  | t :: ts, rest => by
    rw [List.map_cons, symbolsThenList, symbolsThenList, symbolsThenList_relabel ts rest, symbolsThen_relabel t]
end

@[simp] theorem symbols_relabel (t : Term) : (t.relabel π).symbols = t.symbols := symbolsThen_relabel t []

/-! ### What is taken out of a term -/

theorem relabel_chain (items : List Term) (last : Term) :
    (chain items last).relabel π = chain (items.map (relabel π)) (last.relabel π) := by
  induction items with
  | nil => rfl
  | cons t items ih =>
    change (cons t (chain items last)).relabel π = cons (t.relabel π) (chain (items.map (relabel π)) (last.relabel π))
    rw [← ih]
    simp [cons]

theorem relabel_list (items : List Term) : (list items).relabel π = list (items.map (relabel π)) :=
  relabel_chain items nil

theorem relabel_apply (f : String) (args : List Term) :
    (apply f args).relabel π = apply f (args.map (relabel π)) := by
  unfold apply
  cases args <;> simp

theorem relabel_number (x : Float) : (number x).relabel π = number x := rfl

theorem uncons_relabel : (t : Term) →
    (t.relabel π).uncons = (t.uncons.1.map (relabel π), t.uncons.2.relabel π)
  | var _ => rfl
  | sym _ => rfl
  | compound f args => by
    match args with
    | [] => simp [uncons]
    | [_] => simp [uncons]
    | [head, tail] =>
      rw [relabel_compound, List.map_cons, List.map_cons, List.map_nil, uncons, uncons]
      split
      · rw [uncons_relabel tail]
        rfl
      · simp
    | _ :: _ :: _ :: _ => simp [uncons]

theorem cells_relabel (t : Term) : (t.relabel π).cells = t.cells.map (relabel π) := by
  unfold cells
  rw [uncons_relabel]

theorem items?_relabel (t : Term) : (t.relabel π).items? = t.items?.map (List.map (relabel π)) := by
  unfold items?
  rw [uncons_relabel]
  dsimp only
  rw [isNil_relabel]
  split <;> rfl

theorem map_value_relabel (ts : List Term) : (ts.map (relabel π)).map value = ts.map value := by
  rw [List.map_map]
  exact List.map_congr_left fun t _ => value_relabel t

end Term

theorem numbers?_relabel (ts : List Term) : numbers? (ts.map (Term.relabel π)) = numbers? ts := by
  unfold numbers?
  rw [Term.map_value_relabel]

theorem Term.listNumbers?_relabel (t : Term) : (t.relabel π).listNumbers? = t.listNumbers? := by
  unfold Term.listNumbers?
  rw [Term.items?_relabel, Option.bind_map]
  exact congrArg (t.items?.bind ·) (funext fun ts => numbers?_relabel ts)

theorem mapM_asSymbol_relabel (ts : List Term) :
    (ts.map (Term.relabel π)).mapM Term.asSymbol = ts.mapM Term.asSymbol := by
  rw [List.mapM_map]
  exact congrArg (ts.mapM ·) (funext fun t => Term.asSymbol_relabel t)

theorem pairwiseDistinct_relabel (ts : List Term) :
    pairwiseDistinct (ts.map (Term.relabel π)) = pairwiseDistinct ts := by
  induction ts with
  | nil => rfl
  | cons t ts ih =>
    have hcontains : (ts.map (Term.relabel π)).contains (t.relabel π) = ts.contains t := by
      rw [Bool.eq_iff_iff, List.contains_iff_mem, List.contains_iff_mem,
        List.mem_map_of_injective (Term.relabel_injective π)]
    rw [List.map_cons, pairwiseDistinct, pairwiseDistinct, hcontains, ih]

/-! ### Sentences -/

namespace Term

theorem asRule_relabel (t : Term) :
    (t.relabel π).asRule = t.asRule.map fun r => (r.1.relabel π, r.2.map (relabel π)) := by
  cases t with
  | var v => rfl
  | sym a => rfl
  | compound f args =>
    cases args with
    | nil => rw [relabel_compound]; rfl
    | cons head body =>
      rw [relabel_compound, List.map_cons, asRule, asRule]
      split <;> rfl

theorem asDefinition_relabel (t : Term) :
    (t.relabel π).asDefinition = t.asDefinition.map fun r => (r.1.relabel π, r.2.relabel π) := by
  unfold asDefinition
  match t with
  | var v => rfl
  | sym a => rfl
  | compound f [] => rfl
  | compound f [_] => rw [relabel_compound]; rfl
  | compound f [x, y] =>
    rw [relabel_compound, List.map_cons, List.map_cons, List.map_nil, asPair, asPair]
    split <;> rfl
  | compound f (_ :: _ :: _ :: _) => rw [relabel_compound]; rfl

theorem headOrSelf_relabel (t : Term) : (t.relabel π).headOrSelf = t.headOrSelf.relabel π := by
  unfold headOrSelf
  rw [asRule_relabel]
  cases t.asRule <;> rfl

theorem subject_relabel : (t : Term) → (t.relabel π).subject = t.subject.relabel π
  | var _ => rfl
  | sym _ => rfl
  | compound f [] => by simp [subject]
  | compound f (t :: ts) => by
    rw [relabel_compound, List.map_cons, subject, subject]
    split
    · exact subject_relabel t
    · simp

@[simp] theorem operator?_relabel (t : Term) : (t.relabel π).operator? = t.operator? := by
  unfold operator?
  rw [subject_relabel, functor?_relabel]

/-! ### Variables -/

mutual
theorem addVars_relabel : (t : Term) → (seen : List String) →
    (t.relabel π).addVars (seen.map π) = (t.addVars seen).map π
  | var v, seen => by
    have hcontains : (seen.map π).contains (π v) = seen.contains v := by
      rw [Bool.eq_iff_iff, List.contains_iff_mem, List.contains_iff_mem, List.mem_map_of_injective π.injective]
    rw [relabel_var, addVars, addVars, hcontains]
    split
    · rfl
    · rw [List.map_append, List.map_singleton]
  | sym _, _ => rfl
  | compound f args, seen => by rw [relabel_compound, addVars, addVars, addVarsList_relabel args seen]

theorem addVarsList_relabel : (ts : List Term) → (seen : List String) →
    addVarsList (ts.map (relabel π)) (seen.map π) = (addVarsList ts seen).map π
  | [], _ => rfl
  | t :: ts, seen => by
    rw [List.map_cons, addVarsList, addVarsList, addVars_relabel t, addVarsList_relabel ts]
end

theorem vars_relabel (t : Term) : (t.relabel π).vars = t.vars.map π := addVars_relabel t []

end Term

/-- The names of a set that a permutation leaves alone. -/
def Spares (P : String → Prop) (π : Equiv.Perm String) : Prop := ∀ v, P v → π v = v

theorem Spares.one (P : String → Prop) : Spares P 1 := fun _ _ => rfl

/-- The names that are invented after some terms are those after the terms with other variables, if names that look
invented are spared. -/
theorem NameSupply.after_relabel {P : String → Prop} (hindex : ∀ v, (freshIndex? v).isSome = true → P v)
    (hπ : Spares P π) (terms : List Term) : NameSupply.after (terms.map (Term.relabel π)) = .after terms := by
  have hsame (v : String) : freshIndex? (π v) = freshIndex? v := by
    cases hv : freshIndex? v with
    | some n => rw [hπ v (hindex v (by rw [hv]; rfl)), hv]
    | none =>
      cases hw : freshIndex? (π v) with
      | none => rfl
      | some n =>
        have hfixed := π.injective (hπ (π v) (hindex (π v) (by rw [hw]; rfl)))
        rw [hfixed, hv] at hw
        cases hw
  have hvars : (terms.map (Term.relabel π)).flatMap Term.vars = (terms.flatMap Term.vars).map π := by
    rw [List.flatMap_map, List.map_flatMap]
    exact congrArg (terms.flatMap ·) (funext fun t => Term.vars_relabel t)
  unfold NameSupply.after
  rw [hvars, List.filterMap_map]
  exact congrArg (fun g => (⟨((terms.flatMap Term.vars).filterMap g).foldl max 0⟩ : NameSupply)) (funext hsame)

/-! ### Goals -/

namespace Goal

/-- The goal with other variables. -/
def relabel (π : Equiv.Perm String) : Goal → Goal
  | holds => holds
  | fails => fails
  | same x y => same (x.relabel π) (y.relabel π)
  | distinct x y => distinct (x.relabel π) (y.relabel π)
  | mutex terms => mutex (terms.map (Term.relabel π))
  | member item list => member (item.relabel π) (list.relabel π)
  | negation goal => negation (goal.relabel π)
  | conjunction goals => conjunction (goals.map (Term.relabel π))
  | disjunction goals => disjunction (goals.map (Term.relabel π))
  | dataset goal name => dataset (goal.relabel π) (name.relabel π)
  | computed f args => computed f (args.map (Term.relabel π))
  | view => view
  | base => base

theorem relabel_ofRelation (rules : Theory) (relation : String) :
    (ofRelation rules relation).relabel π = ofRelation rules relation := by
  unfold ofRelation
  split <;> rfl

/-- The kind of a goal does not depend on its variables. -/
theorem ofTerm_relabel (rules : Theory) (t : Term) : ofTerm rules (t.relabel π) = (ofTerm rules t).relabel π := by
  conv_rhs => unfold ofTerm
  split
  case h_1 | h_2 | h_3 => rfl
  case h_4 a htrue hfalse =>
    rw [Term.relabel_sym, ofTerm, relabel_ofRelation]
    · exact htrue
    · exact hfalse
  case h_5 args | h_6 args | h_8 args =>
    rw [Term.relabel_compound]
    rcases args with _ | ⟨x, _ | ⟨y, rest⟩⟩ <;> rfl
  case h_9 args =>
    rw [Term.relabel_compound]
    cases args <;> rfl
  case h_7 | h_10 | h_11 | h_12 =>
    rw [Term.relabel_compound]
    rfl
  case h_13 f args hsame hdistinct hmutex hmember hnot hand hor htrue =>
    rw [Term.relabel_compound, ofTerm]
    · split
      · rfl
      · exact (relabel_ofRelation rules f).symm
    · exact hsame
    · exact hdistinct
    · exact hmutex
    · exact hmember
    · exact hnot
    · exact hand
    · exact hor
    · intro goal name hf hargs
      obtain ⟨x, rest, rfl, -, hrest⟩ := List.map_eq_cons_iff.1 hargs
      obtain ⟨y, others, rfl, -, hothers⟩ := List.map_eq_cons_iff.1 hrest
      rw [List.map_eq_nil_iff] at hothers
      exact htrue x y hf (by rw [hothers])

/-- The kind of a goal depends on the rules through the relations that they define. -/
theorem ofTerm_congr {rules rules' : Theory} (h : ∀ relation, rules.defines relation = rules'.defines relation)
    (t : Term) : ofTerm rules t = ofTerm rules' t := by
  have hrelation : ofRelation rules = ofRelation rules' := by
    funext relation
    unfold ofRelation
    rw [h relation]
  unfold ofTerm
  rw [hrelation]

/-- A computed goal is what its functor and its arguments make. -/
theorem eq_of_computed {rules : Theory} {args : List Term} (h : ofTerm rules t = computed f args) :
    t = .compound f args := by
  have hrelation (relation : String) : ofRelation rules relation ≠ computed f args := by
    unfold ofRelation
    split <;> simp
  unfold ofTerm at h
  split at h
  case h_4 a _ _ => exact absurd h (hrelation a)
  case h_5 | h_6 | h_8 | h_9 => split at h <;> cases h
  case h_13 =>
    split at h
    · cases h
      rfl
    · exact absurd h (hrelation _)
  all_goals cases h

end Goal

end Deduction
