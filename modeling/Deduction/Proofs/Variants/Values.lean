import Deduction.Proofs.Variants.Selections

/-!
# Values of expressions with other variables

The value of an expression with other variables is its value, with these variables (`followsOption_valueOf`). Definitions
are applied as they stand, without variables of their own, so their variables must be spared.
-/

namespace Deduction

variable {P : String → Prop} {π : Equiv.Perm String} {src src' : Sources} {ask ask' : Answerer} {f : String}

/-- The terms differ in their variables, and make no texts. -/
def RelabelledAll (π : Equiv.Perm String) (ts us : List Term) : Prop :=
  us = ts.map (Term.relabel π) ∧ ∀ t ∈ ts, t.Avoids textMakers

theorem RelabelledAll.of_forall₂ {ts us : List Term} (h : List.Forall₂ (Relabelled π) ts us) : RelabelledAll π ts us := by
  induction h with
  | nil => exact ⟨rfl, fun _ ht => by cases ht⟩
  | cons htu _ ih =>
    obtain ⟨rfl, ht⟩ := htu
    obtain ⟨rfl, hts⟩ := ih
    exact ⟨rfl, List.forall_mem_cons.2 ⟨ht, hts⟩⟩

theorem FollowsOption.relabelled {a : Option Term} (h : ∀ t ∈ a, t.Avoids textMakers) :
    FollowsOption (Relabelled π) (a.getM : OptionT Metered Term) ((a.map (Term.relabel π)).getM : OptionT Metered Term) := by
  cases a with
  | none => exact .failure
  | some t => exact .pure ⟨rfl, h t rfl⟩

section

variable (hP : Reserves P src) (hL : textless.Closed src) (hsrc : src.Variants P src') (hask : ask.Followed P ask')
  (hπ : Spares P π)

include hP hL hask hπ

/-- Definitions are applied in the same order, with the same outcomes. -/
theorem followsOption_applyDefinitions {call : Term} (hcall : call.Avoids textMakers) {sentences sentences' : List Term}
    (hvariants : List.Forall₂ (Term.Permuted P) sentences sentences')
    (hsentences : ∀ t ∈ sentences, t ∈ src.rules.toList) (isDefined : Bool) :
    FollowsOption (Relabelled π) (applyDefinitions ask f call sentences isDefined)
      (applyDefinitions ask' f (call.relabel π) sentences' isDefined) := by
  induction hvariants generalizing isDefined with
  | nil =>
    unfold applyDefinitions
    split
    · exact .failure
    · exact .pure ⟨rfl, hcall⟩
  | @cons sentence sentence' rest rest' hsentence _ ih =>
    rw [List.forall_mem_cons] at hsentences
    have ih (isDefined : Bool) := ih hsentences.2 isDefined
    obtain ⟨π', hπ', rfl⟩ := hsentence
    unfold applyDefinitions
    cases hdefinition : sentence.asDefinition with
    | none =>
      rw [Term.asDefinition_relabel, hdefinition]
      exact ih _
    | some parts =>
      obtain ⟨head, body⟩ := parts
      have hvars : ∀ v ∈ sentence.vars, P v :=
        hP.definition sentence hsentences.1 (by rw [hdefinition]; rfl)
      have hsame (σ : Equiv.Perm String) (hσ : Spares P σ) : sentence.relabel σ = sentence :=
        Term.relabel_eq_self _ fun v hv => hσ v (hvars v hv)
      have hparts := hsame π hπ
      rw [Term.eq_of_asDefinition hdefinition] at hparts
      obtain ⟨hhead, hbody⟩ : head.relabel π = head ∧ body.relabel π = body := by
        simpa [Term.definition] using hparts
      have hpairs := hL.definition call hcall sentence hsentences.1 head body hdefinition
      have hunifier : Bindings.unifier head (call.relabel π) = (Bindings.unifier head call).map (Bindings.relabel π) := by
        rw [← Bindings.unifier_relabel, hhead]
      rw [hsame π' hπ', hdefinition]
      dsimp only
      rw [hunifier]
      cases hb : Bindings.unifier head call with
      | none => exact ih _
      | some b =>
        have havoids : b.Avoids textMakers := Bindings.avoids_of_unifier hpairs.1 hcall hb
        have hplug : (b.plug body).Avoids textMakers := (havoids.plugAt _ body).avoids hpairs.2
        have hasked := hask π hπ (.value (b.plug body)) hplug
        unfold Question.relabel at hasked
        dsimp only at hasked
        rw [← Bindings.plug_relabel, hbody] at hasked
        refine (FollowsOption.lift Follows.infer).bind fun _ _ _ => (FollowsOption.lift hasked).bind fun values _ hvalues => ?_
        obtain ⟨rfl, hvalues⟩ := hvalues
        cases values with
        | nil => exact ih _
        | cons value _ => exact .pure ⟨rfl, hvalues value List.mem_cons_self⟩

include hsrc

theorem followsOption_applyFunctor (hf : f ∉ textMakers) {values : List Term} (hvalues : ∀ t ∈ values, t.Avoids textMakers) :
    FollowsOption (Relabelled π) (applyFunctor src ask f values)
      (applyFunctor src' ask' f (values.map (Term.relabel π))) := by
  unfold applyFunctor
  rw [hsrc.config]
  split
  · rw [callBuiltin_relabel (fun h => hf (List.mem_append_left _ h))]
    exact .relabelled fun v hv => hL.builtin f hf values _ v hvalues hv
  · split
    · rw [callMath_relabel]
      exact .relabelled fun v hv => avoids_callMath hL.spare hv
    · split
      · cases values with
        | nil => exact .failure
        | cons v vs =>
          rw [List.map_cons, List.head?_cons, List.head?_cons, Option.bind_some, Option.bind_some, callListOperator_relabel]
          exact .relabelled fun v hv => avoids_callListOperator hL.spare hv
      · rw [← Term.relabel_apply]
        exact followsOption_applyDefinitions hP hL hask hπ (Term.avoids_apply hf hvalues) (hsrc.rules.lookup _)
          (fun t ht => Theory.mem_of_mem_lookup ht) false

omit hP hL hsrc hask hπ in
theorem followsOption_valuesOf {ts : List Term}
    (hts : ∀ t ∈ ts, FollowsOption (Relabelled π) (valueOf src ask t) (valueOf src' ask' (t.relabel π))) :
    FollowsOption (RelabelledAll π) (valuesOf src ask ts) (valuesOf src' ask' (ts.map (Term.relabel π))) := by
  induction ts with
  | nil =>
    rw [List.map_nil, valuesOf, valuesOf]
    exact .pure ⟨rfl, fun _ ht => by cases ht⟩
  | cons t ts ih =>
    rw [List.forall_mem_cons] at hts
    rw [List.map_cons, valuesOf, valuesOf]
    refine hts.1.bind fun v _ hv => (ih hts.2).bind fun vs _ hvs => ?_
    obtain ⟨rfl, hv⟩ := hv
    obtain ⟨rfl, hvs⟩ := hvs
    exact .pure ⟨rfl, List.forall_mem_cons.2 ⟨hv, hvs⟩⟩

omit hP hL hsrc in
theorem followsOption_valueOfBranch : (ts : List Term) → (∀ t ∈ ts, t.Avoids textMakers) →
    (∀ t ∈ ts, FollowsOption (Relabelled π) (valueOf src ask t) (valueOf src' ask' (t.relabel π))) →
      FollowsOption (Relabelled π) (valueOfBranch src ask ts) (valueOfBranch src' ask' (ts.map (Term.relabel π)))
  | [], _, _ => by
    rw [List.map_nil, valueOfBranch, valueOfBranch]
    · exact .failure
    · simp
    · simp
  | [t], _, _ => by
    rw [List.map_singleton, valueOfBranch, valueOfBranch]
    · exact .failure
    · simp
    · simp
  | condition :: value :: rest, havoids, hts => by
    have hrest : ∀ t ∈ rest, t ∈ condition :: value :: rest := fun t ht => by simp [ht]
    rw [List.map_cons, List.map_cons, valueOfBranch, valueOfBranch]
    refine (FollowsOption.lift (follows_holds hask hπ (havoids condition (by simp)))).bind fun holds _ hholds => ?_
    subst hholds
    split
    · exact hts value (by simp)
    · exact followsOption_valueOfBranch rest (fun t ht => havoids t (hrest t ht)) fun t ht => hts t (hrest t ht)

/-- Applying a functor to every element of the list that the first argument stands for. -/
theorem followsOption_mapped (hf : f ∉ textMakers) {args : List Term}
    (hargs : ∀ t ∈ args, FollowsOption (Relabelled π) (valueOf src ask t) (valueOf src' ask' (t.relabel π))) :
    FollowsOption (Relabelled π) (mapped src ask f args) (mapped src' ask' f (args.map (Term.relabel π))) := by
  cases args with
  | nil => exact .failure
  | cons list _ =>
    rw [List.map_cons]
    unfold mapped
    refine (hargs list List.mem_cons_self).bind fun v _ hv => ?_
    obtain ⟨rfl, hv⟩ := hv
    rw [Term.items?_relabel]
    have hitems : Option.Rel (RelabelledAll π) v.items? (v.items?.map (List.map (Term.relabel π))) := by
      cases h : v.items? with
      | none => exact .none
      | some items => exact .some ⟨rfl, Term.avoids_of_items? hv h⟩
    refine (FollowsOption.getM hitems).bind fun items _ hitems => ?_
    obtain ⟨rfl, hitems⟩ := hitems
    have happlied : List.Forall₂ (fun item item' => FollowsOption (Relabelled π) (applyFunctor src ask f [item])
        (applyFunctor src' ask' f [item'])) items (items.map (Term.relabel π)) := by
      rw [List.forall₂_map_right_iff, List.forall₂_same]
      exact fun item hitem => followsOption_applyFunctor hP hL hsrc hask hπ hf (by simpa using hitems item hitem)
    refine (FollowsOption.mapM happlied).bind fun vs _ hvs => ?_
    obtain ⟨rfl, havoids⟩ := RelabelledAll.of_forall₂ hvs
    exact .pure ⟨(Term.relabel_list vs).symm, avoids_list hL.spare havoids⟩

theorem followsOption_compound {args : List Term} (hf : f ∉ textMakers) (havoids : ∀ t ∈ args, t.Avoids textMakers)
    (hargs : ∀ t ∈ args, FollowsOption (Relabelled π) (valueOf src ask t) (valueOf src' ask' (t.relabel π))) :
    FollowsOption (Relabelled π) (valueOf src ask (.compound f args))
      (valueOf src' ask' ((Term.compound f args).relabel π)) := by
  rw [Term.relabel_compound]
  unfold valueOf
  rw [hsrc.config]
  apply FollowsOption.unlessSpent
  split
  · rename_i function rest
    have hmapped (v v' : Term) (hv : Relabelled π v v') : FollowsOption (Relabelled π)
        (v.asSymbol.getM >>= fun r => mapped src ask r rest)
        (v'.asSymbol.getM >>= fun r => mapped src' ask' r (rest.map (Term.relabel π))) := by
      obtain ⟨rfl, hv⟩ := hv
      cases v with
      | var w => exact .failure
      | sym r =>
        exact followsOption_mapped hP hL hsrc hask hπ (Term.avoids_sym.1 hv) fun t ht =>
          hargs t (List.mem_cons_of_mem _ ht)
      | compound g ts => exact .failure
    have hmap := (hargs function List.mem_cons_self).bind hmapped
    cases rest <;> exact hmap
  · rename_i template goal _
    have hfind := follows_findAll hask hπ (havoids template (by simp)) (havoids goal (by simp)) src.config
    exact (FollowsOption.lift hfind).bind fun ts us hus => .pure
      ⟨by rw [hus.1]; exact (Term.relabel_list ts).symm, avoids_list hL.spare hus.2⟩
  · rename_i template goal _
    exact .lift (follows_count hask hπ (havoids template (by simp)) (havoids goal (by simp)))
  · rename_i template goal _
    exact follows_findFirst? hask hπ (havoids template (by simp)) (havoids goal (by simp))
  · exact followsOption_valueOfBranch hask hπ _ havoids hargs
  · rename_i hif hmap hsetofall hcountofall hchoose
    have hpair {x y : Term} {tail : List Term} (h : args.map (Term.relabel π) = x :: y :: tail) :
        ∃ x y tail, args = x :: y :: tail := by
      obtain ⟨x, rest, rfl, -, hrest⟩ := List.map_eq_cons_iff.1 h
      obtain ⟨y, others, rfl, -, -⟩ := List.map_eq_cons_iff.1 hrest
      exact ⟨x, y, others, rfl⟩
    have hplain : FollowsOption (Relabelled π) (valuesOf src ask args >>= applyFunctor src ask f)
        (valuesOf src' ask' (args.map (Term.relabel π)) >>= applyFunctor src' ask' f) := by
      refine (followsOption_valuesOf hargs).bind fun vs _ hvs => ?_
      obtain ⟨rfl, hvs⟩ := hvs
      exact followsOption_applyFunctor hP hL hsrc hask hπ hf hvs
    have hsame : FollowsOption (Relabelled π)
        (if (decide (f = "map") || isAggregate f || decide (f = "choose")) = true then failure
          else valuesOf src ask args >>= applyFunctor src ask f)
        (if (decide (f = "map") || isAggregate f || decide (f = "choose")) = true then failure
          else valuesOf src' ask' (args.map (Term.relabel π)) >>= applyFunctor src' ask' f) := by
      split
      · exact .failure
      · exact hplain
    -- Other arguments have the same shape, so they are not read in a special way either.
    generalize hterms : args.map (Term.relabel π) = terms at hpair hsame ⊢
    generalize (if (decide (f = "map") || isAggregate f || decide (f = "choose")) = true then failure
      else valuesOf src ask args >>= applyFunctor src ask f : OptionT Metered Term) = x at hsame ⊢
    split
    · obtain ⟨x, rest, hx, -, -⟩ := List.map_eq_cons_iff.1 hterms
      exact absurd hx (hmap x rest rfl)
    · obtain ⟨x, y, tail, hxy⟩ := hpair rfl
      exact absurd hxy (hsetofall x y tail rfl)
    · obtain ⟨x, y, tail, hxy⟩ := hpair rfl
      exact absurd hxy (hcountofall x y tail rfl)
    · obtain ⟨x, y, tail, hxy⟩ := hpair rfl
      exact absurd hxy (hchoose x y tail rfl)
    · exact absurd rfl hif
    · exact hsame

end

mutual
/-- The value of an expression with other variables. -/
theorem followsOption_valueOf (hP : Reserves P src) (hL : textless.Closed src) (hsrc : src.Variants P src')
    (hask : ask.Followed P ask') (hπ : Spares P π) : (t : Term) → t.Avoids textMakers →
      FollowsOption (Relabelled π) (valueOf src ask t) (valueOf src' ask' (t.relabel π))
  | .var _, _ => by
    rw [Term.relabel_var]
    unfold valueOf
    exact .failure
  | .sym a, ht => by
    rw [Term.relabel_sym]
    unfold valueOf
    exact .pure ⟨rfl, ht⟩
  | .compound f args, ht => by
    obtain ⟨hf, hargs⟩ := Term.avoids_compound.1 ht
    exact followsOption_compound hP hL hsrc hask hπ hf hargs fun t hmem =>
      followsOption_valueOf_of_mem hP hL hsrc hask hπ args t hmem (hargs t hmem)

theorem followsOption_valueOf_of_mem (hP : Reserves P src) (hL : textless.Closed src) (hsrc : src.Variants P src')
    (hask : ask.Followed P ask') (hπ : Spares P π) : (ts : List Term) → ∀ t ∈ ts, t.Avoids textMakers →
      FollowsOption (Relabelled π) (valueOf src ask t) (valueOf src' ask' (t.relabel π))
  | [] => by simp
  | u :: us => List.forall_mem_cons.2
    ⟨followsOption_valueOf hP hL hsrc hask hπ u, followsOption_valueOf_of_mem hP hL hsrc hask hπ us⟩
end

end Deduction
