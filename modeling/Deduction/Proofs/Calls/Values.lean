import Deduction.Proofs.Search.Asking
import Deduction.Proofs.Search.Avoiding
import Deduction.Proofs.Variants.Selections

/-!
# Values whatever the variables are called

An answerer does not go by names if it gives the same answers to questions that differ in their variables
(`Answerer.Nameless`). Then expressions that differ in their variables have the same value (`agreeOption_valueOf_relabel`):
it is put together from answers and symbols.
-/

namespace Deduction

variable {ask : Answerer} {limit : Nat} {src : Sources} {π : Equiv.Perm String} {template goal : Term}

theorem Question.relabel_one (q : Question) : q.relabel 1 = q := by
  cases q <;> simp only [relabel, Term.relabel_one]

/-- Before the limit, the answerer gives the same answers to questions that differ in their variables, and these have no
variables. -/
structure Answerer.Nameless (limit : Nat) (ask : Answerer) : Prop where
  counting : ask.Counting
  ground : ∀ q, Ensures (ask q) fun ts => ∀ t ∈ ts, t.isGround = true
  agree : ∀ π q, Agree limit Eq (ask q) (ask (q.relabel π))

namespace Answerer.Nameless

variable (h : ask.Nameless limit)

include h

/-- In particular it gives the same answers to the same questions. -/
theorem alike : ask.Alike (.avoiding []) limit ask where
  left := h.counting
  right := h.counting
  answers _ _ _ _ _ _ t _ := Term.avoids_nil_words t
  agree q _ := by
    have := h.agree 1 q
    rwa [q.relabel_one] at this

theorem findAll (π : Equiv.Perm String) (config : Config) (template goal : Term) :
    Agree limit Eq (ask.findAll config template goal) (ask.findAll config (template.relabel π) (goal.relabel π)) := by
  refine Agree.bind (h.agree π (.all template goal)) (fun _ => counts_pure _) (fun _ => counts_pure _) fun a b hab => ?_
  rw [hab]
  exact agree_pure rfl

theorem count (π : Equiv.Perm String) (template goal : Term) :
    Agree limit Eq (ask.count template goal) (ask.count (template.relabel π) (goal.relabel π)) := by
  refine Agree.bind (h.agree π (.all template goal)) (fun _ => counts_pure _) (fun _ => counts_pure _) fun a b hab => ?_
  rw [hab]
  exact agree_pure rfl

theorem findFirst? (π : Equiv.Perm String) (template goal : Term) :
    Agree limit Eq (ask.findFirst? template goal) (ask.findFirst? (template.relabel π) (goal.relabel π)) := by
  refine Agree.bind (h.agree π (.first template goal)) (fun _ => counts_pure _) (fun _ => counts_pure _) fun a b hab => ?_
  rw [hab]
  exact agree_pure rfl

theorem holds (π : Equiv.Perm String) (goal : Term) :
    Agree limit Eq (ask.holds goal) (ask.holds (goal.relabel π)) := by
  refine Agree.bind (h.findFirst? π (.sym "true") goal) (fun _ => counts_pure _) (fun _ => counts_pure _) fun a b hab => ?_
  rw [hab]
  exact agree_pure rfl

end Answerer.Nameless

/-! ### Expressions -/

section

variable (h : ask.Nameless limit)

include h

theorem agreeOption_applyFunctor_self (f : String) (values : List Term) :
    AgreeOption limit (applyFunctor src ask f values) (applyFunctor src ask f values) :=
  agreeOption_applyFunctor h.alike (Language.closed_avoiding_nil src) ⟨rfl, .refl _ _⟩ (Term.avoids_nil_words (.sym f))
    (by simp [Language.avoiding]) fun t _ => Term.avoids_nil_words t

theorem agreeOption_valuesOf_relabel {ts : List Term}
    (hts : ∀ t ∈ ts, AgreeOption limit (valueOf src ask t) (valueOf src ask (t.relabel π))) :
    AgreeOption limit (valuesOf src ask ts) (valuesOf src ask (ts.map (Term.relabel π))) := by
  have hcounts (ts : List Term) : CountsOption (valuesOf src ask ts) :=
    countsOption_valuesOf fun u _ => countsOption_valueOf h.counting u
  induction ts with
  | nil =>
    rw [List.map_nil, valuesOf]
    exact .pure _
  | cons t ts ih =>
    rw [List.forall_mem_cons] at hts
    rw [List.map_cons, valuesOf, valuesOf]
    refine hts.1.bind (EnsuresOption.any _) (fun v => ?_) (fun v => ?_) fun v _ => (ih hts.2).bind_pure (v :: ·)
    · exact (hcounts _).bind fun vs => .pure _
    · exact (hcounts _).bind fun vs => .pure _

theorem agreeOption_valueOfBranch_relabel :
    (ts : List Term) → (∀ t ∈ ts, AgreeOption limit (valueOf src ask t) (valueOf src ask (t.relabel π))) →
      AgreeOption limit (valueOfBranch src ask ts) (valueOfBranch src ask (ts.map (Term.relabel π)))
  | [], _ => by
    rw [List.map_nil, valueOfBranch]
    · exact .failure
    · simp
  | [_], _ => by
    rw [List.map_singleton, valueOfBranch, valueOfBranch]
    · exact .failure
    · simp
    · simp
  | condition :: value :: rest, hts => by
    have hbranch (holds : Bool) (value : Term) (rest : List Term) :
        CountsOption (if holds = true then valueOf src ask value else valueOfBranch src ask rest) := by
      split
      · exact countsOption_valueOf h.counting value
      · exact countsOption_valueOfBranch h.counting rest fun t _ => countsOption_valueOf h.counting t
    rw [List.map_cons, List.map_cons, valueOfBranch, valueOfBranch]
    refine (AgreeOption.lift (h.holds π condition)).bind (EnsuresOption.any _) (fun _ => hbranch _ _ _)
      (fun _ => hbranch _ _ _) fun holds _ => ?_
    split
    · exact hts value (by simp)
    · exact agreeOption_valueOfBranch_relabel rest fun t ht => hts t (by simp [ht])

/-- Applying a functor to every element of the list that the first argument stands for. -/
theorem agreeOption_mapped_relabel (f : String) {args : List Term}
    (hargs : ∀ t ∈ args, AgreeOption limit (valueOf src ask t) (valueOf src ask (t.relabel π))) :
    AgreeOption limit (mapped src ask f args) (mapped src ask f (args.map (Term.relabel π))) := by
  cases args with
  | nil => exact .failure
  | cons list _ =>
    have hcounts (t : Term) : CountsOption (do
        let items ← (t.items?.getM : OptionT Metered (List Term))
        return Term.list (← items.mapM fun item => applyFunctor src ask f [item])) :=
      (CountsOption.getM _).bind fun items => countsOption_mapItems h.counting f items
    rw [List.map_cons]
    unfold mapped
    refine (hargs list List.mem_cons_self).bind (EnsuresOption.any _) hcounts hcounts fun t _ => ?_
    refine .bind_getM (R := fun _ => True) (fun _ _ => trivial) fun items _ => ?_
    refine (AgreeOption.mapM (fun item => ?_) (fun item => ?_) fun item _ => ?_).bind_pure _
    · exact countsOption_applyFunctor h.counting f [item]
    · exact countsOption_applyFunctor h.counting f [item]
    · exact agreeOption_applyFunctor_self h f [item]

theorem agreeOption_compound_relabel (hlimit : limit = src.config.limit) (f : String) {args : List Term}
    (hargs : ∀ t ∈ args, AgreeOption limit (valueOf src ask t) (valueOf src ask (t.relabel π))) :
    AgreeOption limit (valueOf src ask (.compound f args)) (valueOf src ask ((Term.compound f args).relabel π)) := by
  rw [Term.relabel_compound]
  unfold valueOf
  subst hlimit
  apply AgreeOption.unlessSpent
  split
  · rename_i function rest
    have hcounts (rest : List Term) (t : Term) :
        CountsOption ((t.asSymbol.getM : OptionT Metered String) >>= fun f => mapped src ask f rest) :=
      (CountsOption.getM _).bind fun f => countsOption_mapped h.counting f fun t _ => countsOption_valueOf h.counting t
    have hmap := (hargs function List.mem_cons_self).bind (EnsuresOption.any _) (hcounts rest)
      (hcounts (rest.map (Term.relabel π))) fun t _ => .bind_getM (R := fun _ => True) (fun _ _ => trivial)
        fun f _ => agreeOption_mapped_relabel h f fun u hu => hargs u (List.mem_cons_of_mem _ hu)
    cases rest <;> exact hmap
  · rename_i template goal _
    exact (AgreeOption.lift (h.findAll π src.config template goal)).bind_pure _
  · rename_i template goal _
    exact .lift (h.count π template goal)
  · rename_i template goal _
    exact h.findFirst? π template goal
  · exact agreeOption_valueOfBranch_relabel h _ hargs
  · rename_i hif hmap hsetofall hcountofall hchoose
    have hpair {x y : Term} {tail : List Term} (h : args.map (Term.relabel π) = x :: y :: tail) :
        ∃ x y tail, args = x :: y :: tail := by
      obtain ⟨x, rest, rfl, -, hrest⟩ := List.map_eq_cons_iff.1 h
      obtain ⟨y, others, rfl, -, -⟩ := List.map_eq_cons_iff.1 hrest
      exact ⟨x, y, others, rfl⟩
    have hsame : AgreeOption src.config.limit
        (if (decide (f = "map") || isAggregate f || decide (f = "choose")) = true then failure
          else valuesOf src ask args >>= applyFunctor src ask f)
        (if (decide (f = "map") || isAggregate f || decide (f = "choose")) = true then failure
          else valuesOf src ask (args.map (Term.relabel π)) >>= applyFunctor src ask f) := by
      split
      · exact .failure
      · exact (agreeOption_valuesOf_relabel h hargs).bind (EnsuresOption.any _)
          (fun values => countsOption_applyFunctor h.counting _ _) (fun values => countsOption_applyFunctor h.counting _ _)
          fun values _ => agreeOption_applyFunctor_self h f values
    -- Other arguments have the same shape, so they are not read in a special way either.
    generalize hterms : args.map (Term.relabel π) = terms at hpair hsame ⊢
    generalize (if (decide (f = "map") || isAggregate f || decide (f = "choose")) = true then failure
      else valuesOf src ask args >>= applyFunctor src ask f : OptionT Metered Term) = x at hsame ⊢
    split
    · obtain ⟨x, rest, hx, -, -⟩ := List.map_eq_cons_iff.1 hterms
      exact absurd hx (hmap x rest rfl)
    · obtain ⟨x, y, tail, hxy⟩ := hpair rfl
      exact absurd hxy (hsetofall x y tail rfl)
    · obtain ⟨x, y, tail, hxy⟩ := hpair rfl
      exact absurd hxy (hcountofall x y tail rfl)
    · obtain ⟨x, y, tail, hxy⟩ := hpair rfl
      exact absurd hxy (hchoose x y tail rfl)
    · exact absurd rfl hif
    · exact hsame

end

mutual
/-- The value of an expression does not go by the names of its variables. -/
theorem agreeOption_valueOf_relabel (h : ask.Nameless limit) (hlimit : limit = src.config.limit) (π : Equiv.Perm String) :
    (t : Term) → AgreeOption limit (valueOf src ask t) (valueOf src ask (t.relabel π))
  | .var _ => by
    rw [Term.relabel_var]
    unfold valueOf
    exact .failure
  | .sym a => by
    rw [Term.relabel_sym]
    unfold valueOf
    exact .pure _
  | .compound f args =>
    agreeOption_compound_relabel h hlimit f (agreeOption_valueOf_relabel_of_mem h hlimit π args)

theorem agreeOption_valueOf_relabel_of_mem (h : ask.Nameless limit) (hlimit : limit = src.config.limit)
    (π : Equiv.Perm String) :
    (ts : List Term) → ∀ t ∈ ts, AgreeOption limit (valueOf src ask t) (valueOf src ask (t.relabel π))
  | [] => by simp
  | u :: us => List.forall_mem_cons.2
    ⟨agreeOption_valueOf_relabel h hlimit π u, agreeOption_valueOf_relabel_of_mem h hlimit π us⟩
end

end Deduction
