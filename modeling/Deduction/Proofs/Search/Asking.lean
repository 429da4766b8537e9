import Deduction.Proofs.Search.Agreement

/-!
# Answerers that agree

Selections and values go by what an answerer says, by the definitions among the rules and by the settings. With answerers
that agree on what may be asked, they agree as well (`agreeIn_selectComputed`, `agreeOption_valueOf`).
-/

namespace Deduction

/-! ### Lists that are the same but for some terms -/

/-- The lists are the same but for terms of which this holds. -/
inductive SameExcept (p : Term → Prop) : List Term → List Term → Prop
  | nil : SameExcept p [] []
  | both (t : Term) {l l' : List Term} (h : SameExcept p l l') : SameExcept p (t :: l) (t :: l')
  | left {t : Term} {l l' : List Term} (ht : p t) (h : SameExcept p l l') : SameExcept p (t :: l) l'
  | right {t : Term} {l l' : List Term} (ht : p t) (h : SameExcept p l l') : SameExcept p l (t :: l')

namespace SameExcept

variable {p q : Term → Prop} {l l' k k' : List Term}

theorem refl (p : Term → Prop) (l : List Term) : SameExcept p l l := by
  induction l with
  | nil => exact .nil
  | cons t l ih => exact .both t ih

theorem imp (h : SameExcept p l l') (hpq : ∀ t, p t → q t) : SameExcept q l l' := by
  induction h with
  | nil => exact .nil
  | both t _ ih => exact .both t ih
  | left ht _ ih => exact .left (hpq _ ht) ih
  | right ht _ ih => exact .right (hpq _ ht) ih

theorem append (h : SameExcept p l l') (hk : SameExcept p k k') : SameExcept p (l ++ k) (l' ++ k') := by
  induction h with
  | nil => exact hk
  | both t _ ih => exact .both t ih
  | left ht _ ih => exact .left ht ih
  | right ht _ ih => exact .right ht ih

/-- Two selections from a list. -/
theorem filter {f g : Term → Bool} (h : ∀ t ∈ l, f t ≠ g t → p t) : SameExcept p (l.filter f) (l.filter g) := by
  induction l with
  | nil => exact .nil
  | cons t l ih =>
    have ih' := ih fun u hu => h u (List.mem_cons_of_mem t hu)
    have ht := h t List.mem_cons_self
    rw [List.filter_cons, List.filter_cons]
    cases hf : f t <;> cases hg : g t
    · exact ih'
    · exact .right (ht (by rw [hf, hg]; simp)) ih'
    · exact .left (ht (by rw [hf, hg]; simp)) ih'
    · exact .both t ih'

/-- Lists that have the other terms in common. -/
theorem of_filter {f : Term → Bool} (h : l.filter (!f ·) = l'.filter (!f ·)) (hf : ∀ t, f t = true → p t) :
    SameExcept p l l' := by
  induction l generalizing l' with
  | nil =>
    induction l' with
    | nil => exact .nil
    | cons u l' ih =>
      rw [List.filter_cons] at h
      split at h
      · cases h
      · rename_i hu
        exact .right (hf u (by simpa using hu)) (ih h)
  | cons t l ih =>
    cases ht : f t with
    | true =>
      rw [List.filter_cons_of_neg (by simp [ht])] at h
      exact .left (hf t ht) (ih h)
    | false =>
      rw [List.filter_cons_of_pos (by simp [ht])] at h
      induction l' with
      | nil => cases h
      | cons u l' ih' =>
        rw [List.filter_cons] at h
        split at h
        · obtain ⟨rfl, hrest⟩ := List.cons.inj h
          exact .both t (ih hrest)
        · rename_i hu
          exact .right (hf u (by simpa using hu)) (ih' h)

end SameExcept

/-! ### Answerers -/

variable {L : Language} {src src' : Sources} {ask ask' : Answerer} {limit : Nat}

/-- Two answerers that count up only and give the same answers to what may be asked, as long as the limit is not reached;
these answers keep to the language. -/
structure Answerer.Alike (L : Language) (limit : Nat) (ask ask' : Answerer) : Prop where
  left : ask.Counting
  right : ask'.Counting
  answers : L.Answers ask
  agree : ∀ q, L.Asks q → Agree limit Eq (ask q) (ask' q)

/-- The sources have the same settings, and among the rules the same definitions, one after the other. -/
structure Sources.DefineAlike (src src' : Sources) : Prop where
  config : src.config = src'.config
  definitions : SameExcept (fun t => t.asDefinition = none) (src.rules.lookup (.pattern "definition" 2))
    (src'.rules.lookup (.pattern "definition" 2))

section

variable {template goal : Term} (h : ask.Alike L limit ask')

include h

theorem agree_findAll (config : Config) (htemplate : template.Avoids L.words) (hgoal : L.goal goal) :
    Agree limit Eq (ask.findAll config template goal) (ask'.findAll config template goal) := by
  refine Agree.bind (h.agree _ ⟨htemplate, hgoal⟩) (fun _ => counts_pure _) (fun _ => counts_pure _) fun a b hab => ?_
  rw [hab]
  exact agree_pure rfl

theorem agree_count (htemplate : template.Avoids L.words) (hgoal : L.goal goal) :
    Agree limit Eq (ask.count template goal) (ask'.count template goal) := by
  refine Agree.bind (h.agree _ ⟨htemplate, hgoal⟩) (fun _ => counts_pure _) (fun _ => counts_pure _) fun a b hab => ?_
  rw [hab]
  exact agree_pure rfl

theorem agree_findFirst? (htemplate : template.Avoids L.words) (hgoal : L.goal goal) :
    Agree limit Eq (ask.findFirst? template goal) (ask'.findFirst? template goal) := by
  refine Agree.bind (h.agree _ ⟨htemplate, hgoal⟩) (fun _ => counts_pure _) (fun _ => counts_pure _) fun a b hab => ?_
  rw [hab]
  exact agree_pure rfl

theorem agree_holds (htrue : "true" ∉ L.words) (hgoal : L.goal goal) :
    Agree limit Eq (ask.holds goal) (ask'.holds goal) := by
  refine Agree.bind (agree_findFirst? h (Term.avoids_sym.2 htrue) hgoal) (fun _ => counts_pure _)
    (fun _ => counts_pure _) fun a b hab => ?_
  rw [hab]
  exact agree_pure rfl

/-! ### Selections -/

theorem agreeIn_mapRelation {relation : String}
    (hrelation : ∀ item v, item.Avoids L.words → L.goal (.apply relation [item, .var v])) {items : List Term}
    (hitems : ∀ t ∈ items, t.Avoids L.words) :
    AgreeIn L.words limit (mapRelation ask relation items) (mapRelation ask' relation items) := by
  induction items with
  | nil => exact .of_quiet (.pure [])
  | cons item items ih =>
    rw [List.forall_mem_cons] at hitems
    unfold mapRelation
    refine .bind_quiet quiet_freshVar Yields.freshVar fun out hout => ?_
    obtain ⟨v, rfl⟩ := hout
    have hasks := h.agree (.first (.var v) (.apply relation [item, .var v])) ⟨Term.avoids_var v, hrelation item v hitems.1⟩
    refine (AgreeIn.lift hasks).bind (Yields.lift (Ensures.any _)) (fun results => ?_) (fun results => ?_) fun results _ => ?_
    · cases results with
      | nil => exact .of_quiet .failure
      | cons result _ => exact (countsIn_mapRelation h.left relation items).bind fun rest => .of_quiet (.pure _)
    · cases results with
      | nil => exact .of_quiet .failure
      | cons result _ => exact (countsIn_mapRelation h.right relation items).bind fun rest => .of_quiet (.pure _)
    · cases results with
      | nil => exact .of_quiet .failure
      | cons result _ => exact (ih hitems.2).bind_of_quiet fun rest => .pure _

theorem agreeIn_selectMapped {args : List Term} (hargs : L.Computes "map" args) (env : EnvId) :
    AgreeIn L.words limit (selectMapped ask args env) (selectMapped ask' args env) := by
  obtain ⟨hlist, -, -⟩ := hargs.map rfl
  unfold selectMapped
  refine .bind_quiet (.getM _) (.getM hargs.map_goal) fun t ht => .bind_quiet (.getM _) (.getM ht) fun relation hrelation => ?_
  refine .bind_quiet (.getM _) (.getM hlist) fun t ht => .bind_quiet (quiet_input t env) (.input t env) fun list hlist => ?_
  refine .bind_quiet (.getM _) (.getM fun ts hts => Term.avoids_of_items? (hlist.avoids ht) hts) fun items hitems => ?_
  exact (agreeIn_mapRelation h hrelation hitems).bind_of_quiet fun results => (Quiet.getM _).bind fun output => .pure _

theorem agreeIn_selectAggregate (hL : L.Closed src) (hconfig : src.config = src'.config) {f : String} {args : List Term}
    (hargs : L.Computes f args) (hf : isAggregate f = true) (env : EnvId) :
    AgreeIn L.words limit (selectAggregate src ask f args env) (selectAggregate src' ask' f args env) := by
  obtain ⟨htemplate, hgoal, -⟩ := hargs.aggregate hf
  unfold selectAggregate
  refine .bind_quiet (.getM _) (.getM htemplate) fun t ht => .bind_quiet (quiet_input t env) (.input t env) fun template htemplate => ?_
  refine .bind_quiet (.getM _) (.getM hgoal) fun g hg => .bind_quiet (quiet_input g env) (.input g env) fun goal hgoal => ?_
  have htemplate := htemplate.avoids ht
  have hgoal := hL.goal_fills g goal hg hgoal
  dsimp only
  split
  · rw [hconfig]
    refine (AgreeIn.lift (agree_findAll h _ htemplate hgoal)).bind_of_quiet fun answers => ?_
    exact (Quiet.pure _).bind fun value => (Quiet.getM _).bind fun output => .pure _
  · refine (AgreeIn.lift (agree_count h htemplate hgoal)).bind_of_quiet fun value => ?_
    exact (Quiet.getM _).bind fun output => .pure _

theorem agreeIn_selectValue (hL : L.Closed src) {args : List Term} (hargs : L.Computes "evaluate" args) (env : EnvId) :
    AgreeIn L.words limit (selectValue ask args env) (selectValue ask' args env) := by
  obtain ⟨hexpr, -⟩ := hargs.evaluate rfl
  unfold selectValue
  refine .bind_quiet (.getM _) (.getM hexpr) fun e he => .bind_quiet (quiet_input e env) (.input e env) fun expr hexpr => ?_
  refine (AgreeIn.lift (h.agree (.value expr) (hL.expr_fills e expr he hexpr))).bind_of_quiet fun values => ?_
  exact (Quiet.getM _).bind fun value => (Quiet.getM _).bind fun output => .pure _

/-- The selection of a computed goal. -/
theorem agreeIn_selectComputed (hL : L.Closed src) (hconfig : src.config = src'.config) {f : String} {args : List Term}
    (hargs : L.Computes f args) (env : EnvId) :
    AgreeIn L.words limit (selectComputed src ask f args env) (selectComputed src' ask' f args env) := by
  unfold selectComputed
  rw [← hconfig]
  split
  · exact agreeIn_selectValue h hL hargs env
  · exact .of_quiet (quiet_selectGroups _ env)
  · exact .of_quiet (quiet_selectMatches _ env)
  · exact agreeIn_selectMapped h hargs env
  · split
    · rename_i hf
      exact agreeIn_selectAggregate h hL hconfig hargs hf env
    · exact .of_quiet (quiet_selectCall _ _ env)

/-! ### Values -/

omit h in
theorem applyDefinitions_of_none {sentence : Term} (hnone : sentence.asDefinition = none) (f : String) (call : Term)
    (rest : List Term) (isDefined : Bool) :
    applyDefinitions ask f call (sentence :: rest) isDefined = applyDefinitions ask f call rest isDefined := by
  rw [applyDefinitions, hnone]

/-- Sentences that are no definitions make no difference. -/
theorem agreeOption_applyDefinitions (hL : L.Closed src) {e : Term} (he : L.expr e) (f : String) {call : Term}
    (hcall : call.Avoids L.words) {sentences sentences' : List Term} (hsentences : ∀ t ∈ sentences, t ∈ src.rules.toList)
    (hsame : SameExcept (fun t => t.asDefinition = none) sentences sentences') (isDefined : Bool) :
    AgreeOption limit (applyDefinitions ask f call sentences isDefined)
      (applyDefinitions ask' f call sentences' isDefined) := by
  induction hsame generalizing isDefined with
  | nil =>
    unfold applyDefinitions
    split
    · exact .failure
    · exact .pure _
  | @both t rest rest' _ ih =>
    rw [List.forall_mem_cons] at hsentences
    have ih := ih hsentences.2
    unfold applyDefinitions
    split
    · exact ih _
    · rename_i head body hdefinition
      obtain ⟨hhead, hbody⟩ := hL.definition e he t hsentences.1 head body hdefinition
      dsimp only
      split
      · exact ih _
      · rename_i b hb
        have havoids : b.Avoids L.words := Bindings.avoids_of_unifier hhead hcall hb
        have hplug : L.expr (b.plug body) := hL.expr_fills _ _ hbody (havoids.plugAt _ body)
        refine AgreeOption.tick ?_
        refine (AgreeOption.lift (h.agree (.value _) hplug)).bind (EnsuresOption.any _) (fun values => ?_)
          (fun values => ?_) fun values _ => ?_
        · cases values with
          | nil => exact countsOption_applyDefinitions h.left _ _ _ _
          | cons value _ => exact .pure _
        · cases values with
          | nil => exact countsOption_applyDefinitions h.right _ _ _ _
          | cons value _ => exact .pure _
        · cases values with
          | nil => exact ih _
          | cons value _ => exact .pure _
  | left ht _ ih =>
    rw [applyDefinitions_of_none ht]
    exact ih (fun t ht => hsentences t (List.mem_cons_of_mem _ ht)) _
  | right ht _ ih =>
    rw [applyDefinitions_of_none ht]
    exact ih hsentences _

variable (hL : L.Closed src) (hsrc : src.DefineAlike src')

include hL hsrc

theorem agreeOption_applyFunctor {e : Term} (he : L.expr e) {f : String} (hf : f ∉ L.words) {values : List Term}
    (hvalues : ∀ t ∈ values, t.Avoids L.words) :
    AgreeOption limit (applyFunctor src ask f values) (applyFunctor src' ask' f values) := by
  unfold applyFunctor
  rw [← hsrc.config]
  split
  · exact .getM _
  · split
    · exact .getM _
    · split
      · exact .getM _
      · exact agreeOption_applyDefinitions h hL he f (Term.avoids_apply hf hvalues)
          (fun t ht => Theory.mem_of_mem_lookup ht) hsrc.definitions _

omit hL hsrc in
theorem agreeOption_valuesOf {ts : List Term}
    (hts : ∀ t ∈ ts, AgreeOption limit (valueOf src ask t) (valueOf src' ask' t)) :
    AgreeOption limit (valuesOf src ask ts) (valuesOf src' ask' ts) := by
  induction ts with
  | nil =>
    unfold valuesOf
    exact .pure _
  | cons t ts ih =>
    rw [List.forall_mem_cons] at hts
    have hcounts : CountsOption (valuesOf src ask ts) := countsOption_valuesOf fun u _ => countsOption_valueOf h.left u
    have hcounts' : CountsOption (valuesOf src' ask' ts) :=
      countsOption_valuesOf fun u _ => countsOption_valueOf h.right u
    unfold valuesOf
    refine hts.1.bind (EnsuresOption.any _) (fun v => ?_) (fun v => ?_) fun v _ => (ih hts.2).bind_pure (v :: ·)
    · exact hcounts.bind fun vs => .pure _
    · exact hcounts'.bind fun vs => .pure _

omit hL hsrc in
theorem agreeOption_valueOfBranch (htrue : "true" ∉ L.words) :
    (ts : List Term) → L.Branches ts →
      (∀ t ∈ ts, L.expr t → AgreeOption limit (valueOf src ask t) (valueOf src' ask' t)) →
        AgreeOption limit (valueOfBranch src ask ts) (valueOfBranch src' ask' ts)
  | [], _, _ => by
    unfold valueOfBranch
    exact .failure
  | [_], _, _ => by
    unfold valueOfBranch
    exact .failure
  | condition :: value :: rest, hbranches, hts => by
    obtain ⟨hcondition, hvalue, hrest⟩ := hbranches
    have hbranch {src : Sources} {ask : Answerer} (hask : ask.Counting) (holds : Bool) :
        CountsOption (if holds = true then valueOf src ask value else valueOfBranch src ask rest) := by
      split
      · exact countsOption_valueOf hask value
      · exact countsOption_valueOfBranch hask rest fun t _ => countsOption_valueOf hask t
    unfold valueOfBranch
    refine (AgreeOption.lift (agree_holds h htrue hcondition)).bind (EnsuresOption.any _) (hbranch h.left)
      (hbranch h.right) fun holds _ => ?_
    split
    · exact hts value (by simp) hvalue
    · exact agreeOption_valueOfBranch htrue rest hrest fun t ht => hts t (by simp [ht])

/-- Applying a functor to every element of the list that the first argument stands for. -/
theorem agreeOption_mapped {e : Term} (he : L.expr e) {f : String} (hf : f ∉ L.words) {args : List Term}
    (hargs : ∀ t ∈ args, AgreeOption limit (valueOf src ask t) (valueOf src' ask' t) ∧
      EnsuresOption (valueOf src ask t) fun v => v.Avoids L.words) :
    AgreeOption limit (mapped src ask f args) (mapped src' ask' f args) := by
  cases args with
  | nil => exact .failure
  | cons list _ =>
    obtain ⟨hagree, hensures⟩ := hargs list List.mem_cons_self
    unfold mapped
    refine hagree.bind hensures (fun t => ?_) (fun t => ?_) fun t ht => ?_
    · exact (CountsOption.getM _).bind fun items => countsOption_mapItems h.left f items
    · exact (CountsOption.getM _).bind fun items => countsOption_mapItems h.right f items
    · refine .bind_getM (fun ts hts => Term.avoids_of_items? ht hts) fun items hitems => ?_
      have happly (item : Term) (hitem : item ∈ items) :=
        agreeOption_applyFunctor h hL hsrc he hf (List.forall_mem_singleton.2 (hitems item hitem))
      refine (AgreeOption.mapM (fun item => ?_) (fun item => ?_) happly).bind_pure _
      · exact countsOption_applyFunctor h.left f [item]
      · exact countsOption_applyFunctor h.right f [item]

theorem agreeOption_compound (htrue : "true" ∉ L.words) (hlimit : limit = src.config.limit) {f : String} {args : List Term}
    (he : L.expr (.compound f args))
    (hargs : ∀ t ∈ args, L.expr t → AgreeOption limit (valueOf src ask t) (valueOf src' ask' t)) :
    AgreeOption limit (valueOf src ask (.compound f args)) (valueOf src' ask' (.compound f args)) := by
  have hparts := hL.expr_evaluates f args he
  have hensures (t : Term) (ht : L.expr t) := Language.ensuresOption_valueOf hL h.answers t ht
  unfold valueOf
  subst hlimit
  rw [← hsrc.config]
  apply AgreeOption.unlessSpent
  split
  · rename_i function rest
    have hexprs := hparts.map rfl
    have hfunction := hexprs function List.mem_cons_self
    refine (hargs function List.mem_cons_self hfunction).bind (hensures function hfunction) (fun t => ?_) (fun t => ?_)
      fun t ht => ?_
    · exact (CountsOption.getM _).bind fun f => countsOption_mapped h.left f fun t _ => countsOption_valueOf h.left t
    · exact (CountsOption.getM _).bind fun f => countsOption_mapped h.right f fun t _ => countsOption_valueOf h.right t
    · refine .bind_getM (fun r hr => ht.asSymbol hr) fun f hf => ?_
      refine agreeOption_mapped h hL hsrc he hf fun u hu => ?_
      have hmem := List.mem_cons_of_mem function hu
      exact ⟨hargs u hmem (hexprs u hmem), hensures u (hexprs u hmem)⟩
  · rename_i template goal _
    obtain ⟨htemplate, hgoal⟩ := hparts.find (.inl rfl) template goal _ rfl
    exact (AgreeOption.lift (agree_findAll h _ htemplate hgoal)).bind_pure _
  · rename_i template goal _
    obtain ⟨htemplate, hgoal⟩ := hparts.find (.inl rfl) template goal _ rfl
    exact .lift (agree_count h htemplate hgoal)
  · rename_i template goal _
    obtain ⟨htemplate, hgoal⟩ := hparts.find (.inr rfl) template goal _ rfl
    exact agree_findFirst? h htemplate hgoal
  · exact agreeOption_valueOfBranch h htrue _ (hparts.branch rfl) hargs
  · rename_i hif _ _ _ _
    split
    · exact .failure
    · rename_i hspecial
      simp only [Bool.or_eq_true, decide_eq_true_eq, not_or, Bool.not_eq_true] at hspecial
      obtain ⟨hword, hexprs⟩ := hparts.call hspecial.1.1 hspecial.1.2 hspecial.2 hif
      have hvalues := Language.ensuresOption_valuesOf fun t ht => hensures t (hexprs t ht)
      exact (agreeOption_valuesOf h fun t ht => hargs t ht (hexprs t ht)).bind hvalues
        (fun values => countsOption_applyFunctor h.left _ _) (fun values => countsOption_applyFunctor h.right _ _)
        fun values hvalues => agreeOption_applyFunctor h hL hsrc he hword hvalues

end

mutual
/-- The value of an expression. -/
theorem agreeOption_valueOf (h : ask.Alike L limit ask') (hL : L.Closed src) (hsrc : src.DefineAlike src')
    (htrue : "true" ∉ L.words) (hlimit : limit = src.config.limit) :
    (t : Term) → L.expr t → AgreeOption limit (valueOf src ask t) (valueOf src' ask' t)
  | .var _, _ => by
    unfold valueOf
    exact .failure
  | .sym _, _ => by
    unfold valueOf
    exact .pure _
  | .compound _ args, he =>
    agreeOption_compound h hL hsrc htrue hlimit he (agreeOption_valueOf_of_mem h hL hsrc htrue hlimit args)

theorem agreeOption_valueOf_of_mem (h : ask.Alike L limit ask') (hL : L.Closed src) (hsrc : src.DefineAlike src')
    (htrue : "true" ∉ L.words) (hlimit : limit = src.config.limit) :
    (ts : List Term) → ∀ t ∈ ts, L.expr t → AgreeOption limit (valueOf src ask t) (valueOf src' ask' t)
  | [] => by simp
  | u :: us => List.forall_mem_cons.2
    ⟨agreeOption_valueOf h hL hsrc htrue hlimit u, agreeOption_valueOf_of_mem h hL hsrc htrue hlimit us⟩
end

end Deduction
