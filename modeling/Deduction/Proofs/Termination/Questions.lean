import Deduction.Proofs.Termination.Settling

/-!
# Questions and what is done with their answers

If the questions that come up settle, from a count on, then so do the selections of computed goals and the values of
expressions. Applying a definition is counted, so the question for its value is put from the next count on only.
-/

namespace Deduction

variable {α β : Type} {L : Language} {src : Sources} {n : Nat}

/-- The computation settles whenever so much was counted. -/
def FinishesOption (n : Nat) (x : Nat → Nat → OptionT Metered α) : Prop :=
  ∀ m : Meter, n ≤ m.spent → Settles (fun b d => (x b d).run) m fun _ _ => True

namespace FinishesOption

variable {R : α → Prop} {x : Nat → Nat → OptionT Metered α} {f : Nat → Nat → α → OptionT Metered β}

theorem pure (a : α) : FinishesOption n fun _ _ => Pure.pure a := fun _ _ => Settles.pure trivial

theorem failure : FinishesOption n fun _ _ => (failure : OptionT Metered α) := fun _ _ => Settles.pure trivial

theorem getM (a : Option α) : FinishesOption n fun _ _ => (a.getM : OptionT Metered α) := by
  cases a with
  | none => exact failure
  | some a => exact pure a

theorem lift {x : Nat → Nat → Metered α} (h : ∀ m : Meter, n ≤ m.spent → Settles x m fun _ _ => True) :
    FinishesOption n fun b d => liftM (x b d) := by
  intro m hm
  exact Settles.bind (f := fun _ _ a => Pure.pure (some a)) (h m hm) fun _ _ _ _ => Settles.pure trivial

theorem bind (h : FinishesOption n x) (hx : ∀ b d, EnsuresOption (x b d) R)
    (hf : ∀ a, R a → FinishesOption n fun b d => f b d a) : FinishesOption n fun b d => x b d >>= f b d := by
  intro m hm
  simp only [OptionT.run_bind]
  refine Settles.bind ((h m hm).ensures hx) fun a m' hle ha => ?_
  cases a with
  | none => exact Settles.pure trivial
  | some a => exact hf a (ha.1 a rfl) m' (Nat.le_trans hm hle)

/-- Whatever the result is, what follows it settles. -/
theorem bind_any (h : FinishesOption n x) (hf : ∀ a, FinishesOption n fun b d => f b d a) :
    FinishesOption n fun b d => x b d >>= f b d :=
  h.bind (R := fun _ => True) (fun _ _ => (Ensures.any _).imp fun _ _ _ _ => trivial) fun a _ => hf a

theorem mono {n' : Nat} (h : FinishesOption n x) (hle : n ≤ n') : FinishesOption n' x :=
  fun m hm => h m (Nat.le_trans hle hm)

/-- A count brings what follows one further. -/
theorem infer (h : FinishesOption (n + 1) x) :
    FinishesOption n fun b d => (liftM Meter.infer : OptionT Metered Unit) >>= fun _ => x b d := by
  intro m hm
  have hlift : (liftM Meter.infer : OptionT Metered Unit).run = some <$> Meter.infer := rfl
  simp only [OptionT.run_bind, Option.elimM, hlift, bind_map_left]
  exact (Settles.infer fun m' hm' => hm').bind fun _ m' _ (hm' : m'.spent = m.spent + 1) => h m' (by omega)

theorem mapM {f : Nat → Nat → α → OptionT Metered β} {as : List α} (hf : ∀ a ∈ as, FinishesOption n fun b d => f b d a) :
    FinishesOption n fun b d => as.mapM (f b d) := by
  induction as with
  | nil => exact pure []
  | cons a as ih =>
    simp only [List.mapM_cons]
    have hrest := ih fun a' ha' => hf a' (List.mem_cons_of_mem a ha')
    exact (hf a List.mem_cons_self).bind_any fun b => hrest.bind_any fun bs => pure (b :: bs)

end FinishesOption

/-- The computation settles in every store without the words, whenever so much was counted. -/
def FinishesIn (words : List String) (n : Nat) (x : Nat → Nat → Selecting α) : Prop :=
  ∀ w : Workspace, w.store.Avoids words → ∀ m : Meter, n ≤ m.spent →
    Settles (fun b d => (x b d).run.run w) m fun _ _ => True

namespace FinishesIn

variable {words : List String} {R : α → Prop} {x : Nat → Nat → Selecting α} {f : Nat → Nat → α → Selecting β}

theorem of_quiet {x : Selecting α} (hx : Quiet x) : FinishesIn words n fun _ _ => x := by
  intro w _ m _
  obtain ⟨r, hr, -⟩ := hx w
  simp only [hr]
  exact Settles.pure trivial

theorem lift {x : Nat → Nat → Metered α} (h : ∀ m : Meter, n ≤ m.spent → Settles x m fun _ _ => True) :
    FinishesIn words n fun b d => (liftM (x b d) : Selecting α) := by
  intro w _ m hm
  simp only [Selecting.run_liftM]
  exact (h m hm).bind fun _ _ _ _ => Settles.pure trivial

theorem bind (h : FinishesIn words n x) (hx : ∀ b d, Yields words (x b d) R)
    (hf : ∀ a, R a → FinishesIn words n fun b d => f b d a) : FinishesIn words n fun b d => x b d >>= f b d := by
  intro w hw m hm
  simp only [OptionT.run_bind, Option.elimM, StateT.run_bind]
  refine Settles.bind ((h w hw m hm).ensures fun b d => hx b d w hw) fun r m' hle hr => ?_
  obtain ⟨a, w'⟩ := r
  cases a with
  | none => exact Settles.pure trivial
  | some a => exact hf a (hr.1.2 a rfl) w' hr.1.1 m' (Nat.le_trans hm hle)

/-- What comes before a question settles. -/
theorem bind_quiet {x : Selecting α} (h : Quiet x) (hx : Yields words x R)
    (hf : ∀ a, R a → FinishesIn words n fun b d => f b d a) : FinishesIn words n fun b d => x >>= f b d :=
  (of_quiet h).bind (fun _ _ => hx) hf

end FinishesIn

/-! ### Selections -/

/-- The question settles whenever so much was counted. -/
def Question.Finishes (src : Sources) (n : Nat) (q : Question) : Prop :=
  ∀ m : Meter, n ≤ m.spent → Settles (fun b d => consultWithin src b d q) m fun _ _ => True

section

variable (hL : L.Closed src)

include hL

theorem finishes_mapRelation {relation : String}
    (hgoal : ∀ item v, item.Avoids L.words → L.goal (.apply relation [item, .var v]))
    (hquestion : ∀ item v, item.Avoids L.words → (Question.first (.var v) (.apply relation [item, .var v])).Finishes src n)
    {items : List Term} (hitems : ∀ t ∈ items, t.Avoids L.words) :
    FinishesIn L.words n fun b d => mapRelation (consultWithin src b d) relation items := by
  induction items with
  | nil => exact .of_quiet (.pure [])
  | cons item items ih =>
    rw [List.forall_mem_cons] at hitems
    have hfresh : Yields L.words Selecting.freshVar fun t => ∃ v, t = .var v :=
      fun w hw => Ensures.pure ⟨hw, fun _ hb => Option.some.inj hb ▸ ⟨_, rfl⟩⟩
    unfold mapRelation
    refine .bind_quiet quiet_freshVar hfresh fun out hout => ?_
    obtain ⟨v, rfl⟩ := hout
    have hask (b d : Nat) : Ensures (consultWithin src b d (.first (.var v) (.apply relation [item, .var v]))) fun ts =>
        ∀ t ∈ ts, t.Avoids L.words :=
      Language.answers_consultWithin hL b d (.first _ _) ⟨Term.avoids_var v, hgoal item v hitems.1⟩
    refine (FinishesIn.lift (hquestion item v hitems.1)).bind (fun b d => .lift (hask b d)) fun results hresults => ?_
    cases results with
    | nil => exact .of_quiet .failure
    | cons result _ =>
      refine (ih hitems.2).bind (fun b d => ?_) fun rest (_ : ∀ t ∈ rest, t.Avoids L.words) => .of_quiet (.pure _)
      exact Language.yields_mapRelation (Language.answers_consultWithin hL b d) hgoal hitems.2

theorem finishes_selectMapped {args : List Term} (hargs : L.Computes "map" args)
    (hquestion : ∀ r item v, args[0]? = some (.sym r) → item.Avoids L.words →
      (Question.first (.var v) (.apply r [item, .var v])).Finishes src n) (env : EnvId) :
    FinishesIn L.words n fun b d => selectMapped (consultWithin src b d) args env := by
  obtain ⟨hlist, -, hrelation⟩ := hargs.map rfl
  unfold selectMapped
  refine .bind_quiet (.getM _) (.getM fun t ht => ht) fun t (ht : t ∈ args[0]?) => ?_
  refine .bind_quiet (.getM _) (.getM fun r hr => hr) fun r (hr : r ∈ t.asSymbol) => ?_
  have hsymbol : args[0]? = some (.sym r) := by
    cases t with
    | sym a =>
      cases hr
      exact ht
    | var w => cases hr
    | compound f args => cases hr
  refine .bind_quiet (.getM _) (.getM hlist) fun t ht => ?_
  refine .bind_quiet (quiet_input t env) (.input t env) fun list hlist => ?_
  refine .bind_quiet (.getM _) (.getM fun ts hts => Term.avoids_of_items? (hlist.avoids ht) hts) fun items hitems => ?_
  have hgoal (item : Term) (v : String) (hitem : item.Avoids L.words) := hrelation r item v hsymbol hitem
  have hmap := finishes_mapRelation hL hgoal (fun item v hitem => hquestion r item v hsymbol hitem) hitems
  refine hmap.bind (fun b d => ?_) fun results (_ : ∀ t ∈ results, t.Avoids L.words) => ?_
  · exact Language.yields_mapRelation (Language.answers_consultWithin hL b d) hgoal hitems
  · exact .of_quiet ((Quiet.getM _).bind fun output => .pure _)

theorem finishes_selectAggregate {f : String} {args : List Term} (hargs : L.Computes f args) (hf : isAggregate f = true)
    (hquestion : ∀ t ∈ args[1]?, ∀ goal, t.Fills L.words goal → ∀ template, template.Avoids L.words →
      (Question.all template goal).Finishes src n) (env : EnvId) :
    FinishesIn L.words n fun b d => selectAggregate src (consultWithin src b d) f args env := by
  obtain ⟨htemplate, hgoal, -⟩ := hargs.aggregate hf
  unfold selectAggregate
  refine .bind_quiet (.getM _) (.getM htemplate) fun t ht => ?_
  refine .bind_quiet (quiet_input t env) (.input t env) fun template htemplate => ?_
  refine .bind_quiet (.getM _) (.getM fun g hg => hg) fun g (hg : g ∈ args[1]?) => ?_
  refine .bind_quiet (quiet_input g env) (.input g env) fun goal hfills => ?_
  have htemplate := htemplate.avoids ht
  have hask (b d : Nat) := Language.answers_consultWithin hL b d
  have hgoal' := hL.goal_fills g goal (hgoal g hg) hfills
  have hall := hquestion g hg goal hfills template htemplate
  dsimp only
  split
  · have hfind (m : Meter) (hm : n ≤ m.spent) :
        Settles (fun b d => (consultWithin src b d).findAll src.config template goal) m fun _ _ => True :=
      (hall m hm).bind fun ts _ _ _ => Settles.pure trivial
    refine (FinishesIn.lift hfind).bind (fun b d => .lift (Language.ensures_findAll (hask b d) _ htemplate hgoal'))
      fun answers _ => ?_
    exact .of_quiet ((Quiet.pure _).bind fun value => (Quiet.getM _).bind fun output => .pure _)
  · have hcount (m : Meter) (hm : n ≤ m.spent) :
        Settles (fun b d => (consultWithin src b d).count template goal) m fun _ _ => True :=
      (hall m hm).bind fun ts _ _ _ => Settles.pure trivial
    refine (FinishesIn.lift hcount).bind (fun b d => .lift (Language.ensures_count hL (hask b d) htemplate hgoal'))
      fun value _ => ?_
    exact .of_quiet ((Quiet.getM _).bind fun output => .pure _)

theorem finishes_selectValue {args : List Term} (hargs : L.Computes "evaluate" args)
    (hquestion : ∀ t ∈ args[0]?, ∀ e, t.Fills L.words e → (Question.value e).Finishes src n) (env : EnvId) :
    FinishesIn L.words n fun b d => selectValue (consultWithin src b d) args env := by
  obtain ⟨hexpr, -⟩ := hargs.evaluate rfl
  unfold selectValue
  refine .bind_quiet (.getM _) (.getM fun t ht => ht) fun t (ht : t ∈ args[0]?) => ?_
  refine .bind_quiet (quiet_input t env) (.input t env) fun e hfills => ?_
  have hask (b d : Nat) := Language.answers_consultWithin hL b d (.value e) (hL.expr_fills t e (hexpr t ht) hfills)
  refine (FinishesIn.lift (hquestion t ht e hfills)).bind (fun b d => .lift (hask b d)) fun values _ => ?_
  exact .of_quiet ((Quiet.getM _).bind fun value => (Quiet.getM _).bind fun output => .pure _)

/-- What a computed goal selects is found if the questions that it puts are answered. -/
theorem finishes_selectComputed {f : String} {args : List Term} (hargs : L.Computes f args)
    (hvalue : f = "evaluate" → ∀ t ∈ args[0]?, ∀ e, t.Fills L.words e → (Question.value e).Finishes src n)
    (hmap : f = "map" → ∀ r item v, args[0]? = some (.sym r) → item.Avoids L.words →
      (Question.first (.var v) (.apply r [item, .var v])).Finishes src n)
    (haggregate : isAggregate f = true → ∀ t ∈ args[1]?, ∀ goal, t.Fills L.words goal → ∀ template,
      template.Avoids L.words → (Question.all template goal).Finishes src n) (env : EnvId) :
    FinishesIn L.words n fun b d => selectComputed src (consultWithin src b d) f args env := by
  unfold selectComputed
  split
  · exact finishes_selectValue hL hargs (hvalue rfl) env
  · exact .of_quiet (quiet_selectGroups args env)
  · exact .of_quiet (quiet_selectMatches args env)
  · exact finishes_selectMapped hL hargs (hmap rfl) env
  · split
    · rename_i hf
      exact finishes_selectAggregate hL hargs hf (haggregate hf) env
    · exact .of_quiet (quiet_selectCall f args env)

end

/-! ### Values -/

section

variable (hL : L.Closed src) (hvalue : ∀ e, L.expr e → (Question.value e).Finishes src (n + 1))

include hL hvalue

/-- Definitions are applied from the next count on. -/
theorem finishes_applyDefinitions {e : Term} (he : L.expr e) {f : String} {call : Term} (hcall : call.Avoids L.words)
    {sentences : List Term} (hsentences : ∀ t ∈ sentences, t ∈ src.rules.toList) (isDefined : Bool) :
    FinishesOption n fun b d => applyDefinitions (consultWithin src b d) f call sentences isDefined := by
  induction sentences generalizing isDefined with
  | nil =>
    unfold applyDefinitions
    split
    · exact .failure
    · exact .pure _
  | cons sentence rest ih =>
    rw [List.forall_mem_cons] at hsentences
    have ih' (isDefined : Bool) := ih hsentences.2 isDefined
    unfold applyDefinitions
    split
    · exact ih' _
    · rename_i head body hdefinition
      obtain ⟨hhead, hbody⟩ := hL.definition e he sentence hsentences.1 head body hdefinition
      dsimp only
      split
      · exact ih' _
      · rename_i bindings hbindings
        have havoids : bindings.Avoids L.words := Bindings.avoids_of_unifier hhead hcall hbindings
        have hplug : L.expr (bindings.plug body) := hL.expr_fills _ _ hbody (havoids.plugAt _ body)
        have hask (b d : Nat) := Language.answers_consultWithin hL b d (.value _) hplug
        refine FinishesOption.infer ((FinishesOption.lift (hvalue _ hplug)).bind (fun b d => .lift (hask b d))
          fun values _ => ?_)
        cases values with
        | nil => exact (ih' _).mono (Nat.le_succ n)
        | cons value _ => exact .pure _

theorem finishes_applyFunctor {e : Term} (he : L.expr e) {f : String} (hf : f ∉ L.words) {values : List Term}
    (hvalues : ∀ t ∈ values, t.Avoids L.words) :
    FinishesOption n fun b d => applyFunctor src (consultWithin src b d) f values := by
  unfold applyFunctor
  split
  · exact .getM _
  · split
    · exact .getM _
    · split
      · exact .getM _
      · exact finishes_applyDefinitions hL hvalue he (Term.avoids_apply hf hvalues)
          (fun t ht => Theory.mem_of_mem_lookup ht) false

omit hL hvalue in
theorem finishes_valuesOf {ts : List Term}
    (hts : ∀ t ∈ ts, FinishesOption n fun b d => valueOf src (consultWithin src b d) t) :
    FinishesOption n fun b d => valuesOf src (consultWithin src b d) ts := by
  induction ts with
  | nil =>
    unfold valuesOf
    exact .pure _
  | cons t ts ih =>
    rw [List.forall_mem_cons] at hts
    unfold valuesOf
    exact hts.1.bind_any fun v => (ih hts.2).bind_any fun vs => .pure _

theorem finishes_mapped {e : Term} (he : L.expr e) {f : String} (hf : f ∉ L.words) {args : List Term}
    (hexprs : ∀ t ∈ args, L.expr t)
    (hargs : ∀ t ∈ args, FinishesOption n fun b d => valueOf src (consultWithin src b d) t) :
    FinishesOption n fun b d => mapped src (consultWithin src b d) f args := by
  cases args with
  | nil => exact .failure
  | cons list rest =>
    rw [List.forall_mem_cons] at hargs hexprs
    have hask (b d : Nat) := Language.answers_consultWithin hL b d
    refine hargs.1.bind (fun b d => Language.ensuresOption_valueOf hL (hask b d) list hexprs.1) fun v hv => ?_
    refine (FinishesOption.getM _).bind (fun _ _ => .getM fun ts hts => Term.avoids_of_items? hv hts)
      fun items hitems => ?_
    have happly (item : Term) (hitem : item ∈ items) : ∀ t ∈ [item], t.Avoids L.words := by simpa using hitems item hitem
    exact (FinishesOption.mapM fun item hitem => finishes_applyFunctor hL hvalue he hf (happly item hitem)).bind_any
      fun vs => .pure _

omit hL hvalue in
/-- The value that follows the first condition that holds. -/
theorem finishes_valueOfBranch {condition value : Term} {rest : List Term}
    (hcondition : (Question.first (.sym "true") condition).Finishes src n)
    (hbranch : FinishesOption n fun b d => valueOf src (consultWithin src b d) value)
    (hrest : FinishesOption n fun b d => valueOfBranch src (consultWithin src b d) rest) :
    FinishesOption n fun b d => valueOfBranch src (consultWithin src b d) (condition :: value :: rest) := by
  unfold valueOfBranch
  refine (FinishesOption.lift fun m hm => ?_).bind_any fun holds => ?_
  · refine Settles.bind (R := fun _ _ => True) ?_ fun _ _ _ _ => Settles.pure trivial
    exact (hcondition m hm).bind fun _ _ _ _ => Settles.pure trivial
  · split
    · exact hbranch
    · exact hrest

/-- The value of a compound, if the questions that it puts are answered and its parts have their values. -/
theorem finishes_compound {f : String} {args : List Term} (he : L.expr (.compound f args))
    (hquestion : isAggregate f = true ∨ f = "choose" → ∀ template goal rest, args = template :: goal :: rest →
      (Question.all template goal).Finishes src n ∧ (Question.first template goal).Finishes src n)
    (hbranch : f = "if" → FinishesOption n fun b d => valueOfBranch src (consultWithin src b d) args)
    (hargs : f ≠ "if" → isAggregate f = false → f ≠ "choose" →
      ∀ t ∈ args, FinishesOption n fun b d => valueOf src (consultWithin src b d) t) :
    FinishesOption n fun b d => valueOf src (consultWithin src b d) (.compound f args) := by
  have hparts := hL.expr_evaluates f args he
  have hask (b d : Nat) := Language.answers_consultWithin hL b d
  unfold valueOf
  refine (FinishesOption.lift fun m _ => Settles.isSpent trivial).bind_any fun spent => ?_
  split
  · exact .failure
  split
  · rename_i function rest
    have hexprs := hparts.map rfl
    have hargs := hargs (by decide) (by decide) (by decide)
    rw [List.forall_mem_cons] at hexprs hargs
    refine hargs.1.bind (fun b d => Language.ensuresOption_valueOf hL (hask b d) function hexprs.1) fun v hv => ?_
    refine (FinishesOption.getM _).bind (R := fun r => r ∉ L.words) (fun b d => .getM fun r hr => ?_) fun r hr => ?_
    · cases v with
      | sym a =>
        cases hr
        exact Term.avoids_sym.1 hv
      | var w => cases hr
      | compound g ts => cases hr
    · exact finishes_mapped hL hvalue he hr hexprs.2 hargs.2
  · rename_i template goal _
    refine (FinishesOption.lift fun m hm => ?_).bind_any fun ts => .pure _
    exact ((hquestion (.inl rfl) template goal _ rfl).1 m hm).bind fun _ _ _ _ => Settles.pure trivial
  · rename_i template goal _
    refine FinishesOption.lift fun m hm => ?_
    exact ((hquestion (.inl rfl) template goal _ rfl).1 m hm).bind fun _ _ _ _ => Settles.pure trivial
  · rename_i template goal _
    intro m hm
    exact ((hquestion (.inr rfl) template goal _ rfl).2 m hm).bind fun _ _ _ _ => Settles.pure trivial
  · exact hbranch rfl
  · rename_i hif _ _ _ _
    split
    · exact .failure
    · rename_i hspecial
      simp only [Bool.or_eq_true, decide_eq_true_eq, not_or, Bool.not_eq_true] at hspecial
      obtain ⟨hword, hexprs⟩ := hparts.call hspecial.1.1 hspecial.1.2 hspecial.2 hif
      have hvalues := finishes_valuesOf (hargs hif hspecial.1.2 hspecial.2)
      refine hvalues.bind (R := fun vs => ∀ v ∈ vs, v.Avoids L.words) (fun b d => ?_) fun vs hvs => ?_
      · exact Language.ensuresOption_valuesOf fun t ht => Language.ensuresOption_valueOf hL (hask b d) t (hexprs t ht)
      · exact finishes_applyFunctor hL hvalue he hword hvs

end

end Deduction
