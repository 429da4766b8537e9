import Mathlib.Data.Set.Finite.Basic
import Deduction.Proofs.Calls.Scenes

/-!
# Selections in coupled workspaces

What linked goals select in coupled workspaces has linked targets and linked candidates (`Scene.draws_selectComputed`,
`Scene.draws_selectMembers`). Elements are those of plugged lists, texts and answers have no variables, and a value has
no other variables than the terms that it is computed from. The values of builtins that turn texts into terms or terms
into texts do not follow the variables, so these are linked only if they have none.
-/

namespace Deduction

variable {α β γ δ D : Type} [Values D]

/-! ### Values that do not go by names -/

/-- A value that does not go by names has no other variables than the terms that it is made of. -/
theorem mem_vars_of_relabel {F : List Term → Option Term}
    (hF : ∀ (π : Equiv.Perm String) ts, F (ts.map (Term.relabel π)) = (F ts).map (Term.relabel π)) {us : List Term}
    {t : Term} (ht : F us = some t) {v : String} (hv : v ∈ t.vars) : ∃ u ∈ us, v ∈ u.vars := by
  by_contra hnone
  -- Otherwise the variable may be swapped for one that does not occur at all, which leaves the terms as they are.
  obtain ⟨w, hw⟩ := Infinite.exists_notMem_finset ((t :: us).flatMap Term.vars).toFinset
  rw [List.mem_toFinset, List.flatMap_cons, List.mem_append, not_or] at hw
  have hsame : us.map (Term.relabel (Equiv.swap v w)) = us := by
    refine Term.relabel_eq_self_list us fun u hu x hx => Equiv.swap_apply_of_ne_of_ne ?_ ?_
    · rintro rfl
      exact hnone ⟨u, hu, hx⟩
    · rintro rfl
      exact hw.2 (List.mem_flatMap.2 ⟨u, hu, hx⟩)
  have heq := hF (Equiv.swap v w) us
  rw [hsame, ht, Option.map_some, Option.some.injEq] at heq
  refine hw.1 (heq ▸ ?_)
  rw [Term.vars_relabel]
  exact List.mem_map.2 ⟨v, hv, Equiv.swap_apply_left v w⟩

/-- The value of a builtin, a math function or a list operator. -/
def calledValue (surroundings : Surroundings) (f : String) (values : List Term) : Option Term :=
  if isBuiltin f then callBuiltin f values surroundings
  else if isMath f then callMath f values surroundings
  else values.head?.bind (callListOperator f)

variable {surroundings : Surroundings}

theorem calledValue_relabel {f : String} (hf : f ∉ textWords) (π : Equiv.Perm String) (values : List Term) :
    calledValue surroundings f (values.map (Term.relabel π)) =
      (calledValue surroundings f values).map (Term.relabel π) := by
  unfold calledValue
  split
  · exact callBuiltin_relabel hf values
  · split
    · exact callMath_relabel f values
    · cases values with
      | nil => rfl
      | cons v vs => exact callListOperator_relabel f v

theorem selectCall_eq (f : String) (args : List Term) (env : EnvId) :
    selectCall surroundings f args env =
      args.getLast?.getM >>= fun output => Selecting.inputs env args.dropLast >>= fun values =>
        (calledValue surroundings f values).getM >>= fun value => pure ⟨output, [value], env⟩ := by
  unfold selectCall calledValue
  refine bind_congr fun output => bind_congr fun values => ?_
  split
  · rfl
  · split <;> rfl

/-- The elements of a list have no other variables than the list. -/
theorem Term.mem_vars_of_mem_cells {v : String} : (t : Term) → ∀ u ∈ t.cells, v ∈ u.vars → v ∈ t.vars
  | .var _ => List.forall_mem_nil _
  | .sym _ => List.forall_mem_nil _
  | .compound f [head, tail] => by
    intro u hu hv
    unfold Term.cells Term.uncons at hu
    split at hu
    · rcases List.mem_cons.1 hu with rfl | hu
      · exact Term.mem_vars_compound.2 ⟨u, List.mem_cons_self, hv⟩
      · exact Term.mem_vars_compound.2 ⟨tail, by simp, Term.mem_vars_of_mem_cells tail u hu hv⟩
    · cases hu
  | .compound _ [] => List.forall_mem_nil _
  | .compound _ [_] => List.forall_mem_nil _
  | .compound _ (_ :: _ :: _ :: _) => List.forall_mem_nil _

theorem Term.cells_of_items? {t : Term} {items : List Term} (h : t.items? = some items) : t.cells = items := by
  unfold Term.items? at h
  split at h
  rename_i items' last hlast
  split at h
  · cases h
    rw [Term.cells, hlast]
  · cases h

namespace Scene

variable {x : Scene D} {w w' : Workspace} {vs vs' ts ts' us us' args args' : List Term} {t t' u u' : Term}
  {limit room room' : Nat} {S : Workspace → Workspace → α → β → Prop} {src : Sources} {ask : Answerer} {f : String}

/-! ### Arguments -/

theorem links_getElem? (hargs : List.Forall₂ x.Links args args') (i : Nat) :
    Option.Rel x.Links args[i]? args'[i]? := by
  induction hargs generalizing i with
  | nil => exact .none
  | cons ht _ ih =>
    cases i with
    | zero => exact .some ht
    | succ i => exact ih i

/-- Lists of linked terms are linked. -/
theorem links_list (hx : x.Proper) (hts : List.Forall₂ x.Links ts ts') : x.Links (.list ts) (.list ts') := by
  refine ⟨hx.env_lt, hx.env_lt', fun {θ θ'} hR => ?_⟩
  induction hts with
  | nil => rfl
  | @cons t t' ts ts' ht _ ih =>
    change θ.read x.env (.cons t (.list ts)) = θ'.read x.env' (.cons t' (.list ts'))
    have hhead : θ.read x.env t = θ'.read x.env' t' := ht.read_eq hR
    have htail : θ.read x.env (.list ts) = θ'.read x.env' (.list ts') := ih
    rw [Term.cons, Term.cons, Reading.read_compound, Reading.read_compound]
    simp only [List.map_cons, List.map_nil, hhead, htail]

namespace Draws

variable {F : Selecting α} {G : Selecting β}

/-- What was plugged is the same but for the names of its variables. -/
theorem of_relabel (hx : x.Proper) (h : ∀ π : Equiv.Perm String, vs' = vs.map (Term.relabel π) →
    x.Draws limit room room' S vs vs' ts ts' us us' F G) : x.Draws limit room room' S vs vs' ts ts' us us' F G := by
  intro w w' hw
  obtain ⟨π, hπ, -⟩ := hw.exists_relabel hx
  exact h π hπ w w' hw

theorem same_bind {a : Option γ} {f : γ → Selecting α} {g : γ → Selecting β}
    (h : ∀ c, x.Draws limit room room' S vs vs' ts ts' us us' (f c) (g c)) :
    x.Draws limit room room' S vs vs' ts ts' us us' (a.getM >>= f) (a.getM >>= g) := by
  cases a with
  | none => exact failure
  | some c => exact h c

end Draws

/-- The targets are linked, and so are the candidates, unless they are values of texts with variables. -/
structure Fits (x : Scene D) (f : String) (w w' : Workspace) (y y' : Selection) : Prop where
  env_eq : y.env = x.env
  env_eq' : y'.env = x.env'
  target : x.Links y.target y'.target
  candidates : (f ∈ textWords → ∀ t ∈ y.candidates, t.isGround = true) → x.Drawn y.candidates y'.candidates w w'

theorem Drawn.fits (hx : x.Proper) (hw : x.Drawn vs vs' w w') (ht : x.Links t t') {cs : List Term}
    (hcs : ∀ c ∈ cs, c.isGround = true) : x.Fits f w w' ⟨t, cs, x.env⟩ ⟨t', cs, x.env'⟩ :=
  ⟨rfl, rfl, ht, fun _ => hw.of_ground hx hcs⟩

/-- The same ground candidates for linked targets. -/
theorem Draws.ground (hx : x.Proper) (ht : x.Links t t') {cs : List Term} (hcs : ∀ c ∈ cs, c.isGround = true) :
    x.Draws limit room room' (x.Fits f) vs vs' ts ts' us us' (Pure.pure ⟨t, cs, x.env⟩) (Pure.pure ⟨t', cs, x.env'⟩) :=
  .pure fun _ _ hw => hw.fits hx ht hcs

/-! ### Elements and texts -/

theorem draws_selectMembers (hx : x.Proper) (hitem : x.Links t t') (hlist : x.Links u u') :
    x.Draws limit room room' (x.Fits f) [] [] [u] [u'] us us' (selectMembers t u x.env) (selectMembers t' u' x.env') := by
  unfold selectMembers
  refine .input_bind hx hlist fun l l' _ _ _ _ => .pure fun w w' hw => ⟨rfl, rfl, hitem, fun _ => ?_⟩
  obtain ⟨π, hπ, hlinked⟩ := hw.exists_relabel hx
  obtain rfl : l' = l.relabel π := by simpa using hπ
  dsimp only
  rw [Term.cells_relabel]
  exact hw.of_vars hx hπ hlinked fun t ht v hv => ⟨l, by simp, l.mem_vars_of_mem_cells t ht hv⟩

theorem draws_selectGroups (hx : x.Proper) (hargs : List.Forall₂ x.Links args args') :
    x.Draws limit room room' (x.Fits f) [] [] (argsAt [0, 1] args) (argsAt [0, 1] args') us us'
      (selectGroups surroundings args x.env) (selectGroups surroundings args' x.env') := by
  unfold selectGroups
  refine .inputArg_bind hx hargs 0 fun text text' _ _ _ _ => .inputArg_bind hx hargs 1 fun pattern pattern' _ _ _ _ => ?_
  refine .of_relabel hx fun π hπ => ?_
  obtain ⟨rfl, rfl⟩ : text' = text.relabel π ∧ pattern' = pattern.relabel π := by simpa using hπ
  rw [Term.stringText?_relabel, Term.stringText?_relabel]
  refine .same_bind fun text => .same_bind fun pattern => .same_bind fun groups => ?_
  have houtputs := List.forall₂_drop 2 hargs
  dsimp only
  rw [← houtputs.length_eq]
  split
  · exact .failure
  · refine .ground hx (links_list hx houtputs) (List.forall_mem_singleton.2 (Term.isGround_list fun t ht => ?_))
    obtain ⟨text, -, rfl⟩ := List.mem_map.1 ht
    rfl

theorem draws_selectMatches (hx : x.Proper) (hargs : List.Forall₂ x.Links args args') :
    x.Draws limit room room' (x.Fits f) [] [] (argsAt [0, 1] args) (argsAt [0, 1] args') us us'
      (selectMatches surroundings args x.env) (selectMatches surroundings args' x.env') := by
  unfold selectMatches
  refine .inputArg_bind hx hargs 0 fun text text' _ _ _ _ => .inputArg_bind hx hargs 1 fun pattern pattern' _ _ _ _ => ?_
  refine .of_relabel hx fun π hπ => ?_
  obtain ⟨rfl, rfl⟩ : text' = text.relabel π ∧ pattern' = pattern.relabel π := by simpa using hπ
  rw [Term.stringText?_relabel, Term.stringText?_relabel]
  refine .same_bind fun text => .same_bind fun pattern => .getM_bind (links_getElem? hargs 2) fun output output' hout => ?_
  refine .ground hx hout fun t ht => ?_
  obtain ⟨text, -, rfl⟩ := List.mem_map.1 ht
  rfl

/-! ### Values -/

theorem draws_selectCall (hx : x.Proper) (hargs : List.Forall₂ x.Links args args')
    (hground : f ∈ textWords → ∀ u ∈ us, u.isGround = true) :
    x.Draws limit room room' (x.Fits f) [] [] args.dropLast args'.dropLast us us'
      (selectCall surroundings f args x.env) (selectCall surroundings f args' x.env') := by
  have hlast : Option.Rel x.Links args.getLast? args'.getLast? := by
    rw [List.getLast?_eq_getElem?, List.getLast?_eq_getElem?, ← hargs.length_eq]
    exact links_getElem? hargs _
  have hinit : List.Forall₂ x.Links args.dropLast args'.dropLast := by
    rw [List.dropLast_eq_take, List.dropLast_eq_take, ← hargs.length_eq]
    exact List.forall₂_take _ hargs
  rw [selectCall_eq, selectCall_eq]
  refine .getM_bind hlast fun output output' hout => .inputs_bind hx hinit ?_
  rw [List.nil_append, List.nil_append]
  refine .of_relabel hx fun π hπ => ?_
  subst hπ
  by_cases hf : f ∈ textWords
  · -- Texts are made of ground terms only, so both values are the same.
    have hsame : us.map (Term.relabel π) = us := by
      rw [List.map_congr_left fun u hu => Term.relabel_of_isGround (hground hf u hu), List.map_id']
    rw [hsame]
    exact .same_bind fun value => .pure fun w w' hw => ⟨rfl, rfl, hout, fun h => hw.of_ground hx (h hf)⟩
  · rw [calledValue_relabel hf]
    cases hvalue : calledValue surroundings f us with
    | none => exact .failure
    | some value =>
      refine .pure fun w w' hw => ⟨rfl, rfl, hout, fun _ => ?_⟩
      obtain ⟨ρ, hρ, hlinked⟩ := hw.exists_relabel hx
      have hvalues : value.relabel π = value.relabel ρ := by
        have hsame : calledValue surroundings f (us.map (Term.relabel ρ)) = _ := calledValue_relabel hf ρ us
        rw [← hρ, calledValue_relabel hf, hvalue] at hsame
        exact Option.some.inj hsame
      dsimp only
      rw [hvalues]
      refine hw.of_vars hx hρ hlinked (List.forall_mem_singleton.2 fun v hv => ?_)
      exact mem_vars_of_relabel (calledValue_relabel hf) hvalue hv

/-! ### Answers -/

section

variable (hask : ask.Nameless limit)

include hask

theorem draws_selectValue (hx : x.Proper) (hargs : List.Forall₂ x.Links args args') :
    x.Draws limit room room' (x.Fits f) [] [] (argsAt [0] args) (argsAt [0] args') us us' (selectValue ask args x.env)
      (selectValue ask args' x.env') := by
  unfold selectValue
  refine .inputArg_bind hx hargs 0 fun expr expr' _ _ _ _ => .of_relabel hx fun π hπ => ?_
  obtain rfl : expr' = expr.relabel π := by simpa using hπ
  have hcounts (args : List Term) (env : EnvId) (values : List Term) : CountsIn (do
      let value ← values.head?.getM
      return ⟨← args[1]?.getM, [value], env⟩ : Selecting Selection) :=
    .of_quiet ((Quiet.getM _).bind fun value => (Quiet.getM _).bind fun output => .pure _)
  refine .lift_bind ((hask.agree π (.value expr)).and (hask.ground (.value expr))) (hcounts args x.env)
    (hcounts args' x.env') fun values values' hvalues => ?_
  obtain ⟨rfl, hground⟩ := hvalues
  have hhead : Option.Rel (fun a b => a = b ∧ a.isGround = true) values.head? values.head? := by
    cases values with
    | nil => exact .none
    | cons value rest => exact .some ⟨rfl, hground value List.mem_cons_self⟩
  refine .getM_bind hhead fun value _ hvalue => .getM_bind (links_getElem? hargs 1) fun output output' hout => ?_
  obtain ⟨rfl, hvalue⟩ := hvalue
  exact .ground hx hout (List.forall_mem_singleton.2 hvalue)

theorem draws_selectAggregate (hx : x.Proper) (hargs : List.Forall₂ x.Links args args') :
    x.Draws limit room room' (x.Fits f) [] [] (argsAt [0, 1] args) (argsAt [0, 1] args') us us'
      (selectAggregate src ask f args x.env) (selectAggregate src ask f args' x.env') := by
  unfold selectAggregate
  refine .inputArg_bind hx hargs 0 fun template template' _ _ _ _ => .inputArg_bind hx hargs 1 fun goal goal' _ _ _ _ => ?_
  refine .of_relabel hx fun π hπ => ?_
  obtain ⟨rfl, rfl⟩ : template' = template.relabel π ∧ goal' = goal.relabel π := by simpa using hπ
  have hcounts (args : List Term) (env : EnvId) (value : Term) :
      CountsIn (do return ⟨← args[2]?.getM, [value], env⟩ : Selecting Selection) :=
    .of_quiet ((Quiet.getM _).bind fun output => .pure _)
  dsimp only
  split
  · have hground : Ensures (ask.findAll src.config template goal) fun ts => ∀ t ∈ ts, t.isGround = true :=
      (hask.ground (.all template goal)).bind fun ts hts => Ensures.pure fun t ht => hts t ((DedupPolicy.mem_apply _).1 ht)
    refine .lift_bind ((hask.findAll π src.config template goal).and hground) (fun ts => hcounts args x.env _)
      (fun ts => hcounts args' x.env' _) fun ts ts' hts => ?_
    obtain ⟨rfl, hground⟩ := hts
    refine .getM_bind (links_getElem? hargs 2) fun output output' hout => ?_
    exact .ground hx hout (List.forall_mem_singleton.2 (Term.isGround_list hground))
  · have hground : Ensures (ask.count template goal) fun t => t.isGround = true :=
      (Ensures.any _).bind fun ts _ => Ensures.pure rfl
    refine .lift_bind ((hask.count π template goal).and hground) (fun t => hcounts args x.env _)
      (fun t => hcounts args' x.env' _) fun t t' ht => ?_
    obtain ⟨rfl, hground⟩ := ht
    refine .getM_bind (links_getElem? hargs 2) fun output output' hout => ?_
    exact .ground hx hout (List.forall_mem_singleton.2 hground)

/-- Asking what a relation gives for an element. -/
theorem agree_ask_element (relation : String) {v v' : String} {π : Equiv.Perm String} (hv : v ∉ t.vars)
    (hv' : v' ∉ (t.relabel π).vars) :
    Agree limit (fun ts ts' => ts = ts' ∧ ∀ t ∈ ts, t.isGround = true)
      (ask (.first (.var v) (.apply relation [t, .var v])))
      (ask (.first (.var v') (.apply relation [t.relabel π, .var v']))) := by
  obtain ⟨ρ, hρ, rfl⟩ := exists_relabel_with hv hv'
  have hasked := (hask.agree ρ (.first (.var v) (.apply relation [t, .var v]))).and (hask.ground _)
  unfold Question.relabel at hasked
  dsimp only at hasked
  rwa [Term.relabel_apply, List.map_cons, List.map_singleton, Term.relabel_var, hρ] at hasked

/-- What a relation gives for the elements of lists that differ in their variables. -/
theorem draws_mapRelation (hx : x.Proper) (relation : String) {items items' : List Term} (hroom : items.length ≤ room)
    (hroom' : items'.length ≤ room') :
    x.Draws limit room room' (fun _ _ rs rs' => rs = rs' ∧ ∀ t ∈ rs, t.isGround = true) items items' [] [] [] []
      (mapRelation ask relation items) (mapRelation ask relation items') := by
  induction items generalizing items' room room' with
  | nil =>
    refine .of_relabel hx fun π hπ => ?_
    subst hπ
    exact .pure fun _ _ _ => ⟨rfl, List.forall_mem_nil _⟩
  | cons item items ih =>
    intro w w' hw hus hus'
    obtain ⟨π, rfl, -⟩ := hw.exists_relabel hx
    rw [List.map_cons] at hw hroom' ⊢
    rw [List.length_cons] at hroom hroom'
    have hlt := hus.issued_lt
    have hlt' := hus'.issued_lt
    have hasked := agree_ask_element hask relation (hw.not_mem_vars hx (by omega) List.mem_cons_self)
      (hw.not_mem_vars' hx (by omega) List.mem_cons_self)
    have hcounts (items : List Term) (result : Term) : CountsIn (return result :: (← mapRelation ask relation items)) :=
      (countsIn_mapRelation hask.counting relation items).bind fun rs => .of_quiet (.pure _)
    have hrest : x.Draws limit items.length (items.map (Term.relabel π)).length
        (fun _ _ rs rs' => rs = rs' ∧ ∀ t ∈ rs, t.isGround = true) items (items.map (Term.relabel π)) [] [] [] []
        (mapRelation ask relation items) (mapRelation ask relation (items.map (Term.relabel π))) :=
      ih (Nat.le_refl _) (Nat.le_refl _)
    have hafford {w : Workspace} {env : EnvId} {n room : Nat} (hn : n + 1 ≤ room)
        (hlt : w.names.issued + room < UInt64.size) :
        Workspace.Affords n env [] [] ⟨w.store, w.names.freshVar.2⟩ := by
      refine ⟨(w.store, w.names.freshVar.2), rfl, ?_⟩
      dsimp only [NameSupply.freshVar, NameSupply.freshName, NameSupply.next]
      omega
    refine Draws.lift_bind hasked (fun results => ?_) (fun results => ?_) (fun results results' hresults => ?_) _ _
      hw.freshVar.tail (hafford hroom hlt) (hafford hroom' hlt')
    · cases results with
      | nil => exact .of_quiet .failure
      | cons result _ => exact hcounts items result
    · cases results with
      | nil => exact .of_quiet .failure
      | cons result _ => exact hcounts _ result
    · obtain ⟨rfl, hground⟩ := hresults
      cases results with
      | nil => exact .failure
      | cons result _ =>
        refine hrest.bind (fun rs => .of_quiet (.pure _)) (fun rs => .of_quiet (.pure _)) fun rs rs' w w' hrs hw => ?_
        obtain ⟨rfl, hrs⟩ := hrs
        exact agree_pure ⟨hw, .some ⟨rfl, List.forall_mem_cons.2 ⟨hground result List.mem_cons_self, hrs⟩⟩⟩

omit hask in
theorem asSymbol_eq_of_links (hx : x.Proper) (ht : x.Links t t') (hvar : t.isVariable = false)
    (hvar' : t'.isVariable = false) : t'.asSymbol = t.asSymbol := by
  have hfree {s : Store} {t : Term} {env : EnvId} (h : t.isVariable = false) : ¬ s.IsBound ⟨t, env⟩ := by
    rintro ⟨v, c, rfl, -⟩
    cases h
  have hshape := hx.coupled.shape_of_not_isBound hx.suits ht (hfree hvar) (hfree hvar')
  cases hshape <;> rfl

theorem draws_selectMapped (hx : x.Proper) (hargs : List.Forall₂ x.Links args args')
    (hvar : args.head?.any Term.isVariable = false) (hvar' : args'.head?.any Term.isVariable = false)
    (hroom : (us.flatMap Term.cells).length ≤ room) (hroom' : (us'.flatMap Term.cells).length ≤ room') :
    x.Draws limit room room' (x.Fits f) [] [] (argsAt [1] args) (argsAt [1] args') us us' (selectMapped ask args x.env)
      (selectMapped ask args' x.env') := by
  unfold selectMapped
  have hsymbol : Option.Rel (fun t t' => t'.asSymbol = t.asSymbol) args[0]? args'[0]? := by
    rw [List.head?_eq_getElem?] at hvar hvar'
    have hrel := links_getElem? hargs 0
    generalize args[0]? = a at hvar hrel ⊢
    generalize args'[0]? = a' at hvar' hrel ⊢
    cases hrel with
    | none => exact .none
    | some ht => exact .some (asSymbol_eq_of_links hx ht hvar hvar')
  refine .getM_bind hsymbol fun t t' ht => ?_
  rw [ht]
  refine .same_bind fun relation => .inputArg_bind hx hargs 1 fun list list' rest rest' hus hus' => ?_
  subst hus hus'
  rw [List.flatMap_cons, List.length_append] at hroom hroom'
  have hcounts (args : List Term) (env : EnvId) (results : List Term) :
      CountsIn (do return ⟨← args[2]?.getM, [.list results], env⟩ : Selecting Selection) :=
    .of_quiet ((Quiet.getM _).bind fun output => .pure _)
  intro w w' hw hafford hafford'
  obtain ⟨π, hπ, hlinked⟩ := hw.exists_relabel hx
  obtain rfl : list' = list.relabel π := by simpa using hπ
  rw [Term.items?_relabel]
  cases hitems : list.items? with
  | none => exact Draws.failure w w' hw hafford hafford'
  | some items =>
    have hcells := Term.cells_of_items? hitems
    have hvars : ∀ t ∈ items, ∀ v ∈ t.vars, ∃ u ∈ ([] ++ [list]), v ∈ u.vars := fun t ht v hv =>
      ⟨list, by simp, list.mem_vars_of_mem_cells t (hcells ▸ ht) hv⟩
    have hlength : items.length ≤ room := by
      rw [hcells] at hroom
      omega
    have hlength' : (items.map (Term.relabel π)).length ≤ room' := by
      rw [Term.cells_relabel, hcells] at hroom'
      omega
    have hmap := draws_mapRelation hask hx relation hlength hlength'
    obtain rfl : rest = [] := Workspace.Affords.eq_nil hafford
    obtain rfl : rest' = [] := Workspace.Affords.eq_nil hafford'
    refine hmap.bind (hcounts args x.env) (hcounts args' x.env') (fun results _ w w' hresults hw => ?_) w w'
      (hw.of_vars hx hπ hlinked hvars) hafford hafford'
    obtain ⟨rfl, hground⟩ := hresults
    have hout := links_getElem? hargs 2
    generalize args[2]? = output at hout ⊢
    generalize args'[2]? = output' at hout ⊢
    cases hout with
    | none => exact agree_pure ⟨hw, .none⟩
    | some hout =>
      exact agree_pure ⟨hw, .some (hw.fits hx hout (List.forall_mem_singleton.2 (Term.isGround_list hground)))⟩

/-- What a computed goal selects. -/
theorem draws_selectComputed (hx : x.Proper) (hargs : List.Forall₂ x.Links args args')
    (hground : f ∈ textWords → ∀ u ∈ us, u.isGround = true)
    (hvar : f = "map" → args.head?.any Term.isVariable = false ∧ args'.head?.any Term.isVariable = false)
    (hroom : (us.flatMap Term.cells).length ≤ room) (hroom' : (us'.flatMap Term.cells).length ≤ room') :
    x.Draws limit room room' (x.Fits f) [] [] (computedInputs f args) (computedInputs f args') us us'
      (selectComputed src ask f args x.env) (selectComputed src ask f args' x.env') := by
  unfold selectComputed
  split
  · exact draws_selectValue hask hx hargs
  · exact draws_selectGroups hx hargs
  · exact draws_selectMatches hx hargs
  · exact draws_selectMapped hask hx hargs (hvar rfl).1 (hvar rfl).2 hroom hroom'
  · rename_i hevaluate hmatches hsubmatches hmap
    unfold computedInputs
    rw [if_neg hevaluate, if_neg hmap, if_neg hevaluate, if_neg hmap]
    cases haggregate : isAggregate f with
    | true =>
      rw [if_pos (by simp), if_pos (by simp), if_pos rfl, if_pos rfl]
      exact draws_selectAggregate hask hx hargs
    | false =>
      have hplain : ¬ (decide (f = "matches") || decide (f = "submatches") || false) = true := by
        simpa using ⟨fun h => hmatches h, fun h => hsubmatches h⟩
      rw [if_neg hplain, if_neg hplain, if_neg (by decide), if_neg (by decide)]
      exact draws_selectCall hx hargs hground

end

/-- The inputs of a goal that compares them. -/
theorem draws_inputs (hx : x.Proper) (hts : List.Forall₂ x.Links ts ts') :
    x.Draws limit room room' (fun _ _ vs vs' => ∃ π : Equiv.Perm String, vs' = vs.map (Term.relabel π)) [] [] ts ts' us us'
      (Selecting.inputs x.env ts) (Selecting.inputs x.env' ts') := by
  rw [← bind_pure (Selecting.inputs x.env ts), ← bind_pure (Selecting.inputs x.env' ts')]
  refine .inputs_bind hx hts (.pure fun w w' hw => ?_)
  obtain ⟨π, hπ, -⟩ := hw.exists_relabel hx
  exact ⟨π, hπ⟩

end Scene

end Deduction
