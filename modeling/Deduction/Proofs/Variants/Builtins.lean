import Deduction.Proofs.Variants.Terms

/-!
# Builtins on terms with other variables

A builtin that neither shows variables as texts nor reads them from texts has the same value on terms with other
variables, with the other variables (`callBuiltin_relabel`). The value of a function of numbers has no variables.
-/

namespace Deduction

variable {π : Equiv.Perm String} {f : String} {t : Term} {ts : List Term} {surroundings : Surroundings}

/-- The builtins that show variables as texts, or read variables from texts. -/
def textWords : List String := ["readstring", "stringify", "readstringall", "stringifyall"]

/-- A value without variables stays as it is. -/
theorem map_relabel_number? {o : Option Float} :
    (o.bind Term.number?).map (Term.relabel π) = o.bind Term.number? := by
  cases o with
  | none => rfl
  | some x =>
    rw [Option.bind_some]
    unfold Term.number?
    split <;> rfl

theorem callMath_relabel (f : String) (ts : List Term) :
    callMath f (ts.map (Term.relabel π)) surroundings = (callMath f ts surroundings).map (Term.relabel π) := by
  unfold callMath
  rw [numbers?_relabel]
  cases numbers? ts with
  | none => rfl
  | some xs => exact map_relabel_number?.symm

theorem callListOperator_relabel (f : String) (t : Term) :
    callListOperator f (t.relabel π) = (callListOperator f t).map (Term.relabel π) := by
  unfold callListOperator
  rw [Term.listNumbers?_relabel]
  cases ListOperator.ofName? f with
  | none => rfl
  | some op =>
    cases t.listNumbers? with
    | none => rfl
    | some xs => exact (map_relabel_number? (o := some _)).symm

namespace Builtin

theorem foldNumbers_relabel (op : Float → Float → Float) (ts : List Term) :
    foldNumbers op (ts.map (Term.relabel π)) = (foldNumbers op ts).map (Term.relabel π) := by
  unfold foldNumbers
  rw [numbers?_relabel]
  cases numbers? ts with
  | none => rfl
  | some xs =>
    cases xs with
    | nil => rfl
    | cons x xs => exact (map_relabel_number? (o := some _)).symm

theorem foldNumbersFrom_relabel (unit : Float) (op : Float → Float → Float) (ts : List Term) :
    foldNumbersFrom unit op (ts.map (Term.relabel π)) = (foldNumbersFrom unit op ts).map (Term.relabel π) := by
  unfold foldNumbersFrom
  rw [numbers?_relabel]
  cases numbers? ts with
  | none => rfl
  | some xs => exact (map_relabel_number? (o := some _)).symm

theorem strings_relabel (texts : List String) : (strings texts).relabel π = strings texts := by
  unfold strings
  rw [Term.relabel_list, List.map_map]
  rfl

theorem map_ofInt_relabel (n : Option Int) : (n.map ofInt).map (Term.relabel π) = n.map ofInt := by
  cases n <;> rfl

theorem toList_relabel (t : Term) : toList (t.relabel π) = (toList t).relabel π := by
  cases t with
  | var v => rfl
  | sym a =>
    unfold toList
    rw [Term.relabel_list, List.map_map]
    rfl
  | compound f args => simp [toList, Term.relabel_list]

theorem ofList_relabel (t : Term) : ofList (t.relabel π) = (ofList t).map (Term.relabel π) := by
  unfold ofList
  rw [Term.items?_relabel]
  cases t.items? with
  | none => rfl
  | some items =>
    cases items with
    | nil => rfl
    | cons head rest =>
      cases head with
      | var v => rfl
      | sym a => exact congrArg some (Term.relabel_apply a rest).symm
      | compound f args => simp [Term.asSymbol]

/-- The value of a builtin that does not turn variables into texts or texts into variables. -/
theorem call_relabel {b : Builtin} (hb : b ≠ .readString ∧ b ≠ .stringify ∧ b ≠ .readStringAll ∧ b ≠ .stringifyAll)
    (ts : List Term) :
    b.call surroundings (ts.map (Term.relabel π)) = (b.call surroundings ts).map (Term.relabel π) := by
  cases b with
  | readString => exact absurd rfl hb.1
  | stringify => exact absurd rfl hb.2.1
  | readStringAll => exact absurd rfl hb.2.2.1
  | stringifyAll => exact absurd rfl hb.2.2.2
  | plus => exact foldNumbersFrom_relabel 0 (· + ·) ts
  | times => exact foldNumbersFrom_relabel 1 (· * ·) ts
  | minus => exact foldNumbers_relabel (· - ·) ts
  | quotient => exact foldNumbers_relabel (· / ·) ts
  | remainder => exact foldNumbers_relabel Binary.remainder ts
  | timestamp => simp only [call, map_ofInt_relabel]
  | hasType =>
    rcases ts with _ | ⟨x, ts⟩
    · rfl
    · simp [call]
  | symbolize | newSymbolize =>
    rcases ts with _ | ⟨x, ts⟩
    · rfl
    · cases x <;> simp [call]
  | stringAppend =>
    simp only [call, mapM_asSymbol_relabel]
    cases ts.mapM Term.asSymbol <;> rfl
  | stringJoin =>
    rcases ts with _ | ⟨x, ts⟩
    · rfl
    · simp only [List.map_cons, call, Term.items?_relabel]
      cases x.items? with
      | none => rfl
      | some items =>
        simp only [Option.map_some, Option.bind_eq_bind, Option.bind_some, mapM_asSymbol_relabel]
        cases items.mapM Term.asSymbol <;> rfl
  | stringMin =>
    rcases ts with _ | ⟨x, _ | ⟨y, ts⟩⟩
    · rfl
    · rfl
    · simp only [List.map_cons, call, Term.asSymbol_relabel]
      cases y.asSymbol with
      | none => rfl
      | some right =>
        cases x.asSymbol with
        | none => rfl
        | some left =>
          simp only [Option.bind_eq_bind, Option.bind_some]
          split <;> rfl
  | makeTimestamp =>
    rcases ts with _ | ⟨y, _ | ⟨mo, _ | ⟨d, _ | ⟨h, _ | ⟨mi, _ | ⟨s, ts⟩⟩⟩⟩⟩⟩
    all_goals first | rfl | skip
    simp only [List.map_cons, call, Term.value_relabel, map_ofInt_relabel]
  | datePart part =>
    rcases ts with _ | ⟨x, ts⟩
    · rfl
    · simp only [List.map_cons, call, Term.value_relabel, map_ofInt_relabel]
  | append | revAppend =>
    rcases ts with _ | ⟨x, _ | ⟨y, ts⟩⟩
    · rfl
    · rfl
    · simp only [List.map_cons, call, Term.items?_relabel]
      cases x.items? with
      | none => rfl
      | some items => simp [Term.relabel_chain]
  | reverse =>
    rcases ts with _ | ⟨x, ts⟩
    · rfl
    · simp only [List.map_cons, call, Term.items?_relabel]
      cases x.items? with
      | none => rfl
      | some items => simp [Term.relabel_list]
  | length =>
    rcases ts with _ | ⟨x, ts⟩
    · rfl
    · simp only [List.map_cons, call, Term.items?_relabel]
      cases x.items? with
      | none => rfl
      | some items =>
        rw [Option.map_some, Option.map_some, Option.map_some, Option.map_some, List.length_map]
        rfl
  | listify =>
    rcases ts with _ | ⟨x, ts⟩
    · rfl
    · exact congrArg some (toList_relabel x)
  | delistify =>
    rcases ts with _ | ⟨x, ts⟩
    · rfl
    · exact ofList_relabel x
  | submatches =>
    rcases ts with _ | ⟨x, _ | ⟨y, ts⟩⟩
    · rfl
    · rfl
    · simp only [List.map_cons, call, Term.stringText?_relabel]
      cases x.stringText? with
      | none => rfl
      | some text =>
        cases y.stringText? with
        | none => rfl
        | some pattern =>
          simp only [Option.bind_eq_bind, Option.bind_some]
          split
          · rfl
          · exact congrArg some (strings_relabel _).symm
  | _ =>
    -- the groups of the first match
    rcases ts with _ | ⟨x, _ | ⟨y, ts⟩⟩
    · rfl
    · rfl
    · simp only [List.map_cons, call, Term.stringText?_relabel]
      cases x.stringText? with
      | none => rfl
      | some text =>
        cases y.stringText? with
        | none => rfl
        | some pattern =>
          simp only [Option.bind_eq_bind, Option.bind_some]
          cases surroundings.firstMatch text pattern with
          | none => rfl
          | some groups => exact congrArg some (strings_relabel groups).symm

/-- The builtins that deal with variables as texts are told by their names. -/
theorem ne_of_not_mem_textWords {b : Builtin} (hf : f ∉ textWords) (h : ofName? f = some b) :
    b ≠ .readString ∧ b ≠ .stringify ∧ b ≠ .readStringAll ∧ b ≠ .stringifyAll := by
  unfold ofName? at h
  split at h
  case h_26 =>
    obtain ⟨part, -, rfl⟩ := Option.map_eq_some_iff.1 h
    simp
  all_goals
    cases h
    revert hf
    simp [textWords]

end Builtin

theorem callBuiltin_relabel (hf : f ∉ textWords) (ts : List Term) :
    callBuiltin f (ts.map (Term.relabel π)) surroundings =
      (callBuiltin f ts surroundings).map (Term.relabel π) := by
  unfold callBuiltin
  cases hb : Builtin.ofName? f with
  | none => rfl
  | some b => exact Builtin.call_relabel (Builtin.ne_of_not_mem_textWords hf hb) ts

end Deduction
