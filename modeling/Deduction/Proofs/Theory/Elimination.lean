import Deduction.Proofs.Theory.Lists
import Deduction.Proofs.Theory.Narrowing
import Deduction.Proofs.Theory.Places

/-!
# Removing what is said about a constant

The entries whose first argument is a constant are looked for under the constant in the index. Where every symbol is a
key they are all found there. Where only functors are keys, what the index has under the constant is said by the constant
and not about it: of the entries with this first argument only those go whose functor, or that of whose head, is the
constant too (`edited_eliminate`). What goes is counted, and the others keep their order in any case.
-/

namespace Deduction

/-- Is a term that is about a constant found under it in an index of this mode? Where only functors are keys, it is found
under its own functor, or that of its head, and under a constant that is never a key. -/
def IndexMode.findsAbout (object : String) : IndexMode → Term → Bool
  | full, _ => true
  | rule, t => !isIndexable object || t.headOrSelf.functor? = some object
  | shallow, t => !isIndexable object || t.functor? = some object
  | none, _ => true

namespace Theory

variable {th : Theory} {t : Term} {id : EntryId} {object : String}

/-! ### One entry after the other -/

/-- What is left of the entry at a place if everything about the constant is removed. -/
def unlessAbout (object : String) (entry : Option Term) : Option Term :=
  entry.filter fun t => t.arg? 0 ≠ some (.sym object)

theorem unlessAbout_unlessAbout (entry : Option Term) :
    unlessAbout object (unlessAbout object entry) = unlessAbout object entry := by
  unfold unlessAbout
  rw [Option.filter_filter]
  simp only [Bool.and_self]

theorem get?_removeAbout (state : Nat × Theory) (i : EntryId) :
    (removeAbout object state id).2.get? i =
      if i = id then unlessAbout object (state.2.get? i) else state.2.get? i := by
  unfold removeAbout unlessAbout
  dsimp only
  split
  · rename_i habout
    rw [get?_remove]
    by_cases hi : i = id
    · subst hi
      obtain ⟨t, ht, harg⟩ := Option.bind_eq_some_iff.1 habout
      simp [ht, harg, Option.filter_some]
    · rw [if_neg hi, if_neg hi]
  · rename_i hother
    by_cases hi : i = id
    · subst hi
      rw [if_pos rfl]
      cases ht : state.2.get? i with
      | none => rfl
      | some t =>
        rw [ht, Option.bind_some] at hother
        simp [Option.filter_some, hother]
    · rw [if_neg hi]

/-- After all places of a list, nothing about the constant is left at them, and all else is as it was. -/
theorem get?_foldl_removeAbout (ids : List EntryId) (state : Nat × Theory) (i : EntryId) :
    (ids.foldl (removeAbout object) state).2.get? i =
      if i ∈ ids then unlessAbout object (state.2.get? i) else state.2.get? i := by
  induction ids generalizing state with
  | nil => rfl
  | cons id ids ih =>
    rw [List.foldl_cons, ih, get?_removeAbout]
    by_cases hi : i = id
    · subst hi
      by_cases hrest : i ∈ ids
      · rw [if_pos rfl, if_pos hrest, if_pos List.mem_cons_self, unlessAbout_unlessAbout]
      · rw [if_pos rfl, if_neg hrest, if_pos List.mem_cons_self]
    · rw [if_neg hi]
      simp only [List.mem_cons, hi, false_or]

/-- What is removed is counted. -/
theorem count_removeAbout (state : Nat × Theory) (id : EntryId) :
    (removeAbout object state id).1 + (removeAbout object state id).2.toList.length =
      state.1 + state.2.toList.length := by
  unfold removeAbout
  dsimp only
  split
  · rename_i habout
    obtain ⟨t, ht, -⟩ := Option.bind_eq_some_iff.1 habout
    obtain ⟨hget, herase⟩ := toList_remove ht
    have hlength := List.length_eraseIdx_add_one (List.getElem?_eq_some_iff.1 hget).1
    rw [herase]
    omega
  · rfl

theorem count_foldl_removeAbout (ids : List EntryId) (state : Nat × Theory) :
    (ids.foldl (removeAbout object) state).1 + (ids.foldl (removeAbout object) state).2.toList.length =
      state.1 + state.2.toList.length := by
  induction ids generalizing state with
  | nil => rfl
  | cons id ids ih => rw [List.foldl_cons, ih, count_removeAbout]

theorem count_eliminate (th : Theory) (object : String) :
    (th.eliminate object).1 + (th.eliminate object).2.toList.length = th.toList.length := by
  unfold eliminate
  dsimp only
  rw [toList_compact, count_foldl_removeAbout, Nat.zero_add]

/-! ### What is found under a constant -/

/-- Of the entries that are found under the constant in the index, those about it go. -/
theorem Indexed.toList_eliminate (h : th.Indexed) (object : String) :
    (th.eliminate object).2.toList =
      th.toList.filter fun t => !(t.arg? 0 = some (.sym object) && th.admits (some object) t) := by
  have hfound (i : EntryId) : i ∈ th.keyIds object ↔ (th.get? i).any (th.admits (some object)) = true := by
    have hids : th.keyIds object = th.idsFor (some object) := rfl
    rw [hids, h.idsFor_eq, List.mem_filter, mem_ids]
    cases th.get? i <;> simp
  unfold eliminate
  dsimp only
  rw [toList_compact]
  refine toList_of_get? fun i => ?_
  rw [get?_foldl_removeAbout]
  unfold unlessAbout
  cases ht : th.get? i with
  | none => simp
  | some t =>
    simp only [hfound, ht, Option.any_some, Option.filter_some]
    cases th.admits (some object) t <;> simp

theorem mem_symbols_of_arg? {i : Nat} (h : t.arg? i = some (.sym object)) : object ∈ t.symbols := by
  cases t with
  | var v => cases h
  | sym a => cases h
  | compound f args =>
    rw [Term.symbols_compound]
    refine List.mem_cons_of_mem f (List.mem_flatMap.2 ⟨.sym object, List.mem_of_getElem? h, ?_⟩)
    exact List.mem_singleton_self object

/-- A constant that a term is about is one of its symbols. -/
theorem admits_eq_findsAbout (h : t.arg? 0 = some (.sym object)) :
    th.admits (some object) t = th.mode.findsAbout object t := by
  unfold admits
  rw [Option.all_some]
  cases hkey : isIndexable object with
  | false => cases th.mode <;> simp [IndexMode.findsAbout, hkey]
  | true =>
    cases hmode : th.mode with
    | none => rfl
    | full =>
      have hmem : object ∈ IndexMode.full.keys t := by
        unfold IndexMode.keys
        rw [List.mem_eraseDups, List.mem_filter]
        exact ⟨mem_symbols_of_arg? h, hkey⟩
      simp [IndexMode.findsAbout, hmem]
    | rule =>
      have hkeys : object ∈ IndexMode.rule.keys t ↔ t.headOrSelf.functor? = some object := mem_functorKeys_iff hkey
      simp [IndexMode.findsAbout, hkeys, hkey]
    | shallow =>
      have hkeys : object ∈ IndexMode.shallow.keys t ↔ t.functor? = some object := mem_functorKeys_iff hkey
      simp [IndexMode.findsAbout, hkeys, hkey]

/-- However a theory was edited, removing what is said about a constant leaves the other entries in their order and gives
the number of those that went. What goes are the entries that are found under the constant and have it for their first
argument; if every symbol is a key, or there is no index, or the constant is never a key, all that have it for their first
argument. -/
theorem edited_eliminate (mode : IndexMode) (edits : List Edit) (object : String) :
    ((edited mode edits).eliminate object).1 + ((edited mode edits).eliminate object).2.toList.length =
        (edited mode edits).toList.length ∧
      ((edited mode edits).eliminate object).2.toList =
        (edited mode edits).toList.filter
          (fun t => !(t.arg? 0 = some (.sym object) && mode.findsAbout object t)) ∧
      (mode = .full ∨ mode = .none ∨ isIndexable object = false →
        ((edited mode edits).eliminate object).2.toList =
          (edited mode edits).toList.filter fun t => t.arg? 0 ≠ some (.sym object)) := by
  have hfound : ((edited mode edits).eliminate object).2.toList =
      (edited mode edits).toList.filter
        (fun t => !(t.arg? 0 = some (.sym object) && mode.findsAbout object t)) := by
    rw [(kept_edited mode edits).indexed.toList_eliminate]
    refine List.filter_congr fun t _ => ?_
    by_cases habout : t.arg? 0 = some (.sym object)
    · rw [admits_eq_findsAbout habout, mode_edited]
    · simp [habout]
  refine ⟨count_eliminate _ object, hfound, fun hall => hfound.trans (List.filter_congr fun t _ => ?_)⟩
  have hfinds : mode.findsAbout object t = true := by
    rcases hall with rfl | rfl | hkey
    · rfl
    · rfl
    · cases mode <;> simp [IndexMode.findsAbout, hkey]
  simp [hfinds]

/-- Two towns, a hole between them, and the entries about one of them at both ends. -/
def towns : List Edit :=
  [.insertAll [.compound "road" [.sym "york", .sym "hull"], .compound "mill" [.sym "leeds"], .compound "town" [.sym "hull"],
    .compound "town" [.sym "york"]], .removeFirst (.compound "mill" [.sym "leeds"])]

theorem edited_eliminate_towns :
    ((edited .full towns).eliminate "york").2.toList = [Term.compound "town" [.sym "hull"]] ∧
      ((edited .full towns).eliminate "york").1 = 2 := by
  obtain ⟨hcount, -, hall⟩ := edited_eliminate .full towns "york"
  have hleft : ((edited .full towns).eliminate "york").2.toList = [Term.compound "town" [.sym "hull"]] := by
    rw [hall (Or.inl rfl)]
    decide +kernel
  have hbefore : (edited .full towns).toList.length = 3 := by decide +kernel
  rw [hleft, hbefore, List.length_singleton] at hcount
  exact ⟨hleft, Nat.succ.inj hcount⟩

/-- In a theory of rules nothing about the constant is found, unless it is said by the constant or of it as a head. -/
example :
    ((edited .rule towns).eliminate "york").1 = 0 ∧
      ((edited .rule [.insertAll [.compound "york" [.sym "york"], .rule (.sym "york") [.sym "hull"],
        .compound "town" [.sym "york"]]]).eliminate "york").2.toList = [.compound "town" [.sym "york"]] := by
  decide +kernel

end Theory

end Deduction
