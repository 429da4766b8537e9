import Deduction.Proofs.Syntax.Making

/-!
# Chains and bodies are flat

Where no parentheses open right behind the words `and`, `or` and `rule`, such terms come from operators only. Then a
chain has at least two links and none of them is a chain of its kind, and a rule has at least one goal and none of them
is a conjunction, however the operands are put in parentheses (`isFlat_of_readTerms`).
-/

namespace Deduction

namespace Term

/-- A compound with this functor. -/
def IsNode (f : String) (t : Term) : Prop := ∃ args, t = compound f args

/-- What operators make of the arguments of a chain and of a rule; other functors take any arguments. -/
structure IsFlatNode (f : String) (args : List Term) : Prop where
  chain : f = "and" ∨ f = "or" → 2 ≤ args.length ∧ ∀ t ∈ args, ¬t.IsNode f
  rule : f = "rule" → ∃ head goals, args = head :: goals ∧ goals ≠ [] ∧ ∀ t ∈ goals, ¬t.IsNode "and"

/-- At any depth, chains have no links of their own kind and bodies no conjunctions. -/
inductive IsFlat : Term → Prop where
  | var (v : String) : IsFlat (var v)
  | sym (s : String) : IsFlat (sym s)
  | compound {f : String} {args : List Term} (hnode : IsFlatNode f args) (hargs : ∀ t ∈ args, IsFlat t) :
      IsFlat (compound f args)

variable {t u : Term} {f : String} {args : List Term} {op : Operator}

theorem isFlatNode_of_not_mem (hf : f ∉ ["and", "or", "rule"]) : IsFlatNode f args where
  chain h := by rcases h with rfl | rfl <;> simp at hf
  rule h := by simp [h] at hf

theorem IsFlat.marked (h : t.IsFlat) (hf : f ∉ ["and", "or", "rule"]) : (Term.compound f [t]).IsFlat :=
  .compound (isFlatNode_of_not_mem hf) (List.forall_mem_singleton.2 h)

theorem IsFlat.pair (ht : t.IsFlat) (hu : u.IsFlat) (hf : f ∉ ["and", "or", "rule"]) :
    (Term.compound f [t, u]).IsFlat :=
  .compound (isFlatNode_of_not_mem hf) (List.forall_mem_cons.2 ⟨ht, List.forall_mem_singleton.2 hu⟩)

/-! ### What the operations of the reader keep -/

theorem isFlat_ofWord (text : String) : (ofWord text).IsFlat := by
  unfold ofWord
  split
  · exact .var text
  · exact .sym text

theorem isFlat_apply (hf : f ∉ ["and", "or", "rule"]) (hargs : ∀ t ∈ args, t.IsFlat) : (apply f args).IsFlat := by
  unfold apply
  split
  · exact .sym f
  · exact .compound (isFlatNode_of_not_mem hf) hargs

theorem isFlat_list (h : ∀ t ∈ args, t.IsFlat) : (list args).IsFlat := by
  induction args with
  | nil => exact .sym "nil"
  | cons t args ih =>
    obtain ⟨ht, hargs⟩ := List.forall_mem_cons.1 h
    exact ht.pair (ih hargs) (by decide)

/-- A flat term contributes links to a chain that are no such chains themselves. -/
theorem IsFlat.links (h : t.IsFlat) (hf : f = "and" ∨ f = "or") :
    t.links f ≠ [] ∧ (∀ u ∈ t.links f, ¬u.IsNode f) ∧ ∀ u ∈ t.links f, u.IsFlat := by
  have hsingle (hnode : ¬t.IsNode f) (hlinks : t.links f = [t]) :
      t.links f ≠ [] ∧ (∀ u ∈ t.links f, ¬u.IsNode f) ∧ ∀ u ∈ t.links f, u.IsFlat := by
    rw [hlinks]
    exact ⟨List.cons_ne_nil _ _, List.forall_mem_singleton.2 hnode, List.forall_mem_singleton.2 h⟩
  cases h with
  | var v => exact hsingle (by rintro ⟨args, ⟨⟩⟩) rfl
  | sym s => exact hsingle (by rintro ⟨args, ⟨⟩⟩) rfl
  | @compound g args hnode hargs =>
    by_cases hg : g = f
    · subst hg
      obtain ⟨hlength, hkind⟩ := hnode.chain hf
      rw [Term.links, if_pos rfl]
      exact ⟨List.ne_nil_of_length_pos (by omega), hkind, hargs⟩
    · refine hsingle ?_ (if_neg hg)
      rintro ⟨args, ⟨⟩⟩
      exact hg rfl

theorem IsFlat.joinChain (ht : t.IsFlat) (hu : u.IsFlat) (hf : f = "and" ∨ f = "or") : (t.joinChain f u).IsFlat := by
  obtain ⟨hne, hkind, hlinks⟩ := ht.links hf
  obtain ⟨hne', hkind', hlinks'⟩ := hu.links hf
  have hlength := List.length_pos_of_ne_nil hne
  have hlength' := List.length_pos_of_ne_nil hne'
  refine .compound ⟨fun _ => ⟨by rw [List.length_append]; omega, List.forall_mem_append.2 ⟨hkind, hkind'⟩⟩, ?_⟩
    (List.forall_mem_append.2 ⟨hlinks, hlinks'⟩)
  rintro rfl
  simp at hf

theorem IsFlat.ruleOfBody (ht : t.IsFlat) (hu : u.IsFlat) : (t.ruleOfBody u).IsFlat := by
  obtain ⟨hne, hkind, hlinks⟩ := hu.links (.inl rfl)
  exact .compound ⟨by simp, fun _ => ⟨t, u.links "and", rfl, hne, hkind⟩⟩ (List.forall_mem_cons.2 ⟨ht, hlinks⟩)

theorem IsFlat.combine (ht : t.IsFlat) (hu : u.IsFlat) : (op.combine t u).IsFlat := by
  cases op with
  | amp => exact ht.joinChain hu (.inl rfl)
  | bar => exact ht.joinChain hu (.inr rfl)
  | provided => exact ht.ruleOfBody hu
  | _ => exact ht.pair hu (by decide)

theorem IsFlat.minus (h : t.IsFlat) : t.minus.IsFlat := by
  have hmarked : (Term.compound "delete" [t]).IsFlat := h.marked (by decide)
  cases t with
  | var v => exact hmarked
  | compound f args => exact hmarked
  | sym s =>
    simp only [Term.minus]
    split
    · split <;> exact .sym _
    · exact hmarked

theorem IsFlat.wrap (h : t.IsFlat) : (op.wrap t).IsFlat := by
  cases op with
  | minus => exact h.minus
  | _ => exact h.marked (by decide)

/-- Terms that are made of tokens are flat if the tokens apply none of the functors in question. -/
theorem isFlat_of_makes {tokens : List Token}
    (happlied : ∀ f ∈ ["and", "or", "rule"], ¬[Token.word f, .openParen] <:+: tokens) (h : Makes tokens t) :
    t.IsFlat := by
  induction h with
  | @word name _ => exact isFlat_ofWord name
  | @quoted text _ => exact .sym text
  | anonymous => exact .var "_"
  | list _ ih => exact isFlat_list ih
  | @application f rest args hf _ _ ih =>
    have hinfix : [Token.word f, .openParen] <:+: tokens :=
      (List.prefix_append [Token.word f, .openParen] rest).isInfix.trans hf.isInfix
    exact isFlat_apply (fun hmem => happlied f hmem hinfix) ih
  | binary _ _ _ hleft hright => exact hleft.combine hright
  | unary _ _ h => exact h.wrap

/-! ### Names of anonymous variables -/

theorem IsNode.of_nameAnonymous {names : NameSupply} (h : (t.nameAnonymous names).1.IsNode f) : t.IsNode f := by
  obtain ⟨args, hargs⟩ := h
  cases t with
  | var v =>
    unfold nameAnonymous at hargs
    split at hargs <;> cases hargs
  | sym s => cases hargs
  | compound g us =>
    cases hargs
    exact ⟨us, rfl⟩

theorem length_nameAnonymousList (ts : List Term) (names : NameSupply) :
    (nameAnonymousList ts names).1.length = ts.length := by
  induction ts generalizing names with
  | nil => rfl
  | cons t ts ih => simp [nameAnonymousList, ih]

/-- What holds of the terms whatever names they get holds of a list of them. -/
theorem forall_mem_nameAnonymousList {p : Term → Prop} {ts : List Term} {names : NameSupply}
    (h : ∀ t ∈ ts, ∀ names, p (t.nameAnonymous names).1) : ∀ u ∈ (nameAnonymousList ts names).1, p u := by
  induction ts generalizing names with
  | nil => exact List.forall_mem_nil _
  | cons t ts ih =>
    obtain ⟨ht, hts⟩ := List.forall_mem_cons.1 h
    exact List.forall_mem_cons.2 ⟨ht names, ih hts⟩

theorem IsFlatNode.nameAnonymousList (h : IsFlatNode f args) (names : NameSupply) :
    IsFlatNode f (Term.nameAnonymousList args names).1 where
  chain hf := by
    obtain ⟨hlength, hkind⟩ := h.chain hf
    refine ⟨by rwa [length_nameAnonymousList], ?_⟩
    exact forall_mem_nameAnonymousList fun t ht _ hnode => hkind t ht hnode.of_nameAnonymous
  rule hf := by
    obtain ⟨head, goals, rfl, hne, hkind⟩ := h.rule hf
    refine ⟨_, _, rfl, fun hnil => hne ?_, ?_⟩
    · rw [← List.length_eq_zero_iff, ← length_nameAnonymousList, hnil, List.length_nil]
    · exact forall_mem_nameAnonymousList fun t ht _ hnode => hkind t ht hnode.of_nameAnonymous

theorem IsFlat.nameAnonymous (h : t.IsFlat) (names : NameSupply) : (t.nameAnonymous names).1.IsFlat := by
  induction h generalizing names with
  | var v =>
    unfold Term.nameAnonymous
    split <;> exact .var _
  | sym s => exact .sym s
  | compound hnode _ ih => exact .compound (hnode.nameAnonymousList names) (forall_mem_nameAnonymousList ih)

end Term

/-! ### Texts -/

/-- Is an opening parenthesis the token right behind the word somewhere in the text? -/
def isApplied (f text : String) : Bool :=
  match tokenize text with
  | .ok placed => decide ([Token.word f, .openParen] <:+: placed.map PlacedToken.token)
  | .error _ => false

/-- The terms of a text are flat if none of the functors in question is applied in it. -/
theorem isFlat_of_readTerms {layout : Layout} {text : String} {names names' : NameSupply} {terms : List Term}
    (happlied : ∀ f ∈ ["and", "or", "rule"], isApplied f text = false)
    (hread : readTerms layout text names = .ok (terms, names')) : ∀ t ∈ terms, t.IsFlat := by
  obtain ⟨made, hparse, hnames⟩ := readTerms_eq_ok.1 hread
  obtain ⟨placed, htokens, hmade⟩ := makes_of_parse hparse
  have happlied : ∀ f ∈ ["and", "or", "rule"], ¬[Token.word f, .openParen] <:+: placed.map PlacedToken.token := by
    simpa only [isApplied, htokens, decide_eq_false_iff_not] using happlied
  obtain rfl : (Term.nameAnonymousList made names).1 = terms := congrArg Prod.fst hnames
  exact Term.forall_mem_nameAnonymousList fun t ht => (Term.isFlat_of_makes happlied (hmade t ht)).nameAnonymous

/-- Chains within chains and bodies in parentheses, with `and` as a symbol, which is no chain. -/
theorem isFlat_of_readTerms_chains :
    (∀ f ∈ ["and", "or", "rule"],
        isApplied f "p(_) :- (a & (b & c)) & ~(d | (e | f)). (q :- and) & [g & (h & X)]" = false) ∧
      ∃ t u, readTerms .data "p(_) :- (a & (b & c)) & ~(d | (e | f)). (q :- and) & [g & (h & X)]" {} =
        .ok ([t, u], ⟨1⟩) ∧ ∀ v ∈ [t, u], v.IsFlat := by
  have happlied : ∀ f ∈ ["and", "or", "rule"],
      isApplied f "p(_) :- (a & (b & c)) & ~(d | (e | f)). (q :- and) & [g & (h & X)]" = false := by decide +kernel
  have hread : readTerms .data "p(_) :- (a & (b & c)) & ~(d | (e | f)). (q :- and) & [g & (h & X)]" {} =
      .ok ([.rule (.compound "p" [.var "_1"])
          [.sym "a", .sym "b", .sym "c", .negation (.compound "or" [.sym "d", .sym "e", .sym "f"])],
        .compound "and" [.rule (.sym "q") [.sym "and"],
          .list [.compound "and" [.sym "g", .sym "h", .var "X"]]]], ⟨1⟩) := by decide +kernel
  exact ⟨happlied, _, _, hread, isFlat_of_readTerms happlied hread⟩

end Deduction
