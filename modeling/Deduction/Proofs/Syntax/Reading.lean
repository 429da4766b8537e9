import Deduction.Proofs.Syntax.Making
import Deduction.Proofs.Syntax.Tokens

/-!
# The terms that are read

In operator syntax no functor that an operator stands for is applied to arguments in parentheses, and no list of
arguments is empty. The terms that the reader makes of such a text have few shapes (`Term.IsReadable`): chains have no
links of their own kind, the body of a rule has no conjunction, only a number that a minus may stand in front of starts
with one (`isReadable_of_parse`).
-/

namespace Deduction

/-! ### Operator syntax -/

/-- Functors that operators stand for. -/
def operatorFunctors : List String :=
  ["rule", "handler", "transition", "definition", "not", "and", "or", "cons", "insert", "delete", "enqueue"]

/-- Is no functor of an operator applied to arguments, and no functor to none? -/
def Token.inOperatorSyntax : List Token → Bool
  | .word f :: .openParen :: tokens =>
    !operatorFunctors.contains f && tokens.head? != some .closeParen && inOperatorSyntax tokens
  | _ :: tokens => inOperatorSyntax tokens
  | [] => true

/-- A text that is written with operators. -/
def isOperatorSyntax (text : String) : Bool :=
  match tokenize text with
  | .ok placed => Token.inOperatorSyntax (placed.map PlacedToken.token)
  | .error _ => false

namespace Token

variable {token : Token} {tokens : List Token} {f : String}

theorem inOperatorSyntax_tail (h : inOperatorSyntax (token :: tokens) = true) : inOperatorSyntax tokens = true := by
  unfold inOperatorSyntax at h
  split at h
  · rename_i f rest heq
    cases heq
    rw [Bool.and_eq_true] at h
    exact h.2
  · rename_i heq
    cases heq
    exact h
  · rename_i heq
    cases heq

theorem inOperatorSyntax_of_suffix {rest : List Token} (hsuffix : rest <:+ tokens)
    (h : inOperatorSyntax tokens = true) : inOperatorSyntax rest = true := by
  obtain ⟨before, rfl⟩ := hsuffix
  induction before with
  | nil => exact h
  | cons token before ih => exact ih (inOperatorSyntax_tail h)

theorem inOperatorSyntax_application (h : inOperatorSyntax (word f :: openParen :: tokens) = true) :
    f ∉ operatorFunctors ∧ tokens.head? ≠ some closeParen ∧ inOperatorSyntax tokens = true := by
  simpa [inOperatorSyntax, and_assoc] using h

end Token

/-! ### Words -/

theorem IsWordText.head {cs : List Char} (h : IsWordText cs) :
    ∃ c tail, cs.reverse = c :: tail ∧ isWordStart c = true := by
  induction h with
  | start hc => exact ⟨_, [], rfl, hc⟩
  | letter h hc ih =>
    obtain ⟨c, tail, htail, hstart⟩ := ih
    exact ⟨c, _, by rw [List.reverse_cons, htail, List.cons_append], hstart⟩
  | point h hc ih =>
    obtain ⟨c, tail, htail, hstart⟩ := ih
    exact ⟨c, _, by rw [List.reverse_cons, List.reverse_cons, htail, List.cons_append, List.cons_append], hstart⟩

/-- A word starts with a character that starts words. -/
theorem toList_of_isLexical_word {text : String} (h : (Token.word text).IsLexical) :
    ∃ c tail, text.toList = c :: tail ∧ isWordStart c = true := by
  obtain ⟨c, tail, htail, hc⟩ := IsWordText.head h
  exact ⟨c, tail, by rwa [List.reverse_reverse] at htail, hc⟩

theorem toList_of_isLexical_quoted {text : String} (h : (Token.quoted text).IsLexical) :
    ∃ tail, text.toList = '"' :: tail := by
  obtain ⟨cs, ⟨inner, rfl, -⟩, htext⟩ := h
  refine ⟨inner.reverse ++ ['"'], ?_⟩
  rw [← List.reverse_reverse text.toList, htext]
  simp

theorem isNumericText_of_quoted {text : String} (h : (Token.quoted text).IsLexical) : isNumericText text = false := by
  obtain ⟨tail, htail⟩ := toList_of_isLexical_quoted h
  rw [isNumericText, htail]
  rfl

namespace Term

/-! ### Readable terms -/

/-- The terms that the reader makes of texts in operator syntax, before anonymous variables get names. -/
inductive IsReadable : Term → Prop where
  | anonymous : IsReadable (var "_")
  | name {v : String} (h : (Token.word v).IsLexical) (hvar : isVariableName v = true) : IsReadable (var v)
  | symbol {s : String} (h : (Token.word s).IsLexical) (hsym : isVariableName s = false) : IsReadable (sym s)
  | quoted {text : String} (h : (Token.quoted text).IsLexical) : IsReadable (sym text)
  /-- A number with a minus in front of it. -/
  | negative {text : String} (h : (Token.word text).IsLexical) (hsym : isVariableName text = false)
      (hnum : isNumericText text = true) : IsReadable (sym (String.ofList ('-' :: text.toList)))
  | application {f : String} {args : List Term} (h : (Token.word f).IsLexical) (hf : f ∉ operatorFunctors)
      (hne : args ≠ []) (hargs : ∀ t ∈ args, IsReadable t) : IsReadable (compound f args)
  | cell {head tail : Term} (hhead : IsReadable head) (htail : IsReadable tail) : IsReadable (cons head tail)
  | marked {f : String} {mark : Char} {t : Term} (hf : Printer.prefixMark? f = some mark)
      (hnum : f = "delete" → t.isNumeric = false) (ht : IsReadable t) : IsReadable (compound f [t])
  | pair {f : String} {op : Operator} {a b : Term} (hf : Printer.binaryMark? f = some op) (ha : IsReadable a)
      (hb : IsReadable b) : IsReadable (compound f [a, b])
  | chain {f : String} {op : Operator} {args : List Term} (hf : Printer.chainMark? f = some op)
      (hlength : 2 ≤ args.length) (hlinks : ∀ t ∈ args, t.links f = [t]) (hargs : ∀ t ∈ args, IsReadable t) :
      IsReadable (compound f args)
  | rule {head : Term} {goals : List Term} (hhead : IsReadable head) (hne : goals ≠ [])
      (hlinks : ∀ t ∈ goals, t.links "and" = [t]) (hgoals : ∀ t ∈ goals, IsReadable t) : IsReadable (rule head goals)

variable {t u : Term} {f : String} {ts args : List Term} {op : Operator}

theorem isReadable_ofWord {text : String} (h : (Token.word text).IsLexical) : (ofWord text).IsReadable := by
  unfold ofWord
  split
  · rename_i hvar
    exact .name h hvar
  · rename_i hsym
    exact .symbol h (eq_false_of_ne_true hsym)

theorem isReadable_list (h : ∀ t ∈ ts, t.IsReadable) : (list ts).IsReadable := by
  induction ts with
  | nil =>
    have hnil : (Token.word "nil").IsLexical :=
      .letter (.letter (.start (by decide)) (by decide)) (by decide)
    exact .symbol hnil (by decide)
  | cons t ts ih =>
    obtain ⟨ht, hts⟩ := List.forall_mem_cons.1 h
    exact .cell ht (ih hts)

theorem isReadable_apply (hl : (Token.word f).IsLexical) (hf : f ∉ operatorFunctors) (hne : ts ≠ [])
    (hts : ∀ t ∈ ts, t.IsReadable) : (apply f ts).IsReadable := by
  rw [apply, if_neg (by simpa using hne)]
  exact .application hl hf hne hts

theorem chainMark?_eq_some : Printer.chainMark? f = some op ↔ f = "and" ∧ op = .amp ∨ f = "or" ∧ op = .bar := by
  unfold Printer.chainMark?
  split <;> simp_all [eq_comm]

/-- A readable term is a chain of links that are no such chains themselves, or a single link. -/
theorem IsReadable.links (h : t.IsReadable) (hf : Printer.chainMark? f = some op) :
    t.links f = [t] ∨ t = compound f (t.links f) ∧ 2 ≤ (t.links f).length ∧
      (∀ u ∈ t.links f, u.links f = [u]) ∧ ∀ u ∈ t.links f, u.IsReadable := by
  cases t with
  | var v => exact .inl rfl
  | sym s => exact .inl rfl
  | compound g args =>
    by_cases hg : g = f
    · subst hg
      have hlinks : (compound g args).links g = args := by simp [Term.links]
      rw [hlinks]
      have hop : g = "and" ∨ g = "or" := (chainMark?_eq_some.1 hf).imp And.left And.left
      right
      cases h with
      | application h hg => exact absurd (by rcases hop with rfl | rfl <;> decide) hg
      | cell => simp at hop
      | marked hg => rcases hop with rfl | rfl <;> cases hg
      | pair hg => rcases hop with rfl | rfl <;> cases hg
      | chain _ hlength hlinks hargs => exact ⟨rfl, hlength, hlinks, hargs⟩
      | rule => simp at hop
    · left
      rw [Term.links, if_neg hg]

theorem IsReadable.links_ne_nil (h : t.IsReadable) (hf : Printer.chainMark? f = some op) : t.links f ≠ [] := by
  rcases h.links hf with heq | ⟨-, hlength, -⟩
  · simp [heq]
  · exact List.ne_nil_of_length_pos (by omega)

theorem IsReadable.links_links (h : t.IsReadable) (hf : Printer.chainMark? f = some op) :
    ∀ u ∈ t.links f, u.links f = [u] := by
  rcases h.links hf with heq | ⟨-, -, hlinks, -⟩
  · simp [heq]
  · exact hlinks

theorem IsReadable.mem_links (h : t.IsReadable) (hf : Printer.chainMark? f = some op) :
    ∀ u ∈ t.links f, u.IsReadable := by
  rcases h.links hf with heq | ⟨-, -, -, hargs⟩
  · simpa [heq] using h
  · exact hargs

theorem IsReadable.joinChain (ht : t.IsReadable) (hu : u.IsReadable) (hf : Printer.chainMark? f = some op) :
    (t.joinChain f u).IsReadable := by
  have hleft := List.length_pos_of_ne_nil (ht.links_ne_nil hf)
  have hright := List.length_pos_of_ne_nil (hu.links_ne_nil hf)
  refine .chain hf (by rw [List.length_append]; omega) ?_ ?_
  · exact List.forall_mem_append.2 ⟨ht.links_links hf, hu.links_links hf⟩
  · exact List.forall_mem_append.2 ⟨ht.mem_links hf, hu.mem_links hf⟩

theorem IsReadable.ruleOfBody (ht : t.IsReadable) (hu : u.IsReadable) : (t.ruleOfBody u).IsReadable := by
  have hand : Printer.chainMark? "and" = some .amp := rfl
  exact .rule ht (hu.links_ne_nil hand) (hu.links_links hand) (hu.mem_links hand)

theorem IsReadable.combine (hop : op.isBinary = true) (ht : t.IsReadable) (hu : u.IsReadable) :
    (op.combine t u).IsReadable := by
  cases op with
  | amp => exact ht.joinChain hu (chainMark?_eq_some.2 (.inl ⟨rfl, rfl⟩))
  | bar => exact ht.joinChain hu (chainMark?_eq_some.2 (.inr ⟨rfl, rfl⟩))
  | implies | defines | handles => exact .pair rfl ht hu
  | provided => exact ht.ruleOfBody hu
  | cell => exact .cell ht hu
  | hash | tilde | plus | minus | star => cases hop

/-- A minus changes the sign of a number. -/
theorem IsReadable.minus (h : t.IsReadable) : t.minus.IsReadable := by
  cases t with
  | var v => exact .marked rfl (fun _ => rfl) h
  | compound f args => exact .marked rfl (fun _ => rfl) h
  | sym s =>
    cases hnum : isNumericText s with
    | false =>
      simp only [Term.minus, hnum]
      exact .marked rfl (fun _ => hnum) h
    | true =>
      simp only [Term.minus, hnum, if_true]
      cases h with
      | symbol h hsym =>
        obtain ⟨c, tail, hs, hc⟩ := toList_of_isLexical_word h
        split
        · rename_i positive heq
          rw [hs] at heq
          cases heq
          exact absurd hc (by decide)
        · exact .negative h hsym hnum
      | quoted h => rw [isNumericText_of_quoted h] at hnum; cases hnum
      | @negative text h hsym =>
        simp only [String.toList_ofList]
        rw [String.ofList_toList]
        exact .symbol h hsym

theorem IsReadable.wrap (hop : op.isPrefix = true) (h : t.IsReadable) : (op.wrap t).IsReadable := by
  cases op with
  | plus | star | tilde => exact .marked rfl (fun hf => absurd hf (by decide)) h
  | minus => exact h.minus
  | cell | hash | amp | bar | implies | defines | provided | handles => cases hop

/-- Terms that are made of tokens in operator syntax are readable. -/
theorem isReadable_of_makes {tokens : List Token} (hl : ∀ token ∈ tokens, token.IsLexical)
    (hs : Token.inOperatorSyntax tokens = true) (h : Makes tokens t) : t.IsReadable := by
  induction h with
  | word h => exact isReadable_ofWord (hl _ h)
  | quoted h => exact .quoted (hl _ h)
  | anonymous => exact .anonymous
  | list _ ih => exact isReadable_list ih
  | application hf hempty _ ih =>
    obtain ⟨hop, hhead, -⟩ := Token.inOperatorSyntax_application (Token.inOperatorSyntax_of_suffix hf hs)
    exact isReadable_apply (hl _ (hf.subset List.mem_cons_self)) hop (fun hnil => hhead (hempty hnil)) ih
  | binary hop _ _ hleft hright => exact hleft.combine hop hright
  | unary hop _ h => exact h.wrap hop

end Term

/-! ### Texts -/

/-- The terms of a text in operator syntax are readable. -/
theorem isReadable_of_parse {layout : Layout} {text : String} {terms : List Term} (hs : isOperatorSyntax text = true)
    (h : parse layout text = .ok terms) : ∀ t ∈ terms, t.IsReadable := by
  obtain ⟨placed, htokens, hterms⟩ := makes_of_parse h
  have hlexical : ∀ t ∈ placed.map PlacedToken.token, t.IsLexical :=
    List.forall_mem_map.2 (isLexical_of_tokenize htokens)
  rw [isOperatorSyntax, htokens] at hs
  exact fun t ht => Term.isReadable_of_makes hlexical hs (hterms t ht)

end Deduction
