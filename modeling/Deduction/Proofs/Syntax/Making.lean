import Deduction.Syntax.Reader
import Mathlib.Data.List.Infix

/-!
# The terms that the reader makes

The reader makes all its terms of words, strings and anonymous variables by lists, applications and operators, and of
nothing that does not stand in the text (`makes_of_parse`). What these few operations keep holds of every term that is
read.
-/

namespace Deduction

/-- The terms that the reader makes of some tokens, before anonymous variables get names. -/
inductive Makes (tokens : List Token) : Term → Prop where
  | word {name : String} (h : .word name ∈ tokens) : Makes tokens (.ofWord name)
  | quoted {text : String} (h : .quoted text ∈ tokens) : Makes tokens (.sym text)
  | anonymous : Makes tokens (.var "_")
  | list {items : List Term} (hitems : ∀ t ∈ items, Makes tokens t) : Makes tokens (.list items)
  /-- Without arguments the parentheses behind the functor close at once. -/
  | application {f : String} {rest : List Token} {args : List Term} (hf : .word f :: .openParen :: rest <:+ tokens)
      (hempty : args = [] → rest.head? = some .closeParen) (hargs : ∀ t ∈ args, Makes tokens t) :
      Makes tokens (.apply f args)
  | binary {op : Operator} {left right : Term} (hop : op.isBinary = true) (hleft : Makes tokens left)
      (hright : Makes tokens right) : Makes tokens (op.combine left right)
  | unary {op : Operator} {operand : Term} (hop : op.isPrefix = true) (hoperand : Makes tokens operand) :
      Makes tokens (op.wrap operand)

/-! ### Readers that hold such terms -/

def Pending.IsMade (tokens : List Token) : Pending → Prop
  | binary left op => Makes tokens left ∧ op.isBinary = true
  | unary op => op.isPrefix = true
  | parens => True
  | list items => ∀ t ∈ items, Makes tokens t
  | arguments f args => (∃ rest, .word f :: .openParen :: rest <:+ tokens) ∧ ∀ t ∈ args, Makes tokens t

def Focus.IsMade (tokens : List Token) : Focus → Prop
  | complete t => Makes tokens t
  | _ => True

namespace Reader

variable {r r' : Reader} {t u : Term} {stack : List Pending} {focus : Focus} {token : Token} {tokens rest : List Token}
  {closable : Bool}

/-- The tokens that the reader has not settled yet: a word that may be a functor, with the parenthesis that opens its
arguments. -/
def recent (r : Reader) : List Token :=
  match r.focus, r.stack with
  | .word f, _ => [.word f]
  | .operand true, .arguments f [] :: _ => [.word f, .openParen]
  | _, _ => []

/-- All terms of the reader are made of the tokens, and after those that it has not settled yet the rest is to come. -/
structure IsMade (tokens rest : List Token) (r : Reader) : Prop where
  stack : ∀ p ∈ r.stack, p.IsMade tokens
  focus : r.focus.IsMade tokens
  terms : ∀ t ∈ r.terms, Makes tokens t
  suffix : r.recent ++ rest <:+ tokens

theorem isMade_reduce (binds : Operator → Bool) (ht : Makes tokens t) (hstack : ∀ p ∈ stack, p.IsMade tokens) :
    Makes tokens (reduce binds t stack).1 ∧ ∀ p ∈ (reduce binds t stack).2, p.IsMade tokens := by
  induction stack generalizing t with
  | nil => exact ⟨ht, hstack⟩
  | cons p stack ih =>
    obtain ⟨hp, hbelow⟩ := List.forall_mem_cons.1 hstack
    cases p with
    | binary left op =>
      unfold reduce
      split
      · exact ih (.binary hp.2 hp.1 ht) hbelow
      · exact ⟨ht, hstack⟩
    | unary op =>
      unfold reduce
      split
      · exact ih (.unary hp ht) hbelow
      · exact ⟨ht, hstack⟩
    | parens | list | arguments => exact ⟨ht, hstack⟩

/-- What a bracket closes on is made of the tokens, and so are the bracket and what is below it. -/
theorem isMade_of_reduceAll {p : Pending} {below : List Pending} (ht : Makes tokens t)
    (hstack : ∀ p ∈ stack, p.IsMade tokens) (hreduce : reduceAll t stack = (u, p :: below)) :
    Makes tokens u ∧ p.IsMade tokens ∧ ∀ p ∈ below, p.IsMade tokens := by
  have h := isMade_reduce (fun _ => true) ht hstack
  change reduce _ t stack = _ at hreduce
  rw [hreduce] at h
  exact ⟨h.1, List.forall_mem_cons.1 h.2⟩

/-- A functor and arguments whose last one comes first. -/
theorem makes_apply {f : String} {args : List Term} (hf : .word f :: .openParen :: rest <:+ tokens)
    (hempty : args = [] → rest.head? = some .closeParen) (hargs : ∀ t ∈ args, Makes tokens t) :
    Makes tokens (.apply f args.reverse) :=
  .application hf (fun h => hempty (List.reverse_eq_nil_iff.1 h)) fun t ht => hargs t (List.mem_reverse.1 ht)

theorem makes_list {items : List Term} (h : ∀ t ∈ items, Makes tokens t) : Makes tokens (.list items.reverse) :=
  .list fun t ht => h t (List.mem_reverse.1 ht)

theorem IsMade.endTerm? {later : List Token} (h : r.IsMade tokens later) (ht : Makes tokens t)
    (hrest : rest <:+ tokens) (hfocus : focus = .operand false ∨ focus = .ended)
    (hend : r.endTerm? t focus = some r') : r'.IsMade tokens rest ∧ r'.focus = focus := by
  have hreduce := isMade_reduce (fun _ => true) ht h.stack
  unfold Reader.endTerm? reduceAll at hend
  split at hend
  · rename_i u heq
    cases hend
    rw [heq] at hreduce
    have hterms := List.forall_mem_cons.2 ⟨hreduce.1, h.terms⟩
    rcases hfocus with rfl | rfl
    · exact ⟨⟨List.forall_mem_nil _, trivial, hterms, hrest⟩, rfl⟩
    · exact ⟨⟨List.forall_mem_nil _, trivial, hterms, hrest⟩, rfl⟩
  · cases hend

theorem IsMade.startOperand (h : r.IsMade tokens (token :: rest)) (hfocus : r.focus = .operand closable)
    (hstart : r.startOperand closable token = some r') : r'.IsMade tokens rest := by
  have hsuffix := h.suffix
  have hwhole : token :: rest <:+ tokens := (List.suffix_append _ _).trans hsuffix
  have htail : rest <:+ tokens := (List.suffix_cons _ _).trans hwhole
  have hmem : token ∈ tokens := hwhole.subset List.mem_cons_self
  cases token with
  | word name =>
    cases hstart
    exact ⟨h.stack, trivial, h.terms, hwhole⟩
  | quoted text =>
    cases hstart
    exact ⟨h.stack, .quoted hmem, h.terms, htail⟩
  | anonymous text =>
    cases hstart
    exact ⟨h.stack, .anonymous, h.terms, htail⟩
  | openParen =>
    cases hstart
    exact ⟨List.forall_mem_cons.2 ⟨trivial, h.stack⟩, trivial, h.terms, htail⟩
  | openBracket =>
    cases hstart
    exact ⟨List.forall_mem_cons.2 ⟨List.forall_mem_nil _, h.stack⟩, trivial, h.terms, htail⟩
  | operator op =>
    simp only [Reader.startOperand] at hstart
    split at hstart
    · rename_i hop
      cases hstart
      exact ⟨List.forall_mem_cons.2 ⟨hop, h.stack⟩, trivial, h.terms, htail⟩
    · cases hstart
  | closeBracket =>
    simp only [Reader.startOperand] at hstart
    split at hstart
    · rename_i items below _ hstack
      cases hstart
      have hmade := h.stack
      rw [hstack] at hmade
      obtain ⟨hitems, hbelow⟩ := List.forall_mem_cons.1 hmade
      exact ⟨hbelow, makes_list hitems, h.terms, htail⟩
    · cases hstart
  | closeParen =>
    simp only [Reader.startOperand] at hstart
    split at hstart
    · rename_i f args below hstack
      cases hstart
      have hmade := h.stack
      rw [hstack] at hmade
      obtain ⟨⟨⟨opened, hf⟩, hargs⟩, hbelow⟩ := List.forall_mem_cons.1 hmade
      refine ⟨hbelow, ?_, h.terms, htail⟩
      -- the parentheses have just been opened if there are no arguments yet
      cases args with
      | nil =>
        rw [recent, hfocus, hstack] at hsuffix
        exact makes_apply hsuffix (fun _ => rfl) hargs
      | cons arg args => exact makes_apply hf (fun hnil => absurd hnil (List.cons_ne_nil _ _)) hargs
    · cases hstart
  | period =>
    simp only [Reader.startOperand] at hstart
    split at hstart
    · rename_i hempty
      cases hstart
      simp only [Bool.and_eq_true, List.isEmpty_iff] at hempty
      refine ⟨h.stack, h.focus, h.terms, ?_⟩
      unfold recent
      rw [hfocus, hempty.1]
      cases closable <;> exact htail
    · cases hstart
  | comma => cases hstart

theorem IsMade.nextTerm {later : List Token} (h : r.IsMade tokens later) (ht : Makes tokens t)
    (hwhole : token :: rest <:+ tokens) (hnext : continueTerm.nextTerm r t token = some r') :
    r'.IsMade tokens rest := by
  unfold continueTerm.nextTerm at hnext
  split at hnext
  · obtain ⟨next, hend, hstart⟩ := Option.bind_eq_some_iff.1 hnext
    obtain ⟨hnext, hfocus⟩ := h.endTerm? ht hwhole (.inl rfl) hend
    exact hnext.startOperand hfocus hstart
  · cases hnext

theorem IsMade.continueTerm {later : List Token} (h : r.IsMade tokens later) (ht : Makes tokens t)
    (hwhole : token :: rest <:+ tokens) (hcont : r.continueTerm t token = some r') : r'.IsMade tokens rest := by
  have htail : rest <:+ tokens := (List.suffix_cons _ _).trans hwhole
  cases token with
  | word name | quoted text | anonymous text | openParen | openBracket => exact h.nextTerm ht hwhole hcont
  | operator op =>
    simp only [Reader.continueTerm] at hcont
    split at hcont
    · rename_i hop
      cases hcont
      obtain ⟨hleft, hstack⟩ := isMade_reduce (fun on => on.rank < op.rank) ht h.stack
      exact ⟨List.forall_mem_cons.2 ⟨⟨hleft, hop⟩, hstack⟩, trivial, h.terms, htail⟩
    · exact h.nextTerm ht hwhole hcont
  | comma =>
    simp only [Reader.continueTerm] at hcont
    split at hcont
    · rename_i hreduce
      cases hcont
      obtain ⟨hu, hitems, hbelow⟩ := isMade_of_reduceAll ht h.stack hreduce
      exact ⟨List.forall_mem_cons.2 ⟨List.forall_mem_cons.2 ⟨hu, hitems⟩, hbelow⟩, trivial, h.terms, htail⟩
    · rename_i hreduce
      cases hcont
      obtain ⟨hu, ⟨hf, hargs⟩, hbelow⟩ := isMade_of_reduceAll ht h.stack hreduce
      exact ⟨List.forall_mem_cons.2 ⟨⟨hf, List.forall_mem_cons.2 ⟨hu, hargs⟩⟩, hbelow⟩, trivial, h.terms, htail⟩
    · split at hcont
      · exact (h.endTerm? ht htail (.inl rfl) hcont).1
      · cases hcont
  | closeParen =>
    simp only [Reader.continueTerm] at hcont
    split at hcont
    · rename_i hreduce
      cases hcont
      obtain ⟨hu, -, hbelow⟩ := isMade_of_reduceAll ht h.stack hreduce
      exact ⟨hbelow, hu, h.terms, htail⟩
    · rename_i hreduce
      cases hcont
      obtain ⟨hu, ⟨⟨opened, hf⟩, hargs⟩, hbelow⟩ := isMade_of_reduceAll ht h.stack hreduce
      exact ⟨hbelow, makes_apply hf (fun hnil => absurd hnil (List.cons_ne_nil _ _))
        (List.forall_mem_cons.2 ⟨hu, hargs⟩), h.terms, htail⟩
    · cases hcont
  | closeBracket =>
    simp only [Reader.continueTerm] at hcont
    split at hcont
    · rename_i hreduce
      cases hcont
      obtain ⟨hu, hitems, hbelow⟩ := isMade_of_reduceAll ht h.stack hreduce
      exact ⟨hbelow, makes_list (List.forall_mem_cons.2 ⟨hu, hitems⟩), h.terms, htail⟩
    · cases hcont
  | period =>
    simp only [Reader.continueTerm] at hcont
    split at hcont
    · exact (h.endTerm? ht htail (.inr rfl) hcont).1
    · exact (h.endTerm? ht htail (.inl rfl) hcont).1
    · cases hcont

/-- A word at hand stands in the text. -/
theorem IsMade.mem_of_word {name : String} (h : r.IsMade tokens rest) (hfocus : r.focus = .word name) :
    .word name ∈ tokens := by
  have hsuffix := h.suffix
  rw [recent, hfocus] at hsuffix
  exact hsuffix.subset List.mem_cons_self

theorem IsMade.step? (h : r.IsMade tokens (token :: rest)) (hstep : r.step? token = some r') :
    r'.IsMade tokens rest := by
  have hsuffix := h.suffix
  have hwhole : token :: rest <:+ tokens := (List.suffix_append _ _).trans hsuffix
  cases hf : r.focus with
  | operand closable =>
    simp only [Reader.step?, hf] at hstep
    exact h.startOperand hf hstep
  | word name =>
    have hrecent : r.recent = [.word name] := by simp [recent, hf]
    rw [hrecent] at hsuffix
    simp only [Reader.step?, hf] at hstep
    split at hstep
    · cases hstep
      exact ⟨List.forall_mem_cons.2 ⟨⟨⟨rest, hsuffix⟩, List.forall_mem_nil _⟩, h.stack⟩, trivial, h.terms, hsuffix⟩
    · exact h.continueTerm (.word (h.mem_of_word hf)) hwhole hstep
  | complete t =>
    have ht := h.focus
    rw [hf] at ht
    simp only [Reader.step?, hf] at hstep
    exact h.continueTerm ht hwhole hstep
  | ended =>
    simp only [Reader.step?, hf] at hstep
    cases hstep

/-! ### Runs -/

/-- The reader after some tokens; `none` if no sentence continues with them. -/
def feed? (r : Reader) (tokens : List Token) : Option Reader := tokens.foldlM Reader.step? r

@[simp] theorem feed?_nil (r : Reader) : r.feed? [] = some r := rfl

theorem feed?_cons (r : Reader) (token : Token) (tokens : List Token) :
    r.feed? (token :: tokens) = (r.step? token).bind fun r => r.feed? tokens :=
  List.foldlM_cons

theorem feed?_append (r : Reader) (tokens tokens' : List Token) :
    r.feed? (tokens ++ tokens') = (r.feed? tokens).bind fun r => r.feed? tokens' :=
  List.foldlM_append

theorem foldlM_step {placed : List PlacedToken} :
    placed.foldlM step r = .ok r' ↔ r.feed? (placed.map PlacedToken.token) = some r' := by
  induction placed generalizing r with
  | nil => simp [feed?, pure, Except.pure]
  | cons t placed ih =>
    rw [List.foldlM_cons, List.map_cons, feed?_cons, step]
    cases r.step? t.token with
    | none => simp [bind, Except.bind]
    | some next => exact ih

theorem IsMade.feed? (h : r.IsMade tokens rest) (hfeed : r.feed? rest = some r') : r'.IsMade tokens [] := by
  induction rest generalizing r with
  | nil =>
    cases hfeed
    exact h
  | cons token rest ih =>
    rw [feed?_cons] at hfeed
    obtain ⟨next, hstep, hfeed⟩ := Option.bind_eq_some_iff.1 hfeed
    exact ih (h.step? hstep) hfeed

theorem IsMade.finish? {terms : List Term} (h : r.IsMade tokens rest) (hfinish : r.finish? = some terms) :
    ∀ t ∈ terms, Makes tokens t := by
  have hreverse {r : Reader} {rest : List Token} (h : r.IsMade tokens rest) : ∀ t ∈ r.terms.reverse, Makes tokens t :=
    fun t ht => h.terms t (List.mem_reverse.1 ht)
  have hfocus := h.focus
  unfold Reader.finish? at hfinish
  split at hfinish <;> rename_i heq
  · split at hfinish
    · cases hfinish
      exact hreverse h
    · cases hfinish
  · obtain ⟨last, hend, rfl⟩ := Option.map_eq_some_iff.1 hfinish
    exact hreverse (h.endTerm? (.word (h.mem_of_word heq)) (List.nil_suffix) (.inr rfl) hend).1
  · rw [heq] at hfocus
    obtain ⟨last, hend, rfl⟩ := Option.map_eq_some_iff.1 hfinish
    exact hreverse (h.endTerm? hfocus (List.nil_suffix) (.inr rfl) hend).1
  · cases hfinish
    exact hreverse h

end Reader

/-! ### Texts -/

theorem parse_eq_ok {layout : Layout} {text : String} {terms : List Term} :
    parse layout text = .ok terms ↔ ∃ placed r, tokenize text = .ok placed ∧
      ({ layout } : Reader).feed? (placed.map PlacedToken.token) = some r ∧ r.finish? = some terms := by
  unfold parse
  cases htokens : tokenize text with
  | error e => simp [bind, Except.bind]
  | ok placed =>
    cases hread : placed.foldlM Reader.step { layout } with
    | error e =>
      simp only [bind, Except.bind, hread, reduceCtorEq, false_iff, not_exists, not_and]
      rintro _ r ⟨rfl⟩ hfeed
      rw [Reader.foldlM_step.2 hfeed] at hread
      cases hread
    | ok r =>
      have hfeed := Reader.foldlM_step.1 hread
      simp only [bind, Except.bind, hread, Reader.finish]
      cases hfinish : r.finish? with
      | none => simp [hfeed, hfinish]
      | some terms => simp [hfeed, hfinish]

theorem readTerms_eq_ok {layout : Layout} {text : String} {names names' : NameSupply} {ts : List Term} :
    readTerms layout text names = .ok (ts, names') ↔
      ∃ terms, parse layout text = .ok terms ∧ Term.nameAnonymousList terms names = (ts, names') := by
  unfold readTerms
  cases parse layout text with
  | error e => simp [Except.map]
  | ok terms => simp [Except.map]

/-- The terms of a text are made of its tokens. -/
theorem makes_of_parse {layout : Layout} {text : String} {terms : List Term} (h : parse layout text = .ok terms) :
    ∃ placed, tokenize text = .ok placed ∧ ∀ t ∈ terms, Makes (placed.map PlacedToken.token) t := by
  obtain ⟨placed, r, htokens, hfeed, hfinish⟩ := parse_eq_ok.1 h
  have hstart : ({ layout } : Reader).IsMade (placed.map PlacedToken.token) (placed.map PlacedToken.token) :=
    ⟨List.forall_mem_nil _, trivial, List.forall_mem_nil _, List.suffix_rfl⟩
  exact ⟨placed, htokens, (hstart.feed? hfeed).finish? hfinish⟩

end Deduction
