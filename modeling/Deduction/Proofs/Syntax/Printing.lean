import Deduction.Proofs.Syntax.Reading

/-!
# What the printer writes is read

The text of a readable term divides into tokens that the reader reads as a term, whatever stands on its sides, as long as
the printer was told of it (`Printer.Writes`). What is read is the term itself, but for marks in front of the head of a
cell with `!`: they take the whole cell (`Term.reread`, `Printer.rereads_of_isReadable`). So the term comes back just if no
head of such a cell has a mark in front of it (`Term.reread_eq_self_iff`).
-/

namespace Deduction

/-! ### Heads of cells -/

namespace Term

/-- Is a mark written in front of the term: the sign of an update, a negation, or the minus of a number? -/
def isMarked : Term → Bool
  | compound f [_] => (Printer.prefixMark? f).isSome
  | sym s => s.toList.head? == some '-'
  | _ => false

/-- A cell that is written with `!` has no mark in front of its head. -/
def hasPlainHead (t : Term) : Bool :=
  match t.asCons with
  | some (head, tail) => tail.isList || !head.isMarked
  | none => true

mutual
/-- No cell in the term that is written with `!` has a mark in front of its head. -/
def hasPlainHeads : Term → Bool
  | compound f args => (compound f args).hasPlainHead && allHavePlainHeads args
  | _ => true

def allHavePlainHeads : List Term → Bool
  | [] => true
  | t :: ts => hasPlainHeads t && allHavePlainHeads ts
end

/-! ### What the text of a term reads as -/

/-- The cell with the given tail, when its head is written first: the marks in front of the head are read as marks of the
cell. The second term is what the text of the head reads as by itself. -/
def underMarks (tail : Term) : Term → Term → Term
  | compound f [t], compound g [u] =>
    if (Printer.prefixMark? f).isSome then compound f [underMarks tail t u] else cons (compound g [u]) tail
  | sym s, u =>
    match s.toList with
    | '-' :: digits => compound "delete" [cons (sym (String.ofList digits)) tail]
    | _ => cons u tail
  | _, u => cons u tail

/-- The compound as it is read, from what its arguments are read as. -/
def regroup (f : String) (args args' : List Term) : Term :=
  match args, args' with
  | [head, tail], [head', tail'] => if f = "cons" && !tail.isList then underMarks tail' head head' else compound f args'
  | _, _ => compound f args'

mutual
/-- The term that the text of the term reads as. -/
def reread : Term → Term
  | compound f args => regroup f args (rereadList args)
  | t => t

def rereadList : List Term → List Term
  | [] => []
  | t :: ts => reread t :: rereadList ts
end

variable {t u : Term} {f : String} {args : List Term} {mark : Char} {op : Operator} {left right : Side}

theorem rereadList_eq_map (ts : List Term) : rereadList ts = ts.map reread := by
  induction ts with
  | nil => rfl
  | cons t ts ih => rw [rereadList, ih, List.map_cons]

theorem reread_compound : (compound f args).reread = regroup f args (args.map reread) := by
  rw [reread, rereadList_eq_map]

/-- Only cells that are written with `!` are not read as compounds of what their arguments are read as. -/
theorem regroup_eq_compound (h : ∀ head tail, compound f args = cons head tail → tail.isList = true) (args' : List Term) :
    regroup f args args' = compound f args' := by
  unfold regroup
  split
  · rename_i head tail head' tail'
    by_cases hf : f = "cons"
    · subst hf
      simp [h head tail rfl]
    · simp [hf]
  · rfl

theorem reread_of_ne_cons (hf : f ≠ "cons") : (compound f args).reread = compound f (args.map reread) := by
  rw [reread_compound, regroup_eq_compound]
  rintro head tail ⟨⟩
  exact absurd rfl hf

theorem reread_cell {head tail : Term} (h : tail.isList = false) :
    (cons head tail).reread = underMarks tail.reread head head.reread := by
  simp [cons, reread_compound, regroup, h]

theorem reread_list_cell {head tail : Term} (h : tail.isList = true) :
    (cons head tail).reread = cons head.reread tail.reread := by
  simp [cons, reread_compound, regroup, h]

theorem reread_single : (compound f [t]).reread = compound f [t.reread] := by
  simp [reread_compound, regroup]

theorem reread_list (ts : List Term) : (list ts).reread = list (ts.map reread) := by
  induction ts with
  | nil => rfl
  | cons t ts ih =>
    change (cons t (list ts)).reread = cons t.reread (list (ts.map reread))
    have hlist : (list ts).isList = true := by simp [isList, list, uncons_chain, nil, uncons, isNil]
    rw [reread_list_cell hlist, ih]

theorem underMarks_marked (hf : Printer.prefixMark? f = some mark) (tail t u : Term) :
    underMarks tail (compound f [t]) (compound f [u]) = compound f [underMarks tail t u] := by
  simp [underMarks, hf]

theorem underMarks_of_not_isMarked {tail : Term} (h : t.isMarked = false) (u : Term) :
    underMarks tail t u = cons u tail := by
  unfold underMarks
  split
  · rename_i f t g u
    have hf : (Printer.prefixMark? f).isSome = false := h
    simp [hf]
  · rename_i s
    split
    · rename_i heq
      simp [isMarked, heq] at h
    · rfl
  · rfl

/-- The cell with a head that is written first is no chain, and no number. -/
theorem exists_underMarks (tail t u : Term) :
    ∃ f args, underMarks tail t u = compound f args ∧ Printer.chainMark? f = none := by
  unfold underMarks
  split
  · rename_i f t g u
    split
    · rename_i hf
      refine ⟨f, _, rfl, ?_⟩
      unfold Printer.prefixMark? at hf
      split at hf <;> first | rfl | cases hf
    · exact ⟨"cons", _, rfl, rfl⟩
  · split
    · exact ⟨"delete", _, rfl, rfl⟩
    · exact ⟨"cons", _, rfl, rfl⟩
  · exact ⟨"cons", _, rfl, rfl⟩

theorem exists_reread_compound (f : String) (args : List Term) :
    ∃ g args', (compound f args).reread = compound g args' ∧ (g = f ∨ Printer.chainMark? g = none) := by
  rw [reread_compound]
  unfold regroup
  split
  · split
    · obtain ⟨g, args', hunder, hg⟩ := exists_underMarks _ _ _
      exact ⟨g, args', hunder, .inr hg⟩
    · exact ⟨f, _, rfl, .inl rfl⟩
  · exact ⟨f, _, rfl, .inl rfl⟩

theorem isNumeric_reread (t : Term) : t.reread.isNumeric = t.isNumeric := by
  cases t with
  | var v => rfl
  | sym s => rfl
  | compound f args =>
    obtain ⟨g, args', hreread, -⟩ := exists_reread_compound f args
    rw [hreread]
    rfl

/-- What is read makes one link of a chain if the term does. -/
theorem links_reread (hf : Printer.chainMark? f = some op) (h : t.links f = [t]) : t.reread.links f = [t.reread] := by
  cases t with
  | var v => rfl
  | sym s => rfl
  | compound g args =>
    have hg : g ≠ f := by
      rintro rfl
      have hself : args = [compound g args] := by rwa [links, if_pos rfl] at h
      have hsize := congrArg sizeOf hself
      simp at hsize
      omega
    obtain ⟨k, args', hreread, hk⟩ := exists_reread_compound g args
    have hne : k ≠ f := by
      rintro rfl
      rcases hk with rfl | hk
      · exact hg rfl
      · rw [hf] at hk
        cases hk
    rw [hreread]
    exact if_neg hne

/-- A cell whose head has a mark in front of it is read as a term with a mark. -/
theorem exists_underMarks_of_isMarked (tail : Term) (h : t.isMarked = true) :
    ∃ f mark u, Printer.prefixMark? f = some mark ∧ underMarks tail t t.reread = compound f [u] := by
  unfold isMarked at h
  split at h
  · rename_i f t
    obtain ⟨mark, hf⟩ := Option.isSome_iff_exists.1 h
    exact ⟨f, mark, _, hf, by rw [reread_single, underMarks_marked hf]⟩
  · rename_i s
    obtain ⟨digits, hs⟩ := List.head?_eq_some_iff.1 (beq_iff_eq.1 h)
    refine ⟨"delete", '-', cons (sym (String.ofList digits)) tail, rfl, ?_⟩
    simp [underMarks, hs]
  · cases h

theorem eq_of_asCons {head tail : Term} (h : t.asCons = some (head, tail)) : t = cons head tail := by
  unfold asCons at h
  split at h
  · split at h
    · rename_i hf
      cases h
      rw [hf, cons]
    · cases h
  · cases h

mutual
/-- What is read is the term itself just if no cell that is written with `!` has a mark in front of its head. -/
theorem reread_eq_self_iff : (t : Term) → (t.reread = t ↔ t.hasPlainHeads = true)
  | var _ => by simp [reread, hasPlainHeads]
  | sym _ => by simp [reread, hasPlainHeads]
  | compound f args => by
    rw [hasPlainHeads, Bool.and_eq_true, ← rereadList_eq_self_iff args, reread]
    by_cases hcell : ∃ head tail, compound f args = cons head tail ∧ tail.isList = false
    · obtain ⟨head, tail, hcons, hlist⟩ := hcell
      cases hcons
      have hplain : (compound "cons" [head, tail]).hasPlainHead = !head.isMarked := by
        simp [hasPlainHead, asCons, hlist]
      have hregroup : regroup "cons" [head, tail] (rereadList [head, tail]) = underMarks tail.reread head head.reread := by
        simp [rereadList, regroup, hlist]
      rw [hregroup]
      cases hmark : head.isMarked with
      | true =>
        -- What is read has one argument.
        obtain ⟨f, mark, u, -, hunder⟩ := exists_underMarks_of_isMarked tail.reread hmark
        simp [hunder, hplain, hmark]
      | false => simp [underMarks_of_not_isMarked hmark, hplain, hmark, cons, rereadList]
    · have hlist (head tail : Term) (hcons : compound f args = cons head tail) : tail.isList = true :=
        eq_true_of_ne_false fun hlist => hcell ⟨head, tail, hcons, hlist⟩
      have hplain : (compound f args).hasPlainHead = true := by
        unfold hasPlainHead
        split
        · rename_i head tail hcons
          simp [hlist head tail (eq_of_asCons hcons)]
        · rfl
      simp [regroup_eq_compound hlist, hplain]

theorem rereadList_eq_self_iff : (ts : List Term) → (rereadList ts = ts ↔ allHavePlainHeads ts = true)
  | [] => by simp [rereadList, allHavePlainHeads]
  | t :: ts => by
    simp [rereadList, allHavePlainHeads, reread_eq_self_iff t, rereadList_eq_self_iff ts]
end

/-! ### Parts of terms -/

/-- A chain of cells over its elements. -/
theorem chain_uncons : (t : Term) → chain t.uncons.1 t.uncons.2 = t
  | var _ => rfl
  | sym _ => rfl
  | compound _ [] => rfl
  | compound _ [_] => rfl
  | compound _ (_ :: _ :: _ :: _) => rfl
  | compound f [head, tail] => by
    by_cases hf : f = "cons"
    · subst hf
      rw [← cons, uncons_cons]
      exact congrArg (cons head) (chain_uncons tail)
    · simp [uncons, hf, chain]

theorem list_cells (h : t.isList = true) : list t.cells = t := by
  have hnil : t.uncons.2 = nil := by
    unfold isList isNil at h
    split at h
    · rename_i s heq
      rw [heq, nil, beq_iff_eq.1 h]
    · cases h
  rw [list, ← hnil]
  exact chain_uncons t

theorem cells_of_ne_cons (hf : f ≠ "cons") : (compound f args).cells = [] := by
  unfold cells uncons
  split
  · rename_i heq
    cases heq
    simp [hf]
  · rfl

theorem exists_of_prefixMark? (hf : Printer.prefixMark? f = some mark) (hnum : f = "delete" → t.isNumeric = false) :
    ∃ op : Operator, op.isPrefix = true ∧ (Token.operator op).piece = [mark] ∧ op.wrap t = compound f [t] := by
  unfold Printer.prefixMark? at hf
  split at hf <;> cases hf
  · exact ⟨.plus, rfl, rfl, rfl⟩
  · refine ⟨.minus, rfl, rfl, ?_⟩
    have hnum := hnum rfl
    cases t with
    | var v => rfl
    | compound f args => rfl
    | sym s => exact if_neg (ne_true_of_eq_false hnum)
  · exact ⟨.star, rfl, rfl, rfl⟩
  · exact ⟨.tilde, rfl, rfl, rfl⟩

theorem combine_of_binaryMark? (hf : Printer.binaryMark? f = some op) :
    op.isBinary = true ∧ op ≠ .cell ∧ ∀ a b, op.combine a b = compound f [a, b] := by
  unfold Printer.binaryMark? at hf
  split at hf <;> cases hf <;> exact ⟨rfl, by simp, fun _ _ => rfl⟩

theorem minus_number {text : String} (h : (Token.word text).IsLexical) (hnum : isNumericText text = true) :
    minus (sym text) = sym (String.ofList ('-' :: text.toList)) := by
  obtain ⟨c, tail, hs, hc⟩ := toList_of_isLexical_word h
  simp only [Term.minus, hnum, if_true]
  split
  · rename_i positive heq
    rw [hs] at heq
    cases heq
    exact absurd hc (by decide)
  · rfl

end Term

/-! ### Tokens that read as a term -/

namespace Reader

variable {r : Reader} {t u : Term} {token : Token} {left right : Side} {op : Operator} {stack : List Pending}

/-- The operator on top of a stack, if there is one. -/
def topOperator? : List Pending → Option Operator
  | .binary _ op :: _ | .unary op :: _ => some op
  | _ => none

/-- The operator on top of the stack binds like the one to the left. -/
def Fits (left : Side) (stack : List Pending) : Prop :=
  (topOperator? stack).map Operator.rank = left.map Operator.rank

/-- Is an operator complete when what stands to the right comes? -/
def closes (right : Side) (on : Operator) : Bool :=
  match right with
  | some op => on.rank < op.rank
  | none => true

/-- Where a term has to come after what stands to the left, tokens are read as the term, up to what the token that
comes next completes. -/
structure ReadsAs (left right : Side) (tokens : List Token) (t : Term) : Prop where
  lexical : ∀ token ∈ tokens, token.IsLexical
  apart : tokens.IsChain Token.Apart
  reads : ∀ (r : Reader) (closable : Bool), r.focus = .operand closable → Fits left r.stack →
    ∃ stack focus u, r.feed? tokens = some { r with stack, focus } ∧ Focus.term? focus = some u ∧
      reduce (closes right) u stack = reduce (closes right) t r.stack

theorem step?_of_term? (h : Focus.term? r.focus = some u) (ht : token ≠ .openParen) :
    r.step? token = r.continueTerm u token := by
  unfold Reader.step?
  cases hfocus : r.focus with
  | word name =>
    rw [hfocus] at h
    cases h
    cases token <;> first | rfl | exact absurd rfl ht
  | complete t =>
    rw [hfocus] at h
    cases h
    rfl
  | operand closable | ended =>
    rw [hfocus] at h
    cases h

theorem feed?_of_operand {closable : Bool} (h : r.focus = .operand closable) (token : Token) (tokens : List Token) :
    r.feed? (token :: tokens) = (r.startOperand closable token).bind fun r => r.feed? tokens := by
  rw [feed?_cons]
  unfold Reader.step?
  rw [h]

/-- An operator leaves those on its left that bind no tighter. -/
theorem reduce_of_fits (h : Fits left stack) (hop : Printer.tighter left op = false) (t : Term) :
    reduce (closes (some op)) t stack = (t, stack) := by
  unfold Fits at h
  have hrank (on : Operator) (hon : topOperator? stack = some on) : ¬on.rank < op.rank := by
    rw [hon] at h
    cases left with
    | none => cases h
    | some op' =>
      have hop : ¬op'.rank < op.rank := of_decide_eq_false hop
      rwa [Option.some.inj (show some on.rank = some op'.rank from h)]
  cases stack with
  | nil => rfl
  | cons p stack =>
    cases p with
    | binary a on => simp [reduce, closes, hrank on rfl]
    | unary on => simp [reduce, closes, hrank on rfl]
    | parens | list | arguments => rfl

theorem tighter_and_closes (h : Printer.needsParens left op right = false) :
    Printer.tighter left op = false ∧ closes right op = true := by
  unfold Printer.needsParens at h
  rw [Bool.or_eq_false_iff] at h
  refine ⟨h.1, ?_⟩
  cases right with
  | none => rfl
  | some y => simpa [closes] using h.2

/-! ### Reading the pieces -/

/-- A token that is a term by itself. -/
theorem readsAs_token {focus : Focus} (hl : token.IsLexical)
    (hstart : ∀ (r : Reader) (closable : Bool), r.startOperand closable token = some { r with focus })
    (hfocus : Focus.term? focus = some t) : ReadsAs left right [token] t where
  lexical := by simp [hl]
  apart := .singleton _
  reads r closable h _ := by
    refine ⟨r.stack, focus, t, ?_, hfocus, rfl⟩
    rw [feed?_of_operand h, hstart]
    rfl

/-- A term in parentheses. -/
theorem ReadsAs.parens {tokens : List Token} (h : ReadsAs none none tokens t) :
    ReadsAs left right (.openParen :: (tokens ++ [.closeParen])) t where
  lexical := by
    simp only [List.forall_mem_cons, List.forall_mem_append]
    exact ⟨trivial, h.lexical, trivial, List.forall_mem_nil _⟩
  apart := Token.isChain_cons_of_not_open rfl (Token.isChain_append_of_separates rfl h.apart (.singleton _))
  reads r closable hfocus _ := by
    obtain ⟨stack, focus, u, hfeed, hterm, hreduce⟩ :=
      h.reads { r with stack := .parens :: r.stack, focus := .operand false } false rfl rfl
    refine ⟨r.stack, .complete t, t, ?_, rfl, rfl⟩
    rw [feed?_of_operand hfocus]
    simp only [startOperand, Option.bind_some]
    rw [feed?_append, hfeed, Option.bind_some, feed?_cons, step?_of_term? hterm (by simp)]
    have hreduce : reduceAll u stack = (t, .parens :: r.stack) := hreduce
    simp [continueTerm, hreduce]

/-- Two terms with an operator between them. -/
theorem ReadsAs.binary {as bs : List Token} {a b : Term} (hop : op.isBinary = true)
    (hparens : Printer.needsParens left op right = false) (ha : ReadsAs left (some op) as a)
    (hb : ReadsAs (some op) right bs b) :
    ReadsAs left right (as ++ .operator op :: bs) (op.combine a b) where
  lexical := by
    simp only [List.forall_mem_cons, List.forall_mem_append]
    exact ⟨ha.lexical, trivial, hb.lexical⟩
  apart := by
    have hseparates : (Token.operator op).separates = true := by cases op <;> first | rfl | cases hop
    exact Token.isChain_append_of_separates hseparates ha.apart (Token.isChain_cons_of_not_open rfl hb.apart)
  reads r closable hfocus hfits := by
    obtain ⟨htighter, hcloses⟩ := tighter_and_closes hparens
    obtain ⟨stack, focus, u, hfeed, hterm, hreduce⟩ := ha.reads r closable hfocus hfits
    rw [reduce_of_fits hfits htighter] at hreduce
    obtain ⟨stack', focus', u', hfeed', hterm', hreduce'⟩ :=
      hb.reads { r with stack := .binary a op :: r.stack, focus := .operand false } false rfl rfl
    refine ⟨stack', focus', u', ?_, hterm', ?_⟩
    · rw [feed?_append, hfeed, Option.bind_some, feed?_cons, step?_of_term? hterm (by simp)]
      have hstep : reduce (fun on => on.rank < op.rank) u stack = (a, r.stack) := hreduce
      simpa [continueTerm, hop, hstep] using hfeed'
    · rw [hreduce', reduce, if_pos hcloses]

/-- A term with a mark in front of it. -/
theorem ReadsAs.marked {tokens : List Token} (hop : op.isPrefix = true) (hcloses : closes right op = true)
    (h : ReadsAs (some .tilde) right tokens t) : ReadsAs left right (.operator op :: tokens) (op.wrap t) where
  lexical := List.forall_mem_cons.2 ⟨trivial, h.lexical⟩
  apart := Token.isChain_cons_of_not_open rfl h.apart
  reads r closable hfocus _ := by
    have hrank : op.rank = Operator.tilde.rank := by cases op <;> first | rfl | cases hop
    obtain ⟨stack, focus, u, hfeed, hterm, hreduce⟩ :=
      h.reads { r with stack := .unary op :: r.stack, focus := .operand false } false rfl (congrArg some hrank)
    refine ⟨stack, focus, u, ?_, hterm, ?_⟩
    · rw [feed?_of_operand hfocus]
      simpa [startOperand, hop] using hfeed
    · rw [hreduce, reduce, if_pos hcloses]

/-! ### Items in brackets -/

variable {bracket : List Term → Pending} {closer : Token} {result : List Term → Term} {tss : List (List Token)}
  {ts : List Term}

/-- An open bracket that takes items with commas between them, until one token closes it. -/
structure IsBracket (bracket : List Term → Pending) (closer : Token) (result : List Term → Term) : Prop where
  lexical : closer.IsLexical
  separates : closer.separates = true
  comma {r : Reader} {t u : Term} {items : List Term} {below : List Pending} (hterm : Focus.term? r.focus = some t)
    (hreduce : reduceAll t r.stack = (u, bracket items :: below)) :
    r.step? .comma = some { r with stack := bracket (u :: items) :: below, focus := .operand false }
  close {r : Reader} {t u : Term} {items : List Term} {below : List Pending} (hterm : Focus.term? r.focus = some t)
    (hreduce : reduceAll t r.stack = (u, bracket items :: below)) :
    r.step? closer = some { r with stack := below, focus := .complete (result (u :: items).reverse) }
  isTop (items : List Term) (below : List Pending) : topOperator? (bracket items :: below) = none
  stays (t : Term) (items : List Term) (below : List Pending) :
    reduceAll t (bracket items :: below) = (t, bracket items :: below)

theorem isBracket_list : IsBracket .list .closeBracket Term.list where
  lexical := trivial
  separates := rfl
  comma hterm hreduce := by
    rw [step?_of_term? hterm (by simp)]
    simp [continueTerm, hreduce]
  close hterm hreduce := by
    rw [step?_of_term? hterm (by simp)]
    simp [continueTerm, hreduce]
  isTop _ _ := rfl
  stays _ _ _ := rfl

theorem isBracket_arguments (f : String) : IsBracket (.arguments f) .closeParen (Term.apply f) where
  lexical := trivial
  separates := rfl
  comma hterm hreduce := by
    rw [step?_of_term? hterm (by simp)]
    simp [continueTerm, hreduce]
  close hterm hreduce := by
    rw [step?_of_term? hterm (by simp)]
    simp [continueTerm, hreduce]
  isTop _ _ := rfl
  stays _ _ _ := rfl

/-- The items after the first one, and the token that closes the bracket. -/
theorem IsBracket.feed?_rest {below : List Pending} {items : List Term} (h : IsBracket bracket closer result)
    (hts : List.Forall₂ (ReadsAs none none) tss ts) (hterm : Focus.term? r.focus = some t)
    (hreduce : reduceAll t r.stack = (u, bracket items :: below)) :
    r.feed? (tss.flatMap (.comma :: ·) ++ [closer]) =
      some { r with stack := below, focus := .complete (result (items.reverse ++ u :: ts)) } := by
  induction hts generalizing r t u items with
  | nil =>
    rw [List.flatMap_nil, List.nil_append, feed?_cons, h.close hterm hreduce]
    simp
  | @cons tokens a tss ts ha _ ih =>
    obtain ⟨stack, focus, t', hfeed, hterm', hreduce'⟩ :=
      ha.reads { r with stack := bracket (u :: items) :: below, focus := .operand false } false rfl
        (congrArg (Option.map Operator.rank) (h.isTop ..))
    have hreduce' : reduceAll t' stack = (a, bracket (u :: items) :: below) := hreduce'.trans (h.stays ..)
    rw [List.flatMap_cons, List.cons_append, List.cons_append, feed?_cons, h.comma hterm hreduce, Option.bind_some,
      List.append_assoc, feed?_append, hfeed, Option.bind_some, ih hterm' hreduce']
    simp

/-- All items, right after the opening bracket. -/
theorem IsBracket.feed? {tokens : List Token} {closable : Bool} {below : List Pending}
    (h : IsBracket bracket closer result) (ht : ReadsAs none none tokens t)
    (hts : List.Forall₂ (ReadsAs none none) tss ts) (hfocus : r.focus = .operand closable)
    (hstack : r.stack = bracket [] :: below) :
    r.feed? (tokens ++ (tss.flatMap (.comma :: ·) ++ [closer])) =
      some { r with stack := below, focus := .complete (result (t :: ts)) } := by
  obtain ⟨stack, focus, u, hfeed, hterm, hreduce⟩ :=
    ht.reads r closable hfocus (by rw [hstack]; exact congrArg (Option.map Operator.rank) (h.isTop ..))
  have hreduce : reduceAll u stack = (t, bracket [] :: below) := by
    rw [hstack] at hreduce
    exact hreduce.trans (h.stays ..)
  rw [feed?_append, hfeed, Option.bind_some, h.feed?_rest hts hterm hreduce]
  simp

theorem IsBracket.lexical_feed {tokens : List Token} (h : IsBracket bracket closer result)
    (ht : ReadsAs none none tokens t) (hts : List.Forall₂ (ReadsAs none none) tss ts) :
    ∀ token ∈ tokens ++ (tss.flatMap (.comma :: ·) ++ [closer]), token.IsLexical := by
  induction hts generalizing t tokens with
  | nil => simpa [or_imp, forall_and, h.lexical] using ht.lexical
  | cons ha _ ih =>
    rw [List.flatMap_cons, List.cons_append, List.cons_append, List.append_assoc]
    exact List.forall_mem_append.2 ⟨ht.lexical, List.forall_mem_cons.2 ⟨trivial, ih ha⟩⟩

theorem IsBracket.apart_feed {tokens : List Token} (h : IsBracket bracket closer result)
    (ht : ReadsAs none none tokens t) (hts : List.Forall₂ (ReadsAs none none) tss ts) :
    (tokens ++ (tss.flatMap (.comma :: ·) ++ [closer])).IsChain Token.Apart := by
  induction hts generalizing t tokens with
  | nil => exact Token.isChain_append_of_separates h.separates ht.apart (.singleton _)
  | cons ha _ ih =>
    rw [List.flatMap_cons, List.cons_append, List.cons_append, List.append_assoc]
    exact Token.isChain_append_of_separates rfl ht.apart (Token.isChain_cons_of_not_open rfl (ih ha))

/-- A list with its items in brackets. -/
theorem ReadsAs.list {tokens : List Token} (ht : ReadsAs none none tokens t)
    (hts : List.Forall₂ (ReadsAs none none) tss ts) :
    ReadsAs left right (.openBracket :: (tokens ++ (tss.flatMap (.comma :: ·) ++ [.closeBracket]))) (.list (t :: ts)) where
  lexical := List.forall_mem_cons.2 ⟨trivial, isBracket_list.lexical_feed ht hts⟩
  apart := Token.isChain_cons_of_not_open rfl (isBracket_list.apart_feed ht hts)
  reads r closable hfocus _ := by
    refine ⟨r.stack, .complete (.list (t :: ts)), _, ?_, rfl, rfl⟩
    rw [feed?_of_operand hfocus]
    exact isBracket_list.feed? ht hts rfl rfl

theorem readsAs_nil : ReadsAs left right [.openBracket, .closeBracket] .nil where
  lexical := by simp [Token.IsLexical]
  apart := Token.isChain_cons_of_not_open rfl (.singleton _)
  reads r closable hfocus _ := by
    refine ⟨r.stack, .complete .nil, _, ?_, rfl, rfl⟩
    rw [feed?_of_operand hfocus]
    rfl

/-- A functor applied to arguments. -/
theorem ReadsAs.application {f : String} {tokens : List Token} (hf : (Token.word f).IsLexical)
    (ht : ReadsAs none none tokens t) (hts : List.Forall₂ (ReadsAs none none) tss ts) :
    ReadsAs left right (.word f :: .openParen :: (tokens ++ (tss.flatMap (.comma :: ·) ++ [.closeParen])))
      (.compound f (t :: ts)) where
  lexical := List.forall_mem_cons.2 ⟨hf, List.forall_mem_cons.2 ⟨trivial,
    (isBracket_arguments f).lexical_feed ht hts⟩⟩
  apart := List.isChain_cons_cons.2 ⟨fun _ => rfl,
    Token.isChain_cons_of_not_open rfl ((isBracket_arguments f).apart_feed ht hts)⟩
  reads r closable hfocus _ := by
    refine ⟨r.stack, .complete (.compound f (t :: ts)), _, ?_, rfl, rfl⟩
    rw [feed?_of_operand hfocus]
    exact (isBracket_arguments f).feed? ht hts rfl rfl

end Reader

/-! ### What the printer writes -/

namespace Printer

open Reader

variable {left right : Side} {op : Operator} {t : Term} {ts : List Term} {f : String}
  {write : List Char → List Char}

/-- What is written in front of a text divides into tokens that are read as the term. -/
def Writes (left right : Side) (write : List Char → List Char) (t : Term) : Prop :=
  ∃ tokens, ReadsAs left right tokens t ∧ ∀ rest, write rest = spell tokens ++ rest

/-- An operator that may stand to the right of the term: a binary one, and no `!` after a mark. -/
def Admits (right : Side) (t : Term) : Prop :=
  ∀ op, right = some op → op.isBinary = true ∧ (t.isMarked = true → op ≠ .cell)

theorem admits_none (t : Term) : Admits none t := fun _ h => by cases h

theorem admits_some (hop : op.isBinary = true) (hne : op ≠ .cell) (t : Term) : Admits (some op) t := by
  rintro _ ⟨⟩
  exact ⟨hop, fun _ => hne⟩

theorem admits_cell (ht : t.isMarked = false) : Admits (some .cell) t := by
  rintro _ ⟨⟩
  exact ⟨rfl, fun h => by rw [ht] at h; cases h⟩

/-- An operator to the right that binds looser than another one admits everything. -/
theorem Admits.of_closes {u : Term} (h : Admits right u) (hcloses : closes right op = true) (t : Term) :
    Admits right t := by
  rintro op' rfl
  refine ⟨(h op' rfl).1, ?_⟩
  rintro _ rfl
  simp [closes, Operator.rank] at hcloses

theorem Admits.closes_of_isMarked (h : Admits right t) (ht : t.isMarked = true) (hop : op.isPrefix = true) :
    closes right op = true := by
  cases right with
  | none => rfl
  | some op' =>
    obtain ⟨hbinary, hne⟩ := h op' rfl
    have hne := hne ht
    cases op <;> cases hop <;> cases op' <;> first | rfl | exact absurd rfl hne | cases hbinary

/-- An operator to the right that binds looser than a cell binds looser than a mark. -/
theorem Admits.closes_of_closes_cell (h : Admits right t) (hcloses : closes right .cell = true) (hop : op.isPrefix = true) :
    closes right op = true := by
  cases right with
  | none => rfl
  | some op' =>
    have hbinary := (h op' rfl).1
    cases op <;> cases hop <;> cases op' <;> first | rfl | exact absurd hcloses (by decide) | cases hbinary

theorem Writes.congr {write' : List Char → List Char} (h : Writes left right write t)
    (heq : ∀ rest, write' rest = write rest) : Writes left right write' t := by
  obtain ⟨tokens, htokens, hwrite⟩ := h
  exact ⟨tokens, htokens, fun rest => (heq rest).trans (hwrite rest)⟩

/-- A term made by an operator, in parentheses if needed. -/
theorem Writes.grouped {body : Side → Side → List Char → List Char} {u : Term} (hright : Admits right u)
    (h : ∀ left right, Admits right u → needsParens left op right = false → Writes left right (body left right) t) :
    Writes left right (grouped left op right body) t := by
  by_cases hparens : needsParens left op right = true
  · obtain ⟨tokens, htokens, hwrite⟩ := h none none (admits_none u) rfl
    refine ⟨_, htokens.parens, fun rest => ?_⟩
    rw [Printer.grouped, if_pos hparens, hwrite]
    simp [Token.piece, Token.spelling]
  · obtain ⟨tokens, htokens, hwrite⟩ := h left right hright (eq_false_of_ne_true hparens)
    refine ⟨_, htokens, fun rest => ?_⟩
    rw [Printer.grouped, if_neg hparens, hwrite]

theorem Writes.binary {writeLeft writeRight : List Char → List Char} {a b : Term} (hop : op.isBinary = true)
    (hparens : needsParens left op right = false) (ha : Writes left (some op) writeLeft a)
    (hb : Writes (some op) right writeRight b) :
    Writes left right (fun rest => writeLeft ((Token.operator op).piece ++ writeRight rest)) (op.combine a b) := by
  obtain ⟨as, has, hleft⟩ := ha
  obtain ⟨bs, hbs, hright⟩ := hb
  refine ⟨_, has.binary hop hparens hbs, fun rest => ?_⟩
  simp [hleft, hright]

theorem spaced_eq (hop : op.isBinary = true) (hne : op ≠ .cell) (rest : List Char) :
    spaced op rest = (Token.operator op).piece ++ rest := by
  simp [Token.piece, hop, hne, spaced, text]

theorem Writes.marked {mark : Char} (hop : op.isPrefix = true) (hmark : (Token.operator op).piece = [mark])
    (hcloses : closes right op = true) (h : Writes (some .tilde) right write t) :
    Writes left right (fun rest => mark :: write rest) (op.wrap t) := by
  obtain ⟨tokens, htokens, hwrite⟩ := h
  refine ⟨_, htokens.marked hop hcloses, fun rest => ?_⟩
  simp [hwrite, hmark]

/-- The tokens of the arguments or items after the first one. -/
theorem exists_items (h : ∀ t ∈ ts, Writes none none (term none none t) t.reread) :
    ∃ tss, List.Forall₂ (ReadsAs none none) tss (ts.map Term.reread) ∧
      ∀ rest, ts.foldr (fun t rest => ',' :: term none none t rest) rest =
        spell (tss.flatMap (.comma :: ·)) ++ rest := by
  induction ts with
  | nil => exact ⟨[], .nil, fun _ => rfl⟩
  | cons t ts ih =>
    obtain ⟨ht, hts⟩ := List.forall_mem_cons.1 h
    obtain ⟨tokens, htokens, hwrite⟩ := ht
    obtain ⟨tss, htss, hrest⟩ := ih hts
    refine ⟨tokens :: tss, .cons htokens htss, fun rest => ?_⟩
    rw [List.foldr_cons, hrest, hwrite]
    simp [Token.piece, Token.spelling]

theorem arguments_eq_foldr (ts : List Term) (rest : List Char) :
    arguments ts rest = ts.foldr (fun t rest => ',' :: term none none t rest) (')' :: rest) := by
  induction ts with
  | nil => rfl
  | cons t ts ih =>
    change ',' :: term none none t (arguments ts rest) = _
    rw [ih, List.foldr_cons]

theorem cells_eq_foldr (ts : List Term) (rest : List Char) :
    cells (.list ts) rest = ts.foldr (fun t rest => ',' :: term none none t rest) rest := by
  induction ts with
  | nil => rfl
  | cons t ts ih =>
    change ',' :: term none none t (cells (.list ts) rest) = _
    rw [ih, List.foldr_cons]

theorem Writes.application (hf : (Token.word f).IsLexical) (ht : Writes none none (term none none t) t.reread)
    (hts : ∀ t ∈ ts, Writes none none (term none none t) t.reread) :
    Writes left right (fun rest => text f ('(' :: term none none t (arguments ts rest)))
      (.compound f (t.reread :: ts.map Term.reread)) := by
  obtain ⟨tokens, htokens, hwrite⟩ := ht
  obtain ⟨tss, htss, hrest⟩ := exists_items hts
  refine ⟨_, htokens.application hf htss, fun rest => ?_⟩
  simp only [arguments_eq_foldr, hrest, hwrite]
  simp [text, Token.piece, Token.spelling]

theorem Writes.list (ht : Writes none none (term none none t) t.reread)
    (hts : ∀ t ∈ ts, Writes none none (term none none t) t.reread) :
    Writes left right (fun rest => '[' :: term none none t (cells (.list ts) (']' :: rest)))
      (.list (t.reread :: ts.map Term.reread)) := by
  obtain ⟨tokens, htokens, hwrite⟩ := ht
  obtain ⟨tss, htss, hrest⟩ := exists_items hts
  refine ⟨_, htokens.list htss, fun rest => ?_⟩
  simp only [cells_eq_foldr, hrest, hwrite]
  simp [Token.piece, Token.spelling]

/-! ### Chains -/

/-- Writes the links of a chain, the first one apart. -/
def links (op : Operator) (left right : Side) (t : Term) : List Term → List Char → List Char
  | [], rest => term left right t rest
  | u :: us, rest => term left (some op) t (chain op right (u :: us) rest)

theorem chain_eq_links (op : Operator) (right : Side) (t : Term) (ts : List Term) (rest : List Char) :
    chain op right (t :: ts) rest = spaced op (links op (some op) right t ts rest) := by
  cases ts <;> rfl

theorem body_eq_links (right : Side) (t : Term) (ts : List Term) (rest : List Char) :
    body right (t :: ts) rest = links .amp (some .provided) right t ts rest := by
  cases ts <;> rfl

/-- The chain of some links; a single link stands for itself. -/
def chained (f : String) (t : Term) : List Term → Term
  | [] => t
  | u :: us => .compound f (t :: u :: us)

theorem links_chained {u : Term} (h : u.links f = [u]) (us : List Term) : (chained f u us).links f = u :: us := by
  cases us with
  | nil => exact h
  | cons v us => simp [chained, Term.links]

theorem Writes.links (hf : chainMark? f = some op) (hparens : needsParens left op right = false)
    (hright : ∀ u, Admits right u) (hlinks : ∀ u ∈ t :: ts, u.links f = [u])
    (h : ∀ u ∈ t :: ts, ∀ left right, Admits right u → Writes left right (term left right u) u.reread) :
    Writes left right (links op left right t ts) (chained f t.reread (ts.map Term.reread)) := by
  have hop : op.isBinary = true ∧ op ≠ .cell := by
    rcases Term.chainMark?_eq_some.1 hf with ⟨-, rfl⟩ | ⟨-, rfl⟩ <;> exact ⟨rfl, by simp⟩
  have hcombine (a b : Term) : op.combine a b = a.joinChain f b := by
    rcases Term.chainMark?_eq_some.1 hf with ⟨rfl, rfl⟩ | ⟨rfl, rfl⟩ <;> rfl
  induction ts generalizing t left with
  | nil => exact h t (by simp) left right (hright t)
  | cons u us ih =>
    obtain ⟨ht, hrest⟩ := List.forall_mem_cons.1 h
    obtain ⟨hlink, hlinks⟩ := List.forall_mem_cons.1 hlinks
    have hparens' : needsParens (some op) op right = false := by
      have hcloses := (tighter_and_closes hparens).2
      cases right with
      | none => simp [needsParens, tighter]
      | some y => simpa [needsParens, tighter, closes] using hcloses
    have hwrites := Writes.binary hop.1 hparens (ht left (some op) (admits_some hop.1 hop.2 t))
      (ih hparens' hlinks hrest)
    have hterm : op.combine t.reread (chained f u.reread (us.map Term.reread)) =
        chained f t.reread ((u :: us).map Term.reread) := by
      have hu := Term.links_reread hf (hlinks u (by simp))
      rw [hcombine, Term.joinChain, Term.links_reread hf hlink, links_chained hu]
      rfl
    rw [hterm] at hwrites
    refine hwrites.congr fun rest => ?_
    rw [Printer.links, chain_eq_links, spaced_eq hop.1 hop.2]

/-! ### Terms -/

variable {head tail a b : Term} {goals args : List Term} {rest : List Char}

theorem term_rule : term left right (.rule head goals) rest =
    grouped left .provided right
      (fun l r rest => term l (some .provided) head (spaced .provided (body r goals rest))) rest := by
  rcases goals with _ | ⟨u, _ | ⟨v, vs⟩⟩ <;> rfl

theorem term_chain (hf : chainMark? f = some op) : term left right (.compound f (t :: a :: ts)) rest =
    grouped left op right (fun l r rest => term l (some op) t (chain op r (a :: ts) rest)) rest := by
  rcases Term.chainMark?_eq_some.1 hf with ⟨rfl, rfl⟩ | ⟨rfl, rfl⟩ <;> rfl

theorem term_marked {mark : Char} (hf : prefixMark? f = some mark) :
    term left right (.compound f [t]) rest = mark :: term (some .tilde) right t rest := by
  unfold prefixMark? at hf
  split at hf <;> cases hf <;> rfl

theorem term_pair (hf : binaryMark? f = some op) : term left right (.compound f [a, b]) rest =
    grouped left op right (fun l r rest => term l (some op) a (spaced op (term (some op) r b rest))) rest := by
  unfold binaryMark? at hf
  split at hf <;> cases hf <;> rfl

theorem term_list (h : tail.isList = true) :
    term left right (.cons head tail) rest = '[' :: term none none head (cells tail (']' :: rest)) := by
  have hterm : term left right (.cons head tail) rest = if tail.isList = true then _ else _ := rfl
  rw [hterm, if_pos h]

theorem term_cell (h : tail.isList = false) :
    term left right (.cons head tail) rest =
      grouped left .cell right (fun l r rest => term l (some .cell) head ('!' :: term (some .cell) r tail rest)) rest := by
  have hterm : term left right (.cons head tail) rest = if tail.isList = true then _ else _ := rfl
  rw [hterm, if_neg (ne_true_of_eq_false h)]

theorem term_sym (s : String) : term left right (.sym s) rest = if s = "nil" then '[' :: ']' :: rest else word s rest :=
  rfl

theorem term_application (hf : f ∉ operatorFunctors) :
    term left right (.compound f (t :: ts)) rest = text f ('(' :: term none none t (arguments ts rest)) := by
  simp only [operatorFunctors, List.mem_cons, List.not_mem_nil, or_false, not_or] at hf
  obtain ⟨hrule, hhandler, htransition, hdefinition, hnot, hand, hor, hcons, hinsert, hdelete, henqueue⟩ := hf
  have hchain : chainMark? f = none := by unfold chainMark?; split <;> trivial
  have hprefix : prefixMark? f = none := by unfold prefixMark?; split <;> trivial
  have hbinary : binaryMark? f = none := by unfold binaryMark?; split <;> trivial
  rcases ts with _ | ⟨u, _ | ⟨v, vs⟩⟩ <;> simp [term, arguments, hrule, hchain, hprefix, hbinary, hcons]

theorem word_eq_text {name : String} {c : Char} {cs : List Char} (hname : name.toList = c :: cs) (hc : c ≠ '_') :
    word name rest = text name rest := by
  unfold word
  rw [hname]
  split
  · rename_i heq
    cases heq
    exact absurd rfl hc
  · rw [text, hname]

theorem ne_underscore_of_isWordStart {c : Char} (h : isWordStart c = true) : c ≠ '_' := by
  rintro rfl
  exact absurd h (by decide)

/-- A token that is a term by itself. -/
theorem Writes.token {token : Token} {focus : Focus} (hl : token.IsLexical)
    (hstart : ∀ (r : Reader) (closable : Bool), r.startOperand closable token = some { r with focus })
    (hfocus : Focus.term? focus = some t) (hwrite : ∀ rest, write rest = token.piece ++ rest) :
    Writes left right write t :=
  ⟨[token], readsAs_token hl hstart hfocus, fun rest => by simp [hwrite]⟩

theorem Writes.anonymous : Writes left right (term left right (.var "_")) (.var "_") := by
  have hl : (Token.anonymous "_").IsLexical := ⟨[], rfl, List.forall_mem_nil _⟩
  exact .token hl (fun _ _ => rfl) rfl fun _ => rfl

theorem Writes.word {w : String} (h : (Token.word w).IsLexical) :
    Writes left right (Printer.word w) (.ofWord w) := by
  obtain ⟨c, cs, hw, hc⟩ := toList_of_isLexical_word h
  exact .token h (fun _ _ => rfl) rfl fun rest => word_eq_text hw (ne_underscore_of_isWordStart hc)

theorem Writes.symbol {s : String} (h : (Token.word s).IsLexical) (hsym : isVariableName s = false) :
    Writes left right (term left right (.sym s)) (.sym s) := by
  by_cases hnil : s = "nil"
  · subst hnil
    exact ⟨_, readsAs_nil, fun rest => rfl⟩
  · have hwrites : Writes left right (Printer.word s) (.ofWord s) := Writes.word h
    rw [Term.ofWord, hsym] at hwrites
    exact hwrites.congr fun rest => by rw [term_sym, if_neg hnil]

theorem Writes.quoted {s : String} (h : (Token.quoted s).IsLexical) :
    Writes left right (term left right (.sym s)) (.sym s) := by
  obtain ⟨cs, hs⟩ := toList_of_isLexical_quoted h
  have hnil : s ≠ "nil" := by
    rintro rfl
    cases hs
  refine .token h (fun _ _ => rfl) rfl fun rest => ?_
  rw [term_sym, if_neg hnil, word_eq_text hs (by decide)]
  rfl

/-! ### Terms that are read again -/

/-- What is written for the term is read as it should be, in all surroundings that admit the term, and in front of the tail
of a cell as well, where the marks in front of the term are taken for marks of the cell. -/
structure Rereads (t : Term) : Prop where
  alone (left right : Side) (h : Admits right t) : Writes left right (term left right t) t.reread
  ahead (left right : Side) {u : Term} (hright : Admits right u) (hparens : needsParens left .cell right = false)
    {write : List Char → List Char} {tail : Term} (htail : Writes (some .cell) right write tail) :
    Writes left right (fun rest => term left (some .cell) t ('!' :: write rest)) (.underMarks tail t t.reread)

/-- Without a mark in front of it, the term is the head of the cell that it is written in. -/
theorem Rereads.of_not_isMarked (hmark : t.isMarked = false)
    (h : ∀ left right, Admits right t → Writes left right (term left right t) t.reread) : Rereads t where
  alone := h
  ahead left right _ _ hparens _ _ htail := by
    rw [Term.underMarks_of_not_isMarked hmark]
    exact Writes.binary rfl hparens (h left (some .cell) (admits_cell hmark)) htail

theorem needsParens_tilde_cell (h : needsParens left .cell right = false) :
    needsParens (some .tilde) .cell right = false := by
  have hcloses := (tighter_and_closes h).2
  cases right with
  | none => rfl
  | some op =>
    have hrank : Operator.cell.rank < op.rank := of_decide_eq_true hcloses
    simp [needsParens, tighter, hrank]
    decide

theorem rereads_negative {text : String} (h : (Token.word text).IsLexical) (hsym : isVariableName text = false)
    (hnum : isNumericText text = true) : Rereads (.sym (String.ofList ('-' :: text.toList))) := by
  obtain ⟨c, cs, htext, hc⟩ := toList_of_isLexical_word h
  have hneg : (String.ofList ('-' :: text.toList)).toList = '-' :: text.toList := String.toList_ofList
  have hmarked : (Term.sym (String.ofList ('-' :: text.toList))).isMarked = true := by simp [Term.isMarked]
  have hofWord : Term.ofWord text = .sym text := by rw [Term.ofWord, hsym]; rfl
  have hword (left right : Side) : Writes left right (Printer.word text) (.sym text) := hofWord ▸ .word h
  have hwrite (left right : Side) (rest : List Char) :
      term left right (.sym (String.ofList ('-' :: text.toList))) rest = '-' :: Printer.word text rest := by
    have hnil : String.ofList ('-' :: text.toList) ≠ "nil" := by
      intro heq
      rw [heq] at hneg
      cases hneg
    rw [term_sym, if_neg hnil, word_eq_text hneg (by decide), word_eq_text htext (ne_underscore_of_isWordStart hc),
      Printer.text, Printer.text, hneg]
    rfl
  refine ⟨fun left right hright => ?_, fun left right u hright hparens write tail htail => ?_⟩
  · have hwrites : Writes left right (fun rest => '-' :: Printer.word text rest) (Operator.minus.wrap (.sym text)) :=
      (hword (some .tilde) right).marked rfl rfl (hright.closes_of_isMarked hmarked rfl)
    have hterm : Operator.minus.wrap (.sym text) = .sym (String.ofList ('-' :: text.toList)) := Term.minus_number h hnum
    rw [hterm] at hwrites
    exact hwrites.congr fun rest => hwrite left right rest
  · have hcell : Writes (some .tilde) right (fun rest => Printer.word text ('!' :: write rest)) (.cons (.sym text) tail) :=
      Writes.binary rfl (needsParens_tilde_cell hparens) (hword (some .tilde) (some .cell)) htail
    have hwrites : Writes left right (fun rest => '-' :: Printer.word text ('!' :: write rest))
        (Operator.minus.wrap (.cons (.sym text) tail)) :=
      hcell.marked rfl rfl (hright.closes_of_closes_cell (tighter_and_closes hparens).2 rfl)
    have hterm : Operator.minus.wrap (.cons (.sym text) tail) =
        Term.underMarks tail (.sym (String.ofList ('-' :: text.toList))) (.sym (String.ofList ('-' :: text.toList))) := by
      simp [Term.underMarks, Operator.wrap, Term.minus, Term.cons]
    rw [hterm] at hwrites
    exact hwrites.congr fun rest => hwrite left (some .cell) _

theorem rereads_marked (hf : prefixMark? f = some mark) (hnum : f = "delete" → t.isNumeric = false) (h : Rereads t) :
    Rereads (.compound f [t]) := by
  have hmarked : (Term.compound f [t]).isMarked = true := by simp [Term.isMarked, hf]
  refine ⟨fun left right hright => ?_, fun left right u hright hparens write tail htail => ?_⟩
  · obtain ⟨op, hop, hmark, hwrap⟩ := Term.exists_of_prefixMark? (t := t.reread) hf fun hf => t.isNumeric_reread ▸ hnum hf
    have hcloses : closes right op = true := hright.closes_of_isMarked hmarked hop
    refine Writes.congr ?_ fun rest => term_marked hf
    rw [Term.reread_single, ← hwrap]
    exact (h.alone (some .tilde) right (hright.of_closes hcloses t)).marked hop hmark hcloses
  · have hnumeric : (Term.underMarks tail t t.reread).isNumeric = false := by
      obtain ⟨g, args, hunder, -⟩ := Term.exists_underMarks tail t t.reread
      rw [hunder]
      rfl
    obtain ⟨op, hop, hmark, hwrap⟩ := Term.exists_of_prefixMark? hf fun _ => hnumeric
    have hcloses := hright.closes_of_closes_cell (tighter_and_closes hparens).2 hop
    refine Writes.congr ?_ fun rest => term_marked hf
    rw [Term.reread_single, Term.underMarks_marked hf, ← hwrap]
    exact (h.ahead (some .tilde) right hright (needsParens_tilde_cell hparens) htail).marked hop hmark hcloses

theorem rereads_pair {a b : Term} (hf : binaryMark? f = some op) (ha : Rereads a) (hb : Rereads b) :
    Rereads (.compound f [a, b]) := by
  have hcons : f ≠ "cons" := by
    rintro rfl
    cases hf
  refine .of_not_isMarked rfl fun left right hright => ?_
  obtain ⟨hop, hne, hcombine⟩ := Term.combine_of_binaryMark? hf
  refine Writes.congr (Writes.grouped hright fun left right hright hparens => ?_) fun rest => term_pair hf
  have hclosed := (tighter_and_closes hparens).2
  have hwrites := Writes.binary hop hparens (ha.alone left (some op) (admits_some hop hne a))
    (hb.alone (some op) right (hright.of_closes hclosed b))
  rw [hcombine] at hwrites
  rw [Term.reread_of_ne_cons hcons]
  exact hwrites.congr fun rest => by rw [spaced_eq hop hne]

theorem rereads_chain (hf : chainMark? f = some op) (hlength : 2 ≤ args.length) (hlinks : ∀ t ∈ args, t.links f = [t])
    (h : ∀ t ∈ args, Rereads t) : Rereads (.compound f args) := by
  have hcons : f ≠ "cons" := by
    rintro rfl
    cases hf
  obtain ⟨t, u, us, rfl⟩ : ∃ t u us, args = t :: u :: us := by
    rcases args with _ | ⟨t, _ | ⟨u, us⟩⟩
    · cases hlength
    · simp at hlength
    · exact ⟨t, u, us, rfl⟩
  refine .of_not_isMarked rfl fun left right hright => ?_
  rw [Term.reread_of_ne_cons hcons]
  refine Writes.congr (Writes.grouped hright fun left right hright hparens => ?_) fun rest => term_chain hf
  exact Writes.links hf hparens (hright.of_closes (tighter_and_closes hparens).2) hlinks fun v hv => (h v hv).alone

theorem rereads_rule {head : Term} (hne : goals ≠ []) (hlinks : ∀ t ∈ goals, t.links "and" = [t])
    (hhead : Rereads head) (h : ∀ t ∈ goals, Rereads t) : Rereads (.rule head goals) := by
  obtain ⟨t, ts, rfl⟩ := List.exists_cons_of_ne_nil hne
  refine .of_not_isMarked rfl fun left right hright => ?_
  refine Writes.congr (Writes.grouped hright fun left right hright hparens => ?_) fun rest => term_rule
  have hclosed := (tighter_and_closes hparens).2
  have hand : needsParens (some .provided) .amp right = false := by
    cases right with
    | none => rfl
    | some y =>
      have hrank : Operator.provided.rank < y.rank := of_decide_eq_true hclosed
      have hrank : Operator.amp.rank < y.rank := Nat.lt_trans (by decide) hrank
      simp [needsParens, tighter, hrank]
      decide
  have hbody := Writes.links (f := "and") rfl hand (hright.of_closes hclosed) hlinks fun u hu => (h u hu).alone
  have hwrites := Writes.binary rfl hparens (hhead.alone left (some .provided) (admits_some rfl (by simp) head)) hbody
  have hterm : Operator.provided.combine head.reread (chained "and" t.reread (ts.map Term.reread)) =
      (Term.rule head (t :: ts)).reread := by
    have hmark : chainMark? "and" = some .amp := rfl
    have ht := Term.links_reread hmark (hlinks t (by simp))
    rw [Term.rule, Term.reread_of_ne_cons (by decide)]
    change Term.rule head.reread ((chained "and" t.reread (ts.map Term.reread)).links "and") = _
    rw [links_chained ht]
    rfl
  rw [hterm] at hwrites
  refine hwrites.congr fun rest => ?_
  rw [spaced_eq rfl (by simp), body_eq_links]

theorem rereads_application (hl : (Token.word f).IsLexical) (hf : f ∉ operatorFunctors) (hne : args ≠ [])
    (h : ∀ t ∈ args, Rereads t) : Rereads (.compound f args) := by
  have hmarked : (Term.compound f args).isMarked = false := by
    unfold Term.isMarked
    split
    · rename_i g t heq
      cases heq
      unfold prefixMark?
      split <;> first | rfl | exact absurd (by decide) hf
    · rename_i heq
      cases heq
    · rfl
  have hcons : f ≠ "cons" := by
    rintro rfl
    exact hf (by decide)
  obtain ⟨t, ts, rfl⟩ := List.exists_cons_of_ne_nil hne
  obtain ⟨ht, hts⟩ := List.forall_mem_cons.1 h
  refine .of_not_isMarked hmarked fun left right _ => ?_
  rw [Term.reread_of_ne_cons hcons]
  refine Writes.congr ?_ fun rest => term_application hf
  exact Writes.application hl (ht.alone none none (admits_none t)) fun u hu => (hts u hu).alone none none (admits_none u)

theorem rereads_list {head tail : Term} (htail : tail.isList = true) (hhead : Rereads head)
    (h : ∀ t ∈ tail.cells, Rereads t) : Rereads (.cons head tail) := by
  refine .of_not_isMarked rfl fun left right _ => ?_
  have hlist : Term.list (head.reread :: tail.cells.map Term.reread) = (Term.cons head tail).reread := by
    rw [← List.map_cons, ← Term.reread_list]
    exact congrArg Term.reread (congrArg (Term.cons head) (Term.list_cells htail))
  refine Writes.congr ?_ fun rest => term_list htail
  rw [← hlist]
  refine Writes.congr ?_ fun rest => by rw [← Term.list_cells htail]
  exact Writes.list (hhead.alone none none (admits_none head)) fun t ht => (h t ht).alone none none (admits_none t)

theorem rereads_cell {head tail : Term} (htail : tail.isList = false) (hhead : Rereads head) (h : Rereads tail) :
    Rereads (.cons head tail) := by
  refine .of_not_isMarked rfl fun left right hright => ?_
  rw [Term.reread_cell htail]
  refine Writes.congr (Writes.grouped hright fun left right hright hparens => ?_) fun rest => term_cell htail
  have hclosed := (tighter_and_closes hparens).2
  exact hhead.ahead left right hright hparens (h.alone (some .cell) right (hright.of_closes hclosed tail))

/-- What the printer writes for a readable term is read, with the marks in front of heads of cells taken for marks of the
cells. The same goes for the items of a list, which the printer finds in the term itself. -/
theorem rereads_of_isReadable (h : t.IsReadable) : Rereads t ∧ ∀ u ∈ t.cells, Rereads u := by
  induction h with
  | anonymous => exact ⟨.of_not_isMarked rfl fun _ _ _ => .anonymous, List.forall_mem_nil _⟩
  | @name v h hvar =>
    refine ⟨.of_not_isMarked rfl fun left right _ => ?_, List.forall_mem_nil _⟩
    have hwrites : Writes left right (Printer.word v) (.ofWord v) := .word h
    rw [Term.ofWord, hvar] at hwrites
    exact hwrites
  | @symbol s h hsym =>
    obtain ⟨c, cs, hs, hc⟩ := toList_of_isLexical_word h
    have hne : c ≠ '-' := by
      rintro rfl
      exact absurd hc (by decide)
    refine ⟨.of_not_isMarked ?_ fun _ _ _ => .symbol h hsym, List.forall_mem_nil _⟩
    simp [Term.isMarked, hs, hne]
  | @quoted s h =>
    obtain ⟨cs, hs⟩ := toList_of_isLexical_quoted h
    refine ⟨.of_not_isMarked ?_ fun _ _ _ => .quoted h, List.forall_mem_nil _⟩
    simp [Term.isMarked, hs]
  | negative h hsym hnum => exact ⟨rereads_negative h hsym hnum, List.forall_mem_nil _⟩
  | @application f args h hf hne hargs ih =>
    have hcons : f ≠ "cons" := by
      rintro rfl
      exact hf (by decide)
    rw [Term.cells_of_ne_cons hcons]
    exact ⟨rereads_application h hf hne fun t ht => (ih t ht).1, List.forall_mem_nil _⟩
  | @cell head tail hhead htail ihHead ihTail =>
    obtain ⟨hhead, -⟩ := ihHead
    obtain ⟨htail, hcells⟩ := ihTail
    refine ⟨?_, ?_⟩
    · cases hlist : tail.isList with
      | true => exact rereads_list hlist hhead hcells
      | false => exact rereads_cell hlist hhead htail
    · rw [Term.cells, Term.uncons_cons]
      exact List.forall_mem_cons.2 ⟨hhead, hcells⟩
  | @marked f mark t hf hnum ht ih => exact ⟨rereads_marked hf hnum ih.1, List.forall_mem_nil _⟩
  | @pair f op a b hf ha hb ihA ihB =>
    have hcons : f ≠ "cons" := by
      rintro rfl
      cases hf
    rw [Term.cells_of_ne_cons hcons]
    exact ⟨rereads_pair hf ihA.1 ihB.1, List.forall_mem_nil _⟩
  | @chain f op args hf hlength hlinks hargs ih =>
    have hcons : f ≠ "cons" := by
      rintro rfl
      cases hf
    rw [Term.cells_of_ne_cons hcons]
    exact ⟨rereads_chain hf hlength hlinks fun t ht => (ih t ht).1, List.forall_mem_nil _⟩
  | @rule head goals hhead hne hlinks hgoals ihHead ih =>
    rw [Term.rule, Term.cells_of_ne_cons (by decide)]
    exact ⟨rereads_rule hne hlinks ihHead.1 fun t ht => (ih t ht).1, List.forall_mem_nil _⟩

end Printer

end Deduction
