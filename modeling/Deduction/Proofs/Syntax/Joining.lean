import Deduction.Proofs.Syntax.Dividing
import Deduction.Proofs.Syntax.Reading

/-!
# Data in parts

Data that is read in one piece, with a line between its parts that holds nothing but a period, gives the terms of the
parts, and its anonymous variables get the same names as when the parts are read one after the other
(`readDataWith_append`). The reader looks back no further than to the open brackets and operators, of which a period
leaves none. Blanks at the ends of a text and points behind a single term make no difference (`parse_trim`,
`parse_dropPoints`).
-/

namespace Deduction

namespace Reader

variable {r r' : Reader} {t : Term} {token : Token} {tokens : List Token} {earlier terms : List Term}

/-! ### Readers with earlier terms -/

/-- The reader with terms from before, the last one first. -/
def after (r : Reader) (earlier : List Term) : Reader := { r with terms := r.terms ++ earlier }

theorem endTerm?_after (r : Reader) (earlier : List Term) (t : Term) (focus : Focus) :
    (r.after earlier).endTerm? t focus = (r.endTerm? t focus).map fun r => r.after earlier := by
  unfold endTerm? after
  dsimp only
  split <;> rfl

theorem startOperand_after (r : Reader) (earlier : List Term) (closable : Bool) (token : Token) :
    (r.after earlier).startOperand closable token =
      (r.startOperand closable token).map fun r => r.after earlier := by
  cases token with
  | word | quoted | anonymous | openParen | openBracket | comma => rfl
  | operator op =>
    simp only [startOperand]
    split <;> rfl
  | closeBracket | closeParen =>
    simp only [startOperand, after]
    split <;> rfl
  | period =>
    simp only [startOperand]
    rw [apply_ite (Option.map _)]
    rfl

theorem nextTerm_after (r : Reader) (earlier : List Term) (t : Term) (token : Token) :
    continueTerm.nextTerm (r.after earlier) t token =
      (continueTerm.nextTerm r t token).map fun r => r.after earlier := by
  unfold continueTerm.nextTerm
  rw [endTerm?_after]
  change (if r.layout = .data then _ else _) = _
  split
  · cases r.endTerm? t (.operand false) with
    | none => rfl
    | some next => exact next.startOperand_after earlier false token
  · rfl

theorem continueTerm_after (r : Reader) (earlier : List Term) (t : Term) (token : Token) :
    (r.after earlier).continueTerm t token = (r.continueTerm t token).map fun r => r.after earlier := by
  cases token with
  | word | quoted | anonymous | openParen | openBracket => exact r.nextTerm_after earlier t _
  | operator op =>
    simp only [continueTerm]
    split
    · rfl
    · exact r.nextTerm_after earlier t _
  | comma =>
    simp only [continueTerm, endTerm?_after]
    simp only [after]
    split
    · rfl
    · rfl
    · rw [apply_ite (Option.map _)]
      rfl
  | closeParen | closeBracket =>
    simp only [continueTerm, after]
    split <;> rfl
  | period =>
    simp only [continueTerm, endTerm?_after]
    simp only [after]
    split <;> rfl

theorem step?_after (r : Reader) (earlier : List Term) (token : Token) :
    (r.after earlier).step? token = (r.step? token).map fun r => r.after earlier := by
  obtain ⟨layout, stack, focus, terms⟩ := r
  cases focus with
  | operand closable => exact startOperand_after _ earlier closable token
  | word name =>
    have hcontinue := continueTerm_after ⟨layout, stack, .word name, terms⟩ earlier (.ofWord name) token
    cases token with
    | openParen => rfl
    | _ => exact hcontinue
  | complete t => exact continueTerm_after _ earlier t token
  | ended => rfl

theorem feed?_after (r : Reader) (earlier : List Term) (tokens : List Token) :
    (r.after earlier).feed? tokens = (r.feed? tokens).map fun r => r.after earlier := by
  induction tokens generalizing r with
  | nil => rfl
  | cons token tokens ih =>
    rw [feed?_cons, feed?_cons, step?_after]
    cases r.step? token with
    | none => rfl
    | some next => exact ih next

/-! ### The last term -/

/-- The term that ends where the text ends, or where a period comes. -/
def lastTerm? (r : Reader) : Option Term :=
  match r.focus with
  | .word name => some (.ofWord name)
  | .complete t => some t
  | _ => none

theorem finish?_of_lastTerm? (h : r.lastTerm? = some t) :
    r.finish? = (r.endTerm? t .ended).map fun r => r.terms.reverse := by
  obtain ⟨layout, stack, focus, terms⟩ := r
  cases focus <;> cases h <;> rfl

theorem step?_period_of_lastTerm? (h : r.lastTerm? = some t) : r.step? .period = r.continueTerm t .period := by
  obtain ⟨layout, stack, focus, terms⟩ := r
  cases focus <;> cases h <;> rfl

theorem finish?_after (r : Reader) (earlier : List Term) :
    (r.after earlier).finish? = r.finish?.map fun terms => earlier.reverse ++ terms := by
  cases hlast : r.lastTerm? with
  | some t =>
    rw [finish?_of_lastTerm? hlast, finish?_of_lastTerm? (r := r.after earlier) hlast, endTerm?_after, Option.map_map,
      Option.map_map]
    exact congrArg (Option.map · _) (funext fun r => List.reverse_append)
  | none =>
    obtain ⟨layout, stack, focus, terms⟩ := r
    cases focus with
    | operand closable =>
      simp only [finish?, after]
      rw [apply_ite (Option.map _), Option.map_some, Option.map_none, List.reverse_append]
      rfl
    | word name => cases hlast
    | complete t => cases hlast
    | ended => simp [finish?, after]

/-! ### What readers keep -/

/-- A bracket may close at once only if one is open, and only the reader of a single term comes to an end. -/
structure IsSound (layout : Layout) (r : Reader) : Prop where
  layout_eq : r.layout = layout
  bracket : r.focus = .operand true → r.stack ≠ []
  ended : r.focus = .ended → layout = Layout.one

variable {layout : Layout}

theorem isSound_start (layout : Layout) : IsSound layout { layout } :=
  ⟨rfl, by simp, by simp⟩

theorem endTerm?_eq_some {focus : Focus} :
    r.endTerm? t focus = some r' ↔
      ∃ u, reduceAll t r.stack = (u, []) ∧ r' = { r with stack := [], focus, terms := u :: r.terms } := by
  unfold endTerm?
  split
  · rename_i u heq
    simp [heq, eq_comm]
  · rename_i hne
    simp only [reduceCtorEq, false_iff, not_exists, not_and]
    exact fun u heq => absurd heq (hne u)

theorem IsSound.withFocus (h : r.IsSound layout) (stack : List Pending) {focus : Focus}
    (hbracket : focus ≠ .operand true) (hended : focus ≠ .ended) : IsSound layout { r with stack, focus } :=
  ⟨h.layout_eq, fun hf => absurd hf hbracket, fun hf => absurd hf hended⟩

theorem IsSound.startOperand {closable : Bool} (h : r.IsSound layout)
    (hstart : r.startOperand closable token = some r') : r'.IsSound layout := by
  cases token with
  | word | quoted | anonymous | openParen =>
    cases hstart
    exact h.withFocus _ (by simp) (by simp)
  | openBracket =>
    cases hstart
    exact ⟨h.layout_eq, fun _ => List.cons_ne_nil _ _, fun hf => by cases hf⟩
  | operator op =>
    simp only [Reader.startOperand] at hstart
    split at hstart <;> cases hstart
    exact h.withFocus _ (by simp) (by simp)
  | closeBracket | closeParen =>
    simp only [Reader.startOperand] at hstart
    split at hstart <;> cases hstart
    exact h.withFocus _ (by simp) (by simp)
  | period =>
    simp only [Reader.startOperand] at hstart
    split at hstart <;> cases hstart
    exact h
  | comma => cases hstart

theorem IsSound.endTerm? {focus : Focus} (h : r.IsSound layout) (hend : r.endTerm? t focus = some r')
    (hbracket : focus ≠ .operand true) (hended : focus = .ended → layout = .one) : r'.IsSound layout := by
  obtain ⟨u, -, rfl⟩ := endTerm?_eq_some.1 hend
  exact ⟨h.layout_eq, fun hf => absurd hf hbracket, hended⟩

theorem IsSound.nextTerm (h : r.IsSound layout) (hnext : continueTerm.nextTerm r t token = some r') :
    r'.IsSound layout := by
  unfold continueTerm.nextTerm at hnext
  split at hnext
  · obtain ⟨next, hend, hstart⟩ := Option.bind_eq_some_iff.1 hnext
    exact (h.endTerm? hend (by simp) (by simp)).startOperand hstart
  · cases hnext

theorem IsSound.continueTerm (h : r.IsSound layout) (hcont : r.continueTerm t token = some r') :
    r'.IsSound layout := by
  cases token with
  | word | quoted | anonymous | openParen | openBracket => exact h.nextTerm hcont
  | operator op =>
    simp only [Reader.continueTerm] at hcont
    split at hcont
    · cases hcont
      exact h.withFocus _ (by simp) (by simp)
    · exact h.nextTerm hcont
  | comma =>
    simp only [Reader.continueTerm] at hcont
    split at hcont
    · cases hcont
      exact h.withFocus _ (by simp) (by simp)
    · cases hcont
      exact h.withFocus _ (by simp) (by simp)
    · split at hcont
      · exact h.endTerm? hcont (by simp) (by simp)
      · cases hcont
  | closeParen | closeBracket =>
    simp only [Reader.continueTerm] at hcont
    split at hcont <;> cases hcont
    all_goals exact h.withFocus _ (by simp) (by simp)
  | period =>
    simp only [Reader.continueTerm] at hcont
    split at hcont
    · rename_i hone
      exact h.endTerm? hcont (by simp) fun _ => h.layout_eq.symm.trans hone
    · exact h.endTerm? hcont (by simp) (by simp)
    · cases hcont

theorem IsSound.step? (h : r.IsSound layout) (hstep : r.step? token = some r') : r'.IsSound layout := by
  unfold Reader.step? at hstep
  split at hstep
  · exact h.startOperand hstep
  · split at hstep
    · cases hstep
      exact ⟨h.layout_eq, fun _ => List.cons_ne_nil _ _, fun hf => by cases hf⟩
    · exact h.continueTerm hstep
  · exact h.continueTerm hstep
  · cases hstep

theorem IsSound.feed? (h : r.IsSound layout) (hfeed : r.feed? tokens = some r') : r'.IsSound layout := by
  induction tokens generalizing r with
  | nil =>
    cases hfeed
    exact h
  | cons token tokens ih =>
    rw [feed?_cons] at hfeed
    obtain ⟨next, hstep, hfeed⟩ := Option.bind_eq_some_iff.1 hfeed
    exact ih (h.step? hstep) hfeed

/-! ### Periods -/

/-- A text of data that may end here may go on after a period, as any text of data begins. -/
theorem IsSound.step?_period (h : r.IsSound .data) (hfinish : r.finish? = some terms) :
    r.step? .period = some (({ layout := .data } : Reader).after terms.reverse) := by
  obtain ⟨layout, stack, focus, before⟩ := r
  obtain rfl : layout = .data := h.layout_eq
  cases hlast : ({ layout := .data, stack, focus, terms := before } : Reader).lastTerm? with
  | some t =>
    rw [finish?_of_lastTerm? hlast] at hfinish
    obtain ⟨last, hend, rfl⟩ := Option.map_eq_some_iff.1 hfinish
    obtain ⟨u, hreduce, rfl⟩ := endTerm?_eq_some.1 hend
    rw [step?_period_of_lastTerm? hlast]
    exact endTerm?_eq_some.2 ⟨u, hreduce, by simp [after]⟩
  | none =>
    cases focus with
    | operand closable =>
      simp only [Reader.finish?] at hfinish
      split at hfinish
      · rename_i hstack
        cases hfinish
        obtain rfl : stack = [] := by simpa using hstack
        cases closable with
        | true => exact absurd rfl (h.bracket rfl)
        | false => simp [Reader.step?, Reader.startOperand, after]
      · cases hfinish
    | word name => cases hlast
    | complete t => cases hlast
    | ended => cases h.ended rfl

/-- A period after a single term adds nothing to it. -/
theorem IsSound.finish?_of_period (h : r.IsSound .one) (hstep : r.step? .period = some r')
    (hfinish : r'.finish? = some terms) : r.finish? = some terms := by
  obtain ⟨layout, stack, focus, before⟩ := r
  obtain rfl : layout = .one := h.layout_eq
  cases hlast : ({ layout := .one, stack, focus, terms := before } : Reader).lastTerm? with
  | some t =>
    rw [step?_period_of_lastTerm? hlast] at hstep
    rw [finish?_of_lastTerm? hlast]
    have hend : ({ layout := .one, stack, focus, terms := before } : Reader).endTerm? t .ended = some r' := hstep
    rw [hend]
    obtain ⟨u, -, rfl⟩ := endTerm?_eq_some.1 hend
    exact hfinish
  | none =>
    cases focus with
    | operand closable => simp [Reader.step?, Reader.startOperand] at hstep
    | word name => cases hlast
    | complete t => cases hlast
    | ended => cases hstep

end Reader

/-! ### Names of anonymous variables -/

theorem Term.nameAnonymousList_append (ts us : List Term) (names : NameSupply) :
    nameAnonymousList (ts ++ us) names =
      ((nameAnonymousList ts names).1 ++ (nameAnonymousList us (nameAnonymousList ts names).2).1,
        (nameAnonymousList us (nameAnonymousList ts names).2).2) := by
  induction ts generalizing names with
  | nil => simp [nameAnonymousList]
  | cons t ts ih => simp [nameAnonymousList, ih]

/-! ### Texts -/

theorem parse_eq_ok_iff_dividesInto {layout : Layout} {text : String} {terms : List Term} :
    parse layout text = .ok terms ↔ ∃ tokens r, DividesInto text.toList tokens ∧
      ({ layout } : Reader).feed? tokens = some r ∧ r.finish? = some terms := by
  simp only [parse_eq_ok, DividesInto.iff_tokenize]
  constructor
  · rintro ⟨placed, r, htokens, hread⟩
    exact ⟨_, r, ⟨placed, htokens, rfl⟩, hread⟩
  · rintro ⟨_, r, ⟨placed, htokens, rfl⟩, hread⟩
    exact ⟨placed, r, htokens, hread⟩

/-- Texts of data with a line between them that holds a period read as the terms of both. -/
theorem parse_append {s t : String} {ts us : List Term} (hs : parse .data s = .ok ts) (ht : parse .data t = .ok us) :
    parse .data (s ++ "\n.\n" ++ t) = .ok (ts ++ us) := by
  obtain ⟨tokens, r, hdivides, hfeed, hfinish⟩ := parse_eq_ok_iff_dividesInto.1 hs
  obtain ⟨tokens', r', hdivides', hfeed', hfinish'⟩ := parse_eq_ok_iff_dividesInto.1 ht
  refine parse_eq_ok_iff_dividesInto.2 ⟨tokens ++ [.period] ++ tokens', r'.after ts.reverse, ?_, ?_, ?_⟩
  · have hline : "\n.\n".toList = ['\n', '.', '\n'] := rfl
    rw [String.toList_append, String.toList_append, hline]
    exact hdivides.join hdivides'
  · have hperiod := ((Reader.isSound_start .data).feed? hfeed).step?_period hfinish
    rw [Reader.feed?_append, Reader.feed?_append, hfeed, Option.bind_some, Reader.feed?_cons, hperiod]
    rw [Option.bind_some, Reader.feed?_nil, Option.bind_some, Reader.feed?_after, hfeed', Option.map_some]
  · rw [Reader.finish?_after, hfinish', Option.map_some, List.reverse_reverse]

theorem readDataWith_eq_ok {text : String} {names names' : NameSupply} {ts : List Term} :
    readDataWith text names = .ok (ts, names') ↔
      ∃ terms, parse .data text = .ok terms ∧ Term.nameAnonymousList terms names = (ts, names') :=
  readTerms_eq_ok

/-- Data that follows a line with a period reads as it does alone, with the names that the data before it leaves. -/
theorem readDataWith_append {s t : String} {names names₁ names₂ : NameSupply} {ts us : List Term}
    (hs : readDataWith s names = .ok (ts, names₁)) (ht : readDataWith t names₁ = .ok (us, names₂)) :
    readDataWith (s ++ "\n.\n" ++ t) names = .ok (ts ++ us, names₂) := by
  obtain ⟨terms, hparse, hnames⟩ := readDataWith_eq_ok.1 hs
  obtain ⟨terms', hparse', hnames'⟩ := readDataWith_eq_ok.1 ht
  refine readDataWith_eq_ok.2 ⟨terms ++ terms', parse_append hparse hparse', ?_⟩
  rw [Term.nameAnonymousList_append, hnames]
  simp only [hnames']

/-- The first text ends within a comment, the second one begins with a parenthesis, and both have an anonymous
variable. -/
theorem readDataWith_append_comment :
    readDataWith "p(_) % note" ⟨3⟩ = .ok ([.compound "p" [.var "_4"]], ⟨4⟩) ∧
      readDataWith "(q :- r(_)). s" ⟨4⟩ = .ok ([.rule (.sym "q") [.compound "r" [.var "_5"]], .sym "s"], ⟨5⟩) ∧
      readDataWith ("p(_) % note" ++ "\n.\n" ++ "(q :- r(_)). s") ⟨3⟩ =
        .ok ([.compound "p" [.var "_4"], .rule (.sym "q") [.compound "r" [.var "_5"]], .sym "s"], ⟨5⟩) := by
  have hs : readDataWith "p(_) % note" ⟨3⟩ = .ok ([.compound "p" [.var "_4"]], ⟨4⟩) := by decide +kernel
  have ht : readDataWith "(q :- r(_)). s" ⟨4⟩ =
      .ok ([.rule (.sym "q") [.compound "r" [.var "_5"]], .sym "s"], ⟨5⟩) := by decide +kernel
  exact ⟨hs, ht, readDataWith_append hs ht⟩

/-! ### The ends of a single term -/

theorem parse_trim {layout : Layout} {cs : List Char} {terms : List Term}
    (h : parse layout (String.ofList cs) = .ok terms) : parse layout (String.ofList (Text.trim cs)) = .ok terms := by
  obtain ⟨tokens, r, hdivides, hread⟩ := parse_eq_ok_iff_dividesInto.1 h
  rw [String.toList_ofList] at hdivides
  exact parse_eq_ok_iff_dividesInto.2 ⟨tokens, r, by simpa using hdivides.trim, hread⟩

/-- A point after a single term makes no difference. -/
theorem parse_of_append_point {cs : List Char} {terms : List Term}
    (h : parse .one (String.ofList (cs ++ ['.'])) = .ok terms) : parse .one (String.ofList cs) = .ok terms := by
  obtain ⟨tokens, r, hdivides, hfeed, hfinish⟩ := parse_eq_ok_iff_dividesInto.1 h
  rw [String.toList_ofList] at hdivides
  rcases hdivides.of_append_point with hcomment | ⟨rest, hrest, rfl⟩
  · exact parse_eq_ok_iff_dividesInto.2 ⟨tokens, r, by simpa using hcomment, hfeed, hfinish⟩
  · rw [Reader.feed?_append] at hfeed
    obtain ⟨before, hbefore, hstep⟩ := Option.bind_eq_some_iff.1 hfeed
    rw [Reader.feed?_cons] at hstep
    obtain ⟨after, hstep, hafter⟩ := Option.bind_eq_some_iff.1 hstep
    cases hafter
    have hfinish := ((Reader.isSound_start .one).feed? hbefore).finish?_of_period hstep hfinish
    exact parse_eq_ok_iff_dividesInto.2 ⟨rest, before, by simpa using hrest, hbefore, hfinish⟩

theorem parse_dropPoints {cs : List Char} {terms : List Term} (h : parse .one (String.ofList cs) = .ok terms) :
    parse .one (String.ofList (cs.rdropWhile (· == '.'))) = .ok terms := by
  induction cs using List.reverseRecOn with
  | nil => exact h
  | append_singleton cs c ih =>
    rw [List.rdropWhile_concat]
    split
    · rename_i hc
      obtain rfl : c = '.' := by simpa using hc
      exact ih (parse_of_append_point h)
    · exact h

end Deduction
