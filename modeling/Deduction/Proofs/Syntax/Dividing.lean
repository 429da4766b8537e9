import Deduction.Proofs.Syntax.Tokens
import Mathlib.Data.List.DropRight

/-!
# Texts and their parts

A text that stands behind a line with nothing but a period divides into the tokens that it divides into alone
(`DividesInto.join`). Blanks at the ends of a text make no difference (`DividesInto.trim`), and a point at its end is a
period if it belongs to no comment (`DividesInto.of_append_point`).
-/

namespace Deduction

/-- The lexer is in the middle of the same thing, at another place of a text. -/
inductive LexerMode.Alike : LexerMode → LexerMode → Prop where
  | between : Alike .between .between
  | comment : Alike .comment .comment
  | word {start start' : Nat} {text : List Char} : Alike (.word start text) (.word start' text)
  | wordPoint {start start' : Nat} {text : List Char} : Alike (.wordPoint start text) (.wordPoint start' text)
  | anonymous {start start' : Nat} {text : List Char} : Alike (.anonymous start text) (.anonymous start' text)
  | quoted {start start' : Nat} {text : List Char} : Alike (.quoted start text) (.quoted start' text)
  | colon {start start' : Nat} : Alike (.colon start) (.colon start')
  | equals {start start' : Nat} : Alike (.equals start) (.equals start')
  | twoEquals {start start' : Nat} : Alike (.twoEquals start) (.twoEquals start')

namespace Lexer

variable {l l' next : Lexer} {c : Char} {cs : List Char} {tokens earlier : List Token}

/-! ### Lexers at different places -/

/-- The second lexer does the same as the first one after some earlier tokens, the last one first. -/
structure Continues (earlier : List Token) (l l' : Lexer) : Prop where
  mode : l.mode.Alike l'.mode
  tokens : l'.tokens.map PlacedToken.token = l.tokens.map PlacedToken.token ++ earlier

theorem Continues.withMode {mode mode' : LexerMode} (h : l.Continues earlier l') (hmode : mode.Alike mode')
    (position position' : Nat) :
    ({ l with position, mode } : Lexer).Continues earlier { l' with position := position', mode := mode' } :=
  ⟨hmode, h.tokens⟩

theorem Continues.emit (h : l.Continues earlier l') (token : Token) (start stop start' stop' : Nat) :
    (l.emit token start stop).Continues earlier (l'.emit token start' stop') where
  mode := .between
  tokens := by simp [Lexer.emit, h.tokens]

theorem Continues.close (h : l.Continues earlier l') : l.close.Continues earlier l'.close := by
  obtain ⟨position, mode, tokens⟩ := l
  obtain ⟨position', mode', tokens'⟩ := l'
  obtain ⟨hmode, htokens⟩ := id h
  cases hmode with
  | word | anonymous => exact h.emit ..
  | wordPoint => exact (h.emit ..).emit ..
  | comment => exact h.withMode .between ..
  | between | quoted | colon | equals | twoEquals => exact h

/-- Where the first lexer goes on, the second one does the same. -/
def Follows (earlier : List Token) (result result' : Except ReadError Lexer) : Prop :=
  ∀ next, result = .ok next → ∃ next', result' = .ok next' ∧ next.Continues earlier next'

theorem Continues.ok (h : l.Continues earlier l') : Follows earlier (.ok l) (.ok l') := by
  rintro next ⟨rfl⟩
  exact ⟨l', rfl, h⟩

theorem follows_error (e : ReadError) (result : Except ReadError Lexer) : Follows earlier (.error e) result := by
  rintro next ⟨⟩

theorem Follows.ite {p : Prop} [Decidable p] {yes yes' no no' : Except ReadError Lexer}
    (hyes : Follows earlier yes yes') (hno : Follows earlier no no') :
    Follows earlier (if p then yes else no) (if p then yes' else no') := by
  split
  · exact hyes
  · exact hno

theorem Continues.start (h : l.Continues earlier l') (c : Char) : Follows earlier (l.start c) (l'.start c) := by
  refine .ite (h.withMode .between ..).ok (.ite (h.withMode .word ..).ok ?_)
  split
  · exact (h.withMode .comment ..).ok
  · exact (h.withMode .quoted ..).ok
  · exact (h.withMode .anonymous ..).ok
  · exact (h.withMode .colon ..).ok
  · exact (h.withMode .equals ..).ok
  · split
    · exact ((h.withMode .between ..).emit ..).ok
    · exact follows_error _ _

theorem Continues.step (h : l.Continues earlier l') (c : Char) : Follows earlier (l.step c) (l'.step c) := by
  have hclose := h.close.start c
  obtain ⟨position, mode, tokens⟩ := l
  obtain ⟨position', mode', tokens'⟩ := l'
  obtain ⟨hmode, htokens⟩ := id h
  cases hmode with
  | between => exact h.start c
  | comment =>
    refine (h.withMode ?_ ..).ok
    split
    · exact .between
    · exact .comment
  | word => exact .ite (h.withMode .word ..).ok (.ite (h.withMode .wordPoint ..).ok hclose)
  | wordPoint => exact .ite (h.withMode .word ..).ok hclose
  | anonymous => exact .ite (h.withMode .anonymous ..).ok hclose
  | quoted => exact .ite ((h.withMode .between ..).emit ..).ok (h.withMode .quoted ..).ok
  | colon =>
    simp only [Lexer.step]
    split
    case h_4 => exact follows_error _ _
    all_goals exact ((h.withMode .between ..).emit ..).ok
  | equals => exact .ite (h.withMode .twoEquals ..).ok (follows_error _ _)
  | twoEquals => exact .ite ((h.withMode .between ..).emit ..).ok (follows_error _ _)

theorem Continues.foldlM (h : l.Continues earlier l') (cs : List Char) :
    Follows earlier (cs.foldlM Lexer.step l) (cs.foldlM Lexer.step l') := by
  induction cs generalizing l l' with
  | nil => exact h.ok
  | cons c cs ih =>
    intro last hlast
    rw [List.foldlM_cons] at hlast ⊢
    cases hstep : l.step c with
    | error e =>
      rw [hstep] at hlast
      cases hlast
    | ok next =>
      obtain ⟨next', hstep', hnext⟩ := h.step c next hstep
      rw [hstep] at hlast
      rw [hstep']
      exact ih hnext last hlast

/-! ### Stopping -/

/-- The lexer may stop, with these tokens. -/
structure StopsWith (l : Lexer) (tokens : List Token) : Prop where
  mode : l.close.mode = .between
  tokens : l.close.tokens.map PlacedToken.token = tokens.reverse

theorem stopsWith_iff :
    l.StopsWith tokens ↔ ∃ placed, l.finish = .ok placed ∧ placed.map PlacedToken.token = tokens := by
  unfold Lexer.finish
  split
  · rename_i position found hclose
    constructor
    · intro h
      refine ⟨_, rfl, ?_⟩
      have htokens := h.tokens
      rw [hclose] at htokens
      rw [List.map_reverse, htokens, List.reverse_reverse]
    · rintro ⟨placed, ⟨rfl⟩, rfl⟩
      exact ⟨by rw [hclose], by rw [hclose, List.map_reverse, List.reverse_reverse]⟩
  · rename_i hne hclose
    simp only [reduceCtorEq, false_and, exists_const, iff_false]
    intro h
    have hmode := h.mode
    rw [hclose] at hmode
    exact hne hmode

theorem Continues.stopsWith (h : l.Continues earlier l') (hstop : l.StopsWith tokens) :
    l'.StopsWith (earlier.reverse ++ tokens) where
  mode := by
    have hmode := h.close.mode
    rw [hstop.mode] at hmode
    cases hm : l'.close.mode with
    | between => rfl
    | _ => rw [hm] at hmode; cases hmode
  tokens := by rw [h.close.tokens, hstop.tokens, List.reverse_append, List.reverse_reverse]

/-! ### The ends of a text -/

theorem ne_of_isBlank {d : Char} (hc : Text.isBlank c = true) (hd : Text.isBlank d = false) : c ≠ d := by
  rintro rfl
  exact absurd hc (by simp [hd])

theorem isWordChar_of_isBlank (hc : Text.isBlank c = true) : isWordChar c = false := by
  have hstart : isWordStart c = false := eq_false_of_ne_true fun h => absurd hc (by simp [isBlank_of_isWordStart h])
  rw [isWordStart, Bool.or_eq_false_iff] at hstart
  simp only [isWordChar, hstart.1, hstart.2, Bool.or_false, Bool.false_or, Bool.or_eq_false_iff, beq_eq_false_iff_ne]
  exact ⟨⟨⟨ne_of_isBlank hc (by decide), ne_of_isBlank hc (by decide)⟩, ne_of_isBlank hc (by decide)⟩,
    ne_of_isBlank hc (by decide)⟩

theorem start_of_isBlank (hc : Text.isBlank c = true) :
    l.start c = .ok { l with position := l.position + 1, mode := .between } := by
  simp [Lexer.start, hc]

/-- A blank ends a token and begins none. -/
theorem stopsWith_of_blank (hc : Text.isBlank c = true) (hstep : l.step c = .ok next) :
    next.StopsWith tokens ↔ l.StopsWith tokens := by
  have hword := isWordChar_of_isBlank hc
  have hpoint : (c == '.') = false := by simpa using ne_of_isBlank hc (by decide)
  have hquote : (c == '"') = false := by simpa using ne_of_isBlank hc (by decide)
  have hequals : (c == '=') = false := by simpa using ne_of_isBlank hc (by decide)
  have hmore : (c == '>') = false := by simpa using ne_of_isBlank hc (by decide)
  have hends (h : l.close.mode = .between) (position : Nat) :
      ({ l.close with position, mode := .between } : Lexer).StopsWith tokens ↔ l.StopsWith tokens :=
    ⟨fun hstop => ⟨h, hstop.tokens⟩, fun hstop => ⟨rfl, hstop.tokens⟩⟩
  obtain ⟨position, mode, placed⟩ := l
  cases mode <;> simp only [Lexer.step, hword, hpoint, hquote, hequals, hmore, start_of_isBlank hc, if_false,
    Bool.false_eq_true] at hstep
  case between | word | wordPoint | anonymous =>
    cases hstep
    exact hends rfl _
  case comment =>
    cases hstep
    split
    · exact hends rfl _
    · exact ⟨fun hstop => ⟨rfl, hstop.tokens⟩, fun hstop => ⟨rfl, hstop.tokens⟩⟩
  case quoted =>
    cases hstep
    exact iff_of_false (fun hstop => by cases hstop.mode) fun hstop => by cases hstop.mode
  case colon =>
    split at hstep
    case h_4 => cases hstep
    all_goals exact absurd hc (by decide)
  case equals | twoEquals => cases hstep

theorem stopsWith_of_period (hmode : l.close.mode = .between)
    (htokens : .period :: l.close.tokens.map PlacedToken.token = tokens.reverse) :
    ∃ rest, l.StopsWith rest ∧ tokens = rest ++ [.period] := by
  refine ⟨(l.close.tokens.map PlacedToken.token).reverse, ⟨hmode, by rw [List.reverse_reverse]⟩, ?_⟩
  rw [← List.reverse_cons, htokens, List.reverse_reverse]

/-- A point at the end is a part of a comment, or else a period of its own. -/
theorem stopsWith_of_point (hstep : l.step '.' = .ok next) (hstop : next.StopsWith tokens) :
    l.StopsWith tokens ∨ ∃ rest, l.StopsWith rest ∧ tokens = rest ++ [.period] := by
  have hmode := hstop.mode
  have htokens := hstop.tokens
  obtain ⟨position, mode, placed⟩ := l
  cases mode with
  | comment =>
    cases hstep
    exact .inl ⟨rfl, htokens⟩
  | quoted =>
    cases hstep
    cases hmode
  | colon | equals | twoEquals => cases hstep
  | between | word | wordPoint | anonymous =>
    cases hstep
    exact .inr (stopsWith_of_period rfl htokens)

/-- At the end of a line the lexer stands between two tokens. -/
theorem StopsWith.step_newline (h : l.StopsWith tokens) :
    ∃ position placed, l.step '\n' = .ok ⟨position, .between, placed⟩ ∧
      placed.map PlacedToken.token = tokens.reverse := by
  have htokens := h.tokens
  have hmode := h.mode
  obtain ⟨position, mode, placed⟩ := l
  cases mode with
  | quoted | colon | equals | twoEquals => cases hmode
  | between | comment | word | wordPoint | anonymous => exact ⟨_, _, rfl, htokens⟩

/-- After a line that holds a period the lexer starts afresh. -/
theorem StopsWith.foldlM_periodLine (h : l.StopsWith tokens) :
    ∃ last, ['\n', '.', '\n'].foldlM Lexer.step l = .ok last ∧
      Continues (.period :: tokens.reverse) {} last := by
  obtain ⟨position, placed, hnewline, htokens⟩ := h.step_newline
  refine ⟨⟨position + 2, .between, ⟨.period, position, position + 1⟩ :: placed⟩, ?_, .between, ?_⟩
  · rw [List.foldlM_cons, hnewline]
    rfl
  · simp [htokens]

end Lexer

/-! ### The tokens of a text -/

/-- The characters make up these tokens. -/
def DividesInto (cs : List Char) (tokens : List Token) : Prop :=
  ∃ l, cs.foldlM Lexer.step {} = .ok l ∧ l.StopsWith tokens

namespace DividesInto

variable {c : Char} {cs cs' blanks : List Char} {tokens tokens' : List Token}

theorem iff_tokenize {text : String} :
    DividesInto text.toList tokens ↔
      ∃ placed, tokenize text = .ok placed ∧ placed.map PlacedToken.token = tokens := by
  unfold DividesInto tokenize
  cases text.toList.foldlM Lexer.step {} with
  | error e => simp [bind, Except.bind]
  | ok l => simp [bind, Except.bind, Lexer.stopsWith_iff]

/-- Two texts with a line between them that holds a period divide into the tokens of both, with a period between. -/
theorem join (h : DividesInto cs tokens) (h' : DividesInto cs' tokens') :
    DividesInto (cs ++ ['\n', '.', '\n'] ++ cs') (tokens ++ [.period] ++ tokens') := by
  obtain ⟨l, hl, hstop⟩ := h
  obtain ⟨last, hlast, hstop'⟩ := h'
  obtain ⟨middle, hmiddle, hcontinues⟩ := hstop.foldlM_periodLine
  obtain ⟨last', hlast', hcontinues⟩ := hcontinues.foldlM cs' last hlast
  refine ⟨last', ?_, by simpa using hcontinues.stopsWith hstop'⟩
  rw [List.append_assoc, List.foldlM_append, hl]
  change List.foldlM Lexer.step l _ = _
  rw [List.foldlM_append, hmiddle]
  exact hlast'

/-- A blank in front of a text belongs to no token. -/
theorem cons_blank_iff (hc : Text.isBlank c = true) : DividesInto (c :: cs) tokens ↔ DividesInto cs tokens := by
  have hstep : (c :: cs).foldlM Lexer.step {} = cs.foldlM Lexer.step ⟨1, .between, []⟩ := by
    rw [List.foldlM_cons, Lexer.step_of_between rfl, Lexer.start_of_isBlank hc]
    rfl
  have hcontinues (n m : Nat) : Lexer.Continues [] ⟨n, .between, []⟩ ⟨m, .between, []⟩ := ⟨.between, rfl⟩
  constructor
  · rintro ⟨last, hlast, hstop⟩
    rw [hstep] at hlast
    obtain ⟨last', hlast', hlasts⟩ := (hcontinues 1 0).foldlM cs last hlast
    exact ⟨last', hlast', by simpa using hlasts.stopsWith hstop⟩
  · rintro ⟨last, hlast, hstop⟩
    obtain ⟨last', hlast', hlasts⟩ := (hcontinues 0 1).foldlM cs last hlast
    exact ⟨last', hstep.trans hlast', by simpa using hlasts.stopsWith hstop⟩

theorem exists_of_append_singleton (h : DividesInto (cs ++ [c]) tokens) :
    ∃ l next, cs.foldlM Lexer.step {} = .ok l ∧ l.step c = .ok next ∧ next.StopsWith tokens := by
  obtain ⟨next, hnext, hstop⟩ := h
  rw [List.foldlM_append] at hnext
  cases hl : cs.foldlM Lexer.step {} with
  | error e =>
    rw [hl] at hnext
    cases hnext
  | ok l =>
    rw [hl] at hnext
    exact ⟨l, next, rfl, (bind_pure (l.step c)).symm.trans hnext, hstop⟩

theorem of_append_blank (hc : Text.isBlank c = true) (h : DividesInto (cs ++ [c]) tokens) : DividesInto cs tokens := by
  obtain ⟨l, next, hl, hstep, hstop⟩ := h.exists_of_append_singleton
  exact ⟨l, hl, (Lexer.stopsWith_of_blank hc hstep).1 hstop⟩

/-- A point at the end of a text is a part of a comment, or else a period of its own. -/
theorem of_append_point (h : DividesInto (cs ++ ['.']) tokens) :
    DividesInto cs tokens ∨ ∃ rest, DividesInto cs rest ∧ tokens = rest ++ [.period] := by
  obtain ⟨l, next, hl, hstep, hstop⟩ := h.exists_of_append_singleton
  rcases Lexer.stopsWith_of_point hstep hstop with hcomment | ⟨rest, hrest, rfl⟩
  · exact .inl ⟨l, hl, hcomment⟩
  · exact .inr ⟨rest, ⟨l, hl, hrest⟩, rfl⟩

theorem trimLeft (h : DividesInto cs tokens) : DividesInto (Text.trimLeft cs) tokens := by
  induction cs with
  | nil => exact h
  | cons c cs ih =>
    rw [Text.trimLeft, List.dropWhile_cons]
    split
    · rename_i hc
      exact ih ((cons_blank_iff hc).1 h)
    · exact h

theorem trimRight (h : DividesInto cs tokens) : DividesInto (cs.rdropWhile Text.isBlank) tokens := by
  induction cs using List.reverseRecOn with
  | nil => exact h
  | append_singleton cs c ih =>
    rw [List.rdropWhile_concat]
    split
    · rename_i hc
      exact ih (h.of_append_blank hc)
    · exact h

/-- Blanks at the ends of a text belong to no token. -/
theorem trim (h : DividesInto cs tokens) : DividesInto (Text.trim cs) tokens :=
  h.trimLeft.trimRight

end DividesInto

end Deduction
