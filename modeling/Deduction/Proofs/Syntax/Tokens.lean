import Deduction.Syntax.Printer
import Mathlib.Data.List.Chain

/-!
# Tokens and their spellings

The lexer makes only tokens that are spelled as such (`isLexical_of_tokenize`), and it finds tokens again in the text
that the printer writes for them, provided that no two that stand side by side could be taken for one
(`tokenize_spell`).
-/

namespace Deduction

/-! ### Spellings -/

/-- The characters of a word, the last one first. A point stands only between two characters of the word. -/
inductive IsWordText : List Char → Prop where
  | start {c : Char} (h : isWordStart c = true) : IsWordText [c]
  | letter {c : Char} {cs : List Char} (h : IsWordText cs) (hc : isWordChar c = true) : IsWordText (c :: cs)
  | point {c : Char} {cs : List Char} (h : IsWordText cs) (hc : isWordChar c = true) : IsWordText (c :: '.' :: cs)

/-- The characters from the underscore of an anonymous variable on, the last one first. -/
def IsAnonymousText (cs : List Char) : Prop := ∃ tail, cs = tail ++ ['_'] ∧ ∀ c ∈ tail, isWordChar c = true

/-- The characters from the opening quote of a string on, the last one first. -/
def IsOpenString (cs : List Char) : Prop := ∃ inner, cs = inner ++ ['"'] ∧ '"' ∉ inner

namespace Token

/-- Is a token spelled the way the lexer reads such tokens? -/
def IsLexical : Token → Prop
  | word text => IsWordText text.toList.reverse
  | quoted text => ∃ cs, IsOpenString cs ∧ text.toList.reverse = '"' :: cs
  | anonymous text => IsAnonymousText text.toList.reverse
  | _ => True

/-- A token that more characters could belong to. -/
def isOpen : Token → Bool
  | word _ | anonymous _ => true
  | _ => false

/-- What the printer writes for a token: an operator between two terms stands between blanks, unless it makes a
cell. -/
def piece : Token → List Char
  | operator op =>
    if op.isBinary && op ≠ .cell then Printer.spaced op [] else op.spelling.toList
  | token => token.spelling.toList

/-- Does nothing that is written for the token belong to a word in front of it? -/
def separates (token : Token) : Bool :=
  match token.piece with
  | c :: _ => !isWordChar c && c != '.'
  | [] => false

/-- What is written for the second token could not be taken for a part of the first one. -/
def Apart (token next : Token) : Prop := token.isOpen = true → next.separates = true

theorem isChain_cons_of_not_open {token : Token} {tokens : List Token} (h : token.isOpen = false)
    (htokens : tokens.IsChain Apart) : (token :: tokens).IsChain Apart :=
  List.isChain_cons.2 ⟨fun _ _ hopen => absurd hopen (by simp [h]), htokens⟩

theorem isChain_append_of_separates {token : Token} {tokens rest : List Token} (h : token.separates = true)
    (htokens : tokens.IsChain Apart) (hrest : (token :: rest).IsChain Apart) :
    (tokens ++ token :: rest).IsChain Apart := by
  refine List.isChain_append.2 ⟨htokens, hrest, fun _ _ next hnext _ => ?_⟩
  cases hnext
  exact h

end Token

/-- What the printer writes for tokens. -/
def spell (tokens : List Token) : List Char := tokens.flatMap Token.piece

@[simp] theorem spell_nil : spell [] = [] := rfl

@[simp] theorem spell_cons (token : Token) (tokens : List Token) :
    spell (token :: tokens) = token.piece ++ spell tokens := rfl

@[simp] theorem spell_append (tokens tokens' : List Token) :
    spell (tokens ++ tokens') = spell tokens ++ spell tokens' := by simp [spell]

/-! ### Characters -/

theorem toNat_of_isWordStart {c : Char} (h : isWordStart c = true) : 47 ≤ c.toNat ∧ c.toNat ≤ 122 := by
  have hrange {low high : UInt32} (hlow : 47 ≤ low.toNat) (hhigh : high.toNat ≤ 122)
      (h : low ≤ c.val ∧ c.val ≤ high) : 47 ≤ c.toNat ∧ c.toNat ≤ 122 :=
    ⟨Nat.le_trans hlow (UInt32.le_iff_toNat_le.1 h.1), Nat.le_trans (UInt32.le_iff_toNat_le.1 h.2) hhigh⟩
  simp only [isWordStart, Bool.or_eq_true, beq_iff_eq] at h
  rcases h with h | rfl
  · rcases Bool.or_eq_true_iff.1 h with h | hdigit
    · rcases Bool.or_eq_true_iff.1 h with hupper | hlower
      · have hupper : 'A'.val ≤ c.val ∧ c.val ≤ 'Z'.val := of_decide_eq_true hupper
        exact hrange (by decide) (by decide) hupper
      · have hlower := Bool.and_eq_true_iff.1 hlower
        exact hrange (by decide) (by decide) (hlower.imp of_decide_eq_true of_decide_eq_true)
    · have hdigit := Bool.and_eq_true_iff.1 hdigit
      exact hrange (by decide) (by decide) (hdigit.imp of_decide_eq_true of_decide_eq_true)
  · decide

theorem isBlank_of_isWordStart {c : Char} (h : isWordStart c = true) : Text.isBlank c = false := by
  have ⟨hlow, hhigh⟩ := toNat_of_isWordStart h
  simp only [Text.isBlank, Text.blankRanges, List.any_cons, List.any_nil, Bool.or_false, Bool.or_eq_false_iff,
    Bool.and_eq_false_iff, decide_eq_false_iff_not]
  omega

/-- What the lexer is in the middle of could still become a token that is spelled as such. -/
def LexerMode.IsSound : LexerMode → Prop
  | word _ text | wordPoint _ text => IsWordText text
  | anonymous _ text => IsAnonymousText text
  | quoted _ text => IsOpenString text
  | _ => True

namespace Lexer

variable {l l' : Lexer} {c : Char} {cs : List Char}

/-! ### The lexer makes lexical tokens -/

/-- All tokens so far are spelled as such, and the one that the lexer is in the middle of may become so. -/
structure IsSound (l : Lexer) : Prop where
  tokens : ∀ t ∈ l.tokens, t.token.IsLexical
  mode : l.mode.IsSound

theorem IsSound.emit (h : l.IsSound) (token : Token) (ht : token.IsLexical) (start stop : Nat) :
    (l.emit token start stop).IsSound where
  tokens := by simpa [Lexer.emit, ht] using h.tokens
  mode := trivial

theorem IsSound.withMode (h : l.IsSound) (mode : LexerMode) (hm : mode.IsSound) (position : Nat) :
    ({ l with position, mode } : Lexer).IsSound :=
  ⟨h.tokens, hm⟩

theorem IsSound.close (h : l.IsSound) : l.close.IsSound := by
  have hm := h.mode
  unfold Lexer.close
  split <;> rename_i heq <;> try rw [heq] at hm
  · exact h.emit _ (by simpa [Token.IsLexical] using show IsWordText _ from hm) ..
  · exact (h.emit _ (by simpa [Token.IsLexical] using show IsWordText _ from hm) ..).emit .period trivial ..
  · exact h.emit _ (by simpa [Token.IsLexical] using show IsAnonymousText _ from hm) ..
  · exact h.withMode .between trivial _
  · exact h

theorem isLexical_of_ofChar? {token : Token} (h : Token.ofChar? c = some token) : token.IsLexical := by
  unfold Token.ofChar? at h
  split at h <;> simp only [Option.some.injEq, reduceCtorEq] at h <;> subst h <;> trivial

theorem IsSound.start (h : l.IsSound) (hs : l.start c = .ok l') : l'.IsSound := by
  unfold Lexer.start at hs
  simp only at hs
  split at hs
  · cases hs
    exact h.withMode .between trivial _
  · split at hs
    · rename_i hc
      cases hs
      exact h.withMode (.word _ _) (IsWordText.start hc) _
    · split at hs
      · cases hs
        exact h.withMode .comment trivial _
      · cases hs
        exact h.withMode (.quoted _ _) ⟨[], rfl, by simp⟩ _
      · cases hs
        exact h.withMode (.anonymous _ _) ⟨[], rfl, by simp⟩ _
      · cases hs
        exact h.withMode (.colon _) trivial _
      · cases hs
        exact h.withMode (.equals _) trivial _
      · split at hs
        · rename_i token htoken
          cases hs
          exact (h.withMode .between trivial _).emit _ (isLexical_of_ofChar? htoken) ..
        · cases hs

theorem IsSound.step (h : l.IsSound) (hs : l.step c = .ok l') : l'.IsSound := by
  have hm := h.mode
  unfold Lexer.step at hs
  simp only at hs
  split at hs <;> rename_i heq <;> rw [heq] at hm
  case h_1 => exact h.start hs
  case h_2 =>
    cases hs
    exact h.withMode _ (by split <;> trivial) _
  case h_3 =>
    split at hs
    · rename_i hc
      cases hs
      exact h.withMode (.word _ _) (IsWordText.letter hm hc) _
    · split at hs
      · cases hs
        exact h.withMode (.wordPoint _ _) hm _
      · exact h.close.start hs
  case h_4 =>
    split at hs
    · rename_i hc
      cases hs
      exact h.withMode (.word _ _) (IsWordText.point hm hc) _
    · exact h.close.start hs
  case h_5 =>
    split at hs
    · rename_i hc
      cases hs
      obtain ⟨tail, rfl, htail⟩ := hm
      exact h.withMode (.anonymous _ _) ⟨c :: tail, rfl, by simpa [hc] using htail⟩ _
    · exact h.close.start hs
  case h_6 =>
    split at hs
    · rename_i hc
      cases hs
      rw [beq_iff_eq] at hc
      exact (h.withMode .between trivial _).emit (.quoted _) ⟨_, hm, by simp [hc]⟩ ..
    · rename_i hc
      cases hs
      obtain ⟨inner, rfl, hinner⟩ := hm
      have hne : '"' ≠ c := fun h => hc (by simp [← h])
      exact h.withMode (.quoted _ _) ⟨c :: inner, rfl, List.not_mem_cons_of_ne_of_not_mem hne hinner⟩ _
  case h_7 =>
    split at hs
    case h_4 => cases hs
    all_goals
      cases hs
      exact (h.withMode .between trivial _).emit (.operator _) trivial ..
  case h_8 =>
    split at hs
    · cases hs
      exact h.withMode (.twoEquals _) trivial _
    · cases hs
  case h_9 =>
    split at hs
    · cases hs
      exact (h.withMode .between trivial _).emit (.operator _) trivial ..
    · cases hs

theorem IsSound.foldlM (h : l.IsSound) (hs : cs.foldlM Lexer.step l = .ok l') : l'.IsSound := by
  induction cs generalizing l with
  | nil =>
    cases hs
    exact h
  | cons c cs ih =>
    rw [List.foldlM_cons] at hs
    cases hstep : l.step c with
    | error e =>
      rw [hstep] at hs
      cases hs
    | ok next =>
      rw [hstep] at hs
      exact ih (h.step hstep) hs

end Lexer

theorem isLexical_of_tokenize {text : String} {placed : List PlacedToken} (h : tokenize text = .ok placed) :
    ∀ t ∈ placed, t.token.IsLexical := by
  unfold tokenize at h
  cases hl : text.toList.foldlM Lexer.step {} with
  | error e =>
    rw [hl] at h
    cases h
  | ok l =>
    rw [hl] at h
    have hstart : ({} : Lexer).IsSound := ⟨by simp, trivial⟩
    have hsound : l.IsSound := hstart.foldlM hl
    have hclose := hsound.close.tokens
    change l.finish = _ at h
    unfold Lexer.finish at h
    split at h
    · rename_i tokens heq
      cases h
      rw [heq] at hclose
      simpa using hclose
    · cases h

/-! ### The lexer finds tokens again -/

namespace Lexer

variable {l : Lexer} {c : Char} {cs : List Char} {token : Token} {tokens read : List Token}

/-- Is the lexer in the middle of a token that is whole already? -/
def isOpen (l : Lexer) : Bool :=
  match l.mode with
  | .word _ _ | .anonymous _ _ => true
  | _ => false

/-- The lexer has read these tokens; the last one may still be open. -/
structure HasRead (l : Lexer) (read : List Token) : Prop where
  mode : l.mode = .between ∨ l.isOpen = true
  tokens : l.close.tokens.map PlacedToken.token = read.reverse

theorem close_of_between (h : l.mode = .between) : l.close = l := by
  unfold Lexer.close
  rw [h]

theorem step_of_between (h : l.mode = .between) (c : Char) : l.step c = l.start c := by
  unfold Lexer.step
  rw [h]

theorem HasRead.close_mode (h : l.HasRead read) : l.close.mode = .between := by
  rcases h.mode with hm | hm
  · rw [close_of_between hm, hm]
  · unfold isOpen at hm
    unfold Lexer.close
    split at hm
    · rename_i heq
      rw [heq]
      rfl
    · rename_i heq
      rw [heq]
      rfl
    · cases hm

/-- A character that belongs to no word ends an open token. -/
theorem HasRead.step_eq (h : l.HasRead read) (hc : l.isOpen = true → isWordChar c = false ∧ c ≠ '.') :
    l.step c = l.close.step c := by
  rw [step_of_between h.close_mode]
  rcases h.mode with hm | hm
  · rw [step_of_between hm, close_of_between hm]
  · obtain ⟨hword, hpoint⟩ := hc hm
    unfold isOpen at hm
    split at hm
    · rename_i heq
      simp [Lexer.step, heq, hword, hpoint]
    · rename_i heq
      simp [Lexer.step, heq, hword]
    · cases hm

theorem foldlM_reverse_cons {next : Lexer} (h : cs.reverse.foldlM Lexer.step l = .ok next) :
    (c :: cs).reverse.foldlM Lexer.step l = next.step c := by
  rw [List.reverse_cons, List.foldlM_append, h]
  exact bind_pure (next.step c)

theorem foldlM_wordText (hm : l.mode = .between) (h : IsWordText cs) :
    ∃ position, cs.reverse.foldlM Lexer.step l = .ok ⟨position, .word l.position cs, l.tokens⟩ := by
  induction h with
  | start hc =>
    refine ⟨l.position + 1, ?_⟩
    rw [foldlM_reverse_cons rfl, step_of_between hm]
    simp [Lexer.start, isBlank_of_isWordStart hc, hc]
  | letter h hc ih =>
    obtain ⟨position, hread⟩ := ih
    refine ⟨position + 1, ?_⟩
    rw [foldlM_reverse_cons hread]
    simp [Lexer.step, hc]
  | @point c cs h hc ih =>
    obtain ⟨position, hread⟩ := ih
    have hpoint : ('.' :: cs).reverse.foldlM Lexer.step l =
        .ok ⟨position + 1, .wordPoint l.position cs, l.tokens⟩ := by
      rw [foldlM_reverse_cons hread]
      rfl
    refine ⟨position + 2, ?_⟩
    rw [foldlM_reverse_cons hpoint]
    simp [Lexer.step, hc]

theorem foldlM_anonymousText (hm : l.mode = .between) (h : IsAnonymousText cs) :
    ∃ position, cs.reverse.foldlM Lexer.step l = .ok ⟨position, .anonymous l.position cs, l.tokens⟩ := by
  obtain ⟨tail, rfl, htail⟩ := h
  induction tail with
  | nil =>
    refine ⟨l.position + 1, ?_⟩
    rw [List.nil_append, foldlM_reverse_cons rfl, step_of_between hm]
    rfl
  | cons c tail ih =>
    obtain ⟨hc, htail⟩ := List.forall_mem_cons.1 htail
    obtain ⟨position, hread⟩ := ih htail
    refine ⟨position + 1, ?_⟩
    rw [List.cons_append, foldlM_reverse_cons hread]
    simp [Lexer.step, hc]

theorem foldlM_openString (hm : l.mode = .between) (h : IsOpenString cs) :
    ∃ position, cs.reverse.foldlM Lexer.step l = .ok ⟨position, .quoted l.position cs, l.tokens⟩ := by
  obtain ⟨inner, rfl, hinner⟩ := h
  induction inner with
  | nil =>
    refine ⟨l.position + 1, ?_⟩
    rw [List.nil_append, foldlM_reverse_cons rfl, step_of_between hm]
    rfl
  | cons c inner ih =>
    obtain ⟨hc, hinner⟩ := not_or.1 (mt List.mem_cons.2 hinner)
    obtain ⟨position, hread⟩ := ih hinner
    refine ⟨position + 1, ?_⟩
    rw [List.cons_append, foldlM_reverse_cons hread]
    simp [Lexer.step, Ne.symm hc]

/-- The lexer between two tokens reads what is written for a third one. -/
theorem foldlM_piece (hm : l.mode = .between) (hl : token.IsLexical) :
    ∃ next, token.piece.foldlM Lexer.step l = .ok next ∧ (next.mode = .between ∨ next.isOpen = true) ∧
      next.close.tokens.map PlacedToken.token = token :: l.tokens.map PlacedToken.token ∧
      (next.isOpen = true → token.isOpen = true) := by
  cases token with
  | word text =>
    obtain ⟨position', hread⟩ := foldlM_wordText hm hl
    rw [List.reverse_reverse] at hread
    exact ⟨_, hread, .inr rfl, by simp [Lexer.close, Lexer.emit], fun _ => rfl⟩
  | anonymous text =>
    obtain ⟨position', hread⟩ := foldlM_anonymousText hm hl
    rw [List.reverse_reverse] at hread
    exact ⟨_, hread, .inr rfl, by simp [Lexer.close, Lexer.emit], fun _ => rfl⟩
  | quoted text =>
    obtain ⟨cs, hcs, htext⟩ := hl
    obtain ⟨position', hread⟩ := foldlM_openString hm hcs
    have htext' : text = String.ofList ('"' :: cs).reverse := by
      rw [← htext, List.reverse_reverse, String.ofList_toList]
    have hpiece : (Token.quoted text).piece = ('"' :: cs).reverse := by
      rw [← htext, List.reverse_reverse]
      rfl
    rw [hpiece, foldlM_reverse_cons hread]
    exact ⟨_, rfl, .inl rfl, by simp [Lexer.close, Lexer.emit, htext'], fun h => by cases h⟩
  | operator op =>
    obtain ⟨position, mode, tokens⟩ := l
    cases hm
    cases op <;> exact ⟨_, rfl, .inl rfl, rfl, fun h => by cases h⟩
  | openParen | closeParen | openBracket | closeBracket | comma | period =>
    obtain ⟨position, mode, tokens⟩ := l
    cases hm
    exact ⟨_, rfl, .inl rfl, rfl, fun h => by cases h⟩

theorem HasRead.foldlM_piece (h : l.HasRead read) (hl : token.IsLexical)
    (hsep : l.isOpen = true → token.separates = true) :
    ∃ next, token.piece.foldlM Lexer.step l = .ok next ∧ next.HasRead (read ++ [token]) ∧
      (next.isOpen = true → token.isOpen = true) := by
  have hclose : token.piece.foldlM Lexer.step l = token.piece.foldlM Lexer.step l.close := by
    rcases h.mode with hm | hm
    · rw [close_of_between hm]
    · have hsep := hsep hm
      unfold Token.separates at hsep
      split at hsep
      · rename_i c cs hpiece
        rw [Bool.and_eq_true, Bool.not_eq_true', bne_iff_ne] at hsep
        rw [hpiece, List.foldlM_cons, List.foldlM_cons, h.step_eq fun _ => hsep]
      · cases hsep
  obtain ⟨next, hread, hmode, htokens, hopen⟩ := Lexer.foldlM_piece h.close_mode hl
  exact ⟨next, hclose.trans hread, ⟨hmode, by simp [htokens, h.tokens]⟩, hopen⟩

theorem HasRead.foldlM_spell (h : l.HasRead read) (hl : ∀ t ∈ tokens, t.IsLexical) (hsep : tokens.IsChain Token.Apart)
    (hfirst : l.isOpen = true → ∀ t ∈ tokens.head?, t.separates = true) :
    ∃ next, (spell tokens).foldlM Lexer.step l = .ok next ∧ next.HasRead (read ++ tokens) := by
  induction tokens generalizing l read with
  | nil => exact ⟨l, rfl, by simpa using h⟩
  | cons token tokens ih =>
    obtain ⟨htoken, htokens⟩ := List.forall_mem_cons.1 hl
    obtain ⟨hnext, hsep⟩ := List.isChain_cons.1 hsep
    obtain ⟨next, hpiece, hread, hopen⟩ := h.foldlM_piece htoken fun ho => hfirst ho token (by simp)
    obtain ⟨last, hspell, hlast⟩ := ih hread htokens hsep fun ho t ht => hnext t ht (hopen ho)
    refine ⟨last, ?_, by simpa using hlast⟩
    rw [spell_cons, List.foldlM_append, hpiece]
    exact hspell

end Lexer

/-- The text that is written for lexical tokens, no two of which could be taken for one, divides into these tokens. -/
theorem tokenize_spell {tokens : List Token} (hl : ∀ t ∈ tokens, t.IsLexical) (hsep : tokens.IsChain Token.Apart) :
    ∃ placed, tokenize (String.ofList (spell tokens)) = .ok placed ∧ placed.map PlacedToken.token = tokens := by
  have hstart : ({} : Lexer).HasRead [] := ⟨.inl rfl, rfl⟩
  obtain ⟨l, hspell, hread⟩ := hstart.foldlM_spell hl hsep fun h => by cases h
  have hmode := hread.close_mode
  have htokens := hread.tokens
  refine ⟨l.close.tokens.reverse, ?_, by rw [List.map_reverse, htokens]; simp⟩
  unfold tokenize
  rw [String.toList_ofList, hspell]
  change l.finish = _
  unfold Lexer.finish
  split
  · rename_i heq
    rw [heq]
  · rename_i hne heq
    rw [heq] at hmode
    exact (hne hmode).elim

end Deduction
