import Deduction.Proofs.Syntax.Tokens

/-!
# Tokens tile a text

The tokens of a text stand one behind the other without overlapping, each where its spelling is found; between them are
only blanks and comments, and no word ends before a character that belongs to it (`tiles_of_tokenize`). While it reads,
the lexer keeps such a tiling of the text up to where its unfinished token or comment begins (`Lexer.Tiles`).
-/

namespace Deduction

/-! ### Tilings -/

/-- Characters that end a line, and a comment with it. -/
def isLineEnd (c : Char) : Bool := c == '\n' || c == '\r'

/-- Do the characters behind a token begin with one that could belong to it? A point belongs to a word only if a word
character follows. -/
def Token.reachesInto : Token → List Char → Bool
  | word _, '.' :: c :: _ => isWordChar c
  | word _, c :: _ | anonymous _, c :: _ => isWordChar c
  | _, _ => false

/-- A comment begins at the first offset and runs up to the second one, the end of its line. -/
def IsComment (cs : List Char) (start stop : Nat) : Prop :=
  ∃ line, cs.extract start stop = '%' :: line ∧ (∀ c ∈ line, isLineEnd c = false) ∧ ∀ c ∈ cs[stop]?, isLineEnd c = true

/-- The character at an offset is a blank, or it belongs to a comment within the first `n` characters that no token
reaches into. -/
def IsSkipped (cs : List Char) (n : Nat) (placed : List PlacedToken) (i : Nat) : Prop :=
  (∃ c ∈ cs[i]?, Text.isBlank c = true) ∨
    ∃ start stop, IsComment cs start stop ∧ start ≤ i ∧ i < stop ∧ stop ≤ n ∧
      ∀ t ∈ placed, t.stop ≤ start ∨ stop ≤ t.start

/-- The tokens tile the first `n` characters of a text. -/
structure Tiles (cs : List Char) (n : Nat) (placed : List PlacedToken) : Prop where
  nonempty : ∀ t ∈ placed, t.start < t.stop
  ordered : placed.Pairwise fun t u => t.stop ≤ u.start
  within : ∀ t ∈ placed, t.stop ≤ n
  spelled : ∀ t ∈ placed, cs.extract t.start t.stop = t.token.spelling.toList
  whole : ∀ t ∈ placed, t.token.reachesInto (cs.drop t.stop) = false
  covered : ∀ i < n, (∃ t ∈ placed, t.start ≤ i ∧ i < t.stop) ∨ IsSkipped cs n placed i

variable {cs : List Char} {n stop : Nat} {placed : List PlacedToken} {token : Token} {c : Char}

theorem IsSkipped.mono {i : Nat} (h : IsSkipped cs n placed i) (hle : n ≤ stop) : IsSkipped cs stop placed i := by
  rcases h with hblank | ⟨start, last, hcomment, hstart, hlast, hn, hapart⟩
  · exact .inl hblank
  · exact .inr ⟨start, last, hcomment, hstart, hlast, hn.trans hle, hapart⟩

/-- A token behind the characters in question leaves them skipped. -/
theorem IsSkipped.concat {i : Nat} {t : PlacedToken} (h : IsSkipped cs n placed i) (ht : n ≤ t.start) :
    IsSkipped cs n (placed ++ [t]) i := by
  rcases h with hblank | ⟨start, last, hcomment, hstart, hlast, hn, hapart⟩
  · exact .inl hblank
  · refine .inr ⟨start, last, hcomment, hstart, hlast, hn, List.forall_mem_append.2 ⟨hapart, ?_⟩⟩
    exact List.forall_mem_singleton.2 (.inr (hn.trans ht))

namespace Tiles

theorem start (cs : List Char) : Tiles cs 0 [] where
  nonempty := List.forall_mem_nil _
  ordered := .nil
  within := List.forall_mem_nil _
  spelled := List.forall_mem_nil _
  whole := List.forall_mem_nil _
  covered i hi := absurd hi (Nat.not_lt_zero i)

/-- Characters behind the tiled ones that are skipped belong to no token. -/
theorem skip (h : Tiles cs n placed) (hle : n ≤ stop) (hskipped : ∀ i, n ≤ i → i < stop → IsSkipped cs stop placed i) :
    Tiles cs stop placed where
  nonempty := h.nonempty
  ordered := h.ordered
  within t ht := (h.within t ht).trans hle
  spelled := h.spelled
  whole := h.whole
  covered i hi := by
    rcases Nat.lt_or_ge i n with hlt | hge
    · exact (h.covered i hlt).imp_right fun hskipped => hskipped.mono hle
    · exact .inr (hskipped i hge hi)

theorem blank (h : Tiles cs n placed) (hc : cs[n]? = some c) (hblank : Text.isBlank c = true) :
    Tiles cs (n + 1) placed := by
  refine h.skip (Nat.le_succ n) fun i hge hlt => ?_
  obtain rfl : i = n := by omega
  exact .inl ⟨c, hc, hblank⟩

theorem comment (h : Tiles cs n placed) (hcomment : IsComment cs n stop) (hle : n ≤ stop) : Tiles cs stop placed :=
  h.skip hle fun _ hge hlt => .inr ⟨n, stop, hcomment, hge, hlt, le_rfl, fun t ht => .inl (h.within t ht)⟩

theorem concat (h : Tiles cs n placed) (hlt : n < stop) (hspelled : cs.extract n stop = token.spelling.toList)
    (hwhole : token.reachesInto (cs.drop stop) = false) : Tiles cs stop (placed ++ [⟨token, n, stop⟩]) where
  nonempty := List.forall_mem_append.2 ⟨h.nonempty, by simpa using hlt⟩
  ordered := List.pairwise_append.2 ⟨h.ordered, List.pairwise_singleton _ _, by simpa using h.within⟩
  within := List.forall_mem_append.2 ⟨fun t ht => (h.within t ht).trans hlt.le, by simp⟩
  spelled := List.forall_mem_append.2 ⟨h.spelled, by simpa using hspelled⟩
  whole := List.forall_mem_append.2 ⟨h.whole, by simpa using hwhole⟩
  covered i hi := by
    rcases Nat.lt_or_ge i n with hbefore | hge
    · rcases h.covered i hbefore with ⟨t, ht, hcovers⟩ | hskipped
      · exact .inl ⟨t, List.mem_append_left _ ht, hcovers⟩
      · exact .inr ((hskipped.concat le_rfl).mono hlt.le)
    · exact .inl ⟨⟨token, n, stop⟩, by simp, hge, hi⟩

/-- One more token in a list that has the last token first. -/
theorem push (h : Tiles cs n placed.reverse) (hlt : n < stop) (hspelled : cs.extract n stop = token.spelling.toList)
    (hwhole : token.reachesInto (cs.drop stop) = false) : Tiles cs stop (⟨token, n, stop⟩ :: placed).reverse := by
  rw [List.reverse_cons]
  exact h.concat hlt hspelled hwhole

end Tiles

/-! ### Segments of a text -/

theorem extract_succ {i j : Nat} (hle : i ≤ j) (hc : cs[j]? = some c) :
    cs.extract i (j + 1) = cs.extract i j ++ [c] := by
  rw [List.extract_eq_take_drop, List.extract_eq_take_drop, Nat.succ_sub hle, List.take_add_one, List.getElem?_drop,
    Nat.add_sub_cancel' hle, hc]
  rfl

theorem extract_singleton {i : Nat} (hc : cs[i]? = some c) : cs.extract i (i + 1) = [c] := by
  rw [extract_succ le_rfl hc, List.extract_eq_take_drop, Nat.sub_self, List.take_zero, List.nil_append]

theorem lt_of_extract_eq {i j : Nat} {text : List Char} (h : cs.extract i j = text) (hne : text ≠ []) : i < j := by
  refine Nat.lt_of_not_le fun hle => hne ?_
  rw [← h, List.extract_eq_take_drop, Nat.sub_eq_zero_of_le hle, List.take_zero]

/-! ### The ends of tokens -/

namespace Token

variable {text : String} {rest : List Char}

theorem reachesInto_of_not_isOpen (h : token.isOpen = false) : token.reachesInto rest = false := by
  cases token with
  | word | anonymous => cases h
  | _ => rfl

theorem reachesInto_word (h : ∀ c ∈ rest.head?, isWordChar c = false ∧ c ≠ '.') :
    (word text).reachesInto rest = false := by
  cases rest with
  | nil => rfl
  | cons c rest =>
    obtain ⟨hword, hpoint⟩ := h c rfl
    unfold reachesInto
    split <;> simp_all

theorem reachesInto_word_point (h : ∀ c ∈ rest.head?, isWordChar c = false) :
    (word text).reachesInto ('.' :: rest) = false := by
  cases rest with
  | nil => rfl
  | cons c rest => exact h c rfl

theorem reachesInto_anonymous (h : ∀ c ∈ rest.head?, isWordChar c = false) :
    (anonymous text).reachesInto rest = false := by
  cases rest with
  | nil => rfl
  | cons c rest => exact h c rfl

theorem spelling_of_ofChar? (h : ofChar? c = some token) : token.spelling.toList = [c] ∧ token.isOpen = false := by
  unfold ofChar? at h
  split at h <;> simp only [Option.some.injEq, reduceCtorEq] at h <;> subst h <;> exact ⟨rfl, rfl⟩

end Token

/-! ### The lexer tiles what it has read -/

/-- What the lexer is in the middle of begins at offset `start`, and it is what the text holds from there up to where
the lexer stands. -/
def LexerMode.Holds (cs : List Char) (start position : Nat) : LexerMode → Prop
  | between => start = position
  | comment => ∃ line, cs.extract start position = '%' :: line ∧ ∀ c ∈ line, isLineEnd c = false
  | word first text | anonymous first text | quoted first text =>
    first = start ∧ text ≠ [] ∧ cs.extract start position = text.reverse
  | wordPoint first text =>
    first = start ∧ text ≠ [] ∧
      ∃ point, position = point + 1 ∧ cs[point]? = some '.' ∧ cs.extract start point = text.reverse
  | colon first => first = start ∧ cs.extract start position = [':']
  | equals first => first = start ∧ cs.extract start position = ['=']
  | twoEquals first => first = start ∧ cs.extract start position = ['=', '=']

/-- The character belongs to nothing that the lexer is in the middle of and that may end here. -/
def LexerMode.endsBefore : LexerMode → Char → Bool
  | comment, c => isLineEnd c
  | word _ _, c => !isWordChar c && c != '.'
  | wordPoint _ _, c | anonymous _ _, c => !isWordChar c
  | _, _ => true

namespace Lexer

variable {l l' : Lexer}

/-- The tokens so far tile the text up to where the unfinished token or comment begins. -/
structure Tiles (cs : List Char) (l : Lexer) : Prop where
  position_le : l.position ≤ cs.length
  tiles : ∃ start ≤ l.position, Deduction.Tiles cs start l.tokens.reverse ∧ l.mode.Holds cs start l.position

theorem Tiles.of_between {position : Nat} {tokens : List PlacedToken} (hle : position ≤ cs.length)
    (h : Deduction.Tiles cs position tokens.reverse) : Tiles cs ⟨position, .between, tokens⟩ :=
  ⟨hle, position, le_rfl, h, rfl⟩

/-- The unfinished token or comment, which no character after it belongs to, is the last tile. -/
theorem Tiles.close (h : l.Tiles cs) (hnext : ∀ c ∈ cs[l.position]?, l.mode.endsBefore c = true) :
    l.close.Tiles cs := by
  obtain ⟨position, mode, tokens⟩ := l
  obtain ⟨hle, start, hstart, htiles, hmode⟩ := id h
  dsimp only at hle hstart htiles hnext
  rw [← List.head?_drop] at hnext
  cases mode with
  | between | quoted | colon | equals | twoEquals => exact h
  | comment =>
    obtain ⟨line, htext, hline⟩ := hmode
    rw [List.head?_drop] at hnext
    exact .of_between hle (htiles.comment ⟨line, htext, hline, hnext⟩ hstart)
  | word first text =>
    obtain ⟨rfl, hne, htext⟩ := hmode
    have hlt := lt_of_extract_eq htext (by simpa using hne)
    refine .of_between hle (htiles.push hlt (by simpa [Token.spelling] using htext) ?_)
    exact Token.reachesInto_word fun c hc => by simpa [LexerMode.endsBefore] using hnext c hc
  | wordPoint first text =>
    obtain ⟨rfl, hne, point, rfl, hpoint, htext⟩ := hmode
    have hlt := lt_of_extract_eq htext (by simpa using hne)
    have hrest : cs.drop point = '.' :: cs.drop (point + 1) := by
      obtain ⟨hlength, heq⟩ := List.getElem?_eq_some_iff.1 hpoint
      rw [List.drop_eq_getElem_cons hlength, heq]
    have hword : Deduction.Tiles cs point (⟨.word (String.ofList text.reverse), first, point⟩ :: tokens).reverse := by
      refine htiles.push hlt (by simpa [Token.spelling] using htext) ?_
      rw [hrest]
      exact Token.reachesInto_word_point fun c hc => by simpa [LexerMode.endsBefore] using hnext c hc
    exact .of_between hle (hword.push (Nat.lt_succ_self point) (extract_singleton hpoint)
      (Token.reachesInto_of_not_isOpen rfl))
  | anonymous first text =>
    obtain ⟨rfl, hne, htext⟩ := hmode
    have hlt := lt_of_extract_eq htext (by simpa using hne)
    refine .of_between hle (htiles.push hlt (by simpa [Token.spelling] using htext) ?_)
    exact Token.reachesInto_anonymous fun c hc => by simpa [LexerMode.endsBefore] using hnext c hc

/-- What the lexer goes on with begins where it did before, or with the character just read. -/
theorem Tiles.next {position start : Nat} {tokens : List PlacedToken} {mode : LexerMode} (hc : cs[position]? = some c)
    (htiles : Deduction.Tiles cs start tokens.reverse) (hstart : start ≤ position)
    (hmode : mode.Holds cs start (position + 1)) : Tiles cs ⟨position + 1, mode, tokens⟩ :=
  ⟨(List.getElem?_eq_some_iff.1 hc).1, start, Nat.le_succ_of_le hstart, htiles, hmode⟩

theorem Tiles.start (h : l.Tiles cs) (hm : l.mode = .between) (hc : cs[l.position]? = some c)
    (hs : l.start c = .ok l') : l'.Tiles cs ∧ l'.position = l.position + 1 := by
  obtain ⟨position, mode, tokens⟩ := l
  obtain ⟨hle, start, hstart, htiles, hmode⟩ := h
  dsimp only at hm hc htiles hmode hstart
  subst hm
  obtain rfl : start = position := hmode
  have hsegment := extract_singleton hc
  unfold Lexer.start at hs
  simp only at hs
  split at hs
  · rename_i hblank
    cases hs
    exact ⟨.of_between (List.getElem?_eq_some_iff.1 hc).1 (htiles.blank hc hblank), rfl⟩
  · split at hs
    · cases hs
      exact ⟨.next hc htiles le_rfl ⟨rfl, List.cons_ne_nil _ _, hsegment⟩, rfl⟩
    · split at hs
      · cases hs
        exact ⟨.next hc htiles le_rfl ⟨[], hsegment, List.forall_mem_nil _⟩, rfl⟩
      · cases hs
        exact ⟨.next hc htiles le_rfl ⟨rfl, List.cons_ne_nil _ _, hsegment⟩, rfl⟩
      · cases hs
        exact ⟨.next hc htiles le_rfl ⟨rfl, List.cons_ne_nil _ _, hsegment⟩, rfl⟩
      · cases hs
        exact ⟨.next hc htiles le_rfl ⟨rfl, hsegment⟩, rfl⟩
      · cases hs
        exact ⟨.next hc htiles le_rfl ⟨rfl, hsegment⟩, rfl⟩
      · split at hs
        · rename_i token htoken
          cases hs
          obtain ⟨hspelling, hopen⟩ := Token.spelling_of_ofChar? htoken
          exact ⟨.of_between (List.getElem?_eq_some_iff.1 hc).1 (htiles.push (Nat.lt_succ_self start)
            (hsegment.trans hspelling.symm) (Token.reachesInto_of_not_isOpen hopen)), rfl⟩
        · cases hs

theorem position_close (l : Lexer) : l.close.position = l.position := by
  unfold Lexer.close
  split <;> rfl

/-- A character that does not belong to the unfinished token is read as at the start of a token. -/
theorem Tiles.close_start (h : l.Tiles cs) (hc : cs[l.position]? = some c) (hends : l.mode.endsBefore c = true)
    (hm : l.close.mode = .between) (hs : l.close.start c = .ok l') : l'.Tiles cs ∧ l'.position = l.position + 1 := by
  have hclose : l.close.Tiles cs := h.close fun d hd => by
    obtain rfl : c = d := Option.some.inj (hc.symm.trans hd)
    exact hends
  rw [← position_close l] at hc ⊢
  exact hclose.start hm hc hs

theorem isBlank_of_isLineEnd (h : isLineEnd c = true) : Text.isBlank c = true := by
  simp only [isLineEnd, Bool.or_eq_true, beq_iff_eq] at h
  rcases h with rfl | rfl <;> decide

theorem Tiles.step (h : l.Tiles cs) (hc : cs[l.position]? = some c) (hs : l.step c = .ok l') :
    l'.Tiles cs ∧ l'.position = l.position + 1 := by
  have hclose : l.mode.endsBefore c = true → l.close.mode = .between → l.close.start c = .ok l' →
      l'.Tiles cs ∧ l'.position = l.position + 1 := h.close_start hc
  obtain ⟨position, mode, tokens⟩ := l
  obtain ⟨hle, start, hstart, htiles, hmode⟩ := id h
  dsimp only at hc htiles hmode hstart
  have hsegment := extract_succ hstart hc
  have hlength := (List.getElem?_eq_some_iff.1 hc).1
  unfold Lexer.step at hs
  cases mode with
  | between => exact h.start rfl hc hs
  | comment =>
    simp only at hs
    cases hs
    obtain ⟨line, htext, hline⟩ := hmode
    refine ⟨?_, rfl⟩
    split
    · rename_i hend
      refine .of_between hlength ((htiles.comment ⟨line, htext, hline, fun d hd => ?_⟩ hstart).blank hc
        (isBlank_of_isLineEnd hend))
      obtain rfl : c = d := Option.some.inj (hc.symm.trans hd)
      exact hend
    · rename_i hend
      refine .next hc htiles hstart ⟨line ++ [c], by rw [hsegment, htext, List.cons_append], ?_⟩
      exact List.forall_mem_append.2 ⟨hline, List.forall_mem_singleton.2 (eq_false_of_ne_true hend)⟩
  | word first text =>
    obtain ⟨rfl, hne, htext⟩ := hmode
    simp only at hs
    split at hs
    · cases hs
      exact ⟨.next hc htiles hstart ⟨rfl, List.cons_ne_nil _ _, by rw [hsegment, htext, List.reverse_cons]⟩, rfl⟩
    · split at hs
      · rename_i hpoint
        cases hs
        obtain rfl : c = '.' := by simpa using hpoint
        exact ⟨.next hc htiles hstart ⟨rfl, hne, position, rfl, hc, htext⟩, rfl⟩
      · rename_i hword hpoint
        exact hclose (by simp_all [LexerMode.endsBefore]) rfl hs
  | wordPoint first text =>
    obtain ⟨rfl, hne, point, rfl, hpoint, htext⟩ := hmode
    simp only at hs
    split at hs
    · cases hs
      have hfirst := lt_of_extract_eq htext (by simpa using hne)
      refine ⟨.next hc htiles hstart ⟨rfl, List.cons_ne_nil _ _, ?_⟩, rfl⟩
      rw [hsegment, extract_succ hfirst.le hpoint, htext, List.reverse_cons, List.reverse_cons]
    · rename_i hword
      exact hclose (by simpa [LexerMode.endsBefore] using hword) rfl hs
  | anonymous first text =>
    obtain ⟨rfl, hne, htext⟩ := hmode
    simp only at hs
    split at hs
    · cases hs
      exact ⟨.next hc htiles hstart ⟨rfl, List.cons_ne_nil _ _, by rw [hsegment, htext, List.reverse_cons]⟩, rfl⟩
    · rename_i hword
      exact hclose (by simpa [LexerMode.endsBefore] using hword) rfl hs
  | quoted first text =>
    obtain ⟨rfl, hne, htext⟩ := hmode
    rw [htext, ← List.reverse_cons] at hsegment
    simp only at hs
    split at hs
    · cases hs
      exact ⟨.of_between hlength (htiles.push (Nat.lt_succ_of_le hstart) (by simpa [Token.spelling] using hsegment)
        (Token.reachesInto_of_not_isOpen rfl)), rfl⟩
    · cases hs
      exact ⟨.next hc htiles hstart ⟨rfl, List.cons_ne_nil _ _, hsegment⟩, rfl⟩
  | colon first =>
    obtain ⟨rfl, htext⟩ := hmode
    rw [htext] at hsegment
    simp only at hs
    split at hs
    case h_4 => cases hs
    all_goals
      cases hs
      exact ⟨.of_between hlength (htiles.push (Nat.lt_succ_of_le hstart) hsegment
        (Token.reachesInto_of_not_isOpen rfl)), rfl⟩
  | equals first =>
    obtain ⟨rfl, htext⟩ := hmode
    rw [htext] at hsegment
    simp only at hs
    split at hs
    · rename_i hequals
      cases hs
      rw [beq_iff_eq.1 hequals] at hsegment
      exact ⟨.next hc htiles hstart ⟨rfl, hsegment⟩, rfl⟩
    · cases hs
  | twoEquals first =>
    obtain ⟨rfl, htext⟩ := hmode
    rw [htext] at hsegment
    simp only at hs
    split at hs
    · rename_i hmore
      cases hs
      rw [beq_iff_eq.1 hmore] at hsegment
      exact ⟨.of_between hlength (htiles.push (Nat.lt_succ_of_le hstart) hsegment
        (Token.reachesInto_of_not_isOpen rfl)), rfl⟩
    · cases hs

/-- The lexer tiles the text when it has read all of it. -/
theorem Tiles.foldlM {rest : List Char} (h : l.Tiles cs) (hrest : cs.drop l.position = rest)
    (hs : rest.foldlM Lexer.step l = .ok l') : l'.Tiles cs ∧ l'.position = cs.length := by
  induction rest generalizing l with
  | nil =>
    cases hs
    exact ⟨h, h.position_le.antisymm (List.drop_eq_nil_iff.1 hrest)⟩
  | cons c rest ih =>
    have hc : cs[l.position]? = some c := by rw [← List.head?_drop, hrest]; rfl
    rw [List.foldlM_cons] at hs
    cases hstep : l.step c with
    | error e =>
      rw [hstep] at hs
      cases hs
    | ok next =>
      rw [hstep] at hs
      obtain ⟨hnext, hposition⟩ := h.step hc hstep
      refine ih hnext ?_ hs
      rw [hposition, ← List.tail_drop, hrest, List.tail_cons]

end Lexer

/-- The tokens of a text tile it. -/
theorem tiles_of_tokenize {text : String} {placed : List PlacedToken} (h : tokenize text = .ok placed) :
    Tiles text.toList text.length placed := by
  unfold tokenize at h
  cases hl : text.toList.foldlM Lexer.step {} with
  | error e =>
    rw [hl] at h
    cases h
  | ok l =>
    rw [hl] at h
    change l.finish = _ at h
    have hstart : ({} : Lexer).Tiles text.toList := .of_between (Nat.zero_le _) (.start _)
    obtain ⟨htiles, hposition⟩ := hstart.foldlM rfl hl
    have hclose : l.close.Tiles text.toList := htiles.close fun c hc => by
      rw [hposition, List.getElem?_eq_none le_rfl] at hc
      cases hc
    obtain ⟨-, start, -, htokens, hmode⟩ := hclose
    rw [Lexer.position_close, hposition, String.length_toList] at hmode
    unfold Lexer.finish at h
    split at h
    · rename_i heq
      cases h
      rw [heq] at htokens hmode
      obtain rfl : start = text.length := hmode
      exact htokens
    · cases h

/-- A point within a word and one behind it, a comment with a quote, and a string with a percent sign. -/
theorem tiles_of_tokenize_comment :
    tokenize "a.b. % \"c\n_x:-\"%\"" =
        .ok [⟨.word "a.b", 0, 3⟩, ⟨.period, 3, 4⟩, ⟨.anonymous "_x", 10, 12⟩, ⟨.operator .provided, 12, 14⟩,
          ⟨.quoted "\"%\"", 14, 17⟩] ∧
      Tiles "a.b. % \"c\n_x:-\"%\"".toList "a.b. % \"c\n_x:-\"%\"".length
        [⟨.word "a.b", 0, 3⟩, ⟨.period, 3, 4⟩, ⟨.anonymous "_x", 10, 12⟩, ⟨.operator .provided, 12, 14⟩,
          ⟨.quoted "\"%\"", 14, 17⟩] := by
  have htokens : tokenize "a.b. % \"c\n_x:-\"%\"" =
      .ok [⟨.word "a.b", 0, 3⟩, ⟨.period, 3, 4⟩, ⟨.anonymous "_x", 10, 12⟩, ⟨.operator .provided, 12, 14⟩,
        ⟨.quoted "\"%\"", 14, 17⟩] := by decide +kernel
  exact ⟨htokens, tiles_of_tokenize htokens⟩

end Deduction
