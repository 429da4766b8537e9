import Deduction.Decimal.Literal
import Mathlib.Data.List.TakeWhile

/-!
# Decimal literals as syntax trees

A literal is its sign, the digits before the point, the digits after it if there is a point, and its exponent if it has
one. The scanner takes one literal off the front of a text (`exists_literal_of_scan`), and of the literals that the text
begins with it takes the longest (`scan_spelling_append`): so it finds one if there is one, and a whole text is a number
when it is the spelling of a literal (`parse?_eq_some_iff`).
-/

namespace Deduction.Decimal

/-! ### Literals -/

inductive Sign where
  | none
  | plus
  | minus

namespace Sign

def spelling : Sign → List Char
  | none => []
  | plus => ['+']
  | minus => ['-']

def isMinus : Sign → Bool
  | minus => true
  | _ => false

end Sign

/-- Some digits, or none. -/
abbrev Digits := { cs : List Char // ∀ c ∈ cs, isDigit c = true }

structure Exponent where
  letter : Char
  sign : Sign
  digits : Digits
  isLetter : letter = 'e' ∨ letter = 'E'
  nonempty : digits.val ≠ []

namespace Exponent

def spelling (x : Exponent) : List Char := x.letter :: (x.sign.spelling ++ x.digits.val)

def value (x : Exponent) : Int := if x.sign.isMinus then -(ofDigits x.digits.val : Int) else ofDigits x.digits.val

end Exponent

/-- The digits after the point. -/
def fractionDigits : Option Digits → List Char
  | none => []
  | some digits => digits.val

def fractionSpelling : Option Digits → List Char
  | none => []
  | some digits => '.' :: digits.val

/-- A literal has a digit before or after the point. -/
structure Literal where
  sign : Sign
  whole : Digits
  fraction : Option Digits
  exponent : Option Exponent
  nonempty : whole.val ≠ [] ∨ fractionDigits fraction ≠ []

def exponentSpelling : Option Exponent → List Char
  | none => []
  | some x => x.spelling

def exponentValue : Option Exponent → Int
  | none => 0
  | some x => x.value

namespace Literal

def spelling (l : Literal) : List Char :=
  l.sign.spelling ++ (l.whole.val ++ (fractionSpelling l.fraction ++ exponentSpelling l.exponent))

/-- The number that the literal writes. -/
def number (l : Literal) : Decimal where
  negative := l.sign.isMinus
  coefficient := ofDigits (l.whole.val ++ fractionDigits l.fraction)
  exponent := exponentValue l.exponent - (fractionDigits l.fraction).length

/-- No longer literal stands at the front of the text. -/
structure IsLongestIn (l : Literal) (cs : List Char) : Prop where
  isPrefix : l.spelling <+: cs
  longest : ∀ l' : Literal, l'.spelling <+: cs → l'.spelling.length ≤ l.spelling.length

end Literal

variable {cs rest : List Char} {d : Decimal}

/-! ### What the stages of the scanner take -/

theorem exists_sign (cs : List Char) :
    ∃ s : Sign, (scanSign cs).1 = s.isMinus ∧ s.spelling ++ (scanSign cs).2 = cs := by
  unfold scanSign
  split
  · exact ⟨.minus, rfl, rfl⟩
  · exact ⟨.plus, rfl, rfl⟩
  · exact ⟨.none, rfl, rfl⟩

theorem exists_digits (cs : List Char) :
    ∃ ds : Digits, (scanDigits cs).1 = ds.val ∧ ds.val ++ (scanDigits cs).2 = cs :=
  ⟨⟨cs.takeWhile isDigit, fun _ => List.mem_takeWhile_imp⟩, rfl, List.takeWhile_append_dropWhile⟩

theorem exists_fraction (cs : List Char) :
    ∃ f, (scanFraction cs).1 = fractionDigits f ∧ fractionSpelling f ++ (scanFraction cs).2 = cs := by
  unfold scanFraction
  split
  · next cs =>
    obtain ⟨ds, hfst, hcs⟩ := exists_digits cs
    exact ⟨some ds, hfst, congrArg (List.cons '.') hcs⟩
  · exact ⟨none, rfl, rfl⟩

theorem exists_exponent (cs : List Char) :
    ∃ x, (scanExponent cs).1 = exponentValue x ∧ exponentSpelling x ++ (scanExponent cs).2 = cs := by
  cases cs with
  | nil => exact ⟨none, rfl, rfl⟩
  | cons c cs =>
    obtain ⟨s, hminus, hsign⟩ := exists_sign cs
    obtain ⟨ds, hdigits, hrest⟩ := exists_digits (scanSign cs).2
    by_cases hletter : c = 'e' ∨ c = 'E'
    · by_cases hds : ds.val = []
      · exact ⟨none, by simp [scanExponent, hdigits, hds, exponentValue],
          by simp [scanExponent, hdigits, hds, exponentSpelling]⟩
      · refine ⟨some ⟨c, s, ds, hletter, hds⟩, ?_, ?_⟩
        · simp [scanExponent, hletter, hdigits, hds, hminus, exponentValue, Exponent.value]
        · simp [scanExponent, hletter, hdigits, hds, exponentSpelling, Exponent.spelling, hrest, hsign]
    · exact ⟨none, by simp [scanExponent, hletter, exponentValue], by simp [scanExponent, hletter, exponentSpelling]⟩

/-! ### The stages on a spelling -/

theorem scanSign_append (s : Sign) (h : ∀ c ∈ cs.head?, c ≠ '+' ∧ c ≠ '-') :
    scanSign (s.spelling ++ cs) = (s.isMinus, cs) := by
  cases s with
  | none =>
    show scanSign cs = (false, cs)
    unfold scanSign
    split
    · exact absurd rfl (h '-' rfl).2
    · exact absurd rfl (h '+' rfl).1
    · rfl
  | plus => rfl
  | minus => rfl

theorem scanDigits_append (ds : Digits) (cs : List Char) :
    scanDigits (ds.val ++ cs) = (ds.val ++ cs.takeWhile isDigit, cs.dropWhile isDigit) := by
  rw [scanDigits, List.takeWhile_append_of_pos ds.property, List.dropWhile_append_of_pos ds.property]

/-- The digits end before a character that is none. -/
theorem scanDigits_append_of_head (ds : Digits) (h : ∀ c ∈ cs.head?, isDigit c = false) :
    scanDigits (ds.val ++ cs) = (ds.val, cs) := by
  rw [scanDigits_append]
  cases cs with
  | nil => simp
  | cons c cs =>
    have hc := h c rfl
    simp [hc]

/-- The digits end before a point. -/
theorem scanDigits_append_fraction (ds : Digits) (f : Option Digits)
    (h : f = none → ∀ c ∈ cs.head?, isDigit c = false) :
    scanDigits (ds.val ++ (fractionSpelling f ++ cs)) = (ds.val, fractionSpelling f ++ cs) := by
  refine scanDigits_append_of_head ds ?_
  cases f with
  | none => exact h rfl
  | some decimals =>
    rintro _ ⟨⟩
    decide

theorem scanFraction_append_of_head (f : Option Digits) (h : ∀ c ∈ cs.head?, isDigit c = false ∧ c ≠ '.') :
    scanFraction (fractionSpelling f ++ cs) = (fractionDigits f, cs) := by
  cases f with
  | none =>
    show scanFraction cs = ([], cs)
    unfold scanFraction
    split
    · exact absurd rfl (h '.' rfl).2
    · rfl
  | some ds => exact scanDigits_append_of_head ds fun c hc => (h c hc).1

/-- A point and a digit are no signs. -/
theorem ne_sign_of_isDigit {c : Char} (h : isDigit c = true ∨ c = '.') : c ≠ '+' ∧ c ≠ '-' := by
  constructor <;> rintro rfl <;> revert h <;> decide

theorem Digits.ne_sign_of_head {ds : Digits} (h : ds.val ≠ []) :
    ∀ c ∈ (ds.val ++ cs).head?, c ≠ '+' ∧ c ≠ '-' := by
  obtain ⟨c, digits, hds⟩ := List.exists_cons_of_ne_nil h
  rw [hds]
  rintro _ ⟨⟩
  exact ne_sign_of_isDigit (.inl (ds.property c (hds ▸ List.mem_cons_self)))

theorem Exponent.not_isDigit_of_head (x : Exponent) :
    ∀ c ∈ (x.spelling ++ cs).head?, isDigit c = false ∧ c ≠ '.' := by
  rintro _ ⟨⟩
  rcases x.isLetter with h | h <;> rw [h] <;> decide

theorem scanExponent_append (x : Exponent) (cs : List Char) :
    ∃ v, scanExponent (x.spelling ++ cs) = (v, cs.dropWhile isDigit) ∧ (cs = [] → v = x.value) := by
  have hsign : scanSign (x.sign.spelling ++ (x.digits.val ++ cs)) = (x.sign.isMinus, x.digits.val ++ cs) :=
    scanSign_append x.sign (Digits.ne_sign_of_head x.nonempty)
  refine ⟨if x.sign.isMinus then -(ofDigits (x.digits.val ++ cs.takeWhile isDigit) : Int)
    else ofDigits (x.digits.val ++ cs.takeWhile isDigit), ?_, ?_⟩
  · simp [Exponent.spelling, scanExponent, x.isLetter, hsign, scanDigits_append, x.nonempty]
  · rintro rfl
    simp [Exponent.value]

/-! ### The scanner on a text -/

theorem scan_of_stages {m : Bool} {u w a f b : List Char} {x : Int} (hsign : scanSign cs = (m, u))
    (hwhole : scanDigits u = (w, a)) (hfraction : scanFraction a = (f, b)) (hexponent : scanExponent b = (x, rest))
    (hne : w ≠ [] ∨ f ≠ []) : scan cs = some (⟨m, ofDigits (w ++ f), x - f.length⟩, rest) := by
  have hsome : (w.isEmpty && f.isEmpty) = false := by simpa [or_iff_not_imp_left] using hne
  simp [scan, hsign, hwhole, hfraction, hexponent, hsome]

/-- What the scanner takes off a text is a literal. -/
theorem exists_literal_of_scan (h : scan cs = some (d, rest)) :
    ∃ l : Literal, l.spelling ++ rest = cs ∧ l.number = d := by
  obtain ⟨s, hminus, hsign⟩ := exists_sign cs
  obtain ⟨ds, hdigits, hwhole⟩ := exists_digits (scanSign cs).2
  obtain ⟨f, hdecimals, hfraction⟩ := exists_fraction (scanDigits (scanSign cs).2).2
  obtain ⟨x, hvalue, hexponent⟩ := exists_exponent (scanFraction (scanDigits (scanSign cs).2).2).2
  simp only [scan] at h
  split at h
  · cases h
  next hne =>
    obtain ⟨rfl, rfl⟩ := Prod.mk.inj (Option.some.inj h)
    rw [hdigits, hdecimals] at hne
    refine ⟨⟨s, ds, f, x, by simpa [or_iff_not_imp_left] using hne⟩, ?_, ?_⟩
    · simp only [Literal.spelling, List.append_assoc, hexponent, hfraction, hwhole, hsign]
    · rw [Literal.number, hminus, hdigits, hdecimals, hvalue]

theorem scanFraction_suffix (cs : List Char) : (scanFraction cs).2 <:+ cs := by
  obtain ⟨f, -, hcs⟩ := exists_fraction cs
  exact ⟨_, hcs⟩

theorem scanExponent_suffix (cs : List Char) : (scanExponent cs).2 <:+ cs := by
  obtain ⟨x, -, hcs⟩ := exists_exponent cs
  exact ⟨_, hcs⟩

theorem Literal.ne_sign_of_head (l : Literal) :
    ∀ c ∈ (l.whole.val ++ (fractionSpelling l.fraction ++ cs)).head?, c ≠ '+' ∧ c ≠ '-' := by
  obtain ⟨s, whole, fraction, x, hne⟩ := l
  by_cases hwhole : whole.val = []
  · cases fraction with
    | none => exact absurd rfl (hne.resolve_left (not_not.2 hwhole))
    | some ds =>
      rw [hwhole]
      rintro _ ⟨⟩
      exact ne_sign_of_isDigit (.inr rfl)
  · exact Digits.ne_sign_of_head hwhole

/-- A literal at the front of a text: the scanner takes all of it, and of the literal alone it makes its number. -/
theorem scan_spelling_append (l : Literal) (cs : List Char) :
    ∃ d rest, scan (l.spelling ++ cs) = some (d, rest) ∧ rest <:+ cs ∧ (cs = [] → d = l.number) := by
  obtain ⟨s, whole, fraction, x, hne⟩ := l
  have hsign : scanSign (s.spelling ++ (whole.val ++ (fractionSpelling fraction ++ (exponentSpelling x ++ cs)))) = _ :=
    scanSign_append s (Literal.ne_sign_of_head ⟨s, whole, fraction, x, hne⟩)
  simp only [Literal.spelling, List.append_assoc]
  cases x with
  | some x =>
    -- the letter of the exponent ends the digits
    have hfraction : scanFraction (fractionSpelling fraction ++ (x.spelling ++ cs)) = _ :=
      scanFraction_append_of_head fraction x.not_isDigit_of_head
    have hwhole : scanDigits (whole.val ++ (fractionSpelling fraction ++ (x.spelling ++ cs))) = _ :=
      scanDigits_append_fraction whole fraction fun _ c hc => (x.not_isDigit_of_head c hc).1
    obtain ⟨v, hexponent, hv⟩ := scanExponent_append x cs
    refine ⟨_, _, scan_of_stages hsign hwhole hfraction hexponent hne, List.dropWhile_suffix _, fun h => ?_⟩
    rw [hv h]
    rfl
  | none =>
    -- the last digits may go on behind the literal, and an exponent may follow them
    cases fraction with
    | some ds =>
      have hwhole : scanDigits (whole.val ++ '.' :: (ds.val ++ cs)) = _ :=
        scanDigits_append_fraction whole (some ds) nofun
      have hfraction : scanFraction ('.' :: (ds.val ++ cs)) = _ := scanDigits_append ds cs
      refine ⟨_, _, scan_of_stages hsign hwhole hfraction rfl (hne.imp_right fun h => ?_), ?_, ?_⟩
      · exact List.append_ne_nil_of_left_ne_nil h _
      · exact (scanExponent_suffix _).trans (List.dropWhile_suffix _)
      · rintro rfl
        simp [Literal.number, fractionDigits, exponentValue]
    | none =>
      have hwhole := scanDigits_append whole cs
      refine ⟨_, _, scan_of_stages hsign hwhole rfl rfl (.inl ?_), ?_, ?_⟩
      · exact List.append_ne_nil_of_left_ne_nil (hne.resolve_right (not_not.2 rfl)) _
      · exact ((scanExponent_suffix _).trans (scanFraction_suffix _)).trans (List.dropWhile_suffix _)
      · rintro rfl
        simp [Literal.number, fractionDigits, exponentValue]

/-- Of a literal alone nothing is left. -/
theorem scan_spelling (l : Literal) : scan l.spelling = some (l.number, []) := by
  obtain ⟨d, rest, hscan, hsuffix, hd⟩ := scan_spelling_append l []
  rw [List.append_nil, hd rfl, List.suffix_nil.1 hsuffix] at hscan
  exact hscan

/-- The texts that are numbers are the spellings of literals. -/
theorem parse?_eq_some_iff : parse? cs = some d ↔ ∃ l : Literal, l.spelling = cs ∧ l.number = d := by
  constructor
  · intro h
    unfold parse? at h
    split at h
    · next d' hscan =>
      obtain ⟨l, hcs, hd⟩ := exists_literal_of_scan hscan
      exact ⟨l, by rw [← hcs, List.append_nil], hd.trans (Option.some.inj h)⟩
    · cases h
  · rintro ⟨l, rfl, rfl⟩
    rw [parse?, scan_spelling]

theorem scan_eq_none_iff : scan cs = none ↔ ∀ l : Literal, ¬l.spelling <+: cs := by
  constructor
  · rintro h l ⟨rest, rfl⟩
    obtain ⟨d, rest', hscan, -⟩ := scan_spelling_append l rest
    rw [h] at hscan
    cases hscan
  · intro h
    rw [Option.eq_none_iff_forall_ne_some]
    rintro ⟨d, rest⟩ hscan
    obtain ⟨l, hcs, -⟩ := exists_literal_of_scan hscan
    exact h l ⟨rest, hcs⟩

/-- What the scanner takes off a text is the longest literal that stands at its front. -/
theorem exists_isLongestIn_of_scan (h : scan cs = some (d, rest)) :
    ∃ l : Literal, l.IsLongestIn cs ∧ l.spelling ++ rest = cs ∧ l.number = d := by
  obtain ⟨l, hcs, hd⟩ := exists_literal_of_scan h
  refine ⟨l, ⟨⟨rest, hcs⟩, ?_⟩, hcs, hd⟩
  rintro l' ⟨rest', hcs'⟩
  obtain ⟨d', rest'', hscan, hsuffix, -⟩ := scan_spelling_append l' rest'
  rw [hcs', h] at hscan
  obtain ⟨-, rfl⟩ := Prod.mk.inj (Option.some.inj hscan)
  -- the shorter the rest, the longer the literal before it
  have hlength := congrArg List.length (hcs.trans hcs'.symm)
  rw [List.length_append, List.length_append] at hlength
  have := hsuffix.length_le
  omega

end Deduction.Decimal
