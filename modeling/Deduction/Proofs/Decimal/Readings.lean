import Deduction.Number
import Deduction.Proofs.Decimal.Literals
import Mathlib

/-!
# The number at the front of a text

No decimal literal reads as a NaN, however large or small it is (`isNaN_toFloat`). So a symbol without a value of its own
reads as a NaN exactly if no literal stands at its front behind the blanks, and otherwise as the number that the longest
one writes (`value_of_longest`). Trying the text as a whole first, words for infinities and NaNs apart, makes no
difference (`readNumber_eq_readWholeFirst`).
-/

namespace Deduction

open Float.Model (Format UnpackedFloat)

/-! ### Doubles that literals write -/

/-- Up to infinity, a pattern with the greatest exponent has an empty significand. -/
theorem isNaNBits_of_le {b : UInt64} (h : b.toNat % 2 ^ 63 ≤ Binary.infinityBits) :
    @UnpackedFloat.isNaNBits .binary64 b.toBitVec = false := by
  rw [UnpackedFloat.isNaNBits, decide_eq_false_iff_not, not_and_not_right]
  intro hexponent
  replace hexponent : (b.toNat >>> 52) % 2 ^ 11 = 2047 := by
    rw [UnpackedFloat.unpackExponent_def] at hexponent
    simpa using congrArg BitVec.toNat hexponent
  rw [UnpackedFloat.unpackMantissa_def]
  apply BitVec.eq_of_toNat_eq
  rw [BitVec.extractLsb'_toNat]
  show (b.toNat >>> 0) % 2 ^ 52 = 0
  have hinfinity : Binary.infinityBits = 2047 * 2 ^ 52 := rfl
  rw [Nat.shiftRight_eq_div_pow] at hexponent ⊢
  omega

theorem isNaN_ofBits_of_le {b : UInt64} (h : b.toNat % 2 ^ 63 ≤ Binary.infinityBits) :
    (Float.ofBits b).isNaN = false := by
  have hb := isNaNBits_of_le h
  have hkept : (Float.ofBits b).toModel.toBits.toBitVec = b.toBitVec := by
    show UnpackedFloat.pack .binary64 (UnpackedFloat.unpack .binary64 b.toBitVec) = b.toBitVec
    rw [@UnpackedFloat.pack_unpack .binary64 b.toBitVec (by decide), hb]
    rfl
  rw [← Bool.not_eq_true]
  intro hnan
  have hpacked := (UnpackedFloat.isNaN_unpack_iff_of_valid (Float.ofBits b).toModel.valid (by decide)).1 hnan
  rw [← hkept, hpacked, UnpackedFloat.isNaNBits_packedNaN] at hb
  cases hb

theorem Binary.bitsOfQuotient_le (num den : Nat) : bitsOfQuotient num den ≤ infinityBits := by
  unfold bitsOfQuotient
  split
  · exact Nat.zero_le _
  · exact Nat.min_le_right _ _

namespace Decimal

theorem magnitudeBits_le (d : Decimal) : d.magnitudeBits ≤ Binary.infinityBits := by
  unfold magnitudeBits
  repeat' split
  · exact Nat.zero_le _
  · exact le_rfl
  · exact Nat.zero_le _
  · exact Binary.bitsOfQuotient_le _ _
  · exact Binary.bitsOfQuotient_le _ _

theorem isNaN_toFloat (d : Decimal) : d.toFloat.isNaN = false := by
  apply isNaN_ofBits_of_le
  have hle := d.magnitudeBits_le
  have hinfinity : Binary.infinityBits = 2047 * 2 ^ 52 := rfl
  rw [UInt64.toNat_ofNat']
  split <;> omega

end Decimal

theorem isNaN_nan : nan.isNaN = true := by decide

/-! ### Whole texts -/

/-- The words for an infinity and for a NaN, in any case and with an optional sign. -/
def wordFloat? (cs : List Char) : Option Float :=
  let (negative, word) := Decimal.scanSign cs
  let magnitude :=
    match word.map Char.toLower with
    | ['i', 'n', 'f'] | ['i', 'n', 'f', 'i', 'n', 'i', 't', 'y'] => some infinity
    | ['n', 'a', 'n'] => some nan
    | _ => none
  magnitude.map fun x => if negative then -x else x

/-- The double that a whole text writes: the nearest one to a literal, or that of a word. -/
def float? (cs : List Char) : Option Float :=
  match Decimal.parse? cs with
  | some d => some d.toFloat
  | none => wordFloat? cs

/-- Is `inf` or `nan` anywhere in the text, in any case? -/
def holdsWord (cs : List Char) : Bool :=
  decide (['i', 'n', 'f'] <:+: cs.map Char.toLower) || decide (['n', 'a', 'n'] <:+: cs.map Char.toLower)

/-- The double that the part of a text before what `scan` leaves writes. -/
def frontFloat (cs : List Char) : Float :=
  match Decimal.scan cs with
  | some (_, rest) => (float? (cs.take (cs.length - rest.length))).getD nan
  | none => nan

/-- The double that a whole text writes, unless a word is in it; otherwise that of the longest literal at its front. -/
def readWholeFirst (cs : List Char) : Float :=
  match float? cs with
  | some x => if holdsWord cs then frontFloat cs else x
  | none => frontFloat cs

theorem float?_spelling (l : Decimal.Literal) : float? l.spelling = some l.number.toFloat := by
  rw [float?, Decimal.parse?_eq_some_iff.2 ⟨l, rfl, rfl⟩]

/-- The words for an infinity and for a NaN are found wherever they stand. -/
theorem holdsWord_of_wordFloat? {cs : List Char} {x : Float} (h : wordFloat? cs = some x) : holdsWord cs = true := by
  obtain ⟨s, -, hcs⟩ := Decimal.exists_sign cs
  have hsuffix : (Decimal.scanSign cs).2.map Char.toLower <:+ cs.map Char.toLower :=
    List.IsSuffix.map Char.toLower ⟨_, hcs⟩
  obtain ⟨x', hword, -⟩ := Option.map_eq_some_iff.1 h
  simp only [holdsWord, Bool.or_eq_true, decide_eq_true_eq]
  split at hword
  · next heq => exact .inl (heq ▸ hsuffix.isInfix)
  · next heq => exact .inl ((List.prefix_append ['i', 'n', 'f'] _).isInfix.trans (heq ▸ hsuffix.isInfix))
  · next heq => exact .inr (heq ▸ hsuffix.isInfix)
  · cases hword

/-! ### Texts with a number at the front -/

variable {text : String}

theorem readNumber_of_scan {d : Decimal} {rest : List Char}
    (h : Decimal.scan (Text.trimLeft text.toList) = some (d, rest)) : readNumber text = d.toFloat := by
  rw [readNumber, h]

theorem readNumber_of_scan_eq_none (h : Decimal.scan (Text.trimLeft text.toList) = none) : readNumber text = nan := by
  rw [readNumber, h]

theorem frontFloat_eq_readNumber (text : String) : frontFloat (Text.trimLeft text.toList) = readNumber text := by
  unfold frontFloat
  cases hscan : Decimal.scan (Text.trimLeft text.toList) with
  | none => exact (readNumber_of_scan_eq_none hscan).symm
  | some found =>
    obtain ⟨d, rest⟩ := found
    obtain ⟨l, hcs, rfl⟩ := Decimal.exists_literal_of_scan hscan
    show (float? _).getD nan = _
    rw [← hcs, List.length_append, Nat.add_sub_cancel, List.take_left, float?_spelling, readNumber_of_scan hscan]
    rfl

/-- Trying the text as a whole first gives the same number. -/
theorem readNumber_eq_readWholeFirst (text : String) :
    readNumber text = readWholeFirst (Text.trimLeft text.toList) := by
  unfold readWholeFirst
  split
  · next x hx =>
    split
    · exact (frontFloat_eq_readNumber text).symm
    next hword =>
      unfold float? at hx
      split at hx
      · next d hd =>
        obtain ⟨l, hl, rfl⟩ := Decimal.parse?_eq_some_iff.1 hd
        exact (readNumber_of_scan (hl ▸ Decimal.scan_spelling l)).trans (Option.some.inj hx)
      · exact absurd (holdsWord_of_wordFloat? hx) hword
  · exact (frontFloat_eq_readNumber text).symm

theorem value_sym_of_notMem (h : text ∉ ["blank", "false", "true", "infinity", "neginfinity"]) :
    (Term.sym text).value = readNumber text := by
  show symbolValue text = readNumber text
  unfold symbolValue
  split
  case h_6 => rfl
  all_goals exact absurd (by decide) h

/-- A symbol without a value of its own has the value that the longest literal at its front writes, and is a NaN exactly
if there is no literal. -/
theorem value_of_longest (h : text ∉ ["blank", "false", "true", "infinity", "neginfinity"]) :
    ((Term.sym text).value.isNaN = true ↔ ∀ l : Decimal.Literal, ¬l.spelling <+: Text.trimLeft text.toList) ∧
      ((Term.sym text).value.isNaN = false → ∃ l : Decimal.Literal,
        l.IsLongestIn (Text.trimLeft text.toList) ∧ float? l.spelling = some (Term.sym text).value) := by
  rw [value_sym_of_notMem h, ← Decimal.scan_eq_none_iff]
  cases hscan : Decimal.scan (Text.trimLeft text.toList) with
  | none =>
    rw [readNumber_of_scan_eq_none hscan, isNaN_nan]
    exact ⟨by simp, nofun⟩
  | some found =>
    obtain ⟨d, rest⟩ := found
    obtain ⟨l, hlongest, -, rfl⟩ := Decimal.exists_isLongestIn_of_scan hscan
    rw [readNumber_of_scan hscan, Decimal.isNaN_toFloat]
    exact ⟨by simp, fun _ => ⟨l, hlongest, float?_spelling l⟩⟩

theorem value_of_longest_unfinishedExponent :
    (Term.sym " -1.5e+x").value.isNaN = false ∧ ∃ l : Decimal.Literal,
      l.IsLongestIn (Text.trimLeft " -1.5e+x".toList) ∧ float? l.spelling = some (Term.sym " -1.5e+x").value := by
  have hnumber : (Term.sym " -1.5e+x").value.isNaN = false := by decide
  exact ⟨hnumber, (value_of_longest (by decide)).2 hnumber⟩

end Deduction
