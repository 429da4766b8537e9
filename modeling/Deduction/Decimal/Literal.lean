/-!
# Decimal literals

A decimal literal is an optional sign, digits with an optional point and further digits (or a point and digits),
and optionally `e` or `E` with an optional sign and digits. `Decimal.scan` takes the longest literal at the front
of a text.
-/

namespace Deduction

/-- The number `coefficient * 10 ^ exponent`, negated if `negative`. The sign is kept for zero too. -/
structure Decimal where
  negative : Bool
  coefficient : Nat
  exponent : Int
  deriving DecidableEq

namespace Decimal

def isDigit (c : Char) : Bool := '0' ≤ c && c ≤ '9'

/-- The number that a list of digits writes. -/
def ofDigits (cs : List Char) : Nat := cs.foldl (fun n c => 10 * n + (c.toNat - '0'.toNat)) 0

/-- An optional sign: whether it is a minus, and the rest. -/
def scanSign : List Char → Bool × List Char
  | '-' :: cs => (true, cs)
  | '+' :: cs => (false, cs)
  | cs => (false, cs)

/-- The digits in front, and the rest. -/
def scanDigits (cs : List Char) : List Char × List Char :=
  (cs.takeWhile isDigit, cs.dropWhile isDigit)

/-- An optional point with the digits after it. -/
def scanFraction : List Char → List Char × List Char
  | '.' :: cs => scanDigits cs
  | cs => ([], cs)

/-- An optional exponent. An `e` that no digits follow is not one. -/
def scanExponent : List Char → Int × List Char
  | c :: cs =>
    if c = 'e' || c = 'E' then
      let (negative, unsigned) := scanSign cs
      let (digits, rest) := scanDigits unsigned
      if digits.isEmpty then (0, c :: cs)
      else (if negative then -(ofDigits digits : Int) else ofDigits digits, rest)
    else (0, c :: cs)
  | [] => (0, [])

/-- The longest decimal literal at the front of a text, and what follows it. -/
def scan (cs : List Char) : Option (Decimal × List Char) :=
  let (negative, unsigned) := scanSign cs
  let (whole, afterWhole) := scanDigits unsigned
  let (fraction, afterFraction) := scanFraction afterWhole
  if whole.isEmpty && fraction.isEmpty then none
  else
    let (exponent, rest) := scanExponent afterFraction
    some (⟨negative, ofDigits (whole ++ fraction), exponent - fraction.length⟩, rest)

/-- The number that a text writes, if all of it is one decimal literal. -/
def parse? (cs : List Char) : Option Decimal :=
  match scan cs with
  | some (d, []) => some d
  | _ => none

end Decimal

end Deduction
