import Deduction.Decimal.Literal

/-!
# Nearest binary number

A positive quotient of natural numbers is rounded to the nearest number of the form `m * 2 ^ q` with `m` below
`2 ^ 53` and `q` at least `-1074`; of two nearest ones the even `m` is taken. All arithmetic is exact.
-/

namespace Deduction

def nan : Float := Float.ofBits 0x7FF8000000000000

def infinity : Float := Float.ofBits 0x7FF0000000000000

/-- Two to a power. -/
def powerOfTwo (n : Nat) : Nat := Nat.pow 2 n

/-- Ten to a power. -/
def powerOfTen (n : Nat) : Nat := Nat.pow 10 n

end Deduction

namespace Deduction.Binary

/-- Bits of the significand of a double. -/
def precision : Nat := 53

/-- The exponent of the last place of the smallest doubles. -/
def leastExponent : Int := -1074

/-- The bit pattern of positive infinity. -/
def infinityBits : Nat := 0x7FF <<< 52

/-- The quotient rounded to the nearest integer, a half to the even neighbour. -/
def roundDiv (num den : Nat) : Nat :=
  let q := num / den
  let r := num % den
  if 2 * r < den then q
  else if den < 2 * r then q + 1
  else if q % 2 = 0 then q else q + 1

/-- The numerator and denominator of `num / den * 2 ^ k`. -/
def scale (num den : Nat) (k : Int) : Nat × Nat :=
  if 0 ≤ k then (num <<< k.toNat, den) else (num, den <<< (-k).toNat)

/-- The exponent of the leading bit of a positive quotient. -/
def floorLog2 (num den : Nat) : Int :=
  let guess : Int := num.log2 - den.log2
  let (n, d) := scale num den (-guess)
  if n < d then guess - 1 else guess

/-- The bit pattern of the double nearest to `num / den`. -/
def bitsOfQuotient (num den : Nat) : Nat :=
  if num = 0 then 0
  else
    let q := max (floorLog2 num den - (precision - 1 : Nat)) leastExponent
    let (n, d) := scale num den (-q)
    let bits := ((q - leastExponent).toNat <<< 52) + roundDiv n d
    min bits infinityBits

/-- The significand and the exponent of a finite positive double, from its bit pattern without the sign. -/
def decode (bits : Nat) : Nat × Int :=
  let biased := bits >>> 52
  let fraction := bits % (1 <<< 52)
  if biased = 0 then (fraction, leastExponent) else (fraction + 1 <<< 52, leastExponent + (biased - 1 : Nat))

/-- A finite double as a signed significand and an exponent: it is `m * 2 ^ q`. -/
def exact (x : Float) : Int × Int :=
  let bits := x.toBits.toNat
  let (m, q) := decode (bits % (1 <<< 63))
  (if bits < 1 <<< 63 then m else -m, q)

/-- The double nearest to `num / den`; a numerator of 0 gives positive zero. -/
def ofQuotient (num : Int) (den : Nat) : Float :=
  let sign : Nat := if num < 0 then 1 <<< 63 else 0
  Float.ofBits (UInt64.ofNat (sign + bitsOfQuotient num.natAbs den))

/-- The integer part of a finite double. -/
def truncate (x : Float) : Int :=
  let (m, q) := exact x
  if 0 ≤ q then m * powerOfTwo q.toNat else m.tdiv (powerOfTwo (-q).toNat)

/-- The remainder of a division whose quotient is cut to an integer; it has the sign of `x`. -/
def remainder (x y : Float) : Float :=
  if !x.isFinite || y.isNaN || y == 0 then nan
  else if !y.isFinite || x == 0 then x
  else
    let (m, q) := exact x
    let (n, p) := exact y
    let least := min q p
    let r := (m * powerOfTwo (q - least).toNat).tmod (n * powerOfTwo (p - least).toNat)
    if r = 0 then x * 0
    else if 0 ≤ least then ofQuotient (r * powerOfTwo least.toNat) 1
    else ofQuotient r (powerOfTwo (-least).toNat)

end Deduction.Binary

namespace Deduction.Decimal

/-- The bit pattern of the double nearest to the absolute value of a decimal number. Numbers far outside the range
of doubles are told by their exponent alone. -/
def magnitudeBits (d : Decimal) : Nat :=
  if d.coefficient = 0 then 0
  else if d.exponent > 310 then Binary.infinityBits
  else if d.exponent + d.coefficient.log2 < -400 then 0
  else if 0 ≤ d.exponent then Binary.bitsOfQuotient (d.coefficient * powerOfTen d.exponent.toNat) 1
  else Binary.bitsOfQuotient d.coefficient (powerOfTen (-d.exponent).toNat)

/-- The double nearest to a decimal number. -/
def toFloat (d : Decimal) : Float :=
  let sign : Nat := if d.negative then 1 <<< 63 else 0
  Float.ofBits (UInt64.ofNat (sign + d.magnitudeBits))

end Deduction.Decimal
