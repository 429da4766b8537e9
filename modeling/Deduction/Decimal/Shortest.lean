import Deduction.Decimal.Binary

/-!
# Shortest decimal digits

Every double is the nearest double of a whole interval of numbers. The shortest digits of a double are the fewest
that write a number of its interval, and of those the nearest to it. For one, two, and so on digits the two
neighbours on that decimal grid are tried in exact arithmetic; the first grid with a number of the interval wins.
-/

namespace Deduction.Decimal

/-- Numbers that round to one double: from `low` to `high` around `mid`, all over the denominator `den`. -/
structure Interval where
  low : Nat
  mid : Nat
  high : Nat
  den : Nat
  /-- Whether the two ends round to the double as well. -/
  closed : Bool

/-- The interval of the double `m * 2 ^ q`. Below a power of two the neighbours are twice as close. -/
def Interval.ofDouble (m : Nat) (q : Int) : Interval :=
  let below := if m = 1 <<< 52 && Binary.leastExponent < q then 1 else 2
  let up := (q - 2).toNat
  ⟨(4 * m - below) <<< up, (4 * m) <<< up, (4 * m + 2) <<< up, 1 <<< (2 - q).toNat, m % 2 = 0⟩

/-- Is `num / den` in the interval? -/
def Interval.contains (i : Interval) (num den : Nat) : Bool :=
  if i.closed then i.low * den ≤ num * i.den && num * i.den ≤ i.high * den
  else i.low * den < num * i.den && num * i.den < i.high * den

/-- The exponent of the leading digit of a positive quotient. -/
def floorLog10 (num den : Nat) : Int :=
  let guess : Int := Binary.floorLog2 num den * 30103 / 100000
  let above : Int := guess + 1
  if 0 ≤ above then (if powerOfTen above.toNat * den ≤ num then above else guess)
  else if den ≤ num * powerOfTen (-above).toNat then above else guess

/-- A number of the interval on the grid of multiples of `10 ^ k`: the multiple next to the middle, of two the
nearer one, of two equally near ones the larger. -/
def Interval.onGrid (i : Interval) (k : Int) : Option Nat :=
  let up := powerOfTen k.toNat
  let down := powerOfTen (-k).toNat
  let lower := i.mid * down / (i.den * up)
  let upper := lower + 1
  let hit := fun n => i.contains (n * up) down
  let twiceMid := 2 * (i.mid * down)
  let upperNearer := twiceMid ≥ (lower + upper) * (i.den * up)
  match hit lower, hit upper with
  | true, true => some (if upperNearer then upper else lower)
  | true, false => some lower
  | false, true => some upper
  | false, false => none

/-- Tries grids of `digits`, `digits + 1`, and so on digits for a number whose leading digit has exponent `lead`. -/
def Interval.search (i : Interval) (lead : Int) : Nat → Nat → Nat × Int
  | 0, digits => (i.mid / i.den, lead - digits)
  | more + 1, digits =>
    let k := lead + 1 - digits
    match i.onGrid k with
    | some n => (n, k)
    | none => i.search lead more (digits + 1)

/-- The shortest digits `n` and the exponent `k` of a positive double: it is nearest to `n * 10 ^ k`. -/
def shortest (bits : Nat) : Nat × Int :=
  let (m, q) := Binary.decode bits
  let i := Interval.ofDouble m q
  i.search (floorLog10 i.mid i.den) 17 1

/-- The digits without the zeros at their end, and how many zeros those are. -/
def stripZeros (digits : List Char) : List Char × Nat :=
  let zeros := (digits.reverse.takeWhile (· = '0')).length
  (digits.take (digits.length - zeros), zeros)

/-- The number `n * 10 ^ k` without an exponent: digits, with a point if there is a fraction. -/
def positional (n : Nat) (k : Int) : List Char :=
  let (digits, zeros) := stripZeros (Nat.toDigits 10 n)
  let k := k + zeros
  if 0 ≤ k then digits ++ List.replicate k.toNat '0'
  else
    let places := (-k).toNat
    if places < digits.length then
      digits.take (digits.length - places) ++ '.' :: digits.drop (digits.length - places)
    else '0' :: '.' :: List.replicate (places - digits.length) '0' ++ digits

end Deduction.Decimal
