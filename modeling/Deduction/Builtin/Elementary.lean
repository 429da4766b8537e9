import Deduction.Decimal.Binary

/-!
# Elementary functions

Exponentials and logarithms in fixed-point arithmetic, and the functions made of them. They are computed with far
more places than a double has and are rounded once, so that functions which lose their digits near a zero, such as
`exp x - 1`, give the nearest double all the same.
-/

namespace Deduction.Elementary

/-! ### Fixed point -/

/-- Binary places behind the point. -/
def places : Nat := 600

/-- One, in fixed point. -/
def one : Int := powerOfTwo places

/-- The product of two fixed-point numbers. -/
def mul (x y : Int) : Int := x * y / one

/-- A finite double in fixed point, cut after the last place. -/
def ofFloat (x : Float) : Int :=
  let (m, q) := Binary.exact x
  let shift := q + places
  if 0 ≤ shift then m * powerOfTwo shift.toNat else m.tdiv (powerOfTwo (-shift).toNat)

/-- A fixed-point number as a double. -/
def toFloat (x : Int) : Float := Binary.ofQuotient x one.toNat

/-- Adds `n` terms of the series of the exponential function, from term `k` on. -/
def expSeries (x : Int) : Nat → Nat → Int → Int → Int
  | 0, _, _, sum => sum
  | n + 1, k, term, sum => expSeries x n (k + 1) (mul term x / (k + 1)) (sum + term)

/-- The exponential of a fixed-point number: the series at `x / 2 ^ 16`, squared 16 times. -/
def exp (x : Int) : Int :=
  (List.range 16).foldl (fun y _ => mul y y) (expSeries (x / powerOfTwo 16) 64 0 one 0)

/-- Adds `n` terms of the series of the inverse hyperbolic tangent; `power` is an odd power of the argument. -/
def atanhSeries (square : Int) : Nat → Nat → Int → Int → Int
  | 0, _, _, sum => sum
  | n + 1, k, power, sum => atanhSeries square n (k + 2) (mul power square) (sum + power / k)

/-- The logarithm of `num / den`, which lies between 1 and 2. -/
def logNearOne (num den : Nat) : Int :=
  let z := ((num : Int) - den) * one / (num + den)
  2 * atanhSeries (mul z z) 200 1 z 0

/-- The logarithm of a positive quotient: that of its power of two and that of what is left. -/
def log (num den : Nat) : Int :=
  let e := Binary.floorLog2 num den
  let (n, d) := Binary.scale num den (-e)
  logNearOne n d + e * logNearOne 2 1

/-- A positive double as a quotient. -/
def quotient (x : Float) : Nat × Nat :=
  let (m, q) := Binary.exact x
  (m.natAbs * powerOfTwo q.toNat, powerOfTwo (-q).toNat)

/-- The logarithm of a positive double. -/
def logOf (x : Float) : Int :=
  let (num, den) := quotient x
  log num den

/-! ### Functions of doubles -/

/-- Arguments this close to 0 are their own value under functions that are the identity near 0 up to a square. -/
def isTiny (x : Float) : Bool := x.abs < Float.ofBits 0x3C90000000000000

/-- The same for functions that are the identity near 0 up to a cube. -/
def isSmall (x : Float) : Bool := x.abs < Float.ofBits 0x3E10000000000000

/-- An odd function by its values at positive arguments. -/
def odd (f : Float → Float) (x : Float) : Float := if x < 0 then -f (-x) else f x

/-- `exp x - 1`. -/
def expm1 (x : Float) : Float :=
  if x.isNaN || isTiny x then x
  else if x > 710 then infinity
  else if x < -100 then -1
  else toFloat (exp (ofFloat x) - one)

/-- `log (1 + x)`. -/
def log1p (x : Float) : Float :=
  if x.isNaN || isTiny x then x
  else if x < -1 then nan
  else if x == -1 then -infinity
  else if !x.isFinite then x
  else
    let (m, q) := Binary.exact x
    let den := powerOfTwo (-q).toNat
    toFloat (log (m * powerOfTwo q.toNat + den).toNat den)

/-- The logarithm to base 10. -/
def log10 (x : Float) : Float :=
  if x.isNaN || x < 0 then nan
  else if x == 0 then -infinity
  else if !x.isFinite then x
  else toFloat (logOf x * one / log 10 1)

/-- The cube root. -/
def cbrt : Float → Float :=
  odd fun x => if x.isNaN || x == 0 || !x.isFinite then x else toFloat (exp (logOf x / 3))

/-- The hyperbolic sine. -/
def sinh : Float → Float :=
  odd fun x =>
    if x.isNaN || isSmall x then x
    else if x > 711 then infinity
    else toFloat ((exp (ofFloat x) - exp (-ofFloat x)) / 2)

/-- The hyperbolic cosine. -/
def cosh (x : Float) : Float :=
  if x.isNaN then x
  else if x.abs > 711 then infinity
  else toFloat ((exp (ofFloat x.abs) + exp (-ofFloat x.abs)) / 2)

/-- The hyperbolic tangent. -/
def tanh : Float → Float :=
  odd fun x =>
    if x.isNaN || isSmall x then x
    else if x > 30 then 1
    else
      let y := exp (2 * ofFloat x)
      toFloat ((y - one) * one / (y + one))

/-- The logarithm of `x + root`, where `root` is the square root of `num / den`. -/
def logWithRoot (x : Float) (num den : Nat) : Float :=
  let root := if num = 0 then 0 else exp (log num den / 2)
  toFloat (log (ofFloat x + root).toNat one.toNat)

/-- The inverse hyperbolic sine. -/
def asinh : Float → Float :=
  odd fun x =>
    if x.isNaN || isSmall x || !x.isFinite then x
    else
      let (num, den) := quotient x
      logWithRoot x (num * num + den * den) (den * den)

/-- The inverse hyperbolic cosine. -/
def acosh (x : Float) : Float :=
  if x.isNaN || x < 1 then nan
  else if !x.isFinite then x
  else
    let (num, den) := quotient x
    logWithRoot x (num * num - den * den) (den * den)

/-- The inverse hyperbolic tangent. -/
def atanh : Float → Float :=
  odd fun x =>
    if x.isNaN || isSmall x then x
    else if x > 1 then nan
    else if x == 1 then infinity
    else
      let (num, den) := quotient x
      toFloat (log (den + num) (den - num) / 2)

end Deduction.Elementary
