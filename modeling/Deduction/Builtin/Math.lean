import Deduction.Builtin.Elementary
import Deduction.Builtin.Surroundings

/-!
# Functions on numbers

The functions that are used as `name(Args..., Result)` and the operators on lists of numbers that are used as
`name(List, Result)`. A missing argument counts as a NaN, and a result that is a NaN is no result.
-/

namespace Deduction

/-- The sum of some numbers; the empty sum is negative zero, the neutral element of addition. -/
def sumOf (xs : List Float) : Float := xs.foldl (· + ·) (-0.0)

/-- The larger of two numbers; a NaN gives way to a number. -/
def larger (x y : Float) : Float := if x.isNaN || x < y then y else x

/-- The smaller of two numbers; a NaN gives way to a number. -/
def smaller (x y : Float) : Float := if x.isNaN || y < x then y else x

def largest (xs : List Float) : Float := xs.foldl larger (-infinity)

def smallest (xs : List Float) : Float := xs.foldl smaller infinity

namespace Math

/-- The integer part. -/
def trunc (x : Float) : Float := if x < 0 then x.ceil else x.floor

/-- 1 with the sign of the number; zeros and NaN are kept. -/
def sign (x : Float) : Float :=
  if x.isNaN || x == 0 then x else if x < 0 then -1 else 1

/-- The value of a function of one argument; further arguments do not matter. -/
def unary (f : Float → Float) (xs : List Float) : Float := f (xs.headD nan)

/-- The value of a function of two arguments. -/
def binary (f : Float → Float → Float) : List Float → Float
  | x :: y :: _ => f x y
  | [x] => f x nan
  | [] => f nan nan

/-- The function of a name, where a number has been drawn at random. -/
def ofName? (drawn : Float) (name : String) : Option (List Float → Float) :=
  match name with
  | "abs" => some (unary Float.abs)
  | "acos" => some (unary Float.acos)
  | "acosh" => some (unary Elementary.acosh)
  | "asin" => some (unary Float.asin)
  | "asinh" => some (unary Elementary.asinh)
  | "atan" => some (unary Float.atan)
  | "atanh" => some (unary Elementary.atanh)
  | "atan2" => some (binary Float.atan2)
  | "cbrt" => some (unary Elementary.cbrt)
  | "ceil" => some (unary Float.ceil)
  | "cos" => some (unary Float.cos)
  | "cosh" => some (unary Elementary.cosh)
  | "exp" => some (unary Float.exp)
  | "expm1" => some (unary Elementary.expm1)
  | "floor" => some (unary Float.floor)
  | "hypot" => some fun xs => (sumOf (xs.map fun x => x * x)).sqrt
  | "log" => some (unary Float.log)
  | "log1p" => some (unary Elementary.log1p)
  | "log2" => some (unary Float.log2)
  | "log10" => some (unary Elementary.log10)
  | "max" => some largest
  | "min" => some smallest
  | "pow" => some (binary Float.pow)
  | "random" => some fun _ => drawn
  | "round" => some (unary fun x => (x + 0.5).floor)
  | "sign" => some (unary sign)
  | "sin" => some (unary Float.sin)
  | "sinh" => some (unary Elementary.sinh)
  | "sqrt" => some (unary Float.sqrt)
  | "tan" => some (unary Float.tan)
  | "tanh" => some (unary Elementary.tanh)
  | "trunc" => some (unary trunc)
  | _ => none

end Math

def isMath (name : String) : Bool := (Math.ofName? nan name).isSome

/-- The value of a function of a name, if there is one of that name. -/
def applyMath (name : String) (xs : List Float) (drawn : Float := nan) : Option Float :=
  (Math.ofName? drawn name).map fun f => f xs

/-! ### Operators on lists -/

inductive ListOperator where
  | maximum
  | minimum
  | range
  | midrange
  | sum
  | median
  | mean
  | variance
  | stddev
  deriving DecidableEq

namespace ListOperator

def ofName? (name : String) : Option ListOperator :=
  match name with
  | "maximum" => some maximum
  | "minimum" => some minimum
  | "range" => some range
  | "midrange" => some midrange
  | "sum" => some sum
  | "median" => some median
  | "mean" => some mean
  | "variance" => some variance
  | "stddev" => some stddev
  | _ => none

def meanOf (xs : List Float) : Float := sumOf xs / Float.ofNat xs.length

/-- The mean square distance from the mean. -/
def varianceOf (xs : List Float) : Float :=
  let mean := meanOf xs
  meanOf (xs.map fun x => (x - mean) * (x - mean))

/-- The place of a number in the total order of bit patterns, in which negative zero comes before zero. -/
def rankOf (x : Float) : Nat :=
  let bits := x.toBits.toNat
  if bits < 1 <<< 63 then bits + 1 <<< 63 else (1 <<< 64) - 1 - bits

/-- The number in the middle, or the mean of the two in the middle. -/
def medianOf (xs : List Float) : Float :=
  let sorted := xs.mergeSort fun x y => rankOf x ≤ rankOf y
  let mid := sorted.length / 2
  if sorted.length % 2 = 1 then sorted.getD mid nan
  else (sorted.getD (mid - 1) nan + sorted.getD mid nan) / 2

/-- The value of an operator on a list of numbers. -/
def apply : ListOperator → List Float → Float
  | maximum, xs => largest xs
  | minimum, xs => smallest xs
  | range, xs => largest xs - smallest xs
  | midrange, xs => (largest xs + smallest xs) / 2
  | sum, xs => sumOf xs
  | median, xs => medianOf xs
  | mean, xs => meanOf xs
  | variance, xs => varianceOf xs
  | stddev, xs => (varianceOf xs).sqrt

end ListOperator

def isListOperator (name : String) : Bool := (ListOperator.ofName? name).isSome

/-- The value of a function of numbers on terms. Every argument must have a value. -/
def callMath (name : String) (args : List Term) (surroundings : Surroundings := {}) : Option Term := do
  Term.number? (← applyMath name (← numbers? args) surroundings.drawn)

/-- The value of a list operator on a list term. -/
def callListOperator (name : String) (list : Term) : Option Term := do
  let op ← ListOperator.ofName? name
  Term.number? (op.apply (← list.listNumbers?))

end Deduction
