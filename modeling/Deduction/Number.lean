import Deduction.Decimal.Shortest
import Deduction.Term.Cells
import Deduction.Text.Blank

/-!
# Numbers as symbols

A number is a symbol: its text is the shortest decimal text that reads back, without an exponent, and the
infinities have words. Reading a number takes the longest decimal literal at the front of a symbol, so `12kg` is
12; the words `true`, `false`, `blank`, `infinity` and `neginfinity` have values of their own.
-/

namespace Deduction

/-- Does the whole text write a number? -/
def isNumericText (text : String) : Bool :=
  (Decimal.parse? text.toList).isSome

/-- The text of a number that is not a NaN. Both zeros are `0`. -/
def formatNumber (x : Float) : String :=
  if x.isNaN then "NaN"
  else if x == infinity then "infinity"
  else if x == -infinity then "neginfinity"
  else if x == 0 then "0"
  else
    let bits := x.toBits.toNat
    let (n, k) := Decimal.shortest (bits % (1 <<< 63))
    let digits := Decimal.positional n k
    String.ofList (if bits < 1 <<< 63 then digits else '-' :: digits)

/-- The number at the front of a text, after blanks; `nan` when there is none. -/
def readNumber (text : String) : Float :=
  match Decimal.scan (Text.trimLeft text.toList) with
  | some (d, _) => d.toFloat
  | none => nan

/-- The value of a symbol as a number. -/
def symbolValue : String → Float
  | "blank" => 0
  | "false" => 0
  | "true" => 1
  | "infinity" => infinity
  | "neginfinity" => -infinity
  | text => readNumber text

/-- The number as a symbol. -/
def Term.number (x : Float) : Term := .sym (formatNumber x)

/-- The number as a symbol. A NaN has no symbol. -/
def Term.number? (x : Float) : Option Term :=
  if x.isNaN then none else some (.number x)

def Term.isNumeric : Term → Bool
  | .sym s => isNumericText s
  | _ => false

/-- The value of a term as a number; only symbols have one. -/
def Term.value : Term → Float
  | .sym s => symbolValue s
  | _ => nan

/-- The values of some terms, if every one has a value. -/
def numbers? (terms : List Term) : Option (List Float) :=
  let values := terms.map Term.value
  if values.any Float.isNaN then none else some values

/-- The values of the elements of a proper list, if every one has a value. -/
def Term.listNumbers? (list : Term) : Option (List Float) :=
  list.items?.bind numbers?

end Deduction
