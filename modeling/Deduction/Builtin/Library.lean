import Deduction.Builtin.Math
import Deduction.Builtin.Words
import Deduction.Syntax.Printer

/-!
# Builtins

A builtin is used as `name(In..., Out)`: its inputs are values, and its result is the value of `Out`. A builtin
that has no value for its inputs has no result. The result may depend on the surroundings.
-/

namespace Deduction

inductive Builtin where
  | hasType
  | plus
  | minus
  | times
  | quotient
  | remainder
  | symbolize
  | newSymbolize
  | readString
  | stringify
  | readStringAll
  | stringifyAll
  | matches
  | submatches
  | stringAppend
  | stringMin
  | stringJoin
  | timestamp
  | makeTimestamp
  | datePart (part : Clock.Part)
  | append
  | reverse
  | revAppend
  | length
  | listify
  | delistify
  deriving DecidableEq

namespace Builtin

def ofName? (name : String) : Option Builtin :=
  match name with
  | "hastype" => some hasType
  | "plus" => some plus
  | "minus" => some minus
  | "times" => some times
  | "quotient" => some quotient
  | "remainder" => some remainder
  | "symbolize" => some symbolize
  | "newsymbolize" => some newSymbolize
  | "readstring" => some readString
  | "stringify" => some stringify
  | "readstringall" => some readStringAll
  | "stringifyall" => some stringifyAll
  | "matches" => some .matches
  | "submatches" => some submatches
  | "stringappend" => some stringAppend
  | "stringmin" => some stringMin
  | "stringjoin" => some stringJoin
  | "timestamp" => some timestamp
  | "maketimestamp" => some makeTimestamp
  | "append" => some append
  | "reverse" => some reverse
  | "revappend" => some revAppend
  | "length" => some length
  | "listify" => some listify
  | "delistify" => some delistify
  | _ => (Clock.Part.ofName? name).map datePart

/-- The first number combined with each of the others in turn. -/
def foldNumbers (op : Float → Float → Float) (args : List Term) : Option Term := do
  match ← numbers? args with
  | x :: xs => Term.number? (xs.foldl op x)
  | [] => none

/-- All numbers combined, starting from `unit`. -/
def foldNumbersFrom (unit : Float) (op : Float → Float → Float) (args : List Term) : Option Term := do
  Term.number? ((← numbers? args).foldl op unit)

/-- An integer as a number term. -/
def ofInt (n : Int) : Term := .number (Float.ofInt n)

/-- A list of string constants. -/
def strings (texts : List String) : Term := .list (texts.map Term.string)

/-- A compound as the list of its functor and arguments, a symbol as the list of its characters. -/
def toList : Term → Term
  | .compound f args => .list (.sym f :: args)
  | .sym s => .list (s.toList.map fun c => .sym c.toString)
  | .var v => .var v

/-- The compound that a list of a functor and arguments stands for. -/
def ofList (list : Term) : Option Term := do
  match ← list.items? with
  | head :: rest => return .apply (← head.asSymbol) rest
  | [] => none

/-- The value of a builtin on its inputs. -/
def call (surroundings : Surroundings) : Builtin → List Term → Option Term
  | hasType, x :: _ => some (.sym (if x.isCompound then "funterm" else "symbol"))
  | plus, args => foldNumbersFrom 0 (· + ·) args
  | times, args => foldNumbersFrom 1 (· * ·) args
  | minus, args => foldNumbers (· - ·) args
  | quotient, args => foldNumbers (· / ·) args
  | remainder, args => foldNumbers Binary.remainder args
  | symbolize, .sym s :: _ => some (.sym (Words.symbolize s))
  | newSymbolize, .sym s :: _ => some (.sym (Words.symbolizeWords s))
  | readString, .sym s :: _ =>
    some <| match readTerm (Text.stripQuotes s) with
      | .ok t => t
      | .error _ => .sym "error"
  | stringify, x :: _ => some (.string x.print)
  | readStringAll, .sym s :: _ =>
    some <| .list <| match readData (Text.stripQuotes s) with
      | .ok ts => ts
      | .error _ => []
  | stringifyAll, x :: _ => some (.string (printLines x.cells))
  | .matches, x :: y :: _ => do
    return strings (← surroundings.firstMatch (← x.stringText?) (← y.stringText?))
  | submatches, x :: y :: _ => do
    match surroundings.allMatches (← x.stringText?) (← y.stringText?) with
    | [] => none
    | found => some (strings found)
  | stringAppend, args => do
    return .string (String.join ((← args.mapM Term.asSymbol).map Text.stripQuotes))
  | stringMin, x :: y :: _ => do
    let right ← y.asSymbol
    let left ← x.asSymbol
    return if right < left then y else x
  | stringJoin, x :: _ => do
    let texts ← (← x.items?).mapM Term.asSymbol
    return .string (" ".intercalate (texts.map Text.stripQuotes))
  | timestamp, _ => surroundings.now.map ofInt
  | makeTimestamp, y :: mo :: d :: h :: mi :: s :: _ =>
    (Clock.millisOf surroundings.zone y.value mo.value d.value h.value mi.value s.value).map ofInt
  | datePart part, x :: _ => (part.of surroundings.zone x.value).map ofInt
  | append, x :: y :: _ => x.items?.map fun items => .chain items y
  | reverse, x :: _ => x.items?.map fun items => .list items.reverse
  | revAppend, x :: y :: _ => x.items?.map fun items => .chain items.reverse y
  | length, x :: _ => x.items?.map fun items => ofInt items.length
  | listify, x :: _ => some (toList x)
  | delistify, x :: _ => ofList x
  | _, _ => none

end Builtin

def isBuiltin (name : String) : Bool := (Builtin.ofName? name).isSome

/-- A name with a computed meaning. -/
def isComputed (name : String) : Bool := isBuiltin name || isMath name || isListOperator name

def callBuiltin (name : String) (args : List Term) (surroundings : Surroundings := {}) : Option Term :=
  (Builtin.ofName? name).bind fun b => b.call surroundings args

/-- Are the terms pairwise different? -/
def pairwiseDistinct : List Term → Bool
  | [] => true
  | t :: ts => !ts.contains t && pairwiseDistinct ts

end Deduction
