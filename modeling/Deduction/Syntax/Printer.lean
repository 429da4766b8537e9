import Deduction.Syntax.Reader

/-!
# From terms to text

Terms are written with as few parentheses as read back to the same term. A printer writes in front of a text that
is already there, so that no text is copied. An anonymous variable is written as an underscore.

A compound `rule` without arguments is no rule, as a rule has a head, and no operator makes it. It is written as any
other compound, `rule()`, so that every term has a text; a printer that takes the head for granted stops there.
-/

namespace Deduction

/-- The operator next to a term, `none` at a bracket or at an edge of the text. -/
abbrev Side := Option Operator

namespace Printer

/-- Does an operator on one side bind tighter than one on the other? -/
def tighter (x : Side) (op : Operator) : Bool :=
  match x with
  | some y => y.rank < op.rank
  | none => false

/-- An operator between two others needs parentheses unless it binds at least as tightly as the one on its left and
tighter than the one on its right. -/
def needsParens (left : Side) (op : Operator) (right : Side) : Bool :=
  tighter left op ||
    match right with
    | some y => !(op.rank < y.rank)
    | none => false

def text (s : String) (rest : List Char) : List Char := s.toList ++ rest

/-- Writes a term made by an operator: in parentheses if needed, and inside them without neighbours. -/
def grouped (left : Side) (op : Operator) (right : Side)
    (body : Side → Side → List Char → List Char) (rest : List Char) : List Char :=
  if needsParens left op right then '(' :: body none none (')' :: rest) else body left right rest

/-- A variable or a symbol; names that start with an underscore are anonymous. -/
def word (name : String) (rest : List Char) : List Char :=
  match name.toList with
  | '_' :: _ => '_' :: rest
  | cs => cs ++ rest

/-- The mark of a compound with one argument that is written in front of it. -/
def prefixMark? (functor : String) : Option Char :=
  match functor with
  | "insert" => some '+'
  | "delete" => some '-'
  | "enqueue" => some '*'
  | "not" => some '~'
  | _ => none

/-- The operator of a compound with two arguments that is written between them. -/
def binaryMark? (functor : String) : Option Operator :=
  match functor with
  | "transition" => some .implies
  | "definition" => some .defines
  | "handler" => some .handles
  | _ => none

/-- The operator of a chain of any number of terms. -/
def chainMark? (functor : String) : Option Operator :=
  match functor with
  | "and" => some .amp
  | "or" => some .bar
  | _ => none

/-- An operator between blanks. -/
def spaced (op : Operator) (rest : List Char) : List Char := ' ' :: text op.spelling (' ' :: rest)

mutual
/-- Writes a term between two neighbours, in front of `rest`. -/
def term (left right : Side) : Term → List Char → List Char
  | .var name, rest => word name rest
  | .sym s, rest => if s = "nil" then '[' :: ']' :: rest else word s rest
  | .compound f [], rest =>
    if (chainMark? f).isSome then text "false" rest else text f ('(' :: ')' :: rest)
  | .compound f (a :: others), rest =>
    if f = "rule" then
      grouped left .provided right
        (fun l r rest => term l (some .provided) a (spaced .provided (body r others rest))) rest
    else
      match chainMark? f, prefixMark? f, binaryMark? f, others with
      | some _, _, _, [] => term none none a rest
      | some op, _, _, others =>
        grouped left op right (fun l r rest => term l (some op) a (chain op r others rest)) rest
      | none, some mark, _, [] => mark :: term (some .tilde) right a rest
      | none, _, some op, [b] =>
        grouped left op right
          (fun l r rest => term l (some op) a (spaced op (term (some op) r b rest))) rest
      | none, _, _, [b] =>
        if f = "cons" then
          if b.isList then '[' :: term none none a (cells b (']' :: rest))
          else
            grouped left .cell right
              (fun l r rest => term l (some .cell) a ('!' :: term (some .cell) r b rest)) rest
        else text f ('(' :: term none none a (',' :: term none none b (')' :: rest)))
      | none, _, _, others => text f ('(' :: term none none a (arguments others rest))

/-- Writes the goals of a rule. -/
def body (right : Side) : List Term → List Char → List Char
  | [], rest => text "true" rest
  | [t], rest => term (some .provided) right t rest
  | t :: ts, rest => term (some .provided) (some .amp) t (chain .amp right ts rest)

/-- Writes the rest of a chain: each link with the operator in front of it. -/
def chain (op : Operator) (right : Side) : List Term → List Char → List Char
  | [], rest => rest
  | [t], rest => spaced op (term (some op) right t rest)
  | t :: ts, rest => spaced op (term (some op) (some op) t (chain op right ts rest))

/-- Writes the rest of a list of arguments, and the closing parenthesis. -/
def arguments : List Term → List Char → List Char
  | [], rest => ')' :: rest
  | t :: ts, rest => ',' :: term none none t (arguments ts rest)

/-- Writes the rest of a proper list, a comma in front of each element. -/
def cells : Term → List Char → List Char
  | .compound _ [a, b], rest => ',' :: term none none a (cells b rest)
  | _, rest => rest
end

end Printer

/-- The text of a term. -/
def Term.print (t : Term) : String := String.ofList (Printer.term none none t [])

/-- The texts of terms, each on a line of its own. -/
def printLines (terms : List Term) : String :=
  String.join (terms.map fun t => t.print ++ "\n")

end Deduction
