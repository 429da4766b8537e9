import Deduction.Names
import Deduction.Number
import Deduction.Syntax.Lexer
import Deduction.Term.Sentence

/-!
# From tokens to terms

The reader is a stack automaton that is fed one token at a time. On the stack are the operators and brackets whose
right side is still to come; an operator to the right of a term first completes every operator on the stack that
binds tighter. From the tightest: `!`, the prefixes `~ + - *`, `&`, `|`, `==>`, `:=`, `:-`, `::`; all group to the
right. Chains of `&` and of `|` become one term, and the body of a rule that is a conjunction becomes the goals of
the rule.

Every stack that the automaton reaches can still be completed to sentences, so the first token it refuses is the
first one that no sentence continues with.
-/

namespace Deduction

/-! ### Operators -/

/-- How loosely an operator binds its operands. -/
def Operator.rank : Operator → Nat
  | cell => 0
  | hash => 1
  | tilde | plus | minus | star => 2
  | amp => 3
  | bar => 4
  | implies => 5
  | defines => 6
  | provided => 7
  | handles => 8

def Operator.isBinary : Operator → Bool
  | cell | amp | bar | implies | defines | provided | handles => true
  | _ => false

def Operator.isPrefix : Operator → Bool
  | tilde | plus | minus | star => true
  | _ => false

namespace Term

/-- The goals that a term contributes to a chain: the goals of a chain of the same kind, or the term alone. -/
def links (functor : String) : Term → List Term
  | compound f args => if f = functor then args else [compound f args]
  | t => [t]

/-- Two terms joined into one chain. -/
def joinChain (functor : String) (left right : Term) : Term :=
  compound functor (left.links functor ++ right.links functor)

/-- A rule; a conjunction as body spreads into goals. -/
def ruleOfBody (head body : Term) : Term := rule head (body.links "and")

/-- A minus in front of a number changes its sign; in front of another term it is a deletion. -/
def minus : Term → Term
  | sym s =>
    if isNumericText s then
      match s.toList with
      | '-' :: positive => sym (String.ofList positive)
      | cs => sym (String.ofList ('-' :: cs))
    else compound "delete" [sym s]
  | t => compound "delete" [t]

end Term

/-- The term that a binary operator makes of its operands. -/
def Operator.combine : Operator → Term → Term → Term
  | amp, left, right => .joinChain "and" left right
  | bar, left, right => .joinChain "or" left right
  | implies, left, right => .transition left right
  | defines, left, right => .definition left right
  | provided, left, right => .ruleOfBody left right
  | handles, left, right => .handler left right
  | _, left, right => .cons left right

/-- The term that a prefix operator makes of its operand. -/
def Operator.wrap : Operator → Term → Term
  | plus, operand => .compound "insert" [operand]
  | star, operand => .compound "enqueue" [operand]
  | minus, operand => operand.minus
  | _, operand => .negation operand

/-! ### The automaton -/

/-- How the terms of a text are laid out. -/
inductive Layout where
  /-- One term, with one period after it or none. -/
  | one
  /-- Any number of terms, with periods between them or none. -/
  | data
  /-- Terms with commas between them and possibly after the last one. -/
  | items
  deriving DecidableEq

/-- Something whose right side is still to come. -/
inductive Pending where
  | binary (left : Term) (op : Operator)
  | unary (op : Operator)
  | parens
  /-- An open list with its items so far, the last one first. -/
  | list (items : List Term)
  /-- An open list of arguments. -/
  | arguments (functor : String) (args : List Term)

/-- What the reader has at hand. -/
inductive Focus where
  /-- A term has to come. Right after an opening bracket it may also close. -/
  | operand (closable : Bool)
  /-- A word that an opening parenthesis makes a functor. -/
  | word (name : String)
  /-- A term that operators may continue. -/
  | complete (term : Term)
  /-- Nothing may follow. -/
  | ended

structure Reader where
  layout : Layout
  stack : List Pending := []
  focus : Focus := .operand false
  /-- The terms so far, the last one first. -/
  terms : List Term := []

namespace Reader

/-- Completes the operators on top of the stack that `binds` says bind tighter than what comes. -/
def reduce (binds : Operator → Bool) (t : Term) : List Pending → Term × List Pending
  | .binary left op :: stack =>
    if binds op then reduce binds (op.combine left t) stack else (t, .binary left op :: stack)
  | .unary op :: stack =>
    if binds op then reduce binds (op.wrap t) stack else (t, .unary op :: stack)
  | stack => (t, stack)

/-- Completes every operator up to the innermost open bracket. -/
def reduceAll (t : Term) (stack : List Pending) : Term × List Pending :=
  reduce (fun _ => true) t stack

/-- The innermost open bracket. -/
def innermost : List Pending → Option Pending
  | .binary _ _ :: stack => innermost stack
  | .unary _ :: stack => innermost stack
  | p :: _ => some p
  | [] => none

/-- The term at hand, if it is complete. -/
def Focus.term? : Focus → Option Term
  | .word name => some (.ofWord name)
  | .complete t => some t
  | _ => none

/-! ### What could come next -/

def operandStarts : List Expected := [.literal "(", .literal "["]

def binaryOperators : List Expected :=
  [Operator.cell, .amp, .bar, .implies, .defines, .provided, .handles].map fun op => .literal op.spelling

/-- What could come where a term has to come. -/
def expectedAtOperand (r : Reader) (closable : Bool) : List Expected :=
  match r.stack, r.layout with
  | .list _ :: _, _ => operandStarts ++ if closable then [.literal "]"] else []
  | .arguments _ _ :: _, _ => operandStarts ++ if closable then [.literal ")"] else []
  | [], .data => operandStarts ++ [.literal ".", .endOfInput]
  | [], .items => operandStarts ++ [.endOfInput]
  | _, _ => operandStarts

/-- What could come after a complete term, operators apart. -/
def expectedClosers (r : Reader) : List Expected :=
  match innermost r.stack, r.layout with
  | some .parens, _ => [.literal ")"]
  | some (.list _), _ => [.literal ",", .literal "]"]
  | some (.arguments _ _), _ => [.literal ",", .literal ")"]
  | _, .one => [.literal ".", .endOfInput]
  | _, .data => operandStarts ++ [.literal ".", .endOfInput]
  | _, .items => [.literal ",", .endOfInput]

/-- What could come next. -/
def expected (r : Reader) : List Expected :=
  match r.focus with
  | .operand closable => r.expectedAtOperand closable
  | .word _ => .literal "(" :: binaryOperators ++ r.expectedClosers
  | .complete _ => binaryOperators ++ r.expectedClosers
  | .ended => [.endOfInput]

/-! ### Steps -/

/-- Ends the term at hand as one of the terms of the text, if no bracket is open. -/
def endTerm? (r : Reader) (t : Term) (focus : Focus) : Option Reader :=
  match reduceAll t r.stack with
  | (t, []) => some { r with stack := [], focus, terms := t :: r.terms }
  | _ => none

/-- Reads a token where a term has to come. -/
def startOperand (r : Reader) (closable : Bool) : Token → Option Reader
  | .word name => some { r with focus := .word name }
  | .quoted text => some { r with focus := .complete (.sym text) }
  | .anonymous _ => some { r with focus := .complete (.var "_") }
  | .openParen => some { r with stack := .parens :: r.stack, focus := .operand false }
  | .openBracket => some { r with stack := .list [] :: r.stack, focus := .operand true }
  | .operator op =>
    if op.isPrefix then some { r with stack := .unary op :: r.stack, focus := .operand false } else none
  | .closeBracket =>
    match closable, r.stack with
    | true, .list items :: stack => some { r with stack, focus := .complete (.list items.reverse) }
    | _, _ => none
  | .closeParen =>
    match closable, r.stack with
    | true, .arguments f args :: stack => some { r with stack, focus := .complete (.apply f args.reverse) }
    | _, _ => none
  | .period => if r.stack.isEmpty && r.layout = .data then some r else none
  | .comma => none

/-- Reads a token after a complete term. -/
def continueTerm (r : Reader) (t : Term) (token : Token) : Option Reader :=
  match token with
  | .operator op =>
    if op.isBinary then
      let (left, stack) := reduce (fun on => on.rank < op.rank) t r.stack
      some { r with stack := .binary left op :: stack, focus := .operand false }
    else nextTerm
  | .comma =>
    match reduceAll t r.stack with
    | (t, .list items :: stack) =>
      some { r with stack := .list (t :: items) :: stack, focus := .operand false }
    | (t, .arguments f args :: stack) =>
      some { r with stack := .arguments f (t :: args) :: stack, focus := .operand false }
    | _ => if r.layout = .items then r.endTerm? t (.operand false) else none
  | .closeParen =>
    match reduceAll t r.stack with
    | (t, .parens :: stack) => some { r with stack, focus := .complete t }
    | (t, .arguments f args :: stack) =>
      some { r with stack, focus := .complete (.apply f (t :: args).reverse) }
    | _ => none
  | .closeBracket =>
    match reduceAll t r.stack with
    | (t, .list items :: stack) => some { r with stack, focus := .complete (.list (t :: items).reverse) }
    | _ => none
  | .period =>
    match r.layout with
    | .one => r.endTerm? t .ended
    | .data => r.endTerm? t (.operand false)
    | .items => none
  | _ => nextTerm
where
  /-- In data a term may start right after another one. -/
  nextTerm : Option Reader :=
    if r.layout = .data then
      (r.endTerm? t (.operand false)).bind fun r => r.startOperand false token
    else none

/-- Reads one token; `none` if no sentence continues with it. -/
def step? (r : Reader) (token : Token) : Option Reader :=
  match r.focus with
  | .operand closable => r.startOperand closable token
  | .word name =>
    match token with
    | .openParen => some { r with stack := .arguments name [] :: r.stack, focus := .operand true }
    | _ => r.continueTerm (.ofWord name) token
  | .complete t => r.continueTerm t token
  | .ended => none

/-- The terms, if the text may end here. -/
def finish? (r : Reader) : Option (List Term) :=
  match r.focus with
  | .operand _ => if r.stack.isEmpty && r.layout ≠ .one then some r.terms.reverse else none
  | .word name => (r.endTerm? (.ofWord name) .ended).map fun r => r.terms.reverse
  | .complete t => (r.endTerm? t .ended).map fun r => r.terms.reverse
  | .ended => some r.terms.reverse

/-- Reads one token; the error names it and what could have come instead. -/
def step (r : Reader) (t : PlacedToken) : Except ReadError Reader :=
  match r.step? t.token with
  | some r => .ok r
  | none => .error ⟨.sentences, some t.token.spelling, r.expected, t.start, t.stop⟩

/-- The terms of a text of `length` characters, once all tokens were read. -/
def finish (r : Reader) (length : Nat) : Except ReadError (List Term) :=
  match r.finish? with
  | some terms => .ok terms
  | none => .error ⟨.sentences, none, r.expected, length, length⟩

end Reader

/-- The terms of a text, anonymous variables still without names. -/
def parse (layout : Layout) (text : String) : Except ReadError (List Term) := do
  let tokens ← tokenize text
  (← tokens.foldlM Reader.step { layout }).finish text.length

/-! ### Anonymous variables -/

namespace Term

mutual
/-- Gives each anonymous variable a name of its own, from left to right. -/
def nameAnonymous : Term → NameSupply → Term × NameSupply
  | var v, names => if v = "_" then names.freshAnonymous else (var v, names)
  | sym s, names => (sym s, names)
  | compound f args, names =>
    let (args, names) := nameAnonymousList args names
    (compound f args, names)

def nameAnonymousList : List Term → NameSupply → List Term × NameSupply
  | [], names => ([], names)
  | t :: ts, names =>
    let (t, names) := nameAnonymous t names
    let (ts, names) := nameAnonymousList ts names
    (t :: ts, names)
end

end Term

/-! ### Reading -/

/-- Reads the terms of a text laid out as `layout`. -/
def readTerms (layout : Layout) (text : String) (names : NameSupply) :
    Except ReadError (List Term × NameSupply) :=
  (parse layout text).map fun terms => Term.nameAnonymousList terms names

/-- Reads terms with periods between them. -/
def readDataWith (text : String) (names : NameSupply) : Except ReadError (List Term × NameSupply) :=
  readTerms .data text names

def readData (text : String) : Except ReadError (List Term) :=
  (readDataWith text {}).map Prod.fst

/-- Reads one term; a period may follow it. -/
def readTerm (text : String) : Except ReadError Term :=
  (readTerms .one text {}).map fun (terms, _) => terms.headD .nil

end Deduction
