import Deduction.Regex.CharSet

/-!
# Patterns

The syntax tree of a regular expression. Alternatives are tried in order and repetitions are greedy unless marked,
so of all matches that start at one place the first in that order is the match.
-/

namespace Deduction.Regex

/-- A condition on a place in the text. -/
inductive Place where
  | textStart
  | textEnd
  | lineStart
  | lineEnd
  | wordBoundary
  | noWordBoundary
  | wordStart
  | wordEnd
  /-- No word character before the place. -/
  | wordStartHalf
  /-- No word character after the place. -/
  | wordEndHalf
  deriving DecidableEq

inductive Pattern where
  | empty
  /-- One character of a set. -/
  | char (set : CharSet)
  | place (place : Place)
  | seq (first second : Pattern)
  | alt (first second : Pattern)
  /-- At least `least` and at most `most` times, as often as possible if `greedy`. -/
  | repeated (p : Pattern) (least : Nat) (most : Option Nat) (greedy : Bool)
  /-- A group whose match is kept under a number. -/
  | capture (index : Nat) (p : Pattern)

namespace Pattern

/-- Can the pattern match without a character? -/
def nullable : Pattern → Bool
  | empty => true
  | char _ => false
  | place _ => true
  | seq p q => p.nullable && q.nullable
  | alt p q => p.nullable || q.nullable
  | repeated p least most _ => least = 0 || most = some 0 || p.nullable
  | capture _ p => p.nullable

/-- The patterns one after the other. -/
def ofSeq : List Pattern → Pattern
  | [] => empty
  | [p] => p
  | p :: ps => seq p (ofSeq ps)

/-- The patterns as alternatives. -/
def ofAlts : List Pattern → Pattern
  | [] => empty
  | [p] => p
  | p :: ps => alt p (ofAlts ps)

end Pattern

end Deduction.Regex
