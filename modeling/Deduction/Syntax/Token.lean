/-!
# Tokens

The pieces that the text of a program is made of: words, quoted strings, anonymous variables, operators and
punctuation. Every token has one spelling.
-/

namespace Deduction

/-- Operators between terms, and in front of them. -/
inductive Operator where
  /-- A cell of a list, `head!tail`. -/
  | cell
  /-- Reserved. -/
  | hash
  | tilde
  | amp
  | bar
  | plus
  | minus
  | star
  /-- A transition, `condition ==> action`. -/
  | implies
  /-- A definition, `head := value`. -/
  | defines
  /-- A rule, `head :- body`. -/
  | provided
  /-- A handler, `pattern :: replacement`. -/
  | handles
  deriving DecidableEq

def Operator.spelling : Operator → String
  | cell => "!"
  | hash => "#"
  | tilde => "~"
  | amp => "&"
  | bar => "|"
  | plus => "+"
  | minus => "-"
  | star => "*"
  | implies => "==>"
  | defines => ":="
  | provided => ":-"
  | handles => "::"

inductive Token where
  /-- A symbol, a number or the name of a variable. -/
  | word (text : String)
  /-- A string with its quotes. -/
  | quoted (text : String)
  /-- An underscore and the word characters after it. -/
  | anonymous (text : String)
  | operator (op : Operator)
  | openParen
  | closeParen
  | openBracket
  | closeBracket
  | comma
  | period
  deriving DecidableEq

/-- The characters that a token stands for. -/
def Token.spelling : Token → String
  | word text => text
  | quoted text => text
  | anonymous text => text
  | operator op => op.spelling
  | openParen => "("
  | closeParen => ")"
  | openBracket => "["
  | closeBracket => "]"
  | comma => ","
  | period => "."

/-- A token and where it stands: the offsets of its first character and of the character after it. -/
structure PlacedToken where
  token : Token
  start : Nat
  stop : Nat
  deriving DecidableEq

end Deduction
