import Deduction.Syntax.ReadError
import Deduction.Syntax.Token
import Deduction.Text.Blank

/-!
# From characters to tokens

The lexer is an automaton that is fed one character at a time. A point belongs to a word only when a word character
follows it, so `3.14` and `a.b` are single words and `p(a).` ends with a period; the automaton holds the point back
until it has seen the next character. Blanks and comments, from `%` to the end of the line, stand between tokens.
-/

namespace Deduction

/-! ### Character classes -/

/-- Letters and digits of the ASCII range. -/
def isWordLetter (c : Char) : Bool := c.isAlphanum

/-- Characters that continue a word. -/
def isWordChar (c : Char) : Bool :=
  isWordLetter c || c == '*' || c == '+' || c == '-' || c == '/' || c == '_'

/-- Characters that start a word. -/
def isWordStart (c : Char) : Bool := isWordLetter c || c == '/'

/-- Tokens of one character. -/
def Token.ofChar? : Char → Option Token
  | '!' => some (.operator .cell)
  | '#' => some (.operator .hash)
  | '~' => some (.operator .tilde)
  | '&' => some (.operator .amp)
  | '|' => some (.operator .bar)
  | '+' => some (.operator .plus)
  | '-' => some (.operator .minus)
  | '*' => some (.operator .star)
  | '(' => some .openParen
  | ')' => some .closeParen
  | '[' => some .openBracket
  | ']' => some .closeBracket
  | ',' => some .comma
  | '.' => some .period
  | _ => none

/-! ### The automaton -/

/-- What the lexer is in the middle of. Texts are kept with the last character first. -/
inductive LexerMode where
  | between
  | comment
  | word (start : Nat) (text : List Char)
  /-- A word and a point after it that may still belong to it. -/
  | wordPoint (start : Nat) (text : List Char)
  | anonymous (start : Nat) (text : List Char)
  | quoted (start : Nat) (text : List Char)
  | colon (start : Nat)
  | equals (start : Nat)
  | twoEquals (start : Nat)

structure Lexer where
  /-- How many characters were read. -/
  position : Nat := 0
  mode : LexerMode := .between
  /-- The tokens so far, the last one first. -/
  tokens : List PlacedToken := []

namespace Lexer

/-- The single characters that a token or a comment starts with; words are no literals. -/
def starters : List Expected :=
  ["!", "\"", "#", "%", "&", "(", ")", "*", "+", ",", "-", ".", ":", "=", "[", "]", "_", "|", "~"].map
    Expected.literal ++ [.endOfInput]

/-- What could come next in the middle of a token that needs more characters. -/
def LexerMode.missing : LexerMode → List Expected
  | .quoted _ _ => [.literal "\""]
  | .colon _ => [.literal "-", .literal ":", .literal "="]
  | .equals _ => [.literal "="]
  | .twoEquals _ => [.literal ">"]
  | _ => starters

def unexpected (l : Lexer) (c : Char) : ReadError :=
  ⟨.tokens, some c.toString, LexerMode.missing l.mode, l.position, l.position + 1⟩

/-- The lexer after a token that ends before offset `stop`. -/
def emit (l : Lexer) (token : Token) (start stop : Nat) : Lexer :=
  { l with mode := .between, tokens := ⟨token, start, stop⟩ :: l.tokens }

/-- The lexer after the token, if any, that ends where the lexer stands. -/
def close (l : Lexer) : Lexer :=
  match l.mode with
  | .word start text => l.emit (.word (String.ofList text.reverse)) start l.position
  | .wordPoint start text =>
    (l.emit (.word (String.ofList text.reverse)) start (l.position - 1)).emit .period (l.position - 1) l.position
  | .anonymous start text => l.emit (.anonymous (String.ofList text.reverse)) start l.position
  | .comment => { l with mode := .between }
  | _ => l

/-- The first character of a token, a blank, or the start of a comment. -/
def start (l : Lexer) (c : Char) : Except ReadError Lexer :=
  let next : LexerMode → Lexer := fun mode => { l with position := l.position + 1, mode }
  if Text.isBlank c then .ok (next .between)
  else if isWordStart c then .ok (next (.word l.position [c]))
  else
    match c with
    | '%' => .ok (next .comment)
    | '"' => .ok (next (.quoted l.position [c]))
    | '_' => .ok (next (.anonymous l.position [c]))
    | ':' => .ok (next (.colon l.position))
    | '=' => .ok (next (.equals l.position))
    | _ =>
      match Token.ofChar? c with
      | some token => .ok ((next .between).emit token l.position (l.position + 1))
      | none => .error (l.unexpected c)

/-- Reads one character. -/
def step (l : Lexer) (c : Char) : Except ReadError Lexer :=
  let next : LexerMode → Lexer := fun mode => { l with position := l.position + 1, mode }
  let finish : Token → Nat → Except ReadError Lexer := fun token start =>
    .ok ((next .between).emit token start (l.position + 1))
  match l.mode with
  | .between => l.start c
  | .comment => .ok (next (if c == '\n' || c == '\r' then .between else .comment))
  | .word start text =>
    if isWordChar c then .ok (next (.word start (c :: text)))
    else if c == '.' then .ok (next (.wordPoint start text))
    else l.close.start c
  | .wordPoint start text =>
    if isWordChar c then .ok (next (.word start (c :: '.' :: text)))
    else l.close.start c
  | .anonymous start text =>
    if isWordChar c then .ok (next (.anonymous start (c :: text))) else l.close.start c
  | .quoted start text =>
    if c == '"' then finish (.quoted (String.ofList (c :: text).reverse)) start
    else .ok (next (.quoted start (c :: text)))
  | .colon start =>
    match c with
    | '=' => finish (.operator .defines) start
    | '-' => finish (.operator .provided) start
    | ':' => finish (.operator .handles) start
    | _ => .error (l.unexpected c)
  | .equals start => if c == '=' then .ok (next (.twoEquals start)) else .error (l.unexpected c)
  | .twoEquals start => if c == '>' then finish (.operator .implies) start else .error (l.unexpected c)

/-- The tokens, once all characters were read. -/
def finish (l : Lexer) : Except ReadError (List PlacedToken) :=
  match l.close with
  | ⟨_, .between, tokens⟩ => .ok tokens.reverse
  | ⟨position, mode, _⟩ => .error ⟨.tokens, none, LexerMode.missing mode, position, position⟩

end Lexer

/-- The tokens of a text. -/
def tokenize (text : String) : Except ReadError (List PlacedToken) := do
  (← text.toList.foldlM Lexer.step {}).finish

end Deduction
