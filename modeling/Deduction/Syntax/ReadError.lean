/-!
# Read errors

A text fails to read at one place: the first character that no token continues with, or the first token that no
sentence continues with. The error names what stands there and the literal texts that could have stood there.
-/

namespace Deduction

/-- Which stage of reading failed. -/
inductive ReadStage where
  /-- The text does not divide into tokens. -/
  | tokens
  /-- The tokens do not make sentences. -/
  | sentences
  deriving DecidableEq

/-- Something that could have come next. -/
inductive Expected where
  | literal (text : String)
  | endOfInput
  deriving DecidableEq

def Expected.description : Expected → String
  | literal text => s!"'{text}'"
  | endOfInput => "end of input"

structure ReadError where
  stage : ReadStage
  /-- What stands at the place, nothing at the end of the text. -/
  found : Option String
  expected : List Expected
  /-- The offsets in characters of the place and of what follows it. -/
  start : Nat
  stop : Nat
  deriving DecidableEq

namespace ReadError

/-- What could have come next, each once, in the order of the texts. -/
def expectedTexts (e : ReadError) : List String :=
  ((e.expected.map Expected.description).eraseDups).mergeSort fun a b => decide (a ≤ b)

def message (e : ReadError) : String :=
  let found := match e.found with
    | some text => s!"unexpected '{text}'"
    | none => "unexpected end of input"
  match e.expectedTexts with
  | [] => found
  | texts => found ++ ", expected " ++ " or ".intercalate texts

/-- The message with the place. -/
def messageWithPlace (e : ReadError) : String :=
  s!"{e.message} at {e.start}..{e.stop}"

end ReadError

end Deduction
