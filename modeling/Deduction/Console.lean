import Deduction.Session
import Deduction.Text.Blank
import Deduction.Update

/-!
# The console

The console works on lines of text: sentences to be added, updates, queries and commands. A query shows its first
answer, and each `:more` the next one of the last query.
-/

namespace Deduction

/-- A query and how many of its answers were shown. -/
structure LastQuery where
  query : Term
  shown : Nat

structure Console where
  sources : Sources
  last : Option LastQuery := none

inductive Response.Kind where
  | info
  | output
  | error
  deriving DecidableEq

/-- What the console shows for a line. -/
structure Response where
  kind : Response.Kind
  lines : List String

namespace Console

/-- The text without dots at its end. -/
def dropDots (cs : List Char) : List Char := (cs.reverse.dropWhile (· == '.')).reverse

def readFailure (e : ReadError) : Response := ⟨.error, [s!"Read error: {e.messageWithPlace}"]⟩

def helpLines : List String :=
  ["Commands:",
   "  :help / :h   Show this help message",
   "  :quit / :q   Exit the REPL",
   "  :facts       List the stored facts",
   "  :rules       List the rules, handlers, transitions and definitions",
   "  :check       Check the program for unsafe and unstratified rules",
   "  :more        Show the next answer of the last query",
   "  ?- query     Show the first answer of a query",
   "  +fact -fact  Insert or delete a fact (any update expression works)",
   "Anything else is read as facts and rules, e.g. 'p(a).' or 'q(X) :- p(X).'"]

/-! ### Sentences -/

/-- A number of things. -/
def countText (label : String) (n : Nat) : String := if n = 1 then s!"1 {label}" else s!"{n} {label}s"

def summaryLine (summary : LoadSummary) : String :=
  match summary.facts, summary.rules with
  | 0, 0 => "Nothing new."
  | n, 0 => "Added " ++ countText "fact" n ++ "."
  | 0, n => "Added " ++ countText "rule" n ++ "."
  | n, m => "Added " ++ countText "fact" n ++ " and " ++ countText "rule" m ++ "."

/-- Adds the sentences of a line. -/
def addSentences (c : Console) (line : String) : Response × Console :=
  match c.sources.load line with
  | .ok (summary, sources) => (⟨.info, [summaryLine summary]⟩, { c with sources })
  | .error e => (readFailure e, c)

/-- The stored sentences that are on the side of the rules by their shape, or those that are not. -/
def listSentences (c : Console) (rules : Bool) : Response :=
  match c.sources.sentences.filter (·.isRuleSentence == rules) with
  | [] => ⟨.info, [if rules then "No rules." else "No facts."]⟩
  | sentences => ⟨.output, sentences.map fun t => s!"{t.print}."⟩

def check (c : Console) : Response :=
  match c.sources.check with
  | [] => ⟨.info, ["No problems found."]⟩
  | diagnostics => ⟨.error, diagnostics.map Diagnostic.message⟩

/-! ### Updates and queries -/

/-- Carries out the update of a line. -/
def update (c : Console) (line : List Char) : Except Interruption (Response × Console) :=
  match readTerm (String.ofList (dropDots line)) with
  | .error e => return (readFailure e, c)
  | .ok seed => do
    let (outputs, sources) ← (c.sources.execute seed).result
    return (⟨.info, "Updated." :: outputs.map fun t => s!"Output: {t.print}"⟩, { c with sources })

/-- What is shown when there is no answer, to a query or to a wish for more. -/
def noAnswer (query : Term) (isFirst : Bool) : String :=
  if !isFirst then "No more results."
  else if query.shownVars.isEmpty then "false."
  else "No results."

/-- Shows the answer to a query that comes after those that were shown. -/
def showNext (c : Console) (last : LastQuery) (isFirst : Bool) : Except Interruption (Response × Console) := do
  let found ← (c.sources.ask last.query (some (last.shown + 1))).result
  let note := if found.limitReached then ["Frame limit reached; there may be more answers."] else []
  match found.answers[last.shown]? with
  | some answer =>
    let last := { last with shown := last.shown + 1 }
    return (⟨.output, answer.text :: note⟩, { c with last := some last })
  | none => return (⟨.output, noAnswer last.query isFirst :: note⟩, { c with last := some last })

/-- Shows the first answer to the query of a line. -/
def ask (c : Console) (line : List Char) : Except Interruption (Response × Console) :=
  match readTerm (String.ofList (dropDots (Text.trim line))) with
  | .error e => return (readFailure e, c)
  | .ok query => c.showNext ⟨query, 0⟩ true

/-- Shows the next answer to the last query. -/
def more (c : Console) : Except Interruption (Response × Console) :=
  match c.last with
  | some last => c.showNext last false
  | none => return (⟨.error, ["No query to continue."]⟩, c)

/-! ### Lines -/

/-- What the console shows for a line, and the console after it. -/
def respond (c : Console) (line : String) : Except Interruption (Response × Console) :=
  let chars := Text.trim line.toList
  let text := String.ofList chars
  match text with
  | "" => return (⟨.info, []⟩, c)
  | ":help" => return (⟨.info, helpLines⟩, c)
  | ":h" => return (⟨.info, helpLines⟩, c)
  | ":facts" => return (c.listSentences false, c)
  | ":rules" => return (c.listSentences true, c)
  | ":check" => return (c.check, c)
  | ":more" => c.more
  | _ =>
    match chars with
    | '?' :: '-' :: rest => c.ask rest
    | ':' :: _ => return (⟨.error, [s!"Unknown command '{text}'. Type :help for commands."]⟩, c)
    | first :: _ =>
      if first = '+' || first = '-' || first = '*' then c.update chars else return c.addSentences text
    | [] => return (⟨.info, []⟩, c)

end Console

end Deduction
