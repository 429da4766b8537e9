import Deduction.Analysis.Diagnostic
import Deduction.Program
import Deduction.Search.Query
import Deduction.Syntax.Reader

/-!
# Sessions

A session is a program that texts are loaded into and that is asked queries. An answer to a query tells the values
of its variables; variables whose names start with an underscore do not show.
-/

namespace Deduction

/-! ### Loading -/

/-- The contents of a file, as far as they can be had. -/
inductive File.Contents where
  | missing
  | unreadable (reason : String)
  | text (text : String)

/-- A file by its full path, which two names of one file agree in. -/
structure File where
  path : String
  contents : File.Contents

inductive LoadError where
  | read (error : ReadError)
  | access (path reason : String)

/-- What is said of a file that is not there. -/
def File.missingReason : String := "No such file or directory (os error 2)"

def LoadError.message : LoadError → String
  | read error => error.messageWithPlace
  | access path reason => s!"failed to read '{path}': {reason}"

/-- How many facts and rule sentences were new. -/
structure LoadSummary where
  facts : Nat := 0
  rules : Nat := 0
  deriving DecidableEq

namespace Sources

/-- Sources without sentences. Without an index every lookup gives all entries. -/
def empty (config : Config) (indexed : Bool) : Sources where
  facts := { mode := if indexed then .full else .none }
  rules := { mode := if indexed then .rule else .none }
  config := config

/-- Adds a sentence and counts it if it is new. -/
def loadSentence (state : LoadSummary × Sources) (t : Term) : LoadSummary × Sources :=
  let (summary, src) := state
  let (isNew, src) := src.addSentence t
  (if !isNew then summary
    else if t.isRuleSentence then { summary with rules := summary.rules + 1 }
    else { summary with facts := summary.facts + 1 }, src)

/-- Adds the sentences of a text, or nothing if it does not read. -/
def load (src : Sources) (text : String) : Except ReadError (LoadSummary × Sources) := do
  return (← readData text).foldl loadSentence ({}, src)

/-- Adds the sentences of a file. -/
def loadFile (src : Sources) (file : File) : Except LoadError (LoadSummary × Sources) :=
  match file.contents with
  | .missing => throw (.access file.path File.missingReason)
  | .unreadable reason => throw (.access file.path reason)
  | .text text => (src.load text).mapError .read

/-- What is wrong with the program. -/
def check (src : Sources) : List Diagnostic := diagnose src.sentences

end Sources

/-! ### Asking -/

/-- The values of the variables of a query. -/
structure Answer where
  bindings : List (String × Term)

namespace Answer

def get? (a : Answer) (v : String) : Option Term := a.bindings.lookup v

def text (a : Answer) : String :=
  if a.bindings.isEmpty then "true."
  else ", ".intercalate (a.bindings.map fun (v, value) => s!"{v} = {value.print}")

end Answer

structure Answers where
  answers : List Answer
  /-- The query ended for reaching its limit, so there may be further answers. -/
  limitReached : Bool

/-- The variables of a query that answers show. -/
def Term.shownVars (query : Term) : List String := query.vars.filter fun v => !v.startsWith "_"

/-- The different answers to a query, at most as many as are wanted, but at least one if there are any. -/
def Sources.ask (src : Sources) (query : Term) (wanted : Option Nat) : Metered Answers := do
  let vars := query.shownVars
  let (found, limitReached) ← src.findDistinct wanted (.list (vars.map .var)) query
  return ⟨found.map fun values => ⟨vars.zip (values.items?.getD [])⟩, limitReached⟩

end Deduction
