import Deduction.Command.Request
import Deduction.Session

/-!
# Running requests

A request is run on given files and ends with what the command writes and its exit code. Answers and diagnostics are
written to the output, failures and warnings to the error output.
-/

namespace Deduction.Command

/-! ### Colours -/

/-- A text in a colour of the terminal. -/
def coloured (code text : String) : String := "\x1b[" ++ code ++ "m" ++ text ++ "\x1b[0m"

def red : String → String := coloured "31"
def green : String → String := coloured "32"
def yellow : String → String := coloured "33"
def cyan : String → String := coloured "36"

/-! ### Outcomes -/

/-- What a run of the command writes, by lines, and its exit code. -/
structure Outcome where
  code : Nat := 0
  output : List String := []
  errors : List String := []

def failureLines (message : String) (details : List String) : List String :=
  (red "error:" ++ " " ++ message) :: details

def Outcome.ofUsageError (e : UsageError) : Outcome := { code := 2, errors := failureLines e.message [] }

/-- The files of a directory: their names with their texts. -/
abbrev Directory := List (String × String)

/-- The parts of a path, with the parts that stay in a directory or go back from it carried out. -/
def pathParts (path : String) : List String :=
  let parts := (path.toList.splitOn '/').map String.ofList
  (parts.foldl (fun done part =>
    if part = "" || part = "." then done
    else if part = ".." then done.drop 1
    else part :: done) []).reverse

/-- The file that a name stands for in a directory. -/
def Directory.file (d : Directory) (name : String) : File :=
  let path := "/".intercalate (pathParts name)
  match d.lookup path with
  | some text => ⟨path, .text text⟩
  | none => ⟨path, .missing⟩

/-! ### Reading -/

/-- The lines for a file that cannot be loaded. -/
def loadFailure (name : String) (e : LoadError) : List String :=
  failureLines s!"Failed to load '{name}'" ["  " ++ e.message]

/-- The program of a file, or the lines that tell why there is none. -/
def loadProgram (settings : Settings) (name : String) (file : File) : Except (List String) Sources :=
  match (Sources.empty settings.config settings.indexed).loadFile file with
  | .ok (_, src) => return src
  | .error e => throw (loadFailure name e)

/-- An argument as a term, or the lines that tell why it is none. -/
def readArgument (role text : String) : Except (List String) Term :=
  match readTerm text with
  | .ok t => return t
  | .error e => throw (failureLines s!"Failed to read the {role}" ["  " ++ e.messageWithPlace])

/-! ### Queries -/

def limitWarning (limit : Nat) : String :=
  yellow "warning:" ++ s!" frame limit of {limit} reached, answers may be missing"

/-- The lines for the answers to a query, and whether the limit was reached. -/
def answerLines (src : Sources) (query : Term) (wanted : Option Nat) : Metered (List String × Bool) := do
  let found ← src.ask query wanted
  let lines := found.answers.map Answer.text
  let nothing := if query.shownVars.isEmpty then "false." else "No results."
  return (if lines.isEmpty then [nothing] else lines, found.limitReached)

/-- The lines for the instances of a template, and whether the limit was reached. -/
def instanceLines (src : Sources) (template query : Term) (wanted : Option Nat) :
    Metered (List String × Bool) := do
  let (found, limitReached) ← src.findDistinct wanted template query
  let lines := found.map Term.print
  return (if lines.isEmpty then ["No results."] else lines, limitReached)

/-- The program, the query and the template that a query is about. -/
def readQuery (settings : Settings) (file : File) (name query : String) (template : Option String) :
    Except (List String) (Sources × Term × Option Term) := do
  let src ← loadProgram settings name file
  let query ← readArgument "query" query
  let template ← template.mapM (readArgument "template")
  return (src, query, template)

def runQuery (settings : Settings) (file : File) (name query : String) (template : Option String)
    (wanted : Option Nat) : Except Interruption Outcome :=
  match readQuery settings file name query template with
  | .error errors => return { code := 1, errors }
  | .ok (src, query, template) => do
    let (output, limitReached) ← Metered.result <| match template with
      | some template => instanceLines src template query wanted
      | none => answerLines src query wanted
    return { output, errors := if limitReached then [limitWarning settings.config.limit] else [] }

/-! ### Checks -/

/-- The lines for what is wrong with a program, and its exit code. -/
def checkProgram (name : String) (src : Sources) : Outcome :=
  let diagnostics := src.check
  let size := src.sentences.length
  let status := if diagnostics.isEmpty then green "OK" else red "FAIL"
  { code := if diagnostics.isEmpty then 0 else 1
    output :=
      [cyan s!"Checking '{name}' ({size} sentences)..."] ++
      diagnostics.map (fun d => "  " ++ red d.message) ++
      [yellow "Summary:" ++ s!" {diagnostics.length} problem(s) | Status: " ++ status] }

/-- The outcome of the check of one file. -/
def checkFile (settings : Settings) (name : String) (file : File) : Outcome :=
  match loadProgram settings file.path file with
  | .ok src => checkProgram name src
  | .error errors => { code := 1, errors }

/-- One outcome after another, with an empty line between their outputs. -/
def Outcome.join : List Outcome → Outcome
  | [] => {}
  | [o] => o
  | o :: os =>
    let rest := join os
    ⟨max o.code rest.code, o.output ++ "" :: rest.output, o.errors ++ rest.errors⟩

/-- Leaves out files that came before under another name. -/
def distinctFiles (files : List (String × File)) : List (String × File) :=
  files.foldl (fun seen f => if seen.any (·.2.path = f.2.path) then seen else seen ++ [f]) []

/-- Is the file not there? -/
def isMissing (file : File) : Bool :=
  match file.contents with
  | .missing => true
  | _ => false

/-- The outcome of the check of some files, each once. Nothing is checked if one of them is not there. -/
def runCheck (settings : Settings) (files : List (String × File)) : Outcome :=
  match files.find? fun f => isMissing f.2 with
  | some (name, _) => { code := 1, errors := [s!"File '{name}' not found."] }
  | none => .join ((distinctFiles files).map fun (name, file) => checkFile settings name file)

/-! ### Requests -/

/-- Runs a request on files. The console is not run here, since it works on lines that are yet to come. -/
def Request.run (r : Request) (file : String → File) : Except Interruption Outcome :=
  match r.activity with
  | .query name query template wanted => runQuery r.settings (file name) name query template wanted
  | .check names => return runCheck r.settings (names.map fun name => (name, file name))
  | .console _ => return {}

/-- Runs the command on the files of a directory. -/
def run (args : List String) (d : Directory) : Except Interruption Outcome :=
  match Request.ofArguments args with
  | .ok r => r.run d.file
  | .error e => return .ofUsageError e

end Deduction.Command
