import Deduction.Command.Run
import Deduction.Console

/-!
# The command

Reads the files that a request names, runs the request and writes its outcome. The console works on the lines of the
standard input.
-/

namespace Deduction.Command

/-- Reads a file. -/
def readFile (name : String) : IO File := do
  let path ← try pure (← IO.FS.realPath name).toString catch _ => pure name
  try
    return ⟨path, .text (← IO.FS.readFile name)⟩
  catch e =>
    match e with
    | .noFileOrDirectory .. => return ⟨path, .missing⟩
    | e => return ⟨path, .unreadable e.toString⟩

def writeLines (out : IO.FS.Stream) (lines : List String) : IO Unit := do
  for line in lines do out.putStrLn line
  out.flush

/-- Writes an outcome; the result is its exit code. -/
def writeOutcome (o : Outcome) : IO UInt32 := do
  writeLines (← IO.getStdout) o.output
  writeLines (← IO.getStderr) o.errors
  return o.code.toUInt32

def writeResponse (r : Response) : IO Unit := do
  match r.kind with
  | .error => writeLines (← IO.getStderr) r.lines
  | _ => writeLines (← IO.getStdout) r.lines

/-- Shows what the console answers to a line. -/
def showResponse (c : Console) (line : String) : IO Console := do
  match c.respond line with
  | .ok (r, c) =>
    writeResponse r
    return c
  | .error _ => throw (IO.userError "the query does not end")

/-- Works on the lines of a stream until it ends or a line asks to quit. -/
partial def consoleLoop (input : IO.FS.Stream) (c : Console) : IO Unit := do
  let line ← input.getLine
  let command := line.trimAscii.toString
  if line.isEmpty || command = ":quit" || command = ":q" then return
  consoleLoop input (← showResponse c line)

/-- Runs the console, on the text of a file first if there is one. -/
def runConsole (settings : Settings) (file : Option File) : IO UInt32 := do
  let c : Console := { sources := .empty settings.config settings.indexed }
  let c ← match file with
    | some ⟨_, .text text⟩ => showResponse c text
    | some ⟨path, .missing⟩ =>
      writeLines (← IO.getStderr) [red s!"Failed to read '{path}': {File.missingReason}"]
      pure c
    | some ⟨path, .unreadable reason⟩ =>
      writeLines (← IO.getStderr) [red s!"Failed to read '{path}': {reason}"]
      pure c
    | none => pure c
  consoleLoop (← IO.getStdin) c
  return 0

/-- Runs a request. -/
def runRequest (r : Request) : IO UInt32 := do
  let files ← r.fileNames.mapM fun name => return (name, ← readFile name)
  match r.activity with
  | .console _ => runConsole r.settings (files.head?.map Prod.snd)
  | _ =>
    match r.run fun name => (files.lookup name).getD ⟨name, .missing⟩ with
    | .ok outcome => writeOutcome outcome
    | .error _ => throw (IO.userError "the query does not end")

end Deduction.Command

def main (args : List String) : IO UInt32 :=
  match Deduction.Command.Request.ofArguments args with
  | .ok r => Deduction.Command.runRequest r
  | .error e => Deduction.Command.writeOutcome (.ofUsageError e)
