import Deduction.Search.Meter

/-!
# Requests

The arguments of the command name an activity and what it is applied to. Options may stand anywhere; the value of an
option follows it, or an equals sign. After `--` there are no options.
-/

namespace Deduction

namespace Command

/-- Settings that every activity takes. -/
structure Settings where
  config : Config := {}
  /-- Are facts and rules indexed? -/
  indexed : Bool := true

inductive Activity where
  /-- Answers a query to the program of a file: with the values of its variables, or with instances of a template. -/
  | query (file query : String) (template : Option String) (wanted : Option Nat)
  /-- Tells what is wrong with the programs of some files. -/
  | check (files : List String)
  /-- Works on lines, after those of a file if there is one. -/
  | console (file : Option String)

structure Request where
  settings : Settings
  activity : Activity

/-- Why arguments are no request. -/
inductive UsageError where
  | unknownOption (name : String)
  | missingValue (name : String)
  | unexpectedValue (name : String)
  | notANumber (name value : String)
  | repeated (name : String)
  | conflict (name other : String)
  | unknownActivity (words : List String)

def UsageError.message : UsageError → String
  | unknownOption name => s!"unexpected argument '{name}'"
  | missingValue name => s!"a value is required for '{name}'"
  | unexpectedValue name => s!"'{name}' takes no value"
  | notANumber name value => s!"'{value}' is no number for '{name}'"
  | repeated name => s!"'{name}' cannot be used more than once"
  | conflict name other => s!"'{name}' cannot be used with '{other}'"
  | unknownActivity [] => "a command is required: query FILE QUERY, check FILE..., repl [FILE]"
  | unknownActivity words => "these words are no command: " ++ " ".intercalate words

/-! ### Options -/

/-- Options that have a value. -/
def valueOptions : List String := ["--frame-limit", "--trace", "--template", "--limit"]

/-- Options that have none. -/
def flags : List String := ["--occurs-check", "--no-index", "--all", "--verbose"]

/-- Arguments with the options taken out. -/
structure Arguments where
  /-- The arguments that are not options, the last one first. -/
  words : List String := []
  /-- The options with their values, the last one first; a flag has no text for a value. -/
  options : List (String × String) := []

namespace Arguments

/-- Adds an option. Only `--trace` and `--verbose` may be there more than once. -/
def addOption (a : Arguments) (name value : String) : Except UsageError Arguments :=
  if name ≠ "--trace" && name ≠ "--verbose" && (a.options.lookup name).isSome then throw (.repeated name)
  else return { a with options := (name, value) :: a.options }

/-- Is it the letter for more talk, once or several times? -/
def isVerbosity (arg : List Char) : Bool :=
  match arg with
  | '-' :: 'v' :: rest => rest.all (· == 'v')
  | _ => false

/-- Sorts out arguments from left to right. -/
def collect : List String → Arguments → Except UsageError Arguments
  | [], a => return a
  | "--" :: rest, a => return { a with words := rest.reverse ++ a.words }
  | arg :: rest, a =>
    let chars := arg.toList
    if isVerbosity chars then collect rest a
    else if "--".toList.isPrefixOf chars then
      let name := String.ofList (chars.takeWhile (· != '='))
      let value := (chars.dropWhile (· != '=')).drop 1
      let hasValue := chars.contains '='
      if flags.contains name then
        if hasValue then throw (.unexpectedValue name)
        else do collect rest (← a.addOption name "")
      else if !valueOptions.contains name then throw (.unknownOption name)
      else if hasValue then do collect rest (← a.addOption name (String.ofList value))
      else
        match rest with
        | value :: rest => do collect rest (← a.addOption name value)
        | [] => throw (.missingValue name)
    else if chars.head? = some '-' && chars.length > 1 then throw (.unknownOption arg)
    else collect rest { a with words := arg :: a.words }

/-- Is the flag there? -/
def has (a : Arguments) (name : String) : Bool := (a.options.lookup name).isSome

/-- The value of an option as a number. -/
def number? (a : Arguments) (name : String) : Except UsageError (Option Nat) :=
  match a.options.lookup name with
  | none => return none
  | some value =>
    let digits := value.toList
    if digits.isEmpty || !digits.all Char.isDigit then throw (.notANumber name value)
    else return some (digits.foldl (fun n c => 10 * n + (c.toNat - '0'.toNat)) 0)

/-- The values of an option that may be there more than once. -/
def values (a : Arguments) (name : String) : List String :=
  ((a.options.filter (·.1 = name)).map Prod.snd).reverse

/-- Refuses the first option that is not among the given ones. -/
def only (a : Arguments) (names : List String) : Except UsageError Unit :=
  match a.options.reverse.find? fun o => !names.contains o.1 with
  | some (name, _) => throw (.unknownOption name)
  | none => return

end Arguments

/-- The options that every activity takes. -/
def commonOptions : List String := ["--frame-limit", "--occurs-check", "--no-index", "--trace", "--verbose"]

def Settings.ofArguments (a : Arguments) : Except UsageError Settings := do
  let limit ← a.number? "--frame-limit"
  let defaults : Config := {}
  return {
    config := { limit := limit.getD defaults.limit
                occursCheck := a.has "--occurs-check"
                traced := a.values "--trace" }
    indexed := !a.has "--no-index" }

/-- How many answers are wanted: one if nothing else is said. -/
def wantedAnswers (a : Arguments) : Except UsageError (Option Nat) := do
  match a.has "--all", ← a.number? "--limit" with
  | true, some _ => throw (.conflict "--all" "--limit")
  | true, none => return none
  | false, wanted => return some (wanted.getD 1)

def Activity.ofArguments (a : Arguments) : Except UsageError Activity :=
  match a.words.reverse with
  | ["query", file, text] => do
    a.only ("--template" :: "--all" :: "--limit" :: commonOptions)
    return .query file text (a.options.lookup "--template") (← wantedAnswers a)
  | "check" :: file :: files => do
    a.only commonOptions
    return .check (file :: files)
  | ["repl"] => do
    a.only commonOptions
    return .console none
  | ["repl", file] => do
    a.only commonOptions
    return .console (some file)
  | words => throw (.unknownActivity words)

def Request.ofArguments (args : List String) : Except UsageError Request := do
  let a ← Arguments.collect args {}
  return ⟨← Settings.ofArguments a, ← Activity.ofArguments a⟩

/-- The names of the files that a request reads. -/
def Request.fileNames (r : Request) : List String :=
  match r.activity with
  | .query file _ _ _ => [file]
  | .check files => files
  | .console file => file.toList

end Command

end Deduction
