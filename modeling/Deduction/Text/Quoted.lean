/-!
# Quoted text

A string constant is a symbol whose text starts and ends with a double quote. Quoting only adds the two quotes;
nothing inside is escaped, since a quoted text never holds a quote when it was read.
-/

namespace Deduction.Text

/-- Text between double quotes. -/
def quote (text : String) : String :=
  String.ofList ('"' :: text.toList ++ ['"'])

/-- The characters between the opening and the closing quote, if the text has both. -/
def unquoteChars : List Char → Option (List Char)
  | '"' :: rest => if rest.getLast? = some '"' then some rest.dropLast else none
  | _ => none

/-- What stands between the quotes of a quoted text. -/
def unquote? (text : String) : Option String :=
  (unquoteChars text.toList).map String.ofList

/-- A quoted text has two quotes: one at each end. -/
def isQuoted (text : String) : Bool :=
  (unquoteChars text.toList).isSome

/-- The text without its quotes; a text that is not quoted is kept. -/
def stripQuotes (text : String) : String :=
  (unquote? text).getD text

theorem unquoteChars_quoted (cs : List Char) : unquoteChars ('"' :: (cs ++ ['"'])) = some cs := by
  simp [unquoteChars]

@[simp] theorem unquote?_quote (text : String) : unquote? (quote text) = some text := by
  simp [unquote?, quote, unquoteChars_quoted]

@[simp] theorem stripQuotes_quote (text : String) : stripQuotes (quote text) = text := by
  simp [stripQuotes]

end Deduction.Text
