/-!
# Words from texts

Turning free text into words that can be symbols.
-/

namespace Deduction.Words

/-- The letters and digits of a text in lower case. Only ASCII letters and digits count. -/
def symbolize (text : String) : String :=
  String.ofList ((text.toList.filter Char.isAlphanum).map Char.toLower)

/-- The base letters of the accented letters of western European alphabets, as ranges of code points. -/
def baseLetters : List (Nat × Nat × Char) :=
  [(0xC0, 0xC6, 'A'), (0xE0, 0xE6, 'a'), (0xC8, 0xCB, 'E'), (0xE8, 0xEB, 'e'), (0xCC, 0xCF, 'I'),
   (0xEC, 0xEF, 'i'), (0xD2, 0xD8, 'O'), (0xF2, 0xF8, 'o'), (0xD9, 0xDC, 'U'), (0xF9, 0xFC, 'u'),
   (0xD1, 0xD1, 'N'), (0xF1, 0xF1, 'n'), (0xC7, 0xC7, 'C'), (0xE7, 0xE7, 'c')]

/-- The base letter of an accented letter; other characters are kept. -/
def baseLetter (c : Char) : Char :=
  match baseLetters.find? fun (lo, hi, _) => lo ≤ c.toNat && c.toNat ≤ hi with
  | some (_, _, base) => base
  | none => c

/-- Like `symbolize`, with accents dropped first, and with underscores kept and put for spaces. -/
def symbolizeWords (text : String) : String :=
  let folded := text.toList.map fun c => if c = ' ' then '_' else baseLetter c
  String.ofList ((folded.filter fun c => c.isAlphanum || c = '_').map Char.toLower)

end Deduction.Words
