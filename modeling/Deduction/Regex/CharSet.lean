import Deduction.Text.Blank
import Deduction.Text.CaseFold
import Deduction.Text.Category

/-!
# Sets of characters

A set of characters is a list of ranges of code points; the empty list is the empty set.
-/

namespace Deduction.Regex

/-- Ranges of code points, ends included. -/
abbrev CharSet := List (Nat × Nat)

namespace CharSet

def contains (s : CharSet) (code : Nat) : Bool :=
  s.any fun (lo, hi) => lo ≤ code && code ≤ hi

def ofChar (c : Char) : CharSet := [(c.toNat, c.toNat)]

/-- The same set in ascending ranges. -/
def sorted (s : CharSet) : CharSet := s.mergeSort fun x y => x.1 ≤ y.1

/-- What lies between ascending ranges, from `start` on. -/
def gaps (start : Nat) : CharSet → CharSet
  | (lo, hi) :: rest =>
    let after := gaps (max start (hi + 1)) rest
    if start < lo then (start, lo - 1) :: after else after
  | [] => if start ≤ 0x10FFFF then [(start, 0x10FFFF)] else []

/-- All characters that are not in the set. -/
def complement (s : CharSet) : CharSet := gaps 0 s.sorted

def inter (s t : CharSet) : CharSet := complement (s.complement ++ t.complement)

def diff (s t : CharSet) : CharSet := s.inter t.complement

def symmDiff (s t : CharSet) : CharSet := (s ++ t).diff (s.inter t)

/-- The set with all characters that differ from one of it only in case. -/
def foldCase (s : CharSet) : CharSet :=
  s ++ (Text.foldClosure s.contains).map fun c => (c, c)

/-- Every character. -/
def full : CharSet := [(0, 0x10FFFF)]

def digit : CharSet := Text.digitRanges

def blank : CharSet := Text.blankRanges

def word : CharSet := Text.wordRanges

/-- The classes of ASCII characters that have a name. -/
def ofPosixName? : String → Option CharSet
  | "alnum" => some [(0x30, 0x39), (0x41, 0x5A), (0x61, 0x7A)]
  | "alpha" => some [(0x41, 0x5A), (0x61, 0x7A)]
  | "ascii" => some [(0, 0x7F)]
  | "blank" => some [(0x09, 0x09), (0x20, 0x20)]
  | "cntrl" => some [(0, 0x1F), (0x7F, 0x7F)]
  | "digit" => some [(0x30, 0x39)]
  | "graph" => some [(0x21, 0x7E)]
  | "lower" => some [(0x61, 0x7A)]
  | "print" => some [(0x20, 0x7E)]
  | "punct" => some [(0x21, 0x2F), (0x3A, 0x40), (0x5B, 0x60), (0x7B, 0x7E)]
  | "space" => some [(0x09, 0x0D), (0x20, 0x20)]
  | "upper" => some [(0x41, 0x5A)]
  | "word" => some [(0x30, 0x39), (0x41, 0x5A), (0x5F, 0x5F), (0x61, 0x7A)]
  | "xdigit" => some [(0x30, 0x39), (0x41, 0x46), (0x61, 0x66)]
  | _ => none

/-- The long names of general categories and classes of them. -/
def longNames : List (String × String) :=
  [("letter", "L"), ("mark", "M"), ("number", "N"), ("punctuation", "P"), ("symbol", "S"), ("separator", "Z"),
   ("other", "C"), ("uppercaseletter", "Lu"), ("lowercaseletter", "Ll"), ("titlecaseletter", "Lt"),
   ("modifierletter", "Lm"), ("otherletter", "Lo"), ("decimalnumber", "Nd"), ("digit", "Nd"),
   ("letternumber", "Nl"), ("othernumber", "No"), ("connectorpunctuation", "Pc"), ("dashpunctuation", "Pd"),
   ("openpunctuation", "Ps"), ("closepunctuation", "Pe"), ("otherpunctuation", "Po"), ("mathsymbol", "Sm"),
   ("currencysymbol", "Sc"), ("modifiersymbol", "Sk"), ("othersymbol", "So"), ("spaceseparator", "Zs"),
   ("lineseparator", "Zl"), ("paragraphseparator", "Zp"), ("control", "Cc"), ("format", "Cf"),
   ("privateuse", "Co"), ("unassigned", "Cn"), ("nonspacingmark", "Mn"), ("spacingmark", "Mc"),
   ("enclosingmark", "Me")]

/-- The characters of a general category, or of a property with a name. -/
def ofPropertyName? (name : String) : Option CharSet :=
  let key := String.ofList ((name.toList.filter fun c => c != ' ' && c != '_' && c != '-').map Char.toLower)
  let matching := fun category : String => String.ofList (category.toList.map Char.toLower) = key
  match longNames.find? fun (long, short) => long = key || matching short with
  | some (_, short) => some (Text.categoryRanges short)
  | none =>
    match key with
    | "any" => some full
    | "ascii" => some [(0, 0x7F)]
    | "alphabetic" | "alpha" => some (Text.categoryRanges "L" ++ Text.categoryRanges "Nl")
    | "uppercase" | "upper" => some (Text.categoryRanges "Lu")
    | "lowercase" | "lower" => some (Text.categoryRanges "Ll")
    | "whitespace" | "space" => some blank
    | _ => none

end CharSet

end Deduction.Regex
