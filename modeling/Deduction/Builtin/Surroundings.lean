import Deduction.Builtin.Clock
import Deduction.Number
import Deduction.Regex.Search

/-!
# What builtins ask of their surroundings

Random numbers, the clock, the local time and the matching of patterns come from outside. They stay as they are while
a query runs; what is proved about searches holds whatever they are.
-/

namespace Deduction

structure Surroundings where
  /-- The number that is drawn at random. It is not a number where none is drawn. -/
  drawn : Float := nan
  /-- Milliseconds since the start of 1970, if there is a clock. -/
  now : Option Int := none
  zone : Clock.Zone := .universal
  /-- The first match of a pattern in a text, the text first: the whole match and then each group. -/
  firstMatch : String → String → Option (List String) := Regex.firstMatch
  /-- Every match of a pattern in a text, the text first. -/
  allMatches : String → String → List String := Regex.allMatches
  deriving Inhabited

end Deduction
