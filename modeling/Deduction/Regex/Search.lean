import Deduction.Regex.Program

/-!
# Searching a text

All ways through a program are followed at once, one character at a time, in their order of preference. A way that
reaches an address where a preferred one already stands is dropped, so the first match in order of preference is
found in one pass.
-/

namespace Deduction.Regex

/-- A way through a program: where it stands, and the places it kept. -/
structure Thread where
  pc : Nat
  slots : Array (Option Nat)

/-- A place in a text: its offset and the characters on both sides. -/
structure Position where
  offset : Nat
  before : Option Char
  after : Option Char

def isWordCharacter (c : Option Char) : Bool :=
  match c with
  | some c => CharSet.contains .word c.toNat
  | none => false

/-- Is the place of this kind? -/
def Place.holds (at_ : Position) : Place → Bool
  | textStart => at_.before.isNone
  | textEnd => at_.after.isNone
  | lineStart => at_.before.isNone || at_.before = some '\n'
  | lineEnd => at_.after.isNone || at_.after = some '\n'
  | wordBoundary => isWordCharacter at_.before != isWordCharacter at_.after
  | noWordBoundary => isWordCharacter at_.before == isWordCharacter at_.after
  | wordStart => !isWordCharacter at_.before && isWordCharacter at_.after
  | wordEnd => isWordCharacter at_.before && !isWordCharacter at_.after
  | wordStartHalf => !isWordCharacter at_.before
  | wordEndHalf => !isWordCharacter at_.after

/-- The ways that stand at one place: the addresses that were reached, and the ways, the least preferred first. -/
structure Front where
  reached : Array Bool
  threads : List Thread

def Front.empty (prog : Program) : Front := ⟨Array.replicate prog.code.size false, []⟩

namespace Program

/-- Follows a way until it needs a character. No address is entered twice at one place, so the number of addresses
is enough fuel. -/
def follow (prog : Program) (at_ : Position) : Nat → Thread → Front → Front
  | 0, _, front => front
  | fuel + 1, t, front =>
    if front.reached.getD t.pc true then front
    else
      let front := { front with reached := front.reached.setIfInBounds t.pc true }
      match prog.code[t.pc]? with
      | some (.jump pc) => prog.follow at_ fuel { t with pc } front
      | some (.split preferred other) =>
        prog.follow at_ fuel { t with pc := other } (prog.follow at_ fuel { t with pc := preferred } front)
      | some (.save slot) =>
        prog.follow at_ fuel ⟨t.pc + 1, t.slots.setIfInBounds slot (some at_.offset)⟩ front
      | some (.place place) => if place.holds at_ then prog.follow at_ fuel { t with pc := t.pc + 1 } front else front
      | some (.char _) | some .done => { front with threads := t :: front.threads }
      | none => front

/-- Adds a way to the front of a place. -/
def enter (prog : Program) (at_ : Position) (t : Thread) (front : Front) : Front :=
  prog.follow at_ (prog.code.size + 1) t front

/-- Moves the ways over one character, in order of preference. A way that is done is a match, and ends those that
are less preferred. -/
def advance (prog : Program) (c : Option Char) (next : Position) :
    List Thread → Front → Option Thread → Front × Option Thread
  | [], front, found => (front, found)
  | t :: ts, front, found =>
    match prog.code[t.pc]?, c with
    | some .done, _ => (front, some t)
    | some (.char set), some c =>
      let front := if set.contains c.toNat then prog.enter next { t with pc := t.pc + 1 } front else front
      prog.advance (some c) next ts front found
    | _, _ => prog.advance c next ts front found

/-- Searches the rest of a text. As long as no match was found, a new way starts at every place. -/
def searchFrom (prog : Program) (offset : Nat) (before : Option Char) (front : Front) (found : Option Thread) :
    List Char → Option Thread
  | [] =>
    let here : Position := ⟨offset, before, none⟩
    let front := if found.isNone then prog.enter here ⟨0, Array.replicate prog.slots none⟩ front else front
    (prog.advance none here front.threads.reverse (.empty prog) found).2
  | c :: rest =>
    let here : Position := ⟨offset, before, some c⟩
    let front := if found.isNone then prog.enter here ⟨0, Array.replicate prog.slots none⟩ front else front
    let next : Position := ⟨offset + 1, some c, rest.head?⟩
    let (front, found) := prog.advance (some c) next front.threads.reverse (.empty prog) found
    if found.isSome && front.threads.isEmpty then found
    else prog.searchFrom (offset + 1) (some c) front found rest

/-- The places kept by the first match at or after `start`. -/
def search (prog : Program) (text : List Char) (start : Nat) : Option (Array (Option Nat)) :=
  let before := if start = 0 then none else text[start - 1]?
  (prog.searchFrom start before (.empty prog) none (text.drop start)).map Thread.slots

end Program

/-- The part of a text between the two places of a group; nothing if the group took no part in the match. -/
def groupText (text : List Char) (slots : Array (Option Nat)) (group : Nat) : String :=
  match slots.getD (2 * group) none, slots.getD (2 * group + 1) none with
  | some lo, some hi => String.ofList ((text.drop lo).take (hi - lo))
  | _, _ => ""

/-- The program of a pattern text. -/
def compile? (pattern : String) : Option Program :=
  (Pattern.parse? pattern).map fun (p, groups) => .ofPattern p groups

/-- The first match of a pattern in a text: the whole match and then each group. -/
def firstMatch (text pattern : String) : Option (List String) := do
  let prog ← compile? pattern
  let slots ← prog.search text.toList 0
  return (List.range (prog.slots / 2)).map (groupText text.toList slots)

/-- The matches at or after `start`. An empty match does not start where the last match ended. -/
def matchesFrom (prog : Program) (text : List Char) : Nat → Nat → Option Nat → List String
  | 0, _, _ => []
  | fuel + 1, start, lastEnd =>
    if text.length < start then []
    else
      match prog.search text start with
      | none => []
      | some slots =>
        match slots.getD 0 none, slots.getD 1 none with
        | some lo, some hi =>
          if lo = hi && some hi = lastEnd then matchesFrom prog text fuel (start + 1) lastEnd
          else groupText text slots 0 :: matchesFrom prog text fuel hi (some hi)
        | _, _ => []

/-- Every match of a pattern in a text, in order and without overlap. -/
def allMatches (text pattern : String) : List String :=
  match compile? pattern with
  | some prog => matchesFrom prog text.toList (2 * text.length + 2) 0 none
  | none => []

end Deduction.Regex
