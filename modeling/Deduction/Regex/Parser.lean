import Deduction.Regex.Pattern

/-!
# Reading patterns

A pattern is read from left to right with a stack of the groups that are open. Text that is no pattern (an open
group or class, a repetition of nothing, a range from a larger to a smaller character, look-around, a reference to
a group) gives `none`.
-/

namespace Deduction.Regex

/-- What the flags of a pattern say about the part that is being read. -/
structure Flags where
  ignoreCase : Bool := false
  multiLine : Bool := false
  dotAll : Bool := false
  swapGreed : Bool := false
  ignoreBlanks : Bool := false
  unicode : Bool := true

/-- Sets one flag by its letter. -/
def Flags.set (flags : Flags) (on : Bool) : Char → Option Flags
  | 'i' => some { flags with ignoreCase := on }
  | 'm' => some { flags with multiLine := on }
  | 's' => some { flags with dotAll := on }
  | 'U' => some { flags with swapGreed := on }
  | 'x' => some { flags with ignoreBlanks := on }
  | 'u' => some { flags with unicode := on }
  | 'R' => some flags
  | _ => none

/-- The text without blanks and comments in front. -/
def skipIgnored (inComment : Bool) : List Char → List Char
  | [] => []
  | c :: rest =>
    if inComment then skipIgnored (c ≠ '\n') rest
    else if Text.isBlank c then skipIgnored false rest
    else if c = '#' then skipIgnored true rest
    else c :: rest

/-- The text from its first character that counts under the flags. -/
def Flags.skip (flags : Flags) (cs : List Char) : List Char :=
  if flags.ignoreBlanks then skipIgnored false cs else cs

/-- A set as it is meant under the flags. -/
def Flags.fold (flags : Flags) (set : CharSet) : CharSet :=
  if flags.ignoreCase then set.foldCase else set

/-- What an escape stands for. -/
inductive Escape where
  | literal (c : Char)
  | set (set : CharSet)
  | place (place : Place)

/-- The character of a code point, if it is one. -/
def charOfCode? (code : Nat) : Option Char :=
  if h : code.isValidChar then some (Char.ofNatAux code h) else none

/-- A code point in hexadecimal: of `width` digits, or in braces. -/
def hexEscape (width : Nat) (cs : List Char) : Option (Char × List Char) :=
  let digits? := fun (ds : List Char) => ds ≠ [] && ds.all fun c => (Text.hexDigit? c).isSome
  match cs with
  | '\x7b' :: rest =>
    let digits := rest.takeWhile (· ≠ '\x7d')
    if digits? digits && digits.length < rest.length then
      (charOfCode? (Text.ofHex digits)).map (·, rest.drop (digits.length + 1))
    else none
  | _ =>
    let digits := cs.take width
    if digits? digits && digits.length = width then (charOfCode? (Text.ofHex digits)).map (·, cs.drop width)
    else none

/-- A property of characters: one letter, or a name in braces, negated by a leading circumflex. -/
def propertyEscape : List Char → Option (CharSet × List Char)
  | '\x7b' :: rest =>
    let name := rest.takeWhile (· ≠ '\x7d')
    if name.length < rest.length then
      let after := rest.drop (name.length + 1)
      let lookup := fun (cs : List Char) =>
        let value := (cs.dropWhile (· ≠ '=')).drop 1
        CharSet.ofPropertyName? (String.ofList (if value.isEmpty then cs else value))
      match name with
      | '^' :: name => (lookup name).map fun set => (set.complement, after)
      | name => (lookup name).map (·, after)
    else none
  | c :: rest => (CharSet.ofPropertyName? c.toString).map (·, rest)
  | [] => none

/-- A class of characters by its letter: digits, blanks or word characters. -/
def classOfLetter (flags : Flags) : Char → CharSet
  | 'd' => if flags.unicode then .digit else [(0x30, 0x39)]
  | 's' => if flags.unicode then .blank else [(0x09, 0x0D), (0x20, 0x20)]
  | _ => if flags.unicode then .word else [(0x30, 0x39), (0x41, 0x5A), (0x5F, 0x5F), (0x61, 0x7A)]

/-- The places at the boundary of a word that have a name, which follows the escape. -/
def namedBoundaries : List (String × Place) :=
  [("\x7bstart\x7d", .wordStart), ("\x7bend\x7d", .wordEnd), ("\x7bstart-half\x7d", .wordStartHalf),
   ("\x7bend-half\x7d", .wordEndHalf)]

/-- A place at the boundary of a word, and what follows it. -/
def boundaryEscape (cs : List Char) : Place × List Char :=
  match namedBoundaries.find? fun (name, _) => name.toList.isPrefixOf cs with
  | some (name, place) => (place, cs.drop name.length)
  | none => (.wordBoundary, cs)

/-- The escape after a backslash, and what follows it. -/
def escape (flags : Flags) : List Char → Option (Escape × List Char)
  | [] => none
  | c :: rest =>
    match c with
    | 'd' | 's' | 'w' => some (.set (classOfLetter flags c), rest)
    | 'D' | 'S' | 'W' => some (.set (classOfLetter flags c.toLower).complement, rest)
    | 'x' => (hexEscape 2 rest).map fun (c, rest) => (.literal c, rest)
    | 'u' => (hexEscape 4 rest).map fun (c, rest) => (.literal c, rest)
    | 'U' => (hexEscape 8 rest).map fun (c, rest) => (.literal c, rest)
    | 'p' => (propertyEscape rest).map fun (set, rest) => (.set set, rest)
    | 'P' => (propertyEscape rest).map fun (set, rest) => (.set set.complement, rest)
    | 'a' => some (.literal '\x07', rest)
    | 'f' => some (.literal '\x0c', rest)
    | 't' => some (.literal '\t', rest)
    | 'n' => some (.literal '\n', rest)
    | 'r' => some (.literal '\x0d', rest)
    | 'v' => some (.literal '\x0b', rest)
    | 'A' => some (.place .textStart, rest)
    | 'z' => some (.place .textEnd, rest)
    | 'b' =>
      let (place, rest) := boundaryEscape rest
      some (.place place, rest)
    | 'B' => some (.place .noWordBoundary, rest)
    | '<' => some (.place .wordStart, rest)
    | '>' => some (.place .wordEnd, rest)
    | _ => if c.toNat < 0x80 && !c.isAlphanum then some (.literal c, rest) else none

/-! ### Classes in brackets -/

/-- The operations between the parts of a class. -/
inductive SetOperation where
  | inter
  | diff
  | symmDiff

def SetOperation.apply : SetOperation → CharSet → CharSet → CharSet
  | inter, s, t => s.inter t
  | diff, s, t => s.diff t
  | symmDiff, s, t => s.symmDiff t

/-- The part of a class before an operation, applied to the part after it. -/
def applyPending (pending : Option (CharSet × SetOperation)) (set : CharSet) : CharSet :=
  match pending with
  | some (left, op) => op.apply left set
  | none => set

/-- A named class such as `[:digit:]`, after its opening bracket. -/
def posixClass : List Char → Option (CharSet × List Char)
  | ':' :: rest =>
    let (negated, rest) := match rest with
      | '^' :: rest => (true, rest)
      | rest => (false, rest)
    let name := rest.takeWhile Char.isAlpha
    match rest.drop name.length with
    | ':' :: ']' :: after =>
      (CharSet.ofPosixName? (String.ofList name)).map fun set =>
        (if negated then set.complement else set, after)
    | _ => none
  | _ => none

/-- One character or one escape of a class. -/
def classItem (flags : Flags) : List Char → Option (Escape × List Char)
  | '\\' :: rest =>
    match escape flags rest with
    | some (.place _, _) => none
    | item => item
  | c :: rest => some (.literal c, rest)
  | [] => none

/-- What follows the hyphen of a range at the front of a text. A hyphen before the end of the class or before
another hyphen makes no range. -/
def afterRangeHyphen? (flags : Flags) : List Char → Option (List Char)
  | '-' :: rest =>
    match flags.skip rest with
    | ']' :: _ | '-' :: _ => none
    | rest => some rest
  | _ => none

/-- One item of a class, or a range from one character to another. -/
def classRange (flags : Flags) (cs : List Char) : Option (CharSet × List Char) :=
  match classItem flags cs with
  | none | some (.place _, _) => none
  | some (.literal lo, rest) =>
    let rest := flags.skip rest
    match afterRangeHyphen? flags rest with
    | none => some (.ofChar lo, rest)
    | some rest =>
      match classItem flags rest with
      | some (.literal hi, rest) =>
        if lo.toNat ≤ hi.toNat then some ([(lo.toNat, hi.toNat)], rest) else none
      | _ => none
  | some (.set set, rest) =>
    let rest := flags.skip rest
    if (afterRangeHyphen? flags rest).isSome then none else some (set, rest)

/-- The text without the hyphens in front, which stand for themselves at the front of a class. Every hyphen is a
character, so the length of the text is enough fuel. -/
def dropHyphens (flags : Flags) : Nat → List Char → List Char
  | fuel + 1, '-' :: rest => dropHyphens flags fuel (flags.skip rest)
  | _, cs => cs

/-- The rest of a class in brackets, of which `set` was read so far. -/
def classRest (flags : Flags) : Nat → Option (CharSet × SetOperation) → CharSet → List Char →
    Option (CharSet × List Char)
  | 0, _, _, _ => none
  | fuel + 1, pending, set, cs =>
    let operation := fun op rest =>
      classRest flags fuel (some (applyPending pending (flags.fold set), op)) [] rest
    match flags.skip cs with
    | [] => none
    | ']' :: rest => some (applyPending pending (flags.fold set), rest)
    | '&' :: '&' :: rest => operation .inter rest
    | '-' :: '-' :: rest => operation .diff rest
    | '~' :: '~' :: rest => operation .symmDiff rest
    | '[' :: rest =>
      match posixClass rest with
      | some (inner, rest) => classRest flags fuel pending (set ++ inner) rest
      | none =>
        match classStart flags fuel rest with
        | some (inner, rest) => classRest flags fuel pending (set ++ inner) rest
        | none => none
    | cs =>
      match classRange flags cs with
      | some (inner, rest) => classRest flags fuel pending (set ++ inner) rest
      | none => none
where
  /-- A class in brackets, after its opening bracket: hyphens and one bracket in front are characters. -/
  classStart (flags : Flags) : Nat → List Char → Option (CharSet × List Char)
    | 0, _ => none
    | fuel + 1, cs =>
      let (negated, cs) := match flags.skip cs with
        | '^' :: rest => (true, flags.skip rest)
        | cs => (false, cs)
      let rest := dropHyphens flags cs.length cs
      let (set, rest) := match cs, rest with
        | ']' :: rest, _ => (CharSet.ofChar ']', rest)
        | '-' :: _, rest => (CharSet.ofChar '-', rest)
        | _, rest => ([], rest)
      (classRest flags fuel none set rest).map fun (set, rest) =>
        (if negated then set.complement else set, rest)

/-! ### Groups and repetitions -/

/-- A group that is open: what was read before it, and the flags to return to. -/
structure OpenGroup where
  flags : Flags
  index : Option Nat
  alternatives : List Pattern
  items : List Pattern

structure PatternReader where
  flags : Flags := {}
  stack : List OpenGroup := []
  /-- The alternatives of the innermost group that are complete, the last one first. -/
  alternatives : List Pattern := []
  /-- The items of the alternative that is being read, the last one first. -/
  items : List Pattern := []
  /-- Whether the last item may be repeated. -/
  repeatable : Bool := false
  /-- How many groups were numbered. -/
  groups : Nat := 0
  names : List String := []

namespace PatternReader

def push (r : PatternReader) (p : Pattern) : PatternReader :=
  { r with items := p :: r.items, repeatable := true }

/-- All alternatives of the innermost group. -/
def body (r : PatternReader) : Pattern :=
  .ofAlts (.ofSeq r.items.reverse :: r.alternatives).reverse

def openGroup (r : PatternReader) (index : Option Nat) (flags : Flags) : PatternReader :=
  { r with
    flags, alternatives := [], items := [], repeatable := false
    stack := ⟨r.flags, index, r.alternatives, r.items⟩ :: r.stack }

def closeGroup (r : PatternReader) : Option PatternReader :=
  match r.stack with
  | [] => none
  | g :: stack =>
    let p := match g.index with
      | some i => .capture i r.body
      | none => r.body
    some <| { r with flags := g.flags, stack, alternatives := g.alternatives, items := g.items }.push p

/-- Opens a numbered group. -/
def openNumbered (r : PatternReader) : PatternReader :=
  { r.openGroup (some (r.groups + 1)) r.flags with groups := r.groups + 1 }

/-- Opens a numbered group with a name, which no other group may have. -/
def openNamed (r : PatternReader) (cs : List Char) : Option (PatternReader × List Char) :=
  let name := cs.takeWhile (· ≠ '>')
  let wellFormed := match name with
    | c :: rest =>
      (c = '_' || c.isAlpha) && rest.all fun c => c = '_' || c = '.' || c = '[' || c = ']' || c.isAlphanum
    | [] => false
  let text := String.ofList name
  if wellFormed && name.length < cs.length && !r.names.contains text then
    some ({ r.openNumbered with names := text :: r.names }, cs.drop (name.length + 1))
  else none

/-- Reads flags up to the colon or parenthesis after them. -/
def readFlags (r : PatternReader) (flags : Flags) (on seen : Bool) :
    List Char → Option (PatternReader × List Char)
  | ':' :: rest => if on || seen then some (r.openGroup none flags, rest) else none
  | ')' :: rest => if seen then some ({ r with flags, repeatable := false }, rest) else none
  | '-' :: rest => if on then r.readFlags flags false false rest else none
  | c :: rest =>
    match flags.set on c with
    | some flags => r.readFlags flags on true rest
    | none => none
  | [] => none

/-- Opens a group, after its parenthesis. -/
def readGroup (r : PatternReader) (cs : List Char) : Option (PatternReader × List Char) :=
  match r.flags.skip cs with
  | '?' :: 'P' :: '<' :: rest => r.openNamed rest
  | '?' :: '<' :: rest => r.openNamed rest
  | '?' :: rest => r.readFlags r.flags true false rest
  | rest => some (r.openNumbered, rest)

/-- Repeats the last item; a question mark after the repetition makes it frugal. -/
def repeatLast (r : PatternReader) (least : Nat) (most : Option Nat) (rest : List Char) :
    Option (PatternReader × List Char) :=
  match r.repeatable, r.items with
  | true, p :: items =>
    let (frugal, rest) := match rest with
      | '?' :: rest => (true, rest)
      | _ => (false, rest)
    some ({ r with items := .repeated p least most (frugal == r.flags.swapGreed) :: items }, rest)
  | _, _ => none

/-- A count: digits among blanks. -/
def readCount (cs : List Char) : Option Nat × List Char :=
  let cs := Text.trimLeft cs
  let digits := cs.takeWhile Char.isDigit
  let rest := Text.trimLeft (cs.drop digits.length)
  (if digits.isEmpty then none else some (digits.foldl (fun n c => 10 * n + (c.toNat - '0'.toNat)) 0), rest)

/-- A repetition in braces, after the opening brace. -/
def readBraces (r : PatternReader) (cs : List Char) : Option (PatternReader × List Char) :=
  match readCount cs with
  | (some least, '\x7d' :: rest) => r.repeatLast least (some least) rest
  | (some least, ',' :: rest) =>
    match readCount rest with
    | (none, '\x7d' :: rest) => r.repeatLast least none rest
    | (some most, '\x7d' :: rest) => if least ≤ most then r.repeatLast least (some most) rest else none
    | _ => none
  | _ => none

/-- Reads one piece of a pattern, and returns what follows it. -/
def step (r : PatternReader) : Char → List Char → Option (PatternReader × List Char)
  | '|', rest =>
    some ({ r with
      alternatives := .ofSeq r.items.reverse :: r.alternatives, items := [], repeatable := false }, rest)
  | '(', rest => r.readGroup rest
  | ')', rest => r.closeGroup.map (·, rest)
  | '*', rest => r.repeatLast 0 none rest
  | '+', rest => r.repeatLast 1 none rest
  | '?', rest => r.repeatLast 0 (some 1) rest
  | '\x7b', rest => r.readBraces rest
  | '[', rest =>
    (classRest.classStart r.flags (2 * rest.length + 2) rest).map fun (set, rest) => (r.push (.char set), rest)
  | '.', rest =>
    some (r.push (.char (if r.flags.dotAll then .full else CharSet.complement [(0x0A, 0x0A)])), rest)
  | '^', rest => some (r.push (.place (if r.flags.multiLine then .lineStart else .textStart)), rest)
  | '$', rest => some (r.push (.place (if r.flags.multiLine then .lineEnd else .textEnd)), rest)
  | '\\', rest =>
    (escape r.flags rest).map fun (item, rest) =>
      match item with
      | .literal c => (r.push (.char (r.flags.fold (.ofChar c))), rest)
      | .set set => (r.push (.char (r.flags.fold set)), rest)
      | .place place => (r.push (.place place), rest)
  | c, rest =>
    if r.flags.ignoreBlanks && Text.isBlank c then some (r, rest)
    else if r.flags.ignoreBlanks && c = '#' then some (r, rest.dropWhile (· ≠ '\n'))
    else some (r.push (.char (r.flags.fold (.ofChar c))), rest)

/-- Reads all pieces. Every piece has a character at least, so the length of the text is enough fuel. -/
def readAll : Nat → PatternReader → List Char → Option PatternReader
  | _, r, [] => some r
  | 0, _, _ => none
  | fuel + 1, r, c :: rest =>
    match r.step c rest with
    | some (r, rest) => readAll fuel r rest
    | none => none

end PatternReader

/-- The pattern that a text writes, and how many groups it numbers. -/
def Pattern.parse? (text : String) : Option (Pattern × Nat) :=
  match PatternReader.readAll text.length {} text.toList with
  | some r => if r.stack.isEmpty then some (r.body, r.groups) else none
  | none => none

end Deduction.Regex
