import Deduction.Regex.Parser

/-!
# Pattern programs

A pattern is compiled to a list of instructions with absolute addresses. Where two ways are open, the preferred one
is named first, so the order of preference of a pattern is the order in which a program is followed.
-/

namespace Deduction.Regex

inductive Instruction where
  /-- Consumes one character of the set and goes on. -/
  | char (set : CharSet)
  /-- Goes on at the first address, or else at the second. -/
  | split (preferred other : Nat)
  | jump (address : Nat)
  /-- Keeps the place under a number and goes on. -/
  | save (slot : Nat)
  /-- Goes on if the place is of this kind. -/
  | place (place : Place)
  | done
  deriving Inhabited

/-- A split that prefers the first address if the repetition is greedy. -/
def Instruction.choice (greedy : Bool) (again out : Nat) : Instruction :=
  if greedy then .split again out else .split out again

namespace Pattern

/-- `n` copies of a piece of code, each at its own address. -/
def copies (code : Nat → List Instruction) : Nat → Nat → List Instruction
  | 0, _ => []
  | n + 1, pc =>
    let first := code pc
    first ++ copies code n (pc + first.length)

/-- Up to `n` copies, each of which may be left out together with those after it; `size` is the length of one. -/
def optionalCopies (greedy : Bool) (code : Nat → List Instruction) (size out : Nat) : Nat → Nat → List Instruction
  | 0, _ => []
  | n + 1, pc =>
    .choice greedy (pc + 1) out :: code (pc + 1) ++ optionalCopies greedy code size out n (pc + 1 + size)

/-- One copy or more. -/
def onceOrMore (greedy : Bool) (code : Nat → List Instruction) (pc : Nat) : List Instruction :=
  let body := code pc
  body ++ [.choice greedy pc (pc + body.length + 1)]

/-- Any number of copies. A body that can match nothing is entered once before it is tried again. -/
def anyNumber (greedy nullable : Bool) (code : Nat → List Instruction) (pc : Nat) : List Instruction :=
  if nullable then
    let loop := onceOrMore greedy code (pc + 1)
    .choice greedy (pc + 1) (pc + 1 + loop.length) :: loop
  else
    let body := code (pc + 1)
    .choice greedy (pc + 1) (pc + body.length + 2) :: body ++ [.jump pc]

/-- The code of a pattern at an address; it goes on behind itself. -/
def code : Pattern → Nat → List Instruction
  | empty, _ => []
  | char set, _ => [.char set]
  | place p, _ => [.place p]
  | seq p q, pc =>
    let first := p.code pc
    first ++ q.code (pc + first.length)
  | alt p q, pc =>
    let first := p.code (pc + 1)
    let second := pc + first.length + 2
    let other := q.code second
    .split (pc + 1) second :: first ++ .jump (second + other.length) :: other
  | repeated p least most greedy, pc =>
    match least, most with
    | 0, none => anyNumber greedy p.nullable p.code pc
    | least + 1, none =>
      let required := copies p.code least pc
      required ++ onceOrMore greedy p.code (pc + required.length)
    | least, some most =>
      let required := copies p.code least pc
      let size := (p.code 0).length
      let start := pc + required.length
      let count := most - least
      required ++ optionalCopies greedy p.code size (start + count * (size + 1)) count start
  | capture index p, pc =>
    let body := p.code (pc + 1)
    .save (2 * index) :: body ++ [.save (2 * index + 1)]

end Pattern

/-- The instructions of a pattern, and how many places they keep: two for the match and two for each group. -/
structure Program where
  code : Array Instruction
  slots : Nat

/-- The program of a pattern with some numbered groups. -/
def Program.ofPattern (p : Pattern) (groups : Nat) : Program :=
  ⟨((Pattern.capture 0 p).code 0 ++ [Instruction.done]).toArray, 2 * groups + 2⟩

end Deduction.Regex
