import Deduction.Number
import Deduction.Term.Sentence
import Std.Data.TreeMap.Basic

/-!
# Theories

A theory holds terms in the order in which they were inserted, with an index from keys to the entries that have
them. An entry is known by its place. Removing an entry leaves a hole, so that the places of the others stay; only
holes at the end are given up at once, and the other holes when there are more holes than entries.

Which symbols of an entry are its keys depends on the mode of the index.
-/

namespace Deduction

/-- Which symbols of a term are keys of the index. -/
inductive IndexMode where
  /-- Every symbol of the term. -/
  | full
  /-- The relation of the head of a rule, the functor of any other term. -/
  | rule
  /-- The functor. -/
  | shallow
  | none
  deriving DecidableEq, Inhabited

/-- Numbers and the word `map` are never keys. -/
def isIndexable (symbol : String) : Bool := symbol ≠ "map" && !isNumericText symbol

/-- The head of a rule, and any other term itself. -/
def Term.headOrSelf (t : Term) : Term :=
  match t.asRule with
  | some (head, _) => head
  | none => t

namespace IndexMode

/-- The functor of a term if it can be a key. -/
def functorKeys (t : Term) : List String := (t.functor?.filter isIndexable).toList

/-- The keys of a term, each once. -/
def keys : IndexMode → Term → List String
  | full, t => (t.symbols.filter isIndexable).eraseDups
  | rule, t => functorKeys t.headOrSelf
  | shallow, t => functorKeys t
  | none, _ => []

end IndexMode

/-- An entry of a theory, by its place. -/
abbrev EntryId := Nat

structure Theory where
  mode : IndexMode := .full
  /-- The entries in the order of insertion, with holes where entries were removed. -/
  entries : Array (Option Term) := #[]
  /-- How many of the places are not holes. -/
  size : Nat := 0
  /-- The entries that have a key, in order. -/
  index : Std.TreeMap String (Array EntryId) := ∅

namespace Theory

/-- A theory of facts. -/
def facts : Theory := { mode := .full }

/-- A theory of rules. -/
def rules : Theory := { mode := .rule }

/-! ### Contents -/

def get? (th : Theory) (id : EntryId) : Option Term := (th.entries[id]?).join

/-- The terms in the order of insertion. -/
def toList (th : Theory) : List Term := th.entries.toList.filterMap id

/-- The places that are not holes, in order. -/
def ids (th : Theory) : List EntryId :=
  (List.range th.entries.size).filter fun id => (th.get? id).isSome

/-! ### Inserting and removing -/

/-- Adds an entry to what the index has for a key. -/
def addToIndex (id : EntryId) (index : Std.TreeMap String (Array EntryId)) (key : String) :
    Std.TreeMap String (Array EntryId) :=
  index.alter key fun bucket => some ((bucket.getD #[]).push id)

/-- Takes an entry away from what the index has for a key; nothing is kept for a key without entries. -/
def removeFromIndex (id : EntryId) (index : Std.TreeMap String (Array EntryId)) (key : String) :
    Std.TreeMap String (Array EntryId) :=
  index.alter key fun bucket => (bucket.map (Array.filter (· ≠ id))).filter (!·.isEmpty)

/-- Adds a term at the end; its place is the first result. -/
def insert (th : Theory) (t : Term) : EntryId × Theory :=
  let id := th.entries.size
  (id, { th with
    entries := th.entries.push (some t)
    size := th.size + 1
    index := (th.mode.keys t).foldl (addToIndex id) th.index })

/-- Adds terms at the end. -/
def insertAll (th : Theory) (terms : List Term) : Theory := terms.foldl (fun th t => (th.insert t).2) th

/-- Adds terms at the end; their places are the first result. -/
def append (th : Theory) : List Term → List EntryId × Theory
  | [] => ([], th)
  | t :: ts =>
    let (id, th) := th.insert t
    let (ids, th) := th.append ts
    (id :: ids, th)

/-- Removes the entry at a place; the removed term is the first result. -/
def remove (th : Theory) (id : EntryId) : Option Term × Theory :=
  match th.get? id with
  | some t =>
    (some t, { th with
      entries := (th.entries.set! id none).popWhile Option.isNone
      size := th.size - 1
      index := (th.mode.keys t).foldl (removeFromIndex id) th.index })
  | none => (none, th)

/-- Removes the entries at some places, one after the other. -/
def removeAll (th : Theory) (ids : List EntryId) : Theory := ids.foldl (fun th id => (th.remove id).2) th

/-- The theory without its terms. -/
def clear (th : Theory) : Theory := { mode := th.mode }

/-- The terms in place of those that were there. -/
def define (th : Theory) (terms : List Term) : Theory := th.clear.insertAll terms

def ofList (mode : IndexMode) (terms : List Term) : Theory := insertAll { mode } terms

/-- Closes up the holes if there are more of them than entries. -/
def compact (th : Theory) : Theory :=
  if th.entries.size - th.size ≤ th.size then th else th.define th.toList

end Theory

end Deduction
