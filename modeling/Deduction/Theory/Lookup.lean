import Deduction.Store.Basic
import Deduction.Theory.Basic

/-!
# Lookup

A lookup gives the entries that could fit a query, in the order of insertion: it only narrows the choice, using the
key of the query that the fewest entries have. A query without a usable key gives all entries.
-/

namespace Deduction.Theory

/-- The entries that have a key. Without an index, and for a symbol that is never a key, these are all entries. -/
def keyIds (th : Theory) (key : String) : List EntryId :=
  if th.mode = .none || !isIndexable key then th.ids
  else (th.index.getD key #[]).toList

/-- The symbol among the given ones that is a key of the fewest entries, the first of several. -/
def narrowest (th : Theory) (symbols : List String) : Option String :=
  (symbols.filter isIndexable).minOn? fun key => (th.index.getD key #[]).size

/-- The entries that have the given key, or all. -/
def idsFor (th : Theory) : Option String → List EntryId
  | some key => th.keyIds key
  | none => th.ids

/-- The entries that could fit a query. -/
def lookupIds (th : Theory) (query : Term) : List EntryId :=
  match th.mode with
  | .none => th.ids
  | .full => th.idsFor (th.narrowest query.symbols)
  | .rule => th.idsFor query.headOrSelf.functor?
  | .shallow => th.idsFor query.functor?

/-- The terms that could fit a query. -/
def lookup (th : Theory) (query : Term) : List Term := (th.lookupIds query).filterMap th.get?

def contains (th : Theory) (t : Term) : Bool := (th.lookup t).contains t

/-! ### Lookup under the bindings of a store -/

/-- The symbols and functors of a term once bindings are applied, in front of `rest`. -/
def boundSymbolsAt (s : Store) : Nat → Term → EnvId → List String → List String
  | 0, _, _, rest => rest
  | n + 1, t, env, rest =>
    match s.resolve t env with
    | ⟨.var _, _⟩ => rest
    | ⟨.sym a, _⟩ => a :: rest
    | ⟨.compound f args, env⟩ => f :: args.foldr (boundSymbolsAt s n · env ·) rest

/-- The entries that could fit a query whose variables have bindings. -/
def lookupIdsIn (th : Theory) (s : Store) (query : Term) (env : EnvId) : List EntryId :=
  match th.mode with
  | .full => th.idsFor (th.narrowest (boundSymbolsAt s allowance query env []))
  | _ => th.lookupIds (s.resolve query env).term

/-- The terms that could fit a query whose variables have bindings. -/
def lookupIn (th : Theory) (s : Store) (query : Term) (env : EnvId) : List Term :=
  (th.lookupIdsIn s query env).filterMap th.get?

/-! ### Relations -/

/-- Is a relation what some entry is about? In a theory of rules, entries are found by their keys. -/
def defines (th : Theory) (relation : String) : Bool :=
  if (th.mode = .rule || th.mode = .shallow) && isIndexable relation then
    !(th.index.getD relation #[]).isEmpty
  else th.toList.any fun t => t.operator? = some relation

/-- The terms that are about a relation. -/
def sentences (th : Theory) (relation : String) : List Term :=
  th.toList.filter fun t => t.operator? = some relation

/-- The relations that the entries are about, in order of first appearance. -/
def relations (th : Theory) : List String := (th.toList.filterMap Term.operator?).eraseDups

/-- The arity of the first of the terms with this functor, 0 when there is none. -/
def arityAmong (terms : List Term) (relation : String) : Nat :=
  match terms.find? fun t => t.functor? = some relation with
  | some t => t.arity
  | none => 0

/-- The arity of a relation by its first fact. -/
def factArity (th : Theory) (relation : String) : Nat := arityAmong th.toList relation

/-- The arity of a relation by the head of its first rule, or by another sentence with this functor. -/
def ruleArity (th : Theory) (relation : String) : Nat :=
  arityAmong (th.toList.map Term.headOrSelf) relation

end Deduction.Theory
