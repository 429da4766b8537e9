import Deduction.Text.Quoted

/-!
# Terms

Facts, rules, queries, updates and answers are all terms: a variable, a symbol, or a functor applied to a list of
arguments. Numbers and quoted strings are symbols with that text. A compound without arguments is different from
the symbol of the same name.

A traversal of the arguments comes as a pair of functions, one for a term and one for a list of terms, so that
each is structural.
-/

namespace Deduction

/-- A variable, a symbol or a compound. -/
inductive Term where
  | var (name : String)
  | sym (text : String)
  | compound (functor : String) (args : List Term)
  deriving Inhabited

/-- Terms nested deeper than this are malformed: unification refuses them, and plugging stops below this depth. -/
def depthLimit : Nat := 10000

/-- More steps than any run takes. -/
def stepBound : Nat := 4611686018427387904

/-- Variables are spelled with a leading capital letter of the Latin alphabet or an underscore. -/
def isVariableName (text : String) : Bool :=
  match text.toList with
  | c :: _ => c == '_' || c.isUpper
  | [] => false

namespace Term

/-! ### Equality -/

mutual
/-- Structural equality as a test. -/
def beq : Term → Term → Bool
  | var a, var b => a == b
  | sym a, sym b => a == b
  | compound f xs, compound g ys => f == g && beqList xs ys
  | _, _ => false

/-- Equality of two lists of terms, place by place. -/
def beqList : List Term → List Term → Bool
  | [], [] => true
  | x :: xs, y :: ys => beq x y && beqList xs ys
  | _, _ => false
end

mutual
theorem eq_of_beq : (x y : Term) → beq x y = true → x = y
  | var a, var b, h => by simpa [beq] using h
  | sym a, sym b, h => by simpa [beq] using h
  | compound f xs, compound g ys, h => by
    simp only [beq, Bool.and_eq_true, beq_iff_eq] at h
    rw [h.1, eq_of_beqList xs ys h.2]
  | var _, sym _, h => by simp [beq] at h
  | var _, compound _ _, h => by simp [beq] at h
  | sym _, var _, h => by simp [beq] at h
  | sym _, compound _ _, h => by simp [beq] at h
  | compound _ _, var _, h => by simp [beq] at h
  | compound _ _, sym _, h => by simp [beq] at h

theorem eq_of_beqList : (xs ys : List Term) → beqList xs ys = true → xs = ys
  | [], [], _ => rfl
  | x :: xs, y :: ys, h => by
    simp only [beqList, Bool.and_eq_true] at h
    rw [eq_of_beq x y h.1, eq_of_beqList xs ys h.2]
  | [], _ :: _, h => by simp [beqList] at h
  | _ :: _, [], h => by simp [beqList] at h
end

mutual
theorem beq_refl : (x : Term) → beq x x = true
  | var _ => by simp [beq]
  | sym _ => by simp [beq]
  | compound _ xs => by simp [beq, beqList_refl xs]

theorem beqList_refl : (xs : List Term) → beqList xs xs = true
  | [] => rfl
  | x :: xs => by simp [beqList, beq_refl x, beqList_refl xs]
end

theorem beq_iff {x y : Term} : beq x y = true ↔ x = y :=
  ⟨eq_of_beq x y, fun h => h ▸ beq_refl x⟩

instance : DecidableEq Term := fun x y => decidable_of_iff (beq x y = true) beq_iff

/-! ### Parts -/

/-- A constant is a symbol. -/
def asSymbol : Term → Option String
  | sym s => some s
  | _ => none

def asVariable : Term → Option String
  | var v => some v
  | _ => none

def isVariable : Term → Bool
  | var _ => true
  | _ => false

def isCompound : Term → Bool
  | compound _ _ => true
  | _ => false

/-- The outermost symbol: the functor of a compound, or the symbol itself. -/
def functor? : Term → Option String
  | var _ => none
  | sym s => some s
  | compound f _ => some f

def args : Term → List Term
  | compound _ args => args
  | _ => []

def arg? (t : Term) (i : Nat) : Option Term := t.args[i]?

def arity (t : Term) : Nat := t.args.length

/-- The term that a bare word stands for: a variable or a symbol, by its spelling. -/
def ofWord (text : String) : Term :=
  if isVariableName text then var text else sym text

/-- A functor applied to arguments; without arguments it is the plain symbol. -/
def apply (functor : String) (args : List Term) : Term :=
  if args.isEmpty then sym functor else compound functor args

/-- A string constant. -/
def string (text : String) : Term := sym (Text.quote text)

/-- The text of a string constant, without its quotes. -/
def stringText? : Term → Option String
  | sym s => Text.unquote? s
  | _ => none

def isString (t : Term) : Bool := t.stringText?.isSome

/-! ### Traversals -/

mutual
/-- A term without variables. -/
def isGround : Term → Bool
  | var _ => false
  | sym _ => true
  | compound _ args => allGround args

def allGround : List Term → Bool
  | [] => true
  | t :: ts => isGround t && allGround ts
end

@[simp] theorem allGround_eq (ts : List Term) : allGround ts = ts.all isGround := by
  induction ts with
  | nil => rfl
  | cons t ts ih => simp [allGround, ih]

mutual
/-- Adds the variables that are not yet in the list, in order of first occurrence. -/
def addVars : Term → List String → List String
  | var v, seen => if seen.contains v then seen else seen ++ [v]
  | sym _, seen => seen
  | compound _ args, seen => addVarsList args seen

def addVarsList : List Term → List String → List String
  | [], seen => seen
  | t :: ts, seen => addVarsList ts (addVars t seen)
end

/-- The variables in order of first occurrence, without repeats. -/
def vars (t : Term) : List String := t.addVars []

mutual
/-- The symbols and functors of the term, in order of traversal, in front of `rest`. -/
def symbolsThen : Term → List String → List String
  | var _, rest => rest
  | sym s, rest => s :: rest
  | compound f args, rest => f :: symbolsThenList args rest

def symbolsThenList : List Term → List String → List String
  | [], rest => rest
  | t :: ts, rest => symbolsThen t (symbolsThenList ts rest)
end

/-- Every symbol and functor of the term, repeats included, in order of traversal. -/
def symbols (t : Term) : List String := t.symbolsThen []

mutual
/-- Levels of nesting; a symbol or a variable has one. -/
def depth : Term → Nat
  | compound _ args => 1 + depthList args
  | _ => 1

/-- The largest depth in a list of terms, 0 for the empty list. -/
def depthList : List Term → Nat
  | [] => 0
  | t :: ts => max (depth t) (depthList ts)
end

end Term

end Deduction
