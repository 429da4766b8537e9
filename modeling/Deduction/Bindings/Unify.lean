import Deduction.Bindings.Basic

/-!
# Matching and unification with bindings

Matching binds the variables of a pattern so that it becomes a given term, which is taken literally. Unification
binds variables of both terms so that they become equal, and refuses to bind a variable to a term that holds it.
Both give up on terms that are nested too deeply.
-/

namespace Deduction.Bindings

/-- Extends bindings over two lists of terms, pair by pair; lists of different lengths do not fit. -/
def foldPairs (extend : Term → Term → Bindings → Option Bindings) :
    List Term → List Term → Bindings → Option Bindings
  | [], [], b => some b
  | x :: xs, y :: ys, b => (extend x y b).bind (foldPairs extend xs ys)
  | _, _, _ => none

/-! ### Matching -/

/-- Extends bindings so that the pattern becomes the term. -/
def matchAt : Nat → Term → Term → Bindings → Option Bindings
  | 0, _, _, _ => none
  | _ + 1, .var v, t, b =>
    match b.get? v with
    | some value => if value = t then some b else none
    | none => some (b.bind v t)
  | _ + 1, .sym s, t, b => if t = .sym s then some b else none
  | n + 1, .compound f ps, .compound g ts, b => if f = g then foldPairs (matchAt n) ps ts b else none
  | _ + 1, .compound _ _, _, _ => none

/-- Extends bindings so that the pattern becomes the term. A variable that is bound must fit its value. -/
def matchWith (pattern t : Term) (b : Bindings) : Option Bindings := matchAt allowance pattern t b

/-- The bindings under which the pattern becomes the term. -/
def matcher (pattern t : Term) : Option Bindings := matchWith pattern t []

/-! ### Unification -/

/-- Does the variable occur in the term once bindings are applied? -/
def occursAt (b : Bindings) (v : String) : Nat → Term → Bool
  | 0, _ => true
  | n + 1, .var w =>
    w = v ||
      match b.get? w with
      | some value => b.occursAt v n value
      | none => false
  | _ + 1, .sym _ => false
  | n + 1, .compound _ args => args.any (b.occursAt v n)

def occurs (b : Bindings) (v : String) (t : Term) : Bool := b.occursAt v allowance t

/-- Makes a variable equal to a term: by `unify` on its value if it has one, else by binding it. -/
def unifyVar (unify : Term → Term → Bindings → Option Bindings) (v : String) (t : Term) (b : Bindings) :
    Option Bindings :=
  match b.get? v with
  | some value => unify value t b
  | none => if b.occurs v t then none else some (b.bind v t)

/-- Extends bindings so that the terms become equal. -/
def unifyAt : Nat → Term → Term → Bindings → Option Bindings
  | 0, _, _, _ => none
  | n + 1, x, y, b =>
    if x = y then some b
    else
      match x, y with
      | .var v, t => unifyVar (unifyAt n) v t b
      | t, .var v => unifyVar (unifyAt n) v t b
      | .compound f xs, .compound g ys => if f = g then foldPairs (unifyAt n) xs ys b else none
      | _, _ => none

/-- Extends bindings so that the terms become equal. -/
def unifyWith (x y : Term) (b : Bindings) : Option Bindings := unifyAt allowance x y b

/-- The most general bindings under which the terms become equal. -/
def unifier (x y : Term) : Option Bindings := unifyWith x y []

end Deduction.Bindings
