import Deduction.Builtin.Library
import Deduction.Proofs.Bindings.Unification
import Deduction.Proofs.Dedup
import Deduction.Proofs.Theory.Narrowing

/-!
# Words that do not come up

A builtin makes its result of what it is given, of numbers and of quoted texts; only four of them make other symbols,
from texts. So a word in lower case that does not come up in the inputs does not come up in the result
(`avoids_callBuiltin`), and neither does it when variables are replaced by terms without it (`Fills.avoids`).
-/

namespace Deduction

namespace Term

/-- None of the words is a symbol or a functor of the term. -/
def Avoids (words : List String) (t : Term) : Prop := ∀ a ∈ t.symbols, a ∉ words

instance (words : List String) (t : Term) : Decidable (t.Avoids words) :=
  inferInstanceAs (Decidable (∀ a ∈ t.symbols, a ∉ words))

variable {words : List String} {t u : Term} {a f : String} {args ts : List Term}

@[simp] theorem avoids_var (v : String) : (var v).Avoids words := by
  intro a ha
  cases ha

@[simp] theorem avoids_sym : (sym a).Avoids words ↔ a ∉ words := by simp [Avoids]

@[simp] theorem avoids_compound : (compound f args).Avoids words ↔ f ∉ words ∧ ∀ t ∈ args, t.Avoids words := by
  unfold Avoids
  simp only [symbols_compound, List.forall_mem_cons, List.mem_flatMap, forall_exists_index, and_imp]
  exact and_congr_right fun _ => ⟨fun h t ht a ha => h a t ht ha, fun h a t ht ha => h t ht a ha⟩

@[simp] theorem avoids_nil_words (t : Term) : t.Avoids [] := fun _ _ => List.not_mem_nil

theorem avoids_apply (hf : f ∉ words) (h : ∀ t ∈ ts, t.Avoids words) : (apply f ts).Avoids words := by
  unfold apply
  split
  · exact avoids_sym.2 hf
  · exact avoids_compound.2 ⟨hf, h⟩

theorem Avoids.asSymbol (h : t.Avoids words) (ha : a ∈ t.asSymbol) : a ∉ words := by
  cases t with
  | sym b =>
    cases ha
    exact avoids_sym.1 h
  | var v => cases ha
  | compound f args => cases ha

/-- The elements of a chain of cells. -/
theorem avoids_uncons : (t : Term) → t.Avoids words → (∀ u ∈ t.uncons.1, u.Avoids words) ∧ t.uncons.2.Avoids words
  | var v, h => ⟨by simp [uncons], h⟩
  | sym a, h => ⟨by simp [uncons], h⟩
  | compound f [], h => ⟨by simp [uncons], h⟩
  | compound f [_], h => ⟨by simp [uncons], h⟩
  | compound f (_ :: _ :: _ :: _), h => ⟨by simp [uncons], h⟩
  | compound f [head, tail], h => by
    obtain ⟨hf, hargs⟩ := avoids_compound.1 h
    have hhead : head.Avoids words := hargs head (by simp)
    have htail := avoids_uncons tail (hargs tail (by simp))
    unfold uncons
    split
    · exact ⟨List.forall_mem_cons.2 ⟨hhead, htail.1⟩, htail.2⟩
    · exact ⟨by simp, h⟩

theorem avoids_of_mem_cells (h : t.Avoids words) (hu : u ∈ t.cells) : u.Avoids words := (avoids_uncons t h).1 u hu

theorem avoids_of_items? (h : t.Avoids words) (hts : t.items? = some ts) : ∀ u ∈ ts, u.Avoids words := by
  unfold items? at hts
  dsimp only at hts
  split at hts
  · rw [← Option.some.inj hts]
    exact (avoids_uncons t h).1
  · cases hts

end Term

/-! ### Words that builtins do not make up -/

/-- A word of two or more letters in lower case, other than those that builtins make up. -/
def isSpareWord (w : String) : Bool :=
  2 ≤ w.toList.length && w.toList.all Char.isLower &&
    !(["nil", "cons", "funterm", "symbol", "infinity", "neginfinity"].contains w)

/-- The builtins that make symbols from texts. -/
def wordMakers : List String := ["symbolize", "newsymbolize", "readstring", "readstringall"]

section

variable {words : List String} (hspare : ∀ w ∈ words, isSpareWord w = true) {t u : Term} {a f : String}
  {args ts values : List Term} {surroundings : Surroundings}

include hspare

/-- A symbol with a character that is no lower-case letter is no such word. -/
theorem not_mem_of_not_isLower {c : Char} (hc : c ∈ a.toList) (hlower : c.isLower = false) : a ∉ words := by
  intro ha
  have hall := hspare a ha
  simp only [isSpareWord, Bool.and_eq_true] at hall
  have := List.all_eq_true.1 hall.1.2 c hc
  rw [hlower] at this
  cases this

theorem not_mem_of_made (ha : a ∈ ["nil", "cons", "funterm", "symbol", "infinity", "neginfinity"]) : a ∉ words := by
  intro hmem
  have hall := hspare a hmem
  simp only [isSpareWord, Bool.and_eq_true] at hall
  rw [List.contains_iff_mem.2 ha] at hall
  exact absurd hall.2 (by simp)

theorem not_mem_of_length (ha : a.toList.length < 2) : a ∉ words := by
  intro hmem
  have hall := hspare a hmem
  simp only [isSpareWord, Bool.and_eq_true, decide_eq_true_iff] at hall
  omega

theorem not_mem_ofList {cs : List Char} (hcs : ∀ c ∈ cs, c.isLower = false) : String.ofList cs ∉ words := by
  cases cs with
  | nil => exact not_mem_of_length hspare (by simp)
  | cons c cs => exact not_mem_of_not_isLower hspare (c := c) (by simp) (hcs c List.mem_cons_self)

theorem avoids_chain (hts : ∀ t ∈ ts, t.Avoids words) (ht : t.Avoids words) : (Term.chain ts t).Avoids words := by
  induction ts with
  | nil => exact ht
  | cons u ts ih =>
    have htail := ih fun t ht => hts t (List.mem_cons_of_mem u ht)
    have hcons : "cons" ∉ words := not_mem_of_made hspare (by simp)
    refine Term.avoids_compound.2 ⟨hcons, ?_⟩
    simpa using ⟨hts u List.mem_cons_self, htail⟩

theorem avoids_list (hts : ∀ t ∈ ts, t.Avoids words) : (Term.list ts).Avoids words :=
  avoids_chain hspare hts (Term.avoids_sym.2 (not_mem_of_made hspare (by simp)))

theorem avoids_string (text : String) : (Term.string text).Avoids words := by
  apply Term.avoids_sym.2
  refine not_mem_of_not_isLower hspare (c := '"') ?_ (by decide)
  simp [Text.quote]

/-! ### Numbers -/

omit hspare in
theorem not_isLower_positional {n : Nat} {k : Int} {c : Char} (hc : c ∈ Decimal.positional n k) : c.isLower = false := by
  have hdigit (c : Char) (hc : c ∈ Nat.toDigits 10 n) : c.isLower = false := by
    have hdigit : c.isDigit = true := Nat.isDigit_of_mem_toDigits (by decide) (by decide) hc
    rw [Bool.eq_false_iff]
    intro hlower
    have hnine : c.val ≤ 57 := of_decide_eq_true (Bool.and_eq_true_iff.1 hdigit).2
    have ha : 97 ≤ c.val := of_decide_eq_true (Bool.and_eq_true_iff.1 hlower).1
    exact absurd (UInt32.le_trans ha hnine) (by decide)
  have hzero : '0'.isLower = false := by decide
  unfold Decimal.positional at hc
  dsimp only at hc
  have hstrip (c : Char) (hc : c ∈ (Decimal.stripZeros (Nat.toDigits 10 n)).1) : c.isLower = false :=
    hdigit c (List.mem_of_mem_take hc)
  split at hc
  · rcases List.mem_append.1 hc with hc | hc
    · exact hstrip c hc
    · rw [List.eq_of_mem_replicate hc]
      exact hzero
  · split at hc
    · rcases List.mem_append.1 hc with hc | hc
      · exact hstrip c (List.mem_of_mem_take hc)
      · rcases List.mem_cons.1 hc with rfl | hc
        · decide
        · exact hstrip c (List.mem_of_mem_drop hc)
    · rcases List.mem_append.1 hc with hc | hc
      · simp only [List.mem_cons] at hc
        rcases hc with rfl | rfl | hc
        · exact hzero
        · decide
        · rw [List.eq_of_mem_replicate hc]
          exact hzero
      · exact hstrip c hc

theorem avoids_number (x : Float) : (Term.number x).Avoids words := by
  apply Term.avoids_sym.2
  unfold formatNumber
  split
  · exact not_mem_of_not_isLower hspare (c := 'N') (by simp) (by decide)
  split
  · exact not_mem_of_made hspare (by simp)
  split
  · exact not_mem_of_made hspare (by simp)
  split
  · exact not_mem_of_length hspare (by simp)
  dsimp only
  -- every other number is written in digits, with a point and a sign at most
  obtain ⟨n, k⟩ := Decimal.shortest (x.toBits.toNat % (1 <<< 63))
  have hdigits (c : Char) (hc : c ∈ Decimal.positional n k) : c.isLower = false := not_isLower_positional hc
  split
  · exact not_mem_ofList hspare hdigits
  · exact not_mem_ofList hspare (List.forall_mem_cons.2 ⟨by decide, hdigits⟩)

theorem avoids_number? {x : Float} (h : Term.number? x = some t) : t.Avoids words := by
  unfold Term.number? at h
  split at h
  · cases h
  · rw [← Option.some.inj h]
    exact avoids_number hspare x

/-! ### Results of builtins -/

theorem avoids_ofInt (n : Int) : (Builtin.ofInt n).Avoids words := avoids_number hspare _

theorem avoids_strings (texts : List String) : (Builtin.strings texts).Avoids words := by
  refine avoids_list hspare fun t ht => ?_
  obtain ⟨text, -, rfl⟩ := List.mem_map.1 ht
  exact avoids_string hspare text

theorem avoids_toList (ht : t.Avoids words) : (Builtin.toList t).Avoids words := by
  cases t with
  | var v => exact ht
  | sym a =>
    refine avoids_list hspare fun u hu => ?_
    obtain ⟨c, -, rfl⟩ := List.mem_map.1 hu
    exact Term.avoids_sym.2 (not_mem_of_length hspare (by simp [Char.toString]))
  | compound f args =>
    obtain ⟨hf, hargs⟩ := Term.avoids_compound.1 ht
    exact avoids_list hspare (List.forall_mem_cons.2 ⟨Term.avoids_sym.2 hf, hargs⟩)

omit hspare in
theorem avoids_ofList (ht : t.Avoids words) (h : Builtin.ofList t = some u) : u.Avoids words := by
  unfold Builtin.ofList at h
  obtain ⟨items, hitems, h⟩ := Option.bind_eq_some_iff.1 h
  have havoid := Term.avoids_of_items? ht hitems
  cases items with
  | nil => cases h
  | cons head rest =>
    obtain ⟨f, hf, h⟩ := Option.bind_eq_some_iff.1 h
    cases head with
    | sym a =>
      cases hf
      cases h
      have hhead := havoid _ List.mem_cons_self
      exact Term.avoids_apply (Term.avoids_sym.1 hhead) fun t ht => havoid t (List.mem_cons_of_mem _ ht)
    | var v => cases hf
    | compound f args => cases hf

theorem avoids_foldNumbers {op : Float → Float → Float} (h : Builtin.foldNumbers op values = some u) :
    u.Avoids words := by
  unfold Builtin.foldNumbers at h
  obtain ⟨xs, -, h⟩ := Option.bind_eq_some_iff.1 h
  cases xs with
  | nil => cases h
  | cons x xs => exact avoids_number? hspare h

theorem avoids_foldNumbersFrom {unit : Float} {op : Float → Float → Float}
    (h : Builtin.foldNumbersFrom unit op values = some u) : u.Avoids words := by
  unfold Builtin.foldNumbersFrom at h
  obtain ⟨xs, -, h⟩ := Option.bind_eq_some_iff.1 h
  exact avoids_number? hspare h

theorem avoids_of_map_ofInt {n : Option Int} (h : n.map Builtin.ofInt = some u) : u.Avoids words := by
  obtain ⟨n, -, rfl⟩ := Option.map_eq_some_iff.1 h
  exact avoids_ofInt hspare n

/-- The result of a builtin, except for those that make symbols from texts. -/
theorem avoids_call {b : Builtin} (hb : b ≠ .symbolize ∧ b ≠ .newSymbolize ∧ b ≠ .readString ∧ b ≠ .readStringAll)
    (hvalues : ∀ t ∈ values, t.Avoids words) (h : b.call surroundings values = some u) : u.Avoids words := by
  obtain ⟨hsymbolize, hnew, hread, hall⟩ := hb
  unfold Builtin.call at h
  split at h
  · rw [← Option.some.inj h]
    split
    · exact Term.avoids_sym.2 (not_mem_of_made hspare (by simp))
    · exact Term.avoids_sym.2 (not_mem_of_made hspare (by simp))
  -- numbers
  · exact avoids_foldNumbersFrom hspare h
  · exact avoids_foldNumbersFrom hspare h
  · exact avoids_foldNumbers hspare h
  · exact avoids_foldNumbers hspare h
  · exact avoids_foldNumbers hspare h
  -- texts
  · exact absurd rfl hsymbolize
  · exact absurd rfl hnew
  · exact absurd rfl hread
  · rw [← Option.some.inj h]
    exact avoids_string hspare _
  · exact absurd rfl hall
  · rw [← Option.some.inj h]
    exact avoids_string hspare _
  · obtain ⟨text, -, h⟩ := Option.bind_eq_some_iff.1 h
    obtain ⟨pattern, -, h⟩ := Option.bind_eq_some_iff.1 h
    obtain ⟨groups, -, h⟩ := Option.bind_eq_some_iff.1 h
    rw [← Option.some.inj h]
    exact avoids_strings hspare groups
  · obtain ⟨text, -, h⟩ := Option.bind_eq_some_iff.1 h
    obtain ⟨pattern, -, h⟩ := Option.bind_eq_some_iff.1 h
    split at h
    · cases h
    · rw [← Option.some.inj h]
      exact avoids_strings hspare _
  · obtain ⟨texts, -, h⟩ := Option.bind_eq_some_iff.1 h
    rw [← Option.some.inj h]
    exact avoids_string hspare _
  · obtain ⟨right, -, h⟩ := Option.bind_eq_some_iff.1 h
    obtain ⟨left, -, h⟩ := Option.bind_eq_some_iff.1 h
    rw [← Option.some.inj h]
    split
    · exact hvalues _ (by simp)
    · exact hvalues _ (by simp)
  · obtain ⟨items, -, h⟩ := Option.bind_eq_some_iff.1 h
    obtain ⟨texts, -, h⟩ := Option.bind_eq_some_iff.1 h
    rw [← Option.some.inj h]
    exact avoids_string hspare _
  -- moments
  · exact avoids_of_map_ofInt hspare h
  · exact avoids_of_map_ofInt hspare h
  · exact avoids_of_map_ofInt hspare h
  -- lists
  · obtain ⟨items, hitems, rfl⟩ := Option.map_eq_some_iff.1 h
    exact avoids_chain hspare (Term.avoids_of_items? (hvalues _ (by simp)) hitems) (hvalues _ (by simp))
  · obtain ⟨items, hitems, rfl⟩ := Option.map_eq_some_iff.1 h
    have hitems := Term.avoids_of_items? (hvalues _ (by simp)) hitems
    exact avoids_list hspare fun t ht => hitems t (List.mem_reverse.1 ht)
  · obtain ⟨items, hitems, rfl⟩ := Option.map_eq_some_iff.1 h
    have hitems := Term.avoids_of_items? (hvalues _ (by simp)) hitems
    exact avoids_chain hspare (fun t ht => hitems t (List.mem_reverse.1 ht)) (hvalues _ (by simp))
  · obtain ⟨items, -, rfl⟩ := Option.map_eq_some_iff.1 h
    exact avoids_ofInt hspare _
  · rw [← Option.some.inj h]
    exact avoids_toList hspare (hvalues _ (by simp))
  · exact avoids_ofList (hvalues _ (by simp)) h
  · cases h

omit hspare in
/-- The builtins that make symbols from texts are told by their names. -/
theorem ne_of_not_mem_wordMakers {b : Builtin} (hf : f ∉ wordMakers) (h : Builtin.ofName? f = some b) :
    b ≠ .symbolize ∧ b ≠ .newSymbolize ∧ b ≠ .readString ∧ b ≠ .readStringAll := by
  unfold Builtin.ofName? at h
  split at h
  case h_26 =>
    obtain ⟨part, -, rfl⟩ := Option.map_eq_some_iff.1 h
    simp
  all_goals
    cases h
    revert hf
    simp [wordMakers]

theorem avoids_callBuiltin (hf : f ∉ wordMakers) (hvalues : ∀ t ∈ values, t.Avoids words)
    (h : callBuiltin f values surroundings = some u) : u.Avoids words := by
  obtain ⟨b, hb, h⟩ := Option.bind_eq_some_iff.1 h
  exact avoids_call hspare (ne_of_not_mem_wordMakers hf hb) hvalues h

theorem avoids_callMath (h : callMath f values surroundings = some u) : u.Avoids words := by
  obtain ⟨xs, -, h⟩ := Option.bind_eq_some_iff.1 h
  obtain ⟨x, -, h⟩ := Option.bind_eq_some_iff.1 h
  exact avoids_number? hspare h

theorem avoids_callListOperator (h : callListOperator f t = some u) : u.Avoids words := by
  obtain ⟨op, -, h⟩ := Option.bind_eq_some_iff.1 h
  obtain ⟨xs, -, h⟩ := Option.bind_eq_some_iff.1 h
  exact avoids_number? hspare h

end

/-! ### Terms in the place of variables -/

/-- The second term is the first one with terms in the place of its variables, all without the words. -/
inductive Term.Fills (words : List String) : Term → Term → Prop
  | var (v : String) {t : Term} (h : t.Avoids words) : Fills words (.var v) t
  | sym (a : String) : Fills words (.sym a) (.sym a)
  | compound (f : String) {args args' : List Term} (h : List.Forall₂ (Fills words) args args') :
    Fills words (.compound f args) (.compound f args')

namespace Term

variable {words : List String}

theorem Fills.refl (words : List String) (t : Term) : Fills words t t := by
  cases t with
  | var v => exact .var v (avoids_var v)
  | sym a => exact .sym a
  | compound f args => exact .compound f (List.forall₂_same.2 fun t _ => Fills.refl words t)
termination_by t

theorem Fills.avoids : {t u : Term} → Fills words t u → t.Avoids words → u.Avoids words
  | .var _, _, .var _ h, _ => h
  | .sym _, _, .sym _, ht => ht
  | .compound f args, _, .compound _ h, ht => by
    obtain ⟨hf, hargs⟩ := avoids_compound.1 ht
    refine avoids_compound.2 ⟨hf, fun u hu => ?_⟩
    obtain ⟨t, hmem, hfills⟩ := exists_left_of_forall₂ h hu
    exact hfills.avoids (hargs t hmem)

mutual
theorem Fills.trans {u v : Term} : (t : Term) → Fills words t u → Fills words u v → Fills words t v
  | .var w, .var _ hu, huv => .var w (huv.avoids hu)
  | .sym a, .sym _, .sym _ => .sym a
  | .compound f args, .compound _ h, .compound _ h' => .compound f (Fills.trans_list args h h')

theorem Fills.trans_list {us vs : List Term} : (ts : List Term) → List.Forall₂ (Fills words) ts us →
    List.Forall₂ (Fills words) us vs → List.Forall₂ (Fills words) ts vs
  | [], .nil, .nil => .nil
  | t :: ts, .cons htu htus, .cons huv huvs => .cons (Fills.trans t htu huv) (Fills.trans_list ts htus huvs)
end

end Term

/-! ### Words in bindings -/

namespace Bindings

variable {words : List String} {b : Bindings} {v : String} {value x y : Term}

/-- None of the words comes up in a value. -/
def Avoids (words : List String) (b : Bindings) : Prop := ∀ p ∈ b, p.2.Avoids words

theorem Avoids.get? (hb : b.Avoids words) (h : b.get? v = some value) : value.Avoids words := by
  obtain ⟨l, l', rfl, -⟩ := List.lookup_eq_some_iff.1 h
  exact hb (v, value) (by simp)

theorem Avoids.bind (hb : b.Avoids words) (hvalue : value.Avoids words) : (b.bind v value).Avoids words :=
  List.forall_mem_cons.2 ⟨hvalue, hb⟩

/-- Replacing variables by the values of bindings. -/
theorem Avoids.plugAt (hb : b.Avoids words) (n : Nat) (t : Term) : t.Fills words (b.plugAt n t) := by
  induction n generalizing t with
  | zero => exact .refl words t
  | succ n ih =>
    cases t with
    | var v =>
      unfold Bindings.plugAt
      split
      · rename_i value hvalue
        exact .var v ((ih value).avoids (hb.get? hvalue))
      · exact .refl words _
    | sym a => exact .sym a
    | compound f args =>
      refine .compound f ?_
      rw [List.forall₂_map_right_iff]
      exact List.forall₂_same.2 fun t _ => ih t

/-- Unification binds variables to parts of the two terms. -/
theorem Avoids.keeps (words : List String) : Keeps (Term.Avoids words) (Avoids words) where
  arg ht hu := (Term.avoids_compound.1 ht).2 _ hu
  value hb hv := hb.get? hv
  bind hb _ ht _ _ := hb.bind ht

theorem avoids_of_unifier (hx : x.Avoids words) (hy : y.Avoids words) (h : unifier x y = some b) : b.Avoids words :=
  unifyAt_keeps (Avoids.keeps words) (by simp [Avoids]) hx hy h

end Bindings

end Deduction
