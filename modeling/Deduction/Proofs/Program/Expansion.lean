import Mathlib.Data.List.Perm.Basic
import Deduction.Proofs.Dedup
import Deduction.Proofs.Search.Apart
import Deduction.Update

/-!
# Expanding updates

The parts of an update are expanded one after the other, on one meter. As long as the limit is not reached, what comes of a
part does not depend on the others, so their order is no more than that of the changes (`perm_of_gives_flatMapM`). Which
answers an expansion goes by is a parameter here; in the library they are those of the sources (`expandBy_consult`).
-/

namespace Deduction

variable {α β : Type} {limit : Nat}

/-! ### Going over parts -/

section

variable {f g : α → Metered (List β)} {a : α} {as : List α}

private theorem flatMapM_loop (f : α → Metered (List β)) (as : List α) (done : List (List β)) :
    List.flatMapM.loop f as done = (done.reverse.flatten ++ ·) <$> List.flatMapM.loop f as [] := by
  induction as generalizing done with
  | nil => simp [List.flatMapM.loop]
  | cons a as ih =>
    unfold List.flatMapM.loop
    rw [map_bind]
    refine bind_congr fun b => ?_
    rw [ih (b :: done), ih [b]]
    simp

theorem flatMapM_cons : (a :: as).flatMapM f = f a >>= fun bs => as.flatMapM f >>= fun rest => pure (bs ++ rest) := by
  unfold List.flatMapM
  rw [List.flatMapM.loop]
  refine bind_congr fun bs => ?_
  rw [flatMapM_loop f as [bs], map_eq_pure_bind]
  simp

theorem Counts.flatMapM (hf : ∀ a, Counts (f a)) (as : List α) : Counts (as.flatMapM f) := by
  induction as with
  | nil => exact counts_pure []
  | cons a as ih =>
    rw [flatMapM_cons]
    exact (hf a).bind fun bs => ih.bind fun rest => counts_pure _

theorem Agree.flatMapM (hf : ∀ a, Counts (f a)) (hg : ∀ a, Counts (g a)) (h : ∀ a, Agree limit Eq (f a) (g a))
    (as : List α) : Agree limit Eq (as.flatMapM f) (as.flatMapM g) := by
  induction as with
  | nil => exact agree_pure rfl
  | cons a as ih =>
    have hcounts {k : α → Metered (List β)} (hk : ∀ a, Counts (k a)) (bs : List β) :
        Counts (as.flatMapM k >>= fun rest => pure (bs ++ rest)) := (Counts.flatMapM hk as).bind fun _ => counts_pure _
    rw [flatMapM_cons, flatMapM_cons]
    refine (h a).bind (hcounts hf) (hcounts hg) fun bs bs' hbs => ?_
    refine ih.bind (fun _ => counts_pure _) (fun _ => counts_pure _) fun rest rest' hrest => ?_
    rw [hbs, hrest]
    exact agree_pure rfl

end

/-! ### What comes of a computation -/

/-- The computation may come to the result before the limit. -/
def Gives (limit : Nat) (x : Metered α) (a : α) : Prop := ∃ m m', x.run m = .ok (a, m') ∧ m'.spent < limit

/-- What comes of a computation, read off from a run of it. -/
theorem exists_gives {x : Metered α} {f : α → β} {b : β}
    (h : ((x.run {}).toOption.map fun r => (f r.1, decide (r.2.spent < limit))) = some (b, true)) :
    ∃ a, Gives limit x a ∧ f a = b := by
  cases hrun : x.run {} with
  | error e =>
    rw [hrun] at h
    cases h
  | ok r =>
    rw [hrun] at h
    obtain ⟨hf, hlimit⟩ := Prod.mk.inj (Option.some.inj h)
    exact ⟨r.1, ⟨{}, r.2, hrun, of_decide_eq_true hlimit⟩, hf⟩

theorem Agree.gives {x : Metered α} {y : Metered β} {R : α → β → Prop} (h : Agree limit R x y) {a : α} {b : β}
    (hx : Gives limit x a) (hy : Gives limit y b) : R a b := by
  obtain ⟨m, m', hx, hm⟩ := hx
  obtain ⟨n, n', hy, hn⟩ := hy
  exact h hx hy hm hn

/-- What comes of a sequence comes of its parts. -/
theorem Gives.bind {x : Metered α} {f : α → Metered β} (hf : ∀ a, Counts (f a)) {b : β} (h : Gives limit (x >>= f) b) :
    ∃ a, Gives limit x a ∧ Gives limit (f a) b := by
  obtain ⟨m, m', hrun, hm⟩ := h
  obtain ⟨a, m₁, hx, hfa⟩ := Metered.run_bind_eq_ok.1 hrun
  exact ⟨a, ⟨m, m₁, hx, Nat.lt_of_le_of_lt (hf a hfa) hm⟩, m₁, m', hfa, hm⟩

theorem gives_pure {a b : α} (h : Gives limit (pure a) b) : a = b := by
  obtain ⟨m, m', hrun, -⟩ := h
  exact (Metered.run_pure_eq_ok.1 hrun).1

/-- What comes of the parts is put together. -/
theorem Gives.flatMapM {f : α → Metered (List β)} (hf : ∀ a, Counts (f a)) {as : List α} {bs : List β}
    (h : Gives limit (as.flatMapM f) bs) :
    ∃ results, List.Forall₂ (fun a => Gives limit (f a)) as results ∧ bs = results.flatten := by
  induction as generalizing bs with
  | nil => exact ⟨[], .nil, (gives_pure h).symm⟩
  | cons a as ih =>
    rw [flatMapM_cons] at h
    obtain ⟨first, hfirst, h⟩ := h.bind fun _ => (Counts.flatMapM hf as).bind fun _ => counts_pure _
    obtain ⟨rest, hrest, h⟩ := h.bind fun _ => counts_pure _
    obtain ⟨results, hresults, rfl⟩ := ih hrest
    exact ⟨first :: results, .cons hfirst hresults, (gives_pure h).symm⟩

/-- If computations agree, what comes of them for the parts in another order is the same in another order. -/
theorem perm_of_gives_flatMapM {f g : α → Metered (List β)} (hf : ∀ a, Counts (f a)) (hg : ∀ a, Counts (g a))
    (h : ∀ a, Agree limit Eq (f a) (g a)) {as as' : List α} (has : as.Perm as') {bs bs' : List β}
    (hbs : Gives limit (as.flatMapM f) bs) (hbs' : Gives limit (as'.flatMapM g) bs') : bs.Perm bs' := by
  obtain ⟨results, hresults, rfl⟩ := hbs.flatMapM hf
  obtain ⟨results', hresults', rfl⟩ := hbs'.flatMapM hg
  -- A part has no more than one result, so those of the parts in the new order are the ones that came of them.
  obtain ⟨reordered, hreordered, hperm⟩ := List.perm_comp_forall₂ has.symm hresults
  have heq : reordered = results' := by
    clear hbs hbs' hperm has hresults
    induction hreordered generalizing results' with
    | nil =>
      cases hresults'
      rfl
    | cons ha _ ih =>
      cases hresults' with
      | cons ha' hrest => rw [(h _).gives ha ha', ih _ hrest]
  rw [← heq]
  exact hperm.symm.flatten

/-! ### Expansion -/

/-- The changes that an update stands for, if its conditions are put to an answerer. -/
def expandBy (src : Sources) (ask : Answerer) : Nat → Nat → Term → Metered (List Term)
  | 0, _, _ => throw .stepBound
  | _ + 1, _, .var _ => return []
  | n + 1, passed, seed =>
    match seed with
    | .compound "not" _ => return [seed]
    | .compound "and" parts => parts.flatMapM (expandBy src ask n passed)
    | .compound "transition" [condition, action] => do
      (← ask.findAll src.config action condition).flatMapM (expandBy src ask n passed)
    | _ =>
      if src.config.expandDepth < passed then return []
      else
        match handledChanges src.rules seed with
        | [] => return [seed]
        | changes => changes.flatMapM (expandBy src ask n (passed + 1))

theorem expandBy_consult (src : Sources) (n : Nat) : expandBy src src.consult n = expandAt src n := by
  induction n with
  | zero => rfl
  | succ n ih =>
    funext passed seed
    cases seed with
    | var v => rfl
    | sym a =>
      unfold expandBy expandAt
      rewrite [ih]
      rfl
    | compound f args =>
      unfold expandBy expandAt
      rewrite [ih]
      rfl

section

variable {src src' : Sources} {ask ask' : Answerer}

theorem counts_expandBy (hask : ask.Counting) (n passed : Nat) (seed : Term) :
    Counts (expandBy src ask n passed seed) := by
  induction n generalizing passed seed with
  | zero => exact counts_throw _
  | succ n ih =>
    have hparts (passed : Nat) (parts : List Term) : Counts (parts.flatMapM (expandBy src ask n passed)) :=
      .flatMapM (ih passed) parts
    unfold expandBy
    split
    · exact counts_throw _
    · exact counts_pure []
    · rename_i heq _
      obtain rfl := Nat.succ.inj heq
      split
      · exact counts_pure _
      · exact hparts _ _
      · exact Counts.bind ((hask _).bind fun _ => counts_pure _) (hparts _)
      · refine counts_ite (counts_pure []) ?_
        split
        · exact counts_pure _
        · exact hparts _ _

/-- Expansions agree if the answers do and the handlers do the same. -/
theorem agree_expandBy (hask : ask.Alike (.avoiding []) limit ask') (hconfig : src.config = src'.config)
    (hhandled : ∀ change, handledChanges src.rules change = handledChanges src'.rules change) (n passed : Nat)
    (seed : Term) : Agree limit Eq (expandBy src ask n passed seed) (expandBy src' ask' n passed seed) := by
  induction n generalizing passed seed with
  | zero => exact agree_throw _
  | succ n ih =>
    have hparts (passed : Nat) (parts : List Term) : Agree limit Eq (parts.flatMapM (expandBy src ask n passed))
        (parts.flatMapM (expandBy src' ask' n passed)) :=
      .flatMapM (counts_expandBy hask.left n passed) (counts_expandBy hask.right n passed) (ih passed) parts
    unfold expandBy
    split
    · exact agree_throw _
    · exact agree_pure rfl
    · rename_i heq _
      obtain rfl := Nat.succ.inj heq
      rw [← hconfig, ← hhandled]
      split
      · exact agree_pure rfl
      · exact hparts _ _
      · rename_i condition action _
        have hanswers := agree_findAll hask src.config (Term.avoids_nil_words action) (Term.avoids_nil_words condition)
        refine hanswers.bind (Counts.flatMapM (counts_expandBy hask.left n _))
          (Counts.flatMapM (counts_expandBy hask.right n _)) fun answers answers' heq => ?_
        rw [heq]
        exact hparts _ _
      · split
        · exact agree_pure rfl
        · split
          · exact agree_pure rfl
          · exact hparts _ _

end

theorem counts_expandAt (src : Sources) (n passed : Nat) (seed : Term) : Counts (expandAt src n passed seed) := by
  rw [← expandBy_consult]
  exact counts_expandBy (counts_consultAt src stepBound) n passed seed

/-- What an update is expanded to below the limit is always the same. -/
theorem agree_expandAt (src : Sources) (n passed : Nat) (seed : Term) :
    Agree src.config.limit Eq (expandAt src n passed seed) (expandAt src n passed seed) := by
  have hask := alike_consultAt (Language.closed_avoiding_nil src) List.not_mem_nil (.refl _ src) stepBound
  rw [← expandBy_consult]
  exact agree_expandBy hask rfl (fun _ => rfl) n passed seed

namespace Sources

/-- The changes that an update stands for, if its conditions are put to an answerer. -/
def expandBy (src : Sources) (ask : Answerer) (seed : Term) : Metered (List Term) := do
  return src.config.dedup.apply (← Deduction.expandBy src ask stepBound 0 seed)

theorem counts_expandBy {ask : Answerer} (hask : ask.Counting) (src : Sources) (seed : Term) :
    Counts (src.expandBy ask seed) := (Deduction.counts_expandBy hask _ _ seed).bind fun _ => counts_pure _

theorem agree_expandBy {src src' : Sources} {ask ask' : Answerer} (hask : ask.Alike (.avoiding []) limit ask')
    (hconfig : src.config = src'.config)
    (hhandled : ∀ change, handledChanges src.rules change = handledChanges src'.rules change) (seed : Term) :
    Agree limit Eq (src.expandBy ask seed) (src'.expandBy ask' seed) := by
  refine (Deduction.agree_expandBy hask hconfig hhandled stepBound 0 seed).bind (fun _ => counts_pure _)
    (fun _ => counts_pure _) fun changes changes' heq => ?_
  rw [heq, hconfig]
  exact agree_pure rfl

theorem expandBy_expand (src : Sources) : src.expandBy src.consult = src.expand := by
  funext seed
  unfold expandBy expand
  rw [expandBy_consult]

end Sources

end Deduction
