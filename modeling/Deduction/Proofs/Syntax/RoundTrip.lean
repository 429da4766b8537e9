import Deduction.Proofs.Syntax.Printing

/-!
# Printing and reading again

A term that was read from a text in operator syntax is printed as a text that reads as the same term just if no mark stands
in front of the head of a cell with `!` (`readTerm_print`): the printer writes no parentheses around such a head, and the
mark then takes the whole cell.
-/

namespace Deduction

namespace Term

/-! ### Anonymous variables without their names -/

mutual
/-- The term with the names of anonymous variables taken away again. -/
def unname : Term → Term
  | var v => if v.toList.head? = some '_' then var "_" else var v
  | sym s => sym s
  | compound f args => compound f (unnameList args)

def unnameList : List Term → List Term
  | [] => []
  | t :: ts => unname t :: unnameList ts
end

theorem unnameList_eq_map (ts : List Term) : unnameList ts = ts.map unname := by
  induction ts with
  | nil => rfl
  | cons t ts ih => rw [unnameList, ih, List.map_cons]

theorem isList_unname : (t : Term) → t.unname.isList = t.isList
  | var v => by
    unfold unname
    split <;> rfl
  | sym _ => rfl
  | compound _ [] => rfl
  | compound _ [_] => rfl
  | compound _ (_ :: _ :: _ :: _) => rfl
  | compound f [head, tail] => by
    by_cases hf : f = "cons"
    · subst hf
      have htail := isList_unname tail
      simpa [isList, unname, unnameList, uncons] using htail
    · simp [isList, unname, unnameList, uncons, hf, isNil]

end Term

namespace Printer

open Term

mutual
/-- The names of anonymous variables are not written. -/
theorem term_unname : (t : Term) → ∀ left right rest, term left right t.unname rest = term left right t rest
  | .var v => by
    intro left right rest
    unfold unname
    split
    · rename_i hv
      obtain ⟨cs, hcs⟩ := List.head?_eq_some_iff.1 hv
      rw [term, term, word, word, hcs]
      rfl
    · rfl
  | .sym _ => fun _ _ _ => rfl
  | .compound _ [] => fun _ _ _ => rfl
  | .compound f [a] => by
    intro left right rest
    simp only [unname, unnameList]
    by_cases hrule : f = "rule"
    · subst hrule
      simp [term, chainMark?, prefixMark?, binaryMark?, term_unname a]
    cases hc : chainMark? f <;> cases hp : prefixMark? f <;> cases hb : binaryMark? f <;>
      simp [term, hrule, hc, hp, hb, term_unname a]
  | .compound f (a :: b :: c :: more) => by
    intro left right rest
    have hlists := lists_unname (b :: c :: more)
    simp only [unname, unnameList] at hlists ⊢
    by_cases hrule : f = "rule"
    · subst hrule
      simp [term, chainMark?, prefixMark?, binaryMark?, term_unname a, hlists]
    cases hc : chainMark? f <;>
      simp [term, hrule, hc, term_unname a, hlists]
  | .compound f [a, b] => by
    intro left right rest
    simp only [unname, unnameList]
    by_cases hrule : f = "rule"
    · subst hrule
      simp [term, chainMark?, binaryMark?, term_unname a, body, term_unname b]
    cases hc : chainMark? f <;> cases hb : binaryMark? f <;>
      simp [term, hrule, hc, hb, term_unname a, chain, term_unname b, isList_unname b, cells_unname b]

theorem lists_unname : (ts : List Term) →
    (∀ right rest, body right (unnameList ts) rest = body right ts rest) ∧
      (∀ op right rest, chain op right (unnameList ts) rest = chain op right ts rest) ∧
        ∀ rest, arguments (unnameList ts) rest = arguments ts rest
  | [] => ⟨fun _ _ => rfl, fun _ _ _ => rfl, fun _ => rfl⟩
  | [t] => by simp [unnameList, body, chain, arguments, term_unname t]
  | t :: u :: us => by
    have hlists := lists_unname (u :: us)
    rw [unnameList] at hlists
    refine ⟨fun right rest => ?_, fun op right rest => ?_, fun rest => ?_⟩
    · simp [unnameList, body, term_unname t, hlists]
    · simp [unnameList, chain, term_unname t, hlists]
    · rw [unnameList, unnameList, arguments, hlists.2.2, term_unname t]
      rfl

theorem cells_unname : (t : Term) → ∀ rest, cells t.unname rest = cells t rest
  | .var _ => fun rest => by
    unfold unname
    split <;> rfl
  | .sym _ => fun _ => rfl
  | .compound _ [] => fun _ => rfl
  | .compound _ [_] => fun _ => rfl
  | .compound _ (_ :: _ :: _ :: _) => fun _ => rfl
  | .compound _ [a, b] => fun rest => by simp [unname, unnameList, cells, term_unname a, cells_unname b]
end

theorem print_unname (t : Term) : t.unname.print = t.print := by
  rw [Term.print, Term.print, term_unname]

end Printer

namespace Term

theorem isMarked_unname : (t : Term) → t.unname.isMarked = t.isMarked
  | var v => by
    unfold unname
    split <;> rfl
  | sym _ => rfl
  | compound _ [] => rfl
  | compound _ [_] => rfl
  | compound _ (_ :: _ :: _) => rfl

theorem hasPlainHead_unname : (t : Term) → t.unname.hasPlainHead = t.hasPlainHead
  | var v => by
    unfold unname
    split <;> rfl
  | sym _ => rfl
  | compound _ [] => rfl
  | compound _ [_] => rfl
  | compound _ (_ :: _ :: _ :: _) => rfl
  | compound f [head, tail] => by
    by_cases hf : f = "cons"
    · simp [hasPlainHead, unname, unnameList, asCons, hf, isList_unname, isMarked_unname]
    · simp [hasPlainHead, unname, unnameList, asCons, hf]

mutual
theorem hasPlainHeads_unname : (t : Term) → t.unname.hasPlainHeads = t.hasPlainHeads
  | var v => by
    unfold unname
    split <;> rfl
  | sym _ => rfl
  | compound f args => by
    have hhead := hasPlainHead_unname (compound f args)
    simp only [unname] at hhead
    simp only [unname, hasPlainHeads, hhead, allHavePlainHeads_unname args]

theorem allHavePlainHeads_unname : (ts : List Term) → allHavePlainHeads (unnameList ts) = allHavePlainHeads ts
  | [] => rfl
  | t :: ts => by
    simp only [unnameList, allHavePlainHeads, hasPlainHeads_unname t, allHavePlainHeads_unname ts]
end

theorem head?_anonymous (n : Nat) : (s!"_{n}").toList.head? = some '_' := by
  change ("_" ++ toString n).toList.head? = some '_'
  rw [String.toList_append]
  rfl

mutual
/-- Anonymous variables that were named lose their names again. -/
theorem unname_nameAnonymous : (t : Term) → (names : NameSupply) → (t.nameAnonymous names).1.unname = t.unname
  | var v, names => by
    unfold nameAnonymous
    split
    · rename_i hv
      subst hv
      exact if_pos (head?_anonymous names.next.1)
    · rfl
  | sym _, _ => rfl
  | compound f args, names => by simp only [nameAnonymous, unname, unnameList_nameAnonymousList args names]

theorem unnameList_nameAnonymousList : (ts : List Term) → (names : NameSupply) →
    unnameList (nameAnonymousList ts names).1 = unnameList ts
  | [], _ => rfl
  | t :: ts, names => by
    simp only [nameAnonymousList, unnameList, unname_nameAnonymous t names, unnameList_nameAnonymousList ts]
end

theorem underMarks_unname (tail : Term) : (t u : Term) →
    (underMarks tail t u).unname = underMarks tail.unname t.unname u.unname
  | var v, u => by
    rw [unname]
    split <;> rfl
  | sym s, u => by
    rw [unname, underMarks, underMarks]
    split <;> rfl
  | compound f [t], compound g [u] => by
    have hunder := underMarks_unname tail t u
    simp only [underMarks, unname, unnameList]
    split
    · rw [unname, unnameList, unnameList, hunder]
    · rfl
  | compound f [t], var v => by
    simp only [underMarks, unname, unnameList, cons]
    split <;> rfl
  | compound f [t], sym s => rfl
  | compound f [t], compound g [] => rfl
  | compound f [t], compound g (_ :: _ :: _) => rfl
  | compound f [], u => rfl
  | compound f (_ :: _ :: _), u => rfl

theorem regroup_unname (f : String) : (args args' : List Term) →
    (regroup f args args').unname = regroup f (args.map unname) (args'.map unname)
  | [head, tail], [head', tail'] => by
    simp only [regroup, List.map_cons, List.map_nil, isList_unname]
    split
    · exact underMarks_unname tail' head head'
    · rfl
  | [], args' | [_], args' | _ :: _ :: _ :: _, args' => by simp [regroup, unname, unnameList_eq_map]
  | [_, _], [] | [_, _], [_] | [_, _], _ :: _ :: _ :: _ => by simp [regroup, unname, unnameList_eq_map]

mutual
/-- The names of anonymous variables make no difference to what is read. -/
theorem reread_unname : (t : Term) → t.unname.reread = t.reread.unname
  | var v => by
    unfold unname
    split
    · rename_i hv
      simp [reread, hv]
    · rename_i hv
      simp [reread, hv]
  | sym _ => rfl
  | compound f args => by
    rw [unname, reread, reread, regroup_unname, ← unnameList_eq_map, ← unnameList_eq_map, rereadList_unnameList args]

theorem rereadList_unnameList : (ts : List Term) → rereadList (unnameList ts) = unnameList (rereadList ts)
  | [] => rfl
  | t :: ts => by simp only [rereadList, unnameList, reread_unname t, rereadList_unnameList ts]
end

theorem print_nameAnonymous (t : Term) (names : NameSupply) : (t.nameAnonymous names).1.print = t.print := by
  rw [← Printer.print_unname, unname_nameAnonymous, Printer.print_unname]

theorem hasPlainHeads_nameAnonymous (t : Term) (names : NameSupply) :
    (t.nameAnonymous names).1.hasPlainHeads = t.hasPlainHeads := by
  rw [← hasPlainHeads_unname, unname_nameAnonymous, hasPlainHeads_unname]

end Term

/-! ### Round trips -/

namespace Reader

theorem finish?_of_term? {r : Reader} {t : Term} (h : Focus.term? r.focus = some t) :
    r.finish? = (r.endTerm? t .ended).map fun r => r.terms.reverse := by
  unfold Reader.finish?
  cases hfocus : r.focus <;> rw [hfocus] at h <;> cases h <;> rfl

end Reader

variable {t : Term} {text : String}

/-- What the text of a readable term is parsed as, before anonymous variables get names. -/
theorem parse_print (layout : Layout) (h : t.IsReadable) : parse layout t.print = .ok [t.reread] := by
  obtain ⟨tokens, htokens, hwrite⟩ := (Printer.rereads_of_isReadable h).1.alone none none (Printer.admits_none t)
  have hprint : t.print = String.ofList (spell tokens) := by rw [Term.print, hwrite, List.append_nil]
  obtain ⟨placed, htokenize, hplaced⟩ := tokenize_spell htokens.lexical htokens.apart
  obtain ⟨stack, focus, u, hfeed, hterm, hreduce⟩ := htokens.reads { layout } false rfl rfl
  have hreduce : Reader.reduceAll u stack = (t.reread, []) := hreduce
  refine parse_eq_ok.2 ⟨placed, _, by rw [hprint, htokenize], by rw [hplaced]; exact hfeed, ?_⟩
  rw [Reader.finish?_of_term? hterm]
  simp [Reader.endTerm?, hreduce]

theorem readTerm_of_parse {terms : List Term} (h : parse .one text = .ok terms) :
    readTerm text = .ok ((terms.headD .nil).nameAnonymous {}).1 := by
  rw [readTerm, readTerms, h]
  cases terms <;> rfl

theorem parse_of_readTerm (h : readTerm text = .ok t) : ∃ terms, parse .one text = .ok terms := by
  rw [readTerm, readTerms] at h
  cases hparse : parse .one text with
  | error e =>
    rw [hparse] at h
    cases h
  | ok terms => exact ⟨terms, rfl⟩

/-- A term that was read from operator syntax is what its text reads as, anonymous variables numbered anew, just if no
cell that is written with `!` has a mark in front of its head. -/
theorem readTerm_print (hs : isOperatorSyntax text = true) (hread : readTerm text = .ok t) :
    readTerm t.print = .ok t ↔ t.hasPlainHeads = true := by
  obtain ⟨terms, hparse⟩ := parse_of_readTerm hread
  have hterm : ((terms.headD .nil).nameAnonymous {}).1 = t := by
    rw [readTerm_of_parse hparse] at hread
    exact Except.ok.inj hread
  have hreadable : (terms.headD .nil).IsReadable := by
    have hterms := isReadable_of_parse hs hparse
    cases terms with
    | nil => exact Term.isReadable_list (List.forall_mem_nil _)
    | cons u us => exact hterms u List.mem_cons_self
  generalize terms.headD .nil = u at hterm hreadable
  have hprint : readTerm t.print = .ok (u.reread.nameAnonymous {}).1 := by
    rw [← hterm, Term.print_nameAnonymous]
    exact readTerm_of_parse (parse_print .one hreadable)
  rw [hprint, ← hterm, Term.hasPlainHeads_nameAnonymous]
  constructor
  · intro heq
    have hunname := congrArg Term.unname (Except.ok.inj heq)
    rw [Term.unname_nameAnonymous, Term.unname_nameAnonymous, ← Term.reread_unname] at hunname
    rw [← Term.hasPlainHeads_unname]
    exact (Term.reread_eq_self_iff _).1 hunname
  · intro hplain
    rw [(Term.reread_eq_self_iff u).2 hplain]

/-- A rule with anonymous variables, marks, a number below zero, and a cell in front of a cell comes back. A negation in
front of the head of a cell does not. -/
theorem readTerm_print_of_rule :
    (∃ t, readTerm "p(_,[a,~b]) :- ~q(-3) & (r | (s!t)!_)" = .ok t ∧ readTerm t.print = .ok t) ∧
      ∃ t, readTerm "(~a)!b" = .ok t ∧ readTerm t.print ≠ .ok t := by
  constructor
  · have hread : readTerm "p(_,[a,~b]) :- ~q(-3) & (r | (s!t)!_)" =
        .ok (.rule (.compound "p" [.var "_1", .list [.sym "a", .negation (.sym "b")]])
          [.negation (.compound "q" [.sym "-3"]),
            .compound "or" [.sym "r", .cons (.cons (.sym "s") (.sym "t")) (.var "_2")]]) := by decide +kernel
    exact ⟨_, hread, (readTerm_print (by decide +kernel) hread).2 rfl⟩
  · have hread : readTerm "(~a)!b" = .ok (.cons (.negation (.sym "a")) (.sym "b")) := by decide +kernel
    refine ⟨_, hread, fun hback => ?_⟩
    have hplain := (readTerm_print (by decide +kernel) hread).1 hback
    cases hplain

end Deduction
