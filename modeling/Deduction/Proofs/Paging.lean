import Deduction.Console
import Deduction.Proofs.Search.Distinct
import Deduction.Proofs.Syntax.Joining
import Deduction.Proofs.Syntax.RoundTrip

/-!
# Paging through answers

A query and the wishes for more that follow it show the answers one after the other, each once and in their order, and
then say that there are no more (`Console.respond_pages`). Every wish for more searches anew for one answer more than was
shown, so what carries the argument is that a search for the first answers finds the first of all answers.
-/

namespace Deduction

namespace Console

variable {c c' : Console} {query : Term} {full : Answers} {rs : List Response}

/-! ### Lines -/

/-- Blanks at the ends of a query and points behind it make no difference. -/
theorem readTerm_dropDots {q : String} {cs : List Char} (hread : readTerm q = .ok query)
    (hcs : ∀ tokens, DividesInto q.toList tokens → DividesInto cs tokens) :
    readTerm (String.ofList (dropDots (Text.trim cs))) = .ok query := by
  obtain ⟨terms, hterms⟩ := parse_of_readTerm hread
  obtain ⟨tokens, reader, hdivides, hfeed⟩ := parse_eq_ok_iff_dividesInto.1 hterms
  have hparse : parse .one (String.ofList cs) = .ok terms :=
    parse_eq_ok_iff_dividesInto.2 ⟨tokens, reader, by simpa using hcs tokens hdivides, hfeed⟩
  rw [readTerm_of_parse hterms] at hread
  rw [← hread]
  exact readTerm_of_parse (parse_dropPoints (parse_trim hparse))

theorem rdropWhile_cons_of_neg {first : Char} {cs : List Char} {p : Char → Bool} (hfirst : p first = false) :
    (first :: cs).rdropWhile p = first :: cs.rdropWhile p := by
  unfold List.rdropWhile
  rw [List.reverse_cons, List.dropWhile_append]
  split
  · rename_i hempty
    rw [List.isEmpty_iff.1 hempty]
    simp [hfirst]
  · simp

theorem respond_query (c : Console) (q : String) :
    c.respond ("?- " ++ q) = c.ask ((' ' :: q.toList).rdropWhile Text.isBlank) := by
  have hchars : Text.trim ("?- " ++ q).toList = '?' :: '-' :: (' ' :: q.toList).rdropWhile Text.isBlank := by
    rw [String.toList_append]
    change List.rdropWhile Text.isBlank ('?' :: '-' :: ' ' :: q.toList) = _
    rw [rdropWhile_cons_of_neg (by decide), rdropWhile_cons_of_neg (by decide)]
  unfold respond
  dsimp only
  rw [hchars]
  generalize (' ' :: q.toList).rdropWhile Text.isBlank = rest
  -- No command and no empty line begins with a question mark.
  have hne {text : String} (htext : text.toList.head? ≠ some '?') : String.ofList ('?' :: '-' :: rest) ≠ text := by
    rintro rfl
    exact htext (by rw [String.toList_ofList]; rfl)
  split
  case h_8 => rfl
  all_goals
    rename_i htext
    exact absurd htext (hne (by decide))

/-! ### Pages -/

/-- What is shown for the answer at place `i`, or where there is none. -/
def page (query : Term) (answers : List Answer) (i : Nat) : Response :=
  ⟨.output, [match answers[i]? with
    | some answer => answer.text
    | none => if i = 0 then noAnswer query true else "No more results."]⟩

/-- The console after the first `i` pages; it counts the answers that were shown, not the pages. -/
def turnedTo (sources : Sources) (query : Term) (answers : List Answer) (i : Nat) : Console :=
  { sources, last := some ⟨query, min i answers.length⟩ }

/-- Lines were typed to a console: wishes for more, with these responses, and lines that changed nothing. -/
inductive Pages : Console → List Response → Console → Prop where
  | start {c : Console} : Pages c [] c
  | more {c c' c'' : Console} {rs : List Response} {r : Response} (h : Pages c rs c')
      (hmore : c'.respond ":more" = .ok (r, c'')) : Pages c (rs ++ [r]) c''
  | aside {c c' : Console} {rs : List Response} {line : String} {r : Response} (h : Pages c rs c')
      (hline : c'.respond line = .ok (r, c')) : Pages c rs c'

/-- A search for one answer more than was shown finds the next answer, if there is one. -/
theorem showNext_of_ask {shown : Nat} (hfull : (c.sources.ask query none).result = .ok full)
    (hlimit : full.limitReached = false) (isFirst : Bool) :
    c.showNext ⟨query, shown⟩ isFirst = .ok (match full.answers[shown]? with
      | some answer => (⟨.output, [answer.text]⟩, { c with last := some ⟨query, shown + 1⟩ })
      | none => (⟨.output, [noAnswer query isFirst]⟩, { c with last := some ⟨query, shown⟩ })) := by
  have hfound : (c.sources.ask query (some (shown + 1))).result = .ok ⟨full.answers.take (shown + 1), false⟩ := by
    rw [Sources.ask_some hfull, hlimit, Bool.false_and, Nat.max_eq_left (by omega)]
  have hanswer : (full.answers.take (shown + 1))[shown]? = full.answers[shown]? :=
    List.getElem?_take_of_lt (Nat.lt_succ_self shown)
  unfold showNext
  simp only [hfound]
  change (match (full.answers.take (shown + 1))[shown]? with | some answer => _ | none => _) = _
  rw [hanswer]
  split <;> rfl

/-- What the console shows next is the next page. -/
theorem showNext_eq (hfull : (c.sources.ask query none).result = .ok full) (hlimit : full.limitReached = false)
    (i : Nat) :
    c.showNext ⟨query, min i full.answers.length⟩ (i == 0) =
      .ok (page query full.answers i, turnedTo c.sources query full.answers (i + 1)) := by
  rw [showNext_of_ask hfull hlimit, page, turnedTo]
  by_cases hi : i < full.answers.length
  · rw [Nat.min_eq_left (by omega), Nat.min_eq_left (by omega), List.getElem?_eq_getElem hi]
  · rw [Nat.min_eq_right (by omega), Nat.min_eq_right (by omega), List.getElem?_eq_none (by omega),
      List.getElem?_eq_none (by omega)]
    cases i <;> rfl

theorem respond_more_of_turnedTo {sources : Sources} (hfull : (sources.ask query none).result = .ok full)
    (hlimit : full.limitReached = false) (i : Nat) :
    (turnedTo sources query full.answers (i + 1)).respond ":more" =
      .ok (page query full.answers (i + 1), turnedTo sources query full.answers (i + 2)) :=
  showNext_eq (c := turnedTo sources query full.answers (i + 1)) hfull hlimit (i + 1)

/-- Each wish for more turns one page. -/
theorem Pages.eq_pages {sources : Sources} (hfull : (sources.ask query none).result = .ok full)
    (hlimit : full.limitReached = false) (h : Pages (turnedTo sources query full.answers 1) rs c') :
    rs = (List.range rs.length).map (fun i => page query full.answers (i + 1)) ∧
      c' = turnedTo sources query full.answers (rs.length + 1) := by
  induction h with
  | start => exact ⟨rfl, rfl⟩
  | more h hmore ih =>
    obtain ⟨hrs, rfl⟩ := ih
    rw [respond_more_of_turnedTo hfull hlimit] at hmore
    cases hmore
    rw [List.length_append, List.length_singleton, List.range_succ, List.map_append, ← hrs]
    exact ⟨rfl, rfl⟩
  | aside h hline ih => exact ih

/-- A query that can be read, and whose search comes to an end within its limits, is answered by the first page. Whatever
is typed after it that changes nothing but the page, the wishes for more are answered by the pages that follow, one after
the other, and there is always an answer to the next one. -/
theorem respond_pages {q : String} (hread : readTerm q = .ok query)
    (hfull : (c.sources.ask query none).result = .ok full) (hlimit : full.limitReached = false) :
    ∃ c₀, c.respond ("?- " ++ q) = .ok (page query full.answers 0, c₀) ∧
      ∀ rs c', Pages c₀ rs c' →
        rs = (List.range rs.length).map (fun i => page query full.answers (i + 1)) ∧
          ∃ c'', c'.respond ":more" = .ok (page query full.answers (rs.length + 1), c'') := by
  have hblank : Text.isBlank ' ' = true := by decide
  have hquery := readTerm_dropDots hread fun tokens h => ((DividesInto.cons_blank_iff hblank).2 h).trimRight
  refine ⟨turnedTo c.sources query full.answers 1, ?_, fun rs c' h => ?_⟩
  · rw [respond_query, ask, hquery]
    have hfirst := showNext_eq hfull hlimit 0
    rw [Nat.zero_min] at hfirst
    exact hfirst
  · obtain ⟨hrs, rfl⟩ := h.eq_pages hfull hlimit
    exact ⟨hrs, _, respond_more_of_turnedTo hfull hlimit rs.length⟩

/-- Two places are asked for, with a look at the help before the last wish for more. -/
theorem respond_pages_places :
    ∃ c₀ c₁ c₂, ({ sources := stored } : Console).respond ("?- " ++ "at(_,Place).") =
        .ok (⟨.output, ["Place = hall"]⟩, c₀) ∧
      c₀.respond ":more" = .ok (⟨.output, ["Place = yard"]⟩, c₁) ∧
      c₁.respond ":help" = .ok (⟨.info, helpLines⟩, c₁) ∧
      c₁.respond ":more" = .ok (⟨.output, ["No more results."]⟩, c₂) := by
  have hread : readTerm "at(_,Place)." = .ok (.compound "at" [.var "_1", .var "Place"]) := by decide +kernel
  have hvars : (Term.compound "at" [.var "_1", .var "Place"]).shownVars = ["Place"] := by decide +kernel
  have hfind : (stored.findDistinct none (.list [.var "Place"]) (.compound "at" [.var "_1", .var "Place"])).result =
      .ok ([.list [.sym "hall"], .list [.sym "yard"]], false) := by decide +kernel
  have hfull : (stored.ask (.compound "at" [.var "_1", .var "Place"]) none).result =
      .ok ⟨[⟨[("Place", .sym "hall")]⟩, ⟨[("Place", .sym "yard")]⟩], false⟩ :=
    Sources.result_ask_eq_ok.2 ⟨_, by rw [hvars]; exact hfind, by rw [hvars]; rfl⟩
  have hhall : Answer.text ⟨[("Place", .sym "hall")]⟩ = "Place = hall" := by decide +kernel
  have hyard : Answer.text ⟨[("Place", .sym "yard")]⟩ = "Place = yard" := by decide +kernel
  obtain ⟨c₀, hfirst, hpages⟩ := respond_pages (c := { sources := stored }) hread hfull rfl
  obtain ⟨-, c₁, hmore⟩ := hpages [] c₀ .start
  have hhelp : c₁.respond ":help" = .ok (⟨.info, helpLines⟩, c₁) := rfl
  obtain ⟨-, c₂, hend⟩ := hpages _ c₁ (Pages.start.more hmore |>.aside hhelp)
  rw [page] at hfirst hmore hend
  refine ⟨c₀, c₁, c₂, ?_, ?_, hhelp, hend⟩
  · rw [← hhall]
    exact hfirst
  · rw [← hyard]
    exact hmore

end Console

end Deduction
