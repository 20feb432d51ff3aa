import Crochet.Proofs.Text.Lines
import Crochet.Source.Brackets

/-! A fault as its author sees it. The line in which the fault begins is written out, and the marks
below it stand under the offending text and nothing else, as far as that text lies in the line. -/
namespace Crochet
open Text

theorem fitFront (before rest : List Char) :
    fitBytes Char.utf8Size (byteLength before) (before ++ rest) = before := by
  induction before with
  | nil =>
    cases rest with
    | nil => rfl
    | cons c rest => exact if_neg (Nat.not_le.mpr c.utf8Size_pos)
  | cons c before ih =>
    rw [byteLengthCons, List.cons_append, fitBytes, if_pos (Nat.le_add_right _ _),
      Nat.add_sub_cancel_left, ih]

namespace Span

structure Cuts (s : Span) (source before marked after : List Char) : Prop where
  whole : source = before ++ (marked ++ after)
  start : byteLength before = s.start
  stop : byteLength (before ++ marked) = s.stop

theorem cutsSnippet {s : Span} {source : List Char} (rising : s.start ≤ s.stop)
    (starts : Boundary source s.start) (stops : Boundary source s.stop) :
    ∃ before after, s.Cuts source before (s.snippet source) after := by
  have inside : s.stop ≤ byteLength source := by
    obtain ⟨front, rest, rfl, size⟩ := stops
    rw [byteLengthAppend]
    omega
  rcases snippetQuotes rising inside with ⟨before, after, parts, start, stop⟩ | ⟨split, _⟩
  · rw [List.append_assoc] at parts
    exact ⟨before, after, parts, start, (byteLengthAppend _ _).trans stop⟩
  · exact absurd ⟨starts, stops⟩ split

section
variable {s : Span} {source before marked after : List Char}

theorem Cuts.lineColumn (cuts : s.Cuts source before marked after) : s.lineColumn source =
    (before.count '\n' + 1, (before.reverse.takeWhile (· != '\n')).length + 1) := by
  rw [Span.lineColumn, ← cuts.start, cuts.whole, fitFront]

theorem Cuts.shown (cuts : s.Cuts source before marked after) (rising : s.start < s.stop)
    (visible : ¬ BeginsAt source '\n' s.start) : marked.takeWhile (· != '\n') ≠ [] := by
  cases marked with
  | nil =>
    have same := cuts.start.symm.trans ((congrArg byteLength (List.append_nil before)).symm.trans cuts.stop)
    exact absurd same (Nat.ne_of_lt rising)
  | cons c marked =>
    have other : c ≠ '\n' := by
      rintro rfl
      exact visible ⟨before, marked ++ after, cuts.whole, cuts.start⟩
    simp [other]

end
end Span

namespace Diagnostic

/- The characters of a line that stand above the marks of the line below it. -/
def above (upper lower : List Char) : List Char :=
  ((upper.zip lower).filter (·.2 == '^')).map Prod.fst

theorem aboveMarks (front shown rest : List Char) :
    above (front ++ (shown ++ rest))
      (List.replicate front.length ' ' ++ List.replicate shown.length '^') = shown := by
  have blank : (front.zip (List.replicate front.length ' ')).filter (·.2 == '^') = [] := by
    refine List.filter_eq_nil_iff.mpr fun pair member => ?_
    rw [List.eq_of_mem_replicate (List.of_mem_zip member).2]
    decide
  have marks : (shown ++ rest).zip (List.replicate shown.length '^') =
      shown.zip (List.replicate shown.length '^') := by
    have split : (shown ++ rest).zip (List.replicate shown.length '^' ++ []) =
        shown.zip (List.replicate shown.length '^') ++ rest.zip [] :=
      List.zip_append List.length_replicate.symm
    simpa using split
  have all : (shown.zip (List.replicate shown.length '^')).filter (·.2 == '^') =
      shown.zip (List.replicate shown.length '^') := by
    refine List.filter_eq_self.mpr fun pair member => ?_
    rw [List.eq_of_mem_replicate (List.of_mem_zip member).2]
    rfl
  rw [above, List.zip_append List.length_replicate.symm, marks, List.filter_append, blank, all,
    List.nil_append, List.map_fst_zip (by simp)]

theorem shownInLine (marked after : List Char) : ∃ rest,
    (marked ++ after).takeWhile (· != '\n') = marked.takeWhile (· != '\n') ++ rest := by
  rw [List.takeWhile_append]
  split
  · rename_i all
    have whole : marked.takeWhile (· != '\n') = marked :=
      (List.takeWhile_prefix _).eq_of_length all
    exact ⟨_, by rw [whole]⟩
  · exact ⟨[], (List.append_nil _).symm⟩

theorem firstLine {marked : List Char} (plain : '\r' ∉ marked)
    (some : marked.takeWhile (· != '\n') ≠ []) :
    (textLines marked).headD [] = marked.takeWhile (· != '\n') := by
  have first := textLinesPiece plain (lineAround [] marked).piece some
  rw [List.count_nil, ← List.head?_eq_getElem?] at first
  rw [List.headD_eq_head?_getD, first]
  rfl

theorem renderLines {d : Diagnostic} {source quoted marked : List Char} {span : Span}
    {line column : Nat} (located : d.location = some ⟨line + 1, column + 1, span, marked⟩)
    (found : (textLines source)[line]? = some quoted) : (d.render source).toList =
      (s!"{line + 1}:{column + 1}: {d.kind.display}: {d.message}").toList ++
        '\n' :: (' ' :: ' ' :: quoted ++ '\n' :: (List.replicate (column + 2) ' ' ++
          List.replicate (max 1 ((textLines marked).headD []).length) '^')) := by
  have indent : List.replicate (column + 2) ' ' = ' ' :: ' ' :: List.replicate column ' ' := rfl
  have same (text : String) : toString text = text := rfl
  simp only [render, located, Nat.add_sub_cancel, found, underline, indent, same]
  simp [String.toList_append]

theorem underlinesFault {fault : Fault} {span : Span} {source : List Char}
    (place : fault.span = some span) (plain : '\r' ∉ source) (rising : span.start < span.stop)
    (starts : Boundary source span.start) (stops : Boundary source span.stop)
    (visible : ¬ BeginsAt source '\n' span.start) :
    ∃ before marked after lead tail, span.Cuts source before marked after ∧
      LineAround before (marked ++ after) lead tail ∧
      ∃ (line column : Nat) (upper lower : List Char),
        line = before.count '\n' + 1 ∧ column = lead.length + 1 ∧
        (ofFault fault source).location = some ⟨line, column, span, marked⟩ ∧
        ((ofFault fault source).render source).toList =
          (s!"{line}:{column}: {fault.kind.display}: {fault.message}").toList ++
            '\n' :: (upper ++ '\n' :: lower) ∧
        upper = ' ' :: ' ' :: (lead ++ tail) ∧
        lower = List.replicate (column + 1) ' ' ++ List.replicate (above upper lower).length '^' ∧
        above upper lower = marked.takeWhile (· != '\n') := by
  obtain ⟨before, after, cuts⟩ := span.cutsSnippet (Nat.le_of_lt rising) starts stops
  generalize snippet : span.snippet source = marked at cuts
  have shown := cuts.shown rising visible
  have around := lineAround before (marked ++ after)
  obtain ⟨rest, tail⟩ := shownInLine marked after
  generalize lead : (before.reverse.takeWhile (· != '\n')).reverse = front at around
  rw [tail] at around
  have quoted : (textLines source)[before.count '\n']? =
      some (front ++ (marked.takeWhile (· != '\n') ++ rest)) := by
    refine textLinesPiece plain (cuts.whole ▸ around.piece) ?_
    simp [shown]
  have width := firstLine (fun member => plain (by rw [cuts.whole]; simp [member])) shown
  have column : (before.reverse.takeWhile (· != '\n')).length = front.length := by
    rw [← lead, List.length_reverse]
  have located : (ofFault fault source).location =
      some ⟨before.count '\n' + 1, front.length + 1, span, marked⟩ := by
    simp only [ofFault, place, Option.map_some, cuts.lineColumn, snippet, column]
  have marks := aboveMarks (' ' :: ' ' :: front) (marked.takeWhile (· != '\n')) rest
  rw [List.cons_append, List.cons_append] at marks
  refine ⟨before, marked, after, _, _, cuts, around, _, _, _, _, rfl, rfl, located, ?_, rfl, ?_, marks⟩
  · rw [renderLines located quoted, width, Nat.max_eq_right (List.length_pos_iff.mpr shown)]
    rfl
  · rw [marks]
    rfl

def mismatchedPiece : List Char := "ch\né,[sc\nch)".toList

def mismatchedFault : Fault := { cause := .source (.mismatched '[' ')'), span := some ⟨6, 13⟩ }

theorem underlinesMismatched :
    Source.checkBrackets (MappedText.ofSource mismatchedPiece) = .error mismatchedFault ∧
    ∃ upper lower : List Char,
      ((ofFault mismatchedFault mismatchedPiece).render mismatchedPiece).toList =
        "2:3: unbalanced brackets: '[' closed by ')'".toList ++ '\n' :: (upper ++ '\n' :: lower) ∧
      above upper lower = "[sc".toList := by
  have located : (ofFault mismatchedFault mismatchedPiece).location =
      some ⟨2, 3, ⟨6, 13⟩, "[sc\nch)".toList⟩ := by decide +kernel
  have span : mismatchedFault.span = some ⟨6, 13⟩ := rfl
  have plain : '\r' ∉ mismatchedPiece := by decide +kernel
  obtain ⟨_, _, _, _, _, _, _, _, _, upper, lower, _, _, place, shown, _, _, marks⟩ :=
    underlinesFault span plain (by decide) (by decide +kernel) (by decide +kernel) (by decide +kernel)
  cases located.symm.trans place
  exact ⟨by decide +kernel, upper, lower, shown, marks⟩

end Diagnostic
end Crochet
