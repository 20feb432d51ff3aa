import Crochet.Proofs.Repeat.Expanded

/-! Writing out repeats keeps the meaning: the rows read from the text that is written out are those
of the tree, unfolded. -/
namespace Crochet.Repeat
open MappedText
open Row (Flat)

def meaning (item : Row.Item) : Row.Kind × List String :=
  (item.kind, item.labels.map Row.LabelDef.key)

variable {events : List Event}

theorem rowsNoTurn {current : List (Row.Kind × List String)} (before : ∀ m ∈ current, m.1 ≠ .turn) :
    ∀ row ∈ rowsFrom current events, ∀ m ∈ row, m.1 ≠ .turn := by
  induction events generalizing current with
  | nil =>
    intro row member
    rw [rowsFrom] at member
    split at member
    · cases member
    · rw [List.mem_singleton.mp member]
      exact before
  | cons event rest ih =>
    cases event with
    | stitch name labels =>
      refine ih fun m member => ?_
      rcases List.mem_append.mp member with old | new
      · exact before m old
      · rw [List.mem_singleton.mp new]
        exact fun turn => by cases turn
    | line =>
      have onward := @ih [] fun _ none => by cases none
      rw [rowsFrom]
      split
      · exact onward
      · exact List.forall_mem_cons.mpr ⟨before, onward⟩

theorem eventsRun (colors : List (Nat × String)) (events : List Event) (f : Flat) : ∃ g,
    (events.map (Event.step {})).foldlM (Flat.step colors) f = .ok g ∧
      g.rows.map (List.map meaning) =
        f.done.map (List.map meaning) ++ rowsFrom (f.current.map meaning) events := by
  induction events generalizing f with
  | nil =>
    refine ⟨f, rfl, ?_⟩
    unfold Flat.rows Flat.endLine rowsFrom
    split <;> rename_i empty <;> simp [empty]
  | cons event rest ih =>
    cases event with
    | stitch name labels =>
      obtain ⟨g, run, rows⟩ := ih (f.put (.stitch name) (labels.map bareLabel) {} ⟨0, 0⟩)
      refine ⟨g, run, rows.trans ?_⟩
      simp [rowsFrom, Flat.put, meaning, bareLabel, Function.comp_def]
    | line =>
      obtain ⟨g, run, rows⟩ := ih f.endLine
      refine ⟨g, run, rows.trans ?_⟩
      unfold Flat.endLine
      split
      · rename_i empty
        simp [rowsFrom, List.isEmpty_iff.mp empty]
      · rename_i some
        simp [rowsFrom, some]

theorem noEarlyTurn {rows : Rows} (none : ∀ row ∈ rows, ∀ item ∈ row, item.kind ≠ .turn) :
    Row.earlyTurn? rows = Option.none := by
  simp only [Row.earlyTurn?, List.findSome?_eq_none_iff, List.find?_eq_none, decide_eq_true_eq]
  exact fun row member item inside => none row member item (List.mem_of_mem_dropLast inside)

theorem meantRows {t : MappedText} (meant : Meant (chars t) events) (colors : List (Nat × String))
    (color : String) : ∃ rows, Row.parseRows t colors color = .ok rows ∧
      rows.map (List.map meaning) = rowsFrom [] events := by
  obtain ⟨lines, parsed, steps⟩ := Row.linesRead meant.reads
  obtain ⟨flat, run, made⟩ := eventsRun colors events { color }
  rw [List.map_nil, List.map_nil, List.nil_append] at made
  rw [← steps] at run
  have none : ∀ row ∈ flat.rows, ∀ item ∈ row, item.kind ≠ .turn := by
    intro row member item inside
    have shown : row.map meaning ∈ rowsFrom [] events := made ▸ List.mem_map_of_mem member
    exact rowsNoTurn (fun _ none => by cases none) _ shown _ (List.mem_map_of_mem inside)
  obtain ⟨rows, read, same⟩ := Row.parsesAs parsed run (noEarlyTurn none)
  refine ⟨rows, read, ?_⟩
  have kept : meaning ∘ Row.Item.unplaced = meaning := by
    funext item
    simp [meaning, Row.Item.unplaced, Row.LabelDef.unplaced, Function.comp_def]
  rw [← made, ← same, List.map_map, List.map_comp_map, kept]

theorem expandedMeaning {chain : Chain} (valid : chain.valid fitsWord = true)
    (unmarked : chain.marksWithin 0 = true) {t : MappedText} (spelt : chars t = chain.written)
    (colors : List (Nat × String)) (color : String) :
    ∃ out rows, expand t = .ok out ∧ Row.parseRows out colors color = .ok rows ∧
      rows.map (List.map meaning) = rowsFrom [] chain.unfold := by
  obtain ⟨rope, parts, made, roped, refines⟩ := chainExpands chain valid spelt
  have none := unmarkedParts fun m => refinesCount refines m ▸ partsWithin unmarked m
  have meant := unmarkedMeant roped none
  rw [← refinesEvents refines] at meant
  obtain ⟨rows, read, same⟩ := meantRows meant colors color
  refine ⟨ropeText rope, rows, ?_, read, same⟩
  simp only [expand, made, bind, Except.bind, unmarkedSpan roped none]
  rfl

def nestedTree : Chain :=
  .link (.group .square
    (.link (.stitch "ch" { label := some "A" }) .comma
      (.link (.marker .entry) .line
        (.link (.stitch "sc" { count := some (.front, ['2']) }) .comma
          (.link (.group .round
            (.link (.stitch "dc" { count := some (.behind, ['0']) }) .line
              (.last (.stitch "hdc" { label := some "B", count := some (.last, ['2']) })))
            { label := some "C" }) .comma
            (.link (.marker .exit) .comma (.last (.stitch "tr" {})))))))
    { label := some "D", count := some (.front, ['3']) }) .comma
    (.last (.group .curly (.last .blank) { count := some (.behind, ['0', '1']) }))

theorem nestedMeaning :
    nestedTree.written = "3[ch.A,<\n2sc,(dc*0\nhdc.B*2).C,>,tr].D,\x7b\x7d*01".toList ∧
      nestedTree.valid fitsWord = true ∧ nestedTree.marksWithin 0 = true ∧
      ∃ out rows, expand (ofSource nestedTree.written) = .ok out ∧
        Row.parseRows out [] "red" = .ok rows ∧
        rows.map (List.map meaning) = rowsFrom [] nestedTree.unfold := by
  refine ⟨by decide +kernel, by decide +kernel, by decide +kernel, ?_⟩
  exact expandedMeaning (by decide +kernel) (by decide +kernel) (by decide +kernel) [] "red"

def wideTree : Chain :=
  .last (.group .square
    (.last (.stitch "sc" { count := some (.front, "18446744073709551616".toList) }))
    { count := some (.front, ['0']) })

theorem wideNotExpanded :
    wideTree.written = "0[18446744073709551616sc]".toList ∧
      wideTree.valid (fun _ => true) = true ∧ wideTree.marksWithin 0 = true ∧
      rowsFrom [] wideTree.unfold = [] ∧
      ∃ fault, expand (ofSource wideTree.written) = .error fault := by
  refine ⟨by decide +kernel, by decide +kernel, by decide +kernel, rfl, ?_⟩
  exact notOk (by decide +kernel)

end Crochet.Repeat
