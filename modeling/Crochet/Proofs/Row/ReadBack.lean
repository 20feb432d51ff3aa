import Crochet.Proofs.Row.Numbering
import Crochet.Proofs.Row.Reread

/-! Rows written out and read again. Each item is read from its text as itself: labels that came from
groups come from the groups written around it, and an attachment has kept its text. So rows that were
read once are read again from what is written for them. -/
namespace Crochet.Row
open Token Text

theorem wrappedReads {name : String} {inner around : List LabelDef} {attached : Option Attached}
    {text : String} (reads : Reads text.toList fun s => nodeSteps s (.stitch name inner attached ⟨0, 0⟩))
    (sound : ∀ l ∈ around, l.Sound) :
    Reads (around.foldl (fun text label => s!"[{text}]{label.written}") text).toList fun s =>
      nodeSteps s (.stitch name (around.reverse.map LabelDef.unplaced ++ inner) attached ⟨0, 0⟩) := by
  induction around generalizing inner text with
  | nil => exact reads
  | cons l around ih =>
    obtain ⟨first, more⟩ := List.forall_mem_cons.mp sound
    have wrapped : Reads (s!"[{text}]{l.written}").toList fun s =>
        nodeSteps s (.stitch name (l.unplaced :: inner) attached ⟨0, 0⟩) := by
      have suffix : SuffixReads (labelText (some l) ++ attachedText none) [l.unplaced] none :=
        suffixReads (fun _ same => by cases same; exact first) (fun _ none => by cases none)
      have group := readsGroup .square reads suffix
      have shown : (s!"[{text}]{l.written}").toList =
          '[' :: (text.toList ++ ']' :: (labelText (some l) ++ attachedText none)) := by
        simp only [toString, String.toList_append, List.append_assoc, attachedText, Option.map_none,
          Option.getD_none, List.append_nil]
        rfl
      have same (s : Surround) : nodeSteps s (.stitch name (l.unplaced :: inner) attached ⟨0, 0⟩) =
          nodeSteps (s.add [l.unplaced] none) (.stitch name inner attached ⟨0, 0⟩) := by
        simp [nodeSteps, Surround.add]
      simp only [shown, same]
      exact group
    have all := ih wrapped more
    simpa using all

def Item.Writable (item : Item) : Prop := Row.Writable item.kind item.labels item.attached

def Item.step (item : Item) : Step :=
  .item item.kind (item.labels.map LabelDef.unplaced) item.attached ⟨0, 0⟩

theorem itemReads {item : Item} (writable : item.Writable) :
    ∃ steps, Reads item.written.toList steps ∧ steps {} = [item.step] := by
  obtain ⟨kind, labels, attached, row, color, span⟩ := item
  simp only [Item.Writable] at writable
  cases writable with
  | turn => exact ⟨_, readsTurn, rfl⟩
  | seek back => exact ⟨_, readsSeek back, rfl⟩
  | @stitch name _ _ own word hangs worn =>
    refine ⟨fun s => nodeSteps s (.stitch name (labels.map LabelDef.unplaced) own ⟨0, 0⟩), ?_, ?_⟩
    · have shown : attached.written.toList = attachedText own := by
        rw [worn]
        cases own <;> rfl
      simp only [Item.written]
      split
      · rename_i none
        rw [List.reverse_eq_nil_iff.mp none, String.toList_append, shown]
        show Reads (name.toList ++ (labelText .none ++ attachedText own)) _
        exact readsStitch word (fun _ none => by cases none) hangs.attached
      · rename_i first around parts
        rw [List.reverse_eq_cons_iff.mp parts] at hangs ⊢
        obtain ⟨outer, last⟩ := List.forall_mem_append.mp hangs.labels
        have bare : Reads (name ++ first.written ++ attached.written).toList fun s =>
            nodeSteps s (.stitch name [first.unplaced] own ⟨0, 0⟩) := by
          rw [String.toList_append, String.toList_append, shown, List.append_assoc]
          show Reads (name.toList ++ (labelText (some first) ++ attachedText own)) _
          refine readsStitch word (fun _ same => ?_) hangs.attached
          cases same
          exact last first List.mem_cons_self
        have all := wrappedReads bare fun l member => outer l (List.mem_reverse.mpr member)
        simpa using all
    · simp [nodeSteps, Surround.add, Item.step, worn]

def rowText (row : List Item) : List Char := [','].intercalate (row.map fun item => item.written.toList)

def rowsText (rows : Rows) : List Char := ['\n'].intercalate (rows.map rowText)

def rowsSteps (rows : Rows) : List Step := [Step.endLine].intercalate (rows.map (List.map Item.step))

variable {row : List Item} {rows : Rows} {color : String} {colors : List (Nat × String)} {f : Flat}

theorem rowReads (writable : ∀ item ∈ row, item.Writable) :
    ∃ steps, Reads (rowText row) steps ∧ steps {} = row.map Item.step := by
  induction row with
  | nil => exact ⟨_, readsNil, rfl⟩
  | cons item rest ih =>
    obtain ⟨here, more⟩ := List.forall_mem_cons.mp writable
    obtain ⟨f, first, one⟩ := itemReads here
    obtain ⟨g, second, others⟩ := ih more
    cases rest with
    | nil => exact ⟨f, by simpa [rowText] using first, one⟩
    | cons next rest =>
      have text : rowText (item :: next :: rest) = item.written.toList ++ ',' :: rowText (next :: rest) := by
        simp [rowText]
      refine ⟨_, text ▸ readsComma first second, ?_⟩
      rw [one, others]
      rfl

theorem rowsRead (writable : ∀ row ∈ rows, ∀ item ∈ row, item.Writable) :
    ∃ steps, Reads (rowsText rows) steps ∧ steps {} = rowsSteps rows := by
  induction rows with
  | nil => exact ⟨_, readsNil, rfl⟩
  | cons row rest ih =>
    obtain ⟨here, more⟩ := List.forall_mem_cons.mp writable
    obtain ⟨f, first, one⟩ := rowReads here
    obtain ⟨g, second, others⟩ := ih more
    cases rest with
    | nil => exact ⟨f, by simpa [rowsText] using first, by simpa [rowsSteps] using one⟩
    | cons next rest =>
      have text : rowsText (row :: next :: rest) = rowText row ++ '\n' :: rowsText (next :: rest) := by
        simp [rowsText]
      refine ⟨_, text ▸ readsNewline first second, ?_⟩
      rw [one, others]
      simp [rowsSteps]

theorem writtenText (colored : ∀ row ∈ rows, ∀ item ∈ row, item.color = color) :
    (written rows color).toList = rowsText rows := by
  have words {row : List Item} (colored : ∀ item ∈ row, item.color = color) :
      rowWords color row = (row.map Item.written, color) := by
    induction row with
    | nil => rfl
    | cons item rest ih =>
      obtain ⟨here, more⟩ := List.forall_mem_cons.mp colored
      rw [rowWords, if_neg (by simp [here]), ih more]
      rfl
  have lines : rowLines color rows = rows.map fun row => ",".intercalate (row.map Item.written) := by
    induction rows with
    | nil => rfl
    | cons row rest ih =>
      obtain ⟨here, more⟩ := List.forall_mem_cons.mp colored
      rw [rowLines, words here]
      exact congrArg _ (ih more)
  rw [written, lines, String.toList_intercalate, rowsText, List.map_map]
  congr 1
  refine List.map_congr_left fun row _ => ?_
  simp [rowText, Function.comp_def]

theorem rowRun (numbered : ∀ item ∈ row, item.row = f.done.length)
    (colored : ∀ item ∈ row, item.color = f.color) :
    (row.map Item.step).foldlM (Flat.step colors) f =
      .ok { f with current := f.current ++ row.map Item.unplaced } := by
  induction row generalizing f with
  | nil => simp; rfl
  | cons item rest ih =>
    obtain ⟨number, numbers⟩ := List.forall_mem_cons.mp numbered
    obtain ⟨shade, shades⟩ := List.forall_mem_cons.mp colored
    have one : f.step colors item.step = .ok { f with current := f.current ++ [item.unplaced] } := by
      simp [Flat.step, Item.step, Flat.put, Item.unplaced, number, shade]
    rw [List.map_cons, List.foldlM_cons, one]
    refine (ih (f := { f with current := f.current ++ [item.unplaced] }) numbers shades).trans ?_
    simp

theorem rowsRun (fresh : f.current = []) (numbered : NumberedFrom f.done.length rows)
    (colored : ∀ row ∈ rows, ∀ item ∈ row, item.color = f.color) (some : ∀ row ∈ rows, row ≠ []) :
    ∃ flat, (rowsSteps rows).foldlM (Flat.step colors) f = .ok flat ∧
      flat.rows = f.done ++ rows.map (List.map Item.unplaced) := by
  induction rows generalizing f with
  | nil => exact ⟨f, rfl, by simp [Flat.rows, Flat.endLine, fresh]⟩
  | cons row rest ih =>
    obtain ⟨numbers, further⟩ := numberedRest numbered
    obtain ⟨shades, shaded⟩ := List.forall_mem_cons.mp colored
    obtain ⟨filled, others⟩ := List.forall_mem_cons.mp some
    have one : (row.map Item.step).foldlM (Flat.step colors) f = _ := rowRun numbers shades
    rw [fresh, List.nil_append] at one
    have ended : ({ f with current := row.map Item.unplaced } : Flat).endLine =
        { f with done := f.done ++ [row.map Item.unplaced], current := [] } := by
      simp [Flat.endLine, filled]
    cases rest with
    | nil =>
      refine ⟨_, by simpa [rowsSteps] using one, ?_⟩
      rw [Flat.rows, ended]
      rfl
    | cons next rest =>
      have steps : rowsSteps (row :: next :: rest) =
          row.map Item.step ++ .endLine :: rowsSteps (next :: rest) := by simp [rowsSteps]
      obtain ⟨flat, run, made⟩ :=
        ih (f := { f with done := f.done ++ [row.map Item.unplaced], current := [] }) rfl
          (by simpa using further) shaded others
      refine ⟨flat, ?_, by simpa using made⟩
      rw [steps, List.foldlM_append, one]
      show ((Step.endLine :: rowsSteps (next :: rest)).foldlM (Flat.step colors) _) = _
      rw [List.foldlM_cons]
      show (rowsSteps (next :: rest)).foldlM (Flat.step colors) (Flat.endLine _) = _
      rw [ended]
      exact run

structure Flat.Writable (f : Flat) (color : String) : Prop where
  shade : f.color = color
  done : ∀ row ∈ f.done, row ≠ [] ∧ ∀ item ∈ row, item.Writable ∧ item.color = color
  current : ∀ item ∈ f.current, item.Writable ∧ item.color = color

theorem endLineKeeps (writable : f.Writable color) :
    f.endLine.Writable color := by
  unfold Flat.endLine
  split
  · exact writable
  · rename_i some
    refine ⟨writable.shade, ?_, by simp⟩
    intro row member
    rcases List.mem_append.mp member with old | new
    · exact writable.done row old
    · rw [List.mem_singleton.mp new]
      exact ⟨by simpa using some, writable.current⟩

theorem stepKeeps {g : Flat} {step : Step} (writable : f.Writable color) (sound : step.Writable)
    (ok : f.step [] step = .ok g) : g.Writable color := by
  cases step with
  | item kind labels attached span =>
    cases ok
    refine ⟨writable.shade, writable.done, ?_⟩
    intro item member
    rcases List.mem_append.mp member with old | new
    · exact writable.current item old
    · rw [List.mem_singleton.mp new]
      exact ⟨sound kind labels attached span rfl, writable.shade⟩
  | color key span => cases ok
  | endLine =>
    cases ok
    exact endLineKeeps writable

theorem parsedItems {t : MappedText} (ok : parseRows t [] color = .ok rows) :
    ∀ row ∈ rows, row ≠ [] ∧ ∀ item ∈ row, item.Writable ∧ item.color = color := by
  obtain ⟨lines, flat, parsed, run, rfl, _⟩ := parseRowsIff.mp ok
  refine (endLineKeeps (foldKeeps (Flat.Writable · color) ?_ ⟨rfl, by simp, by simp⟩ run)).done
  intro step member f next kept one
  exact stepKeeps kept (parsedWritable parsed step member) one

theorem writtenReadsBack {t : MappedText} {color : String} {rows : Rows}
    (ok : parseRows t [] color = .ok rows) : ∃ again,
      parseRows (MappedText.ofSource (written rows color).toList) [] color = .ok again ∧
        again.map (List.map Item.unplaced) = rows.map (List.map Item.unplaced) := by
  have items := parsedItems ok
  obtain ⟨_, _, _, _, _, quiet⟩ := parseRowsIff.mp ok
  have colored : ∀ row ∈ rows, ∀ item ∈ row, item.color = color :=
    fun row member item inside => ((items row member).2 item inside).2
  obtain ⟨steps, reads, made⟩ := rowsRead fun row member item inside =>
    ((items row member).2 item inside).1
  have text : MappedText.chars (MappedText.ofSource (written rows color).toList) = rowsText rows :=
    (MappedText.copiedChars 0 _).trans (writtenText colored)
  obtain ⟨lines, parsed, steps'⟩ := linesRead (text ▸ reads)
  obtain ⟨flat, run, rows'⟩ := rowsRun (f := { color }) rfl (parseNumbered ok) colored
    fun row member => (items row member).1
  rw [← made, ← steps'] at run
  rw [List.nil_append] at rows'
  rw [← rows']
  exact parsesAs parsed run (rows' ▸ earlyUnplaced.mpr quiet)

def richPiece : MappedText := MappedText.ofSource
  "[sc.A[0, 1]+1!0^-99999999999999999999,ch@[ @ + 2 ]^2].B^\n,,\x7b[dc]@A[ x;1][-2]~!1\x7d.C^-0,turn\n@[sc:1,%],(k).COLOR".toList

theorem richReadsBack : ∃ rows again, parseRows richPiece [] "red" = .ok rows ∧
    rows.map List.length = [2, 2, 2] ∧
    parseRows (MappedText.ofSource (written rows "red").toList) [] "red" = .ok again ∧
      again.map (List.map Item.unplaced) = rows.map (List.map Item.unplaced) := by
  have runs : (parseRows richPiece [] "red").toOption.any (·.map List.length = [2, 2, 2]) = true := by
    decide +kernel
  obtain ⟨rows, parsed, length⟩ := testOk runs
  obtain ⟨again, read, same⟩ := writtenReadsBack parsed
  exact ⟨rows, again, parsed, of_decide_eq_true length, read, same⟩

end Crochet.Row
