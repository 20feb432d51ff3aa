import Crochet.Proofs.Provenance.Spans
import Crochet.Proofs.Provenance.Traced

/-! Where lines, definitions, colours and items go wrong. The line end behind the last line is never
part of what is at fault, so a fault covers origins of the lines themselves. -/
namespace Crochet
open MappedText Text

theorem spanFront {os more : List Nat} {range : Span} (inside : range.Inside os.length) :
    spanIn (os ++ more) range = spanIn os range := by
  obtain ⟨rising, within⟩ := inside
  have covered : ((os ++ more).drop range.start).take (range.stop - range.start) =
      (os.drop range.start).take (range.stop - range.start) := by
    rw [List.drop_append_of_le_length (by omega),
      List.take_append_of_le_length (by rw [List.length_drop]; omega)]
  have first : originIn (os ++ more) range.start = originIn os range.start := by
    simp only [originIn]
    rw [List.getElem?_append_left (by omega)]
    rw [List.getElem?_eq_getElem (by omega : range.start < os.length)]
  simp only [spanIn, covered, first]

namespace Source

theorem imbalanceEnded (offset : Nat) (stack : List (Bracket × Nat)) (block : Option Nat)
    (cs : List Char) :
    imbalanceFrom offset stack block (cs ++ ['\n']) = imbalanceFrom offset stack block cs := by
  induction cs generalizing offset stack block with
  | nil =>
    cases stack with
    | nil => cases block <;> rfl
    | cons => rfl
  | cons c cs ih => simp only [List.cons_append, imbalanceFrom, ih]

variable {offset : Nat} {t line : MappedText} {sheet : Sheet} {d : Draft}

theorem imbalanceInside {stack : List (Bracket × Nat)} {block : Option Nat} {cs : List Char}
    {cause : SourceCause} {range : Span} (stacked : ∀ entry ∈ stack, entry.2 < offset)
    (opened : ∀ start ∈ block, start < offset)
    (found : imbalanceFrom offset stack block cs = some (cause, range)) :
    range.Inside (offset + byteLength cs) := by
  induction cs generalizing offset stack block with
  | nil =>
    unfold imbalanceFrom at found
    split at found
    · cases found
      exact ⟨Nat.lt_succ_self _, stacked _ List.mem_cons_self⟩
    · cases found
      exact ⟨Nat.lt_succ_self _, opened _ rfl⟩
    · cases found
  | cons c cs ih =>
    have wide := c.utf8Size_pos
    have size : offset + byteLength (c :: cs) = offset + c.utf8Size + byteLength cs :=
      (Nat.add_assoc _ _ _).symm
    have outer : ∀ entry ∈ stack, entry.2 < offset + c.utf8Size := fun entry member =>
      Nat.lt_add_right _ (stacked entry member)
    have still : ∀ start ∈ block, start < offset + c.utf8Size := fun start same =>
      Nat.lt_add_right _ (opened start same)
    rw [size]
    unfold imbalanceFrom at found
    dsimp only at found
    split at found
    · exact ih (List.forall_mem_cons.mpr ⟨Nat.lt_add_of_pos_right wide, outer⟩) still found
    · split at found
      · cases found
        exact ⟨Nat.lt_add_of_pos_right wide, Nat.le_add_right _ _⟩
      · obtain ⟨inner, more⟩ := List.forall_mem_cons.mp outer
        split at found
        · exact ih more still found
        · cases found
          exact ⟨inner, Nat.le_add_right _ _⟩
    · split at found
      · refine ih outer ?_ found
        intro start same
        split at same
        · cases same
        · cases same
          exact Nat.lt_add_of_pos_right wide
      · exact ih outer still found

theorem bracketsEnded (t : MappedText) : checkBrackets (dropLastNewline t) = checkBrackets t := by
  rcases List.eq_nil_or_concat t with rfl | ⟨body, g, rfl⟩
  · rfl
  rw [List.concat_eq_append]
  unfold dropLastNewline
  rw [List.getLast?_concat]
  dsimp only
  split
  · rename_i newline
    have text : chars (body ++ [g]) = chars body ++ ['\n'] := by simp [chars, newline]
    rw [List.dropLast_concat, checkBrackets, checkBrackets, imbalance?, imbalance?, text, imbalanceEnded]
    split
    · rfl
    · rename_i cause range found
      have inside := imbalanceInside (by simp) (by simp) found
      rw [Nat.zero_add, ← originsLength] at inside
      have all : origins (body ++ [g]) = origins body ++ origins [g] := by simp [origins]
      rw [sourceSpan, sourceSpan, all, spanFront inside]
  · rfl

variable {Q : Nat → Prop}

theorem bracketsTraced (within : Within Q t) : Traced Q (checkBrackets t) := by
  unfold checkBrackets
  split
  · exact Faults.ok _
  · rename_i range _
    exact faultsAt ⟨origins t, range, withinOrigins within, rfl⟩

theorem addTraced (within : Within Q line) :
    Traced Q (sheet.add line) := by
  unfold Sheet.add
  split
  case h_4 =>
    split
    · exact faultsAt (coverCovers within)
    · exact Faults.ok _
  all_goals exact Faults.ok _

theorem definitionInside {body : MappedText} (read : Line.read line = .definition body) :
    body ⊆ line := by
  simp only [Line.read] at read
  split at read
  · rename_i found
    cases read
    have whole := (afterChars found).2
    intro g member
    have content : g ∈ trimStart line := whole ▸ List.mem_append_right _ member
    exact (List.dropWhile_sublist _).subset content
  · split at read
    · cases read
    split at read
    · cases read
    split at read
    · cases read
    split at read
    · cases read
    · cases read

theorem addDefinitions {next : Sheet} (within : Within Q line)
    (before : ∀ d ∈ sheet.definitions, Within Q d) (ok : sheet.add line = .ok next) :
    ∀ d ∈ next.definitions, Within Q d := by
  rcases addCases ok with ⟨_, _, same⟩ | ⟨_, same | ⟨body, read, same⟩⟩
  · exact same ▸ before
  · exact same ▸ before
  · rw [same]
    refine List.forall_mem_append.mpr ⟨before, List.forall_mem_singleton.mpr ?_⟩
    exact within.mono (definitionInside read)

theorem registerTraced {span : Span} {result : Registry.Result × Registry} (own : span.Covers Q) :
    Traced Q (d.register span result) := by
  unfold Draft.register
  split
  · exact faultsAt own
  · exact Faults.ok _

theorem defineTraced {definition : MappedText} (within : Within Q definition) :
    Traced Q (d.define definition) := by
  have place := coverCovers within
  simp only [Draft.define]
  split
  · exact faultsAt place
  rename_i left right cut
  obtain ⟨_, _, whole, _⟩ := cutFirstParts cut
  have behind : Within Q right := within.mono fun g member => by simp [whole, member]
  split
  · exact faultsAt place
  split
  · exact faultsAt place
  split
  · exact registerTraced place
  split
  · split
    · exact faultsAt place
    split
    · exact faultsAt place
    · exact registerTraced place
  split
  · exact faultsAt place
  · exact (bracketsTraced behind).bind fun _ _ => Faults.ok _

theorem colorsTraced (bounded : Bounded Q t) :
    Traced Q (takeColors offset t) := by
  fun_induction takeColors offset t with
  | case1 => exact Faults.ok _
  | case2 offset g rest plain ih => exact (ih bounded.2).bind fun _ _ => Faults.ok _
  | case3 offset g rest after found mark value color none =>
    refine faultsAt (coverCovers fun h member => ?_)
    refine bounded.plain (List.mem_of_mem_take member) fun newline => ?_
    have inside : '\n' ∈ colorMark := (afterChars found).1 ▸ newline ▸ List.mem_map_of_mem member
    revert inside
    decide
  | case4 offset g rest after found mark value color some key ih =>
    have whole : g :: rest = (mark ++ value) ++ (colorValue 0 after).2 := by
      rw [List.append_assoc, colorValueParts 0 after]
      exact (afterChars found).2.symm
    rw [whole] at bounded
    exact (ih bounded.rest).bind fun _ _ => Faults.ok _

theorem prepareTraced {source : List Char} {registry : Registry}
    (lines : ∀ line ∈ logicalLines source, Within Q line)
    (sheets : ∀ sheet, Sheet.read source = .ok sheet → Bounded Q sheet.expression) :
    Traced Q (prepare source registry) := by
  refine Faults.bind ?_ fun _ _ => Faults.ok _
  refine Faults.bind (Faults.fold (fun _ => True) (fun line member _ _ => addTraced (lines line member))
    (fun _ _ _ _ _ _ => trivial) trivial) fun sheet read => ?_
  have bounded := sheets sheet read
  have definitions : ∀ d ∈ sheet.definitions, Within Q d :=
    foldKeeps (fun s : Sheet => ∀ d ∈ s.definitions, Within Q d)
      (fun line member _ _ before ok => addDefinitions (lines line member) before ok) (by simp) read
  refine Faults.bind ?_ fun _ _ => ?_
  · rw [← bracketsEnded]
    exact bracketsTraced bounded.ended
  refine Faults.bind (Faults.fold (fun _ => True) (fun d member _ _ => defineTraced (definitions d member))
    (fun _ _ _ _ _ _ => trivial) trivial) fun draft defined => ?_
  have drafted : Bounded Q draft.expression :=
    foldKeeps (fun d => Bounded Q d.expression) (fun _ _ _ _ => defineBounded) (dotsBounded bounded) defined
  exact (colorsTraced drafted).bind fun _ _ => Faults.ok _

end Source

namespace Row
variable {Q : Nat → Prop}

theorem rowsTraced {t : MappedText} {colors : List (Nat × String)} {color : String}
    (within : Within Q t) : Traced Q (parseRows t colors color) := by
  have covered : ∀ range : Span, (spanIn (origins t) range).Covers Q := fun range =>
    ⟨origins t, range, withinOrigins within, rfl⟩
  refine Faults.bind ?_ fun lines parsed => ?_
  · intro fault failed span place
    obtain ⟨_, range, same⟩ := (parsedFine fun _ _ _ _ => trivial).fault failed
    cases place.symm.trans same
    exact covered range
  have fine : ∀ step ∈ linesSteps {} lines, step.Fine (Span.Covers Q) (fun _ => True) :=
    parsedSteps parsed fun range _ => covered range
  rw [linesRun]
  refine Faults.bind ?_ fun flat flattened => ?_
  · refine Faults.fold (fun _ => True) (fun step member f _ => ?_) (fun _ _ _ _ _ _ => trivial) trivial
    cases step with
    | item => exact Faults.ok _
    | endLine => exact Faults.ok _
    | color key span =>
      simp only [Flat.step]
      split
      · exact Faults.ok _
      · exact faultsAt (fine _ member).2
  · dsimp only
    split
    · rename_i turn found
      obtain ⟨row, member, inside⟩ := List.exists_of_findSome?_eq_some found
      have among := List.dropLast_subset _ (List.mem_of_find?_eq_some inside)
      exact faultsAt (stepsSited fine flattened row member turn among).1
    · exact Faults.ok _

end Row
end Crochet
