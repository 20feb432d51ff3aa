import Crochet.Proofs.Provenance.Spans
import Crochet.Proofs.Provenance.Traced

/-! The places of index faults. A part of a text has the place of its range in the whole text, so a fault
met in the text is at the place of one of its ranges. The value of an assignment is read as a text of
its own: a variable that overflows there has the range of its use, counted from where the value
starts. -/
namespace Crochet
open MappedText Text

namespace MappedText

theorem widthAppend (a b : MappedText) : width (a ++ b) = width a + width b := by
  rw [← originsWidth, ← originsWidth, ← originsWidth, ← List.length_append]
  exact congrArg List.length List.flatMap_append

theorem widthPositive {t : MappedText} (some : t ≠ []) : 0 < width t := by
  obtain ⟨g, rest, rfl⟩ := List.exists_cons_of_ne_nil some
  exact Nat.lt_of_lt_of_le g.char.utf8Size_pos (Nat.le_add_right g.width (width rest))

variable {os : List Nat}

theorem spanSame {ps : List Nat} {r s : Span}
    (same : (os.drop r.start).take (r.stop - r.start) = (ps.drop s.start).take (s.stop - s.start))
    (some : (ps.drop s.start).take (s.stop - s.start) ≠ []) : spanIn os r = spanIn ps s := by
  obtain ⟨low, least⟩ := Option.isSome_iff_exists.mp (List.isSome_min?_of_ne_nil some)
  obtain ⟨high, greatest⟩ := Option.isSome_iff_exists.mp (List.isSome_max?_of_ne_nil some)
  simp only [spanIn, same, least, greatest]

theorem partPlace (x : MappedText) {part : MappedText} (y : MappedText) (some : part ≠ []) :
    cover part = sourceSpan (x ++ (part ++ y)) ⟨width x, width x + width part⟩ := by
  have all : origins (x ++ (part ++ y)) = origins x ++ (origins part ++ origins y) := by
    simp [origins]
  have own : ((origins part).drop 0).take (width part - 0) = origins part := by
    rw [List.drop_zero, Nat.sub_zero, ← originsWidth, List.take_length]
  have among : ((origins (x ++ (part ++ y))).drop (width x)).take (width x + width part - width x) =
      origins part := by
    rw [all, Nat.add_sub_cancel_left, ← originsWidth, ← originsWidth, List.drop_left, List.take_left]
  have bytes : origins part ≠ [] := by
    rw [← List.length_pos_iff, originsWidth]
    exact widthPositive some
  refine (spanSame (among.trans own.symm) ?_).symm
  rwa [own]

theorem spanStart {low : Nat} (some : os ≠ []) (above : ∀ o ∈ os, low ≤ o) (range : Span) :
    low ≤ (spanIn os range).start := by
  rcases spanCases os range with ⟨first, member, _, _, _, same⟩ | ⟨_, same⟩
  · rw [same]
    exact above first member
  · rw [same, originIn]
    split
    · rename_i o found
      exact above o (List.mem_of_getElem? found)
    · rw [List.getLast?_eq_getLast_of_ne_nil some]
      exact Nat.le_succ_of_le (above _ (List.getLast_mem some))

end MappedText

namespace Index

def PlacedIn (t : MappedText) (fault : Fault) : Prop :=
  ∃ range : Span, range.start < range.stop ∧ range.stop ≤ width t ∧
    fault.span = some (sourceSpan t range)

variable {t : MappedText} {fault : Fault}

theorem On.placedIn (own : On t fault) : PlacedIn t fault := by
  obtain ⟨part, ⟨x, y, rfl⟩, some, place⟩ := own
  have size := widthPositive some
  refine ⟨⟨width x, width x + width part⟩, ?_, ?_, ?_⟩
  · exact Nat.lt_add_of_pos_right size
  · rw [widthAppend, widthAppend]
    exact Nat.le_add_right _ _
  · rw [place, partPlace x y some, List.append_assoc]

theorem Adrift.block (adrift : Adrift t fault) : ∃ g ∈ t, isDollar g = true := by
  obtain ⟨⟨_, _, _, _, ⟨front, opening, block, closing, back, same, opens, _⟩, _⟩, _⟩ := adrift
  exact ⟨opening, by simp [same], opens⟩

theorem indexFaultsPlaced (registry : Registry) (vars : Variables) (last : Option Char)
    (t : MappedText) (fault : Fault) :
    (evaluateFrom registry vars last t = .error fault ∨ evaluate registry t = .error fault →
      PlacedIn t fault ∨ Adrift t fault) ∧
    ((∀ g ∈ t, isDollar g = false) → evaluateFrom registry vars last t = .error fault →
      PlacedIn t fault) := by
  have placed : evaluateFrom registry vars last t = .error fault →
      PlacedIn t fault ∨ Adrift t fault := fun failed =>
    (evaluateLocated fault failed).imp_left On.placedIn
  constructor
  · rintro (failed | failed)
    · exact placed failed
    · exact ((evaluateLocated.map : Located t (evaluate registry t)) fault failed).imp_left On.placedIn
  · intro plain failed
    refine (placed failed).resolve_right fun adrift => ?_
    obtain ⟨g, member, dollar⟩ := adrift.block
    rw [plain g member] at dollar
    cases dollar

theorem neverAt {span : Span} (place : fault.span = some span)
    (above : ∀ range, span.start < (sourceSpan t range).start) (range : Span) :
    fault.span ≠ some (sourceSpan t range) := by
  intro same
  have first := above range
  rw [← Option.some.inj (place.symm.trans same)] at first
  exact Nat.lt_irrefl _ first

def unrolled (source : List Char) : Outcome MappedText :=
  (Source.prepare source {}).bind fun made => Repeat.expand made.1.expression

def countedPiece : List Char := "\n$k=9223372036854775807,j=k++$".toList

theorem countedFault : ∃ t fault, unrolled countedPiece = .ok t ∧ evaluate {} t = .error fault ∧
    fault.span = some ⟨0, 3⟩ ∧ ∀ range, 0 < (sourceSpan t range).start := by
  have runs : (unrolled countedPiece).toOption.any (fun t =>
      (faultOf? (evaluate {} t)).any (fun fault => fault.span == some ⟨0, 3⟩) &&
      (!(origins t).isEmpty && (origins t).all (1 ≤ ·))) = true := by
    decide +kernel
  obtain ⟨t, made, test⟩ := testOk runs
  obtain ⟨fails, bytes⟩ := Bool.and_eq_true_iff.mp test
  obtain ⟨some, above⟩ := Bool.and_eq_true_iff.mp bytes
  obtain ⟨fault, failed, place⟩ := testFault fails
  refine ⟨t, fault, made, failed, beq_iff_eq.mp place, spanStart ?_ ?_⟩
  · simpa using some
  · simpa using above

theorem indexFaultsPlacedCounted :
    (∃ fault, evaluateFrom {} [("k", Decimal.greatestWord)] none (copied 4 "k++".toList) =
      .error fault ∧ (∀ g ∈ copied 4 "k++".toList, isDollar g = false) ∧
      PlacedIn (copied 4 "k++".toList) fault) ∧
    ∃ t fault, unrolled countedPiece = .ok t ∧ evaluate {} t = .error fault ∧ Adrift t fault := by
  constructor
  · have fails : (faultOf? (evaluateFrom {} [("k", Decimal.greatestWord)] none
        (copied 4 "k++".toList))).any (fun _ => true) = true := by
      decide +kernel
    obtain ⟨fault, failed, _⟩ := testFault fails
    have plain : ∀ g ∈ copied 4 "k++".toList, isDollar g = false := by decide
    exact ⟨fault, failed, plain, (indexFaultsPlaced {} _ none _ _).2 plain failed⟩
  · obtain ⟨t, fault, made, failed, place, above⟩ := countedFault
    refine ⟨t, fault, made, failed, ?_⟩
    rcases (indexFaultsPlaced {} [] none t fault).1 (.inr failed) with placed | adrift
    · obtain ⟨range, _, _, same⟩ := placed
      exact absurd same (neverAt place above range)
    · exact adrift

theorem indexFaultMisplaced : ∃ t fault, unrolled countedPiece = .ok t ∧
    evaluate {} t = .error fault ∧ fault.span = some ⟨0, 3⟩ ∧
    ∀ range, fault.span ≠ some (sourceSpan t range) := by
  obtain ⟨t, fault, made, failed, place, above⟩ := countedFault
  exact ⟨t, fault, made, failed, place, neverAt place above⟩

end Index
end Crochet
