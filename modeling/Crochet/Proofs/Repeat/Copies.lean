import Crochet.Proofs.Lists
import Crochet.Proofs.Repeat.Rope

/-! The copies of a group. They are read as the rounds of its parts, from the entry in the first and
up to the exit in the last; and rounds come to the same events if a part is split into several. -/
namespace Crochet.Repeat
open MappedText

theorem onlyIndex {p : α → Bool} {xs : List α} (once : xs.countP p ≤ 1) (n : Nat) :
    ((xs.zipIdx n).filter fun (x, _) => p x).map Prod.snd =
      if xs.any p then [n + xs.findIdx p] else [] := by
  induction xs generalizing n with
  | nil => rfl
  | cons x xs ih =>
    cases holds : p x with
    | false =>
      rw [List.countP_cons_of_neg (by simp [holds])] at once
      have rest := ih once (n + 1)
      simp only [List.zipIdx_cons, List.filter_cons, holds, Bool.false_eq_true, if_false, rest,
        List.any_cons, Bool.false_or, List.findIdx_cons, cond_false]
      split <;> simp; omega
    | true =>
      rw [List.countP_cons_of_pos holds] at once
      have none : xs.countP p = 0 := by omega
      have few : xs.any p = false := by
        simpa [List.countP_eq_zero] using none
      have rest := ih (by omega) (n + 1)
      rw [few, if_neg (by simp)] at rest
      simp [List.zipIdx_cons, holds, List.map_eq_nil_iff.mp rest, List.findIdx_cons]

def placeOf (m : Marker) (parts : List Part) : Option Nat :=
  if parts.any (Part.is m) then some (parts.findIdx (Part.is m)) else none

section
variable {rope : List Item} {parts : List Part}

theorem meansMap (means : List.Forall₂ Means rope parts) (m : Marker) :
    rope.map (fun item => m.isText item.text) = parts.map (Part.is m) := by
  induction means with
  | nil => rfl
  | cons one _ ih => rw [List.map_cons, List.map_cons, ih, meansIs one]

theorem markerPlace (means : List.Forall₂ Means rope parts) {m : Marker}
    (once : parts.countP (Part.is m) ≤ 1) (span : Span) :
    markerIndex m span rope = .ok (placeOf m parts) := by
  have same := meansMap means m
  have count := congrArg (List.countP id) same
  have any := congrArg (List.any · id) same
  have index := congrArg (List.findIdx id) same
  simp only [List.countP_map, List.any_map, List.findIdx_map, Function.id_comp] at count any index
  rw [← count] at once
  have only := onlyIndex once 0
  rw [any, index, Nat.zero_add] at only
  unfold markerIndex placeOf
  split
  · rename_i none
    rw [none] at only
    split at only
    · cases only
    · rename_i absent
      rw [if_neg absent]
  · rename_i one
    rw [one] at only
    split at only
    · rename_i present
      rw [if_pos present, ← List.singleton_inj.mp only]
    · cases only
  · rename_i other single
    exfalso
    split at only
    · obtain ⟨⟨item, k⟩, found, _⟩ := List.map_eq_singleton_iff.mp only
      exact single _ _ found
    · exact other (List.map_eq_nil_iff.mp only)

def Copies (text : MappedText) (round : List Part) : Prop :=
  Meant (chars text) (round.flatMap Part.events)

theorem passageCopies (strand : Strand rope parts) (start stop : Nat) :
    Copies (passage rope start stop) ((parts.take stop).drop start) :=
  strandMeant (strandDrop (strandTake strand stop) start)

end

theorem untilExitTake (parts : List Part) :
    untilExit parts = parts.take ((placeOf .exit parts).getD parts.length) := by
  unfold untilExit placeOf
  rw [List.takeWhile_eq_take_findIdx_not]
  simp only [Bool.not_not]
  split
  · rfl
  · rename_i absent
    rw [List.findIdx_eq_length.mpr (by simpa using absent)]
    rfl

def afterEntry (parts : List Part) : Nat :=
  match placeOf .entry parts with
  | some k => k + 1
  | none => 0

theorem sinceEntryDrop (parts : List Part) (n : Nat) :
    sinceEntry parts (parts.take n) = (parts.take n).drop (afterEntry parts) := by
  unfold sinceEntry afterEntry placeOf
  split
  · rw [List.dropWhile_eq_drop_findIdx_not]
    simp only [Bool.not_not, List.findIdx_take, List.tail_drop]
    -- an entry behind the cut leaves nothing on either side
    by_cases cut : n ≤ parts.findIdx (Part.is .entry)
    · rw [Nat.min_eq_left cut, List.drop_eq_nil_of_le (by simp), List.drop_eq_nil_of_le (by simp; omega)]
    · rw [Nat.min_eq_right (Nat.le_of_not_le cut)]
  · rfl

theorem copiesMeant {rope : List Item} {parts : List Part} (roped : Roped rope parts)
    (once : ∀ m, parts.countP (Part.is m) ≤ 1) (count : Nat) (span : Span) :
    ∃ texts, copies (ropeText rope) count span = .ok texts ∧
      List.Forall₂ Copies texts (rounds parts (some count)) := by
  have strand := ropedStrand roped
  have means := strandMeans strand
  have meant := passageCopies strand
  have every := meant 0 parts.length
  rw [List.drop_zero, List.take_length] at every
  have first := meant (afterEntry parts) parts.length
  rw [← sinceEntryDrop, List.take_length] at first
  have last := meant 0 ((placeOf .exit parts).getD parts.length)
  rw [List.drop_zero, ← untilExitTake] at last
  have only := meant (afterEntry parts) ((placeOf .exit parts).getD parts.length)
  rw [← sinceEntryDrop, ← untilExitTake] at only
  simp only [copies, ropedItems roped, markerPlace means (once _), means.length_eq, bind, Except.bind]
  refine ⟨_, rfl, ?_⟩
  match count with
  | 0 => exact .nil
  | 1 => exact .cons only .nil
  | n + 2 => exact .cons first (List.rel_append (replicatePairs every n) (.cons last .nil))

/- The same parts, where one that is no marker may be split. -/
inductive Refines : List Part → List Part → Prop where
  | nil : Refines [] []
  | marker (m : Marker) (events : List Event) {parts fine : List Part} (rest : Refines parts fine) :
      Refines (⟨some m, events⟩ :: parts) (⟨some m, events⟩ :: fine)
  | plain {split parts fine : List Part} (unmarked : ∀ p ∈ split, p.marker = none)
      (rest : Refines parts fine) :
      Refines (⟨none, split.flatMap Part.events⟩ :: parts) (split ++ fine)

section
variable {parts fine : List Part}

theorem unmarkedIs {split : List Part} (unmarked : ∀ p ∈ split, p.marker = none) (m : Marker) :
    ∀ p ∈ split, p.is m = false := by
  intro p member
  simp [Part.is, unmarked p member]

theorem refinesEvents (refines : Refines parts fine) :
    parts.flatMap Part.events = fine.flatMap Part.events := by
  induction refines with
  | nil => rfl
  | marker m events _ ih => rw [List.flatMap_cons, List.flatMap_cons, ih]
  | plain _ _ ih => rw [List.flatMap_cons, List.flatMap_append, ih]

theorem refinesFilter (refines : Refines parts fine) (m : Marker) :
    fine.filter (Part.is m) = parts.filter (Part.is m) := by
  induction refines with
  | nil => rfl
  | marker other events _ ih => rw [List.filter_cons, List.filter_cons, ih]
  | plain unmarked _ ih =>
    have none := List.filter_eq_nil_iff.mpr fun p member =>
      Bool.eq_false_iff.mp (unmarkedIs unmarked m p member)
    rw [List.filter_append, none, List.nil_append, ih, List.filter_cons_of_neg]
    simp [Part.is]

theorem refinesCount (refines : Refines parts fine) (m : Marker) :
    fine.countP (Part.is m) = parts.countP (Part.is m) := by
  rw [List.countP_eq_length_filter, List.countP_eq_length_filter, refinesFilter refines]

theorem refinesAny (refines : Refines parts fine) (m : Marker) :
    fine.any (Part.is m) = parts.any (Part.is m) := by
  have same := congrArg (List.any · fun _ => true) (refinesFilter refines m)
  simpa only [List.any_filter, Bool.and_true] using same

theorem refinesTake (refines : Refines parts fine) (m : Marker) :
    Refines (parts.takeWhile (!Part.is m ·)) (fine.takeWhile (!Part.is m ·)) := by
  induction refines with
  | nil => exact .nil
  | marker other events _ ih =>
    rw [List.takeWhile_cons, List.takeWhile_cons]
    split
    · exact .marker other events ih
    · exact .nil
  | plain unmarked _ ih =>
    rw [List.takeWhile_cons_of_pos (by simp [Part.is]), List.takeWhile_append_of_pos]
    · exact .plain unmarked ih
    · intro p member
      simp [unmarkedIs unmarked m p member]

theorem refinesTail (refines : Refines parts fine) (m : Marker) :
    Refines (parts.dropWhile (!Part.is m ·)).tail (fine.dropWhile (!Part.is m ·)).tail := by
  induction refines with
  | nil => exact .nil
  | marker other events rest ih =>
    rw [List.dropWhile_cons, List.dropWhile_cons]
    split
    · exact ih
    · exact rest
  | plain unmarked _ ih =>
    rw [List.dropWhile_cons_of_pos (by simp [Part.is]), List.dropWhile_append_of_pos]
    · exact ih
    · intro p member
      simp [unmarkedIs unmarked m p member]

theorem sinceEntryRefines {some few : List Part} (refines : Refines parts fine)
    (inside : Refines some few) : Refines (sinceEntry parts some) (sinceEntry fine few) := by
  unfold sinceEntry
  rw [refinesAny refines]
  split
  · exact refinesTail inside .entry
  · exact inside

theorem roundsRefine (refines : Refines parts fine) (count : Option Nat) :
    List.Forall₂ Refines (rounds parts count) (rounds fine count) := by
  have last := refinesTake refines .exit
  match count with
  | none => exact .cons refines .nil
  | some 0 => exact .nil
  | some 1 => exact .cons (sinceEntryRefines refines last) .nil
  | some (n + 2) =>
    exact .cons (sinceEntryRefines refines refines)
      (List.rel_append (replicatePairs refines n) (.cons last .nil))

theorem roundsEvents (refines : Refines parts fine) (count : Option Nat) :
    (rounds parts count).map (List.flatMap Part.events) =
      (rounds fine count).map (List.flatMap Part.events) := by
  have pairs := roundsRefine refines count
  generalize rounds parts count = some at pairs ⊢
  generalize rounds fine count = few at pairs ⊢
  induction pairs with
  | nil => rfl
  | cons one _ ih => rw [List.map_cons, List.map_cons, refinesEvents one, ih]

end

end Crochet.Repeat
