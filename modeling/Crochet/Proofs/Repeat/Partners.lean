import Crochet.Proofs.Provenance.Located
import Crochet.Proofs.Source.Nested
import Crochet.Proofs.Text.Boundary

/-! Partners of brackets. A group ends where the brackets opened since are closed again, whatever their
kind. In a text that passes the check of brackets this is the partner that the nesting of the three
kinds gives the bracket it was opened with. -/
namespace Crochet.Repeat
open MappedText Source Text

/- A nested text that starts at byte `start`, and the bytes at which the brackets of its pairs stand. -/
inductive Nesting : (start : Nat) → List Char → List (Nat × Nat) → Prop where
  | nil {start} : Nesting start [] []
  | char {start c cs pairs} (plain : isBracket c = false) (rest : Nesting (start + c.utf8Size) cs pairs) :
      Nesting start (c :: cs) pairs
  | pair {start inner rest within behind} (b : Bracket) (inside : Nesting (start + 1) inner within)
      (after : Nesting (start + 1 + byteLength inner + 1) rest behind) :
      Nesting start (b.opening :: (inner ++ b.closing :: rest))
        ((start, start + 1 + byteLength inner) :: (within ++ behind))

theorem bracketSize (b : Bracket) : b.opening.utf8Size = 1 ∧ b.closing.utf8Size = 1 := by
  cases b <;> decide

variable {start last : Nat} {cs : List Char} {pairs : List (Nat × Nat)} {t : MappedText}

theorem nestingBehind {front : List Char} (plain : ∀ c ∈ front, isBracket c = false)
    (nesting : Nesting (start + byteLength front) cs pairs) :
    Nesting start (front ++ cs) pairs := by
  induction front generalizing start with
  | nil => exact nesting
  | cons c front ih =>
    refine .char (plain c List.mem_cons_self) (ih (fun d member => plain d (.tail _ member)) ?_)
    rwa [Nat.add_assoc, ← byteLengthCons]

theorem nestingOf {word : List Char} (nested : Nested word) (start : Nat)
    (brackets : cs.filter isBracket = word) : ∃ pairs, Nesting start cs pairs := by
  induction nested generalizing cs start with
  | nil =>
    have plain : ∀ c ∈ cs, isBracket c = false := by simpa using brackets
    exact ⟨[], List.append_nil cs ▸ nestingBehind plain .nil⟩
  | pair b _ _ within behind =>
    obtain ⟨front, rest, rfl, plain, _, brackets⟩ := List.filter_eq_cons_iff.mp brackets
    obtain ⟨inner, rest, rfl, inside, brackets⟩ := List.filter_eq_append_iff.mp brackets
    obtain ⟨last, rest, rfl, ending, _, after⟩ := List.filter_eq_cons_iff.mp brackets
    have free : ∀ {part : List Char}, (∀ c ∈ part, ¬ isBracket c = true) →
        ∀ c ∈ part, isBracket c = false := fun none c member => by simpa using none c member
    have none : last.filter isBracket = [] := by simpa using ending
    have whole : (inner ++ last).filter isBracket = inner.filter isBracket := by
      rw [List.filter_append, none, List.append_nil]
    obtain ⟨first, opened⟩ := within (start + byteLength front + 1) (whole.trans inside)
    obtain ⟨second, closed⟩ :=
      behind (start + byteLength front + 1 + byteLength (inner ++ last) + 1) after
    have nesting := nestingBehind (free plain) (.pair b opened closed)
    exact ⟨_, by simpa using nesting⟩

theorem groupEndNested (nesting : Nesting start cs pairs) {depth : Nat} (spelt : chars t = cs)
    (rest : MappedText) : groupEnd depth (t ++ rest) =
      (groupEnd depth rest).map fun (inner, closing, after) => (t ++ inner, closing, after) := by
  induction nesting generalizing depth t rest with
  | nil =>
    rw [List.map_eq_nil_iff.mp spelt]
    exact Option.map_id'.symm
  | char plain _ ih =>
    obtain ⟨g, more, rfl, rfl, later⟩ := List.map_eq_cons_iff.mp spelt
    obtain ⟨opening, closing⟩ := Bool.or_eq_false_iff.mp plain
    simp [groupEnd, opening, closing, ih later, Function.comp_def]
  | pair b _ _ within behind =>
    obtain ⟨opening, more, rfl, opens, spelt⟩ := List.map_eq_cons_iff.mp spelt
    obtain ⟨inner, more, rfl, inside, spelt⟩ := List.map_eq_append_iff.mp spelt
    obtain ⟨closing, after, rfl, closes, spelt⟩ := List.map_eq_cons_iff.mp spelt
    obtain ⟨opening', _, _⟩ := openingBracket b
    obtain ⟨closing', _, unopened⟩ := closingBracket b
    simp only [List.cons_append, List.append_assoc, groupEnd, opens, opening', if_true,
      within inside]
    simp [closes, closing', unopened, behind spelt, Function.comp_def]

theorem openingPaired {before rest : List Char} {c : Char} (nesting : Nesting start cs pairs)
    (split : cs = before ++ c :: rest) (opens : isOpening c = true) :
    ∃ stop, (start + byteLength before, stop) ∈ pairs := by
  induction nesting generalizing before rest with
  | nil => simp at split
  | char plain _ ih =>
    rcases List.cons_eq_append_iff.mp split with ⟨rfl, same⟩ | ⟨front, rfl, later⟩
    · cases same
      simp [isBracket, opens] at plain
    · obtain ⟨stop, member⟩ := ih later
      exact ⟨stop, by rwa [byteLengthCons, ← Nat.add_assoc]⟩
  | @pair start inner more within behind b _ _ first second =>
    rcases List.cons_eq_append_iff.mp split with ⟨rfl, _⟩ | ⟨front, rfl, whole⟩
    · exact ⟨_, List.mem_cons_self⟩
    have notClosing : ∀ {after}, c :: rest ≠ b.closing :: after := by
      intro after same
      rw [(List.cons.inj same).1, (closingBracket b).2.2] at opens
      cases opens
    rw [byteLengthCons, (bracketSize b).1, ← Nat.add_assoc]
    -- the bracket stands behind the first pair, or inside it
    rcases List.append_eq_append_iff.mp whole with ⟨part, rfl, after⟩ | ⟨part, rfl, after⟩
    · rcases List.cons_eq_append_iff.mp after with ⟨_, same⟩ | ⟨part, rfl, later⟩
      · exact absurd same notClosing
      obtain ⟨stop, member⟩ := second later
      refine ⟨stop, .tail _ (List.mem_append_right _ ?_)⟩
      rw [byteLengthAppend, byteLengthCons, (bracketSize b).2]
      simpa only [Nat.add_assoc] using member
    · rcases List.cons_eq_append_iff.mp after with ⟨_, same⟩ | ⟨part, rfl, _⟩
      · exact absurd same.symm notClosing
      obtain ⟨stop, member⟩ := first rfl
      exact ⟨stop, .tail _ (List.mem_append_left _ member)⟩

theorem pairSpelt {first : Nat} (nesting : Nesting start cs pairs) (member : (first, last) ∈ pairs) :
    ∃ (b : Bracket) (before inner after : List Char) (within : List (Nat × Nat)),
      cs = before ++ b.opening :: (inner ++ b.closing :: after) ∧ first = start + byteLength before ∧
      last = first + 1 + byteLength inner ∧ Nesting (first + 1) inner within := by
  induction nesting with
  | nil => cases member
  | @char start c _ _ _ _ ih =>
    obtain ⟨b, before, inner, after, within, rfl, opened, closed, nested⟩ := ih member
    refine ⟨b, c :: before, inner, after, within, rfl, ?_, closed, nested⟩
    rw [opened, byteLengthCons, Nat.add_assoc]
  | @pair start outer rest between behind d inside _ ahead later =>
    rcases List.mem_cons.mp member with same | member
    · cases same
      exact ⟨d, [], outer, rest, between, rfl, rfl, rfl, inside⟩
    rcases List.mem_append.mp member with member | member
    · obtain ⟨b, before, inner, after, within, rfl, opened, closed, nested⟩ := ahead member
      refine ⟨b, d.opening :: before, inner, after ++ d.closing :: rest, within, by simp, ?_, closed,
        nested⟩
      rw [opened, byteLengthCons, (bracketSize d).1, Nat.add_assoc]
    · obtain ⟨b, before, inner, after, within, rfl, opened, closed, nested⟩ := later member
      refine ⟨b, d.opening :: (outer ++ d.closing :: before), inner, after, within, by simp, ?_, closed,
        nested⟩
      rw [opened, byteLengthCons, byteLengthAppend, byteLengthCons, (bracketSize d).1,
        (bracketSize d).2]
      omega

theorem pairEnds {before rest : MappedText} {g : Glyph} (nesting : Nesting 0 (chars t) pairs)
    (split : t = before ++ g :: rest) (member : (width before, last) ∈ pairs) :
    ∃ (b : Bracket) (inner : MappedText) (closing : Glyph)
      (after : MappedText), g.char = b.opening ∧ closing.char = b.closing ∧
        groupEnd 0 rest = some (inner, closing, after) ∧ last = width (before ++ g :: inner) := by
  obtain ⟨b, front, inside, behind, within, spelt, opened, closed, nested⟩ := pairSpelt nesting member
  have size : byteLength (before.map Glyph.char) = byteLength front :=
    (charsWidth before).trans (opened.trans (Nat.zero_add _))
  rw [split, chars, List.map_append, List.map_cons] at spelt
  -- the text in front is as long as that of the pair, so it is the same
  obtain ⟨part, same, shown⟩ := boundaryFront spelt (Nat.le_of_eq size)
  have none : part = [] := by
    rw [same, byteLengthAppend] at size
    exact noBytes (by omega)
  subst none
  obtain ⟨opens, shown⟩ := List.cons.inj shown
  obtain ⟨inner, more, rfl, rfl, ending⟩ := List.map_eq_append_iff.mp shown
  obtain ⟨closing, after, rfl, closes, _⟩ := List.map_eq_cons_iff.mp ending
  obtain ⟨closing', _, unopened⟩ := closingBracket b
  refine ⟨b, inner, closing, after, opens, closes, ?_, ?_⟩
  · rw [groupEndNested nested rfl, groupEnd]
    simp [closes, closing', unopened]
  · have own : width (g :: inner) = 1 + width inner := by
      rw [← (bracketSize b).1, ← opens]
      rfl
    rw [closed, widthAppend, own, ← charsWidth inner, Nat.add_assoc]
    rfl

theorem checkedNested (ok : checkBrackets t = .ok ()) :
    Nested ((chars t).filter isBracket) := by
  unfold checkBrackets at ok
  split at ok
  · rename_i none
    exact (imbalanceNone.mp none).1
  · cases ok

theorem groupEndPartner {t : MappedText} (ok : checkBrackets t = .ok ()) :
    (∃ pairs, Nesting 0 (chars t) pairs) ∧
    ∀ (pairs : List (Nat × Nat)) (before rest : MappedText) (g : Glyph), Nesting 0 (chars t) pairs →
      t = before ++ g :: rest → isOpening g.char = true →
      ∃ (b : Bracket) (inner : MappedText) (closing : Glyph) (after : MappedText),
        groupEnd 0 rest = some (inner, closing, after) ∧ g.char = b.opening ∧
        closing.char = b.closing ∧
        ∀ place, (width before, place) ∈ pairs ↔ place = width (before ++ g :: inner) := by
  refine ⟨nestingOf (checkedNested ok) 0 rfl, ?_⟩
  intro pairs before rest g nesting split opens
  have spelt : chars t = chars before ++ g.char :: chars rest := by simp [split, chars]
  obtain ⟨stop, member⟩ := openingPaired nesting spelt opens
  rw [Nat.zero_add, charsWidth] at member
  obtain ⟨b, inner, closing, after, opened, closed, found, rfl⟩ := pairEnds nesting split member
  refine ⟨b, inner, closing, after, found, opened, closed, fun place => ⟨fun other => ?_, ?_⟩⟩
  · obtain ⟨_, _, _, _, _, _, again, same⟩ := pairEnds nesting split other
    cases found.symm.trans again
    exact same
  · rintro rfl
    exact member

def mixedPiece : MappedText := ofSource "2*\x7bé[sc,(ch$k=0$)],[dc]\x7d,(sc)".toList

theorem groupEndPartnerMixed : checkBrackets mixedPiece = .ok () ∧ ∃ pairs inner closing after,
    Nesting 0 (chars mixedPiece) pairs ∧
    groupEnd 0 (mixedPiece.drop 5) = some (inner, closing, after) ∧ closing.char = ']' ∧
    ∀ place, (5, place) ∈ pairs ↔ place = 18 := by
  have ok : checkBrackets mixedPiece = .ok () := by decide +kernel
  refine ⟨ok, ?_⟩
  obtain ⟨⟨pairs, nesting⟩, partner⟩ := groupEndPartner ok
  obtain ⟨b, inner, closing, after, found, opened, closed, place⟩ :=
    partner pairs (mixedPiece.take 4) (mixedPiece.drop 5) ⟨'[', ⟨5, 6⟩⟩ nesting
      (by decide +kernel) rfl
  have kind : b = .square := Bracket.openingInj opened.symm
  subst kind
  have size : (groupEnd 0 (mixedPiece.drop 5)).map (fun found =>
      width (mixedPiece.take 4 ++ ⟨'[', ⟨5, 6⟩⟩ :: found.1)) = some 18 := by
    decide +kernel
  rw [found, Option.map_some, Option.some_inj] at size
  rw [size] at place
  exact ⟨pairs, inner, closing, after, nesting, found, closed, place⟩

end Crochet.Repeat
