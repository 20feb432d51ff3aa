import Crochet.Diagnostic
import Crochet.Proofs.Text.Boundary

/-! Lines of a text. The line around a place lies between the line ends on both sides of it, and its
number is that of the line ends before the place. -/
namespace Crochet
namespace Text

section
variable {mark : α → Bool}

theorem piecesAppend {m : α} (hit : mark m = true) (xs ys : List α) :
    pieces mark (xs ++ m :: ys) = pieces mark xs ++ pieces mark ys := by
  induction xs using cutInduction mark with
  | whole xs clean => rw [piecesCut clean hit, piecesWhole clean, List.singleton_append]
  | cut xs k rest clean cut ih =>
    rw [List.append_assoc, List.cons_append, piecesCut clean cut, piecesCut clean cut, ih,
      List.cons_append]

theorem piecesLength (xs : List α) : (pieces mark xs).length = xs.countP mark + 1 := by
  have none {xs : List α} (clean : ∀ x ∈ xs, mark x = false) : xs.countP mark = 0 :=
    List.countP_eq_zero.mpr fun x member => by simp [clean x member]
  induction xs using cutInduction mark with
  | whole xs clean =>
    rw [piecesWhole clean, none clean]
    rfl
  | cut xs k rest clean cut ih =>
    rw [piecesCut clean cut, List.length_cons, ih, List.countP_append, none clean, Nat.zero_add,
      List.countP_cons_of_pos cut]

end

/- The line around a place: what it holds in front of the place and from there on. -/
structure LineAround (before behind lead tail : List Char) : Prop where
  start : ∃ earlier, before = earlier ++ lead ∧ ∀ c ∈ earlier.getLast?, c = '\n'
  stop : ∃ later, behind = tail ++ later ∧ ∀ c ∈ later.head?, c = '\n'
  single : '\n' ∉ lead ++ tail

theorem lineFront (cs : List Char) : '\n' ∉ cs.takeWhile (· != '\n') ∧
    ∃ later, cs = cs.takeWhile (· != '\n') ++ later ∧ ∀ c ∈ later.head?, c = '\n' := by
  refine ⟨fun member => ?_, cs.dropWhile (· != '\n'), List.takeWhile_append_dropWhile.symm, ?_⟩
  · have kept := List.all_eq_true.mp List.all_takeWhile _ member
    simp at kept
  · intro c first
    have ends := List.head?_dropWhile_not (· != '\n') cs
    rw [first] at ends
    simpa using ends

theorem lineAround (before behind : List Char) : LineAround before behind
    (before.reverse.takeWhile (· != '\n')).reverse (behind.takeWhile (· != '\n')) := by
  obtain ⟨freeBack, earlier, parts, ends⟩ := lineFront before.reverse
  obtain ⟨freeFront, stop⟩ := lineFront behind
  refine ⟨⟨earlier.reverse, ?_, ?_⟩, stop, ?_⟩
  · rw [← List.reverse_append, ← parts, List.reverse_reverse]
  · rwa [List.getLast?_reverse]
  · rw [List.mem_append, List.mem_reverse, not_or]
    exact ⟨freeBack, freeFront⟩

theorem LineAround.piece {before behind lead tail : List Char}
    (line : LineAround before behind lead tail) :
    (pieces (· == '\n') (before ++ behind))[before.count '\n']? = some (lead ++ tail) := by
  obtain ⟨⟨earlier, rfl, starts⟩, ⟨later, rfl, stops⟩, single⟩ := line
  have clean : ∀ c ∈ lead ++ tail, (c == '\n') = false := fun c member =>
    beq_eq_false_iff_ne.mpr fun same => single (same ▸ member)
  have free : lead.count '\n' = 0 :=
    List.count_eq_zero.mpr fun member => single (List.mem_append_left _ member)
  have first : (pieces (· == '\n') ((lead ++ tail) ++ later))[0]? = some (lead ++ tail) := by
    cases later with
    | nil => rw [List.append_nil, piecesWhole clean, List.getElem?_cons_zero]
    | cons c later =>
      rw [stops c rfl, piecesCut clean rfl, List.getElem?_cons_zero]
  rw [List.count_append, free, Nat.add_zero]
  rcases List.eq_nil_or_concat earlier with rfl | ⟨front, c, rfl⟩
  · simpa using first
  · have newline : c = '\n' := starts c (by simp)
    subst newline
    have number : (front.concat '\n').count '\n' = (pieces (· == '\n') front).length := by
      rw [piecesLength, List.concat_eq_append, List.count_append]
      rfl
    have split : front.concat '\n' ++ lead ++ (tail ++ later) =
        front ++ '\n' :: ((lead ++ tail) ++ later) := by simp
    rw [split, piecesAppend rfl, number, List.getElem?_append_right (Nat.le_refl _), Nat.sub_self]
    exact first

end Text

open Text

theorem lineKept {line : List Char} (plain : '\r' ∉ line) : (before? ['\r'] line).getD line = line := by
  cases cut : before? ['\r'] line with
  | none => rfl
  | some rest =>
    obtain ⟨tail, found, _⟩ := Option.map_eq_some_iff.mp cut
    have ends := afterParts found
    exact absurd (List.mem_reverse.mp (ends ▸ List.mem_append_left _ List.mem_cons_self)) plain

theorem textLinesPiece {cs line : List Char} {k : Nat} (plain : '\r' ∉ cs)
    (found : (pieces (· == '\n') cs)[k]? = some line) (some : line ≠ []) :
    (textLines cs)[k]? = .some line := by
  have each : ∀ p ∈ pieces (· == '\n') cs, '\r' ∉ p := fun p member inside =>
    plain (((piecesParts _ cs).2 p member).subset inside)
  unfold textLines
  rcases List.eq_nil_or_concat (pieces (· == '\n') cs) with none | ⟨init, last, parts⟩
  · rw [none] at found
    cases found
  rw [List.concat_eq_append] at parts
  rw [parts] at found each
  have kept : init.map (fun line => (before? ['\r'] line).getD line) = init := by
    refine (List.map_congr_left fun p member => ?_).trans (List.map_id init)
    exact lineKept (each p (List.mem_append_left _ member))
  simp only [parts, List.dropLast_concat, List.getLast?_concat, kept]
  cases last with
  | cons c last => exact found
  | nil =>
    -- the line is not the last piece, which is empty
    have inside : k < init.length := by
      rcases Nat.lt_or_ge k init.length with inside | outside
      · exact inside
      rw [List.getElem?_append_right outside] at found
      exact absurd (List.mem_singleton.mp (List.mem_of_getElem? found)) some
    rwa [List.getElem?_append_left inside] at found

end Crochet
