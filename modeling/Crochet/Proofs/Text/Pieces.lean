import Mathlib.Data.List.TakeWhile
import Mathlib.Data.Nat.Init
import Crochet.Text.Blank
import Crochet.Text.Bytes
import Crochet.Text.Split
import Crochet.Text.Word

/-! Texts joined with a mark and cut at it again. What holds no mark is one piece, and a text of
pieces joined with a mark that none of them holds falls into those pieces. -/
namespace Crochet.Text

section
variable {mark : α → Bool} {m : α} {xs ys : List α}

theorem cutFirstAt (clean : ∀ x ∈ xs, mark x = false) (hit : mark m = true) :
    cutFirst mark (xs ++ m :: ys) = some (xs, ys) := by
  induction xs with
  | nil => simp [cutFirst, hit]
  | cons x xs ih =>
    have more := ih fun y inside => clean y (List.mem_cons_of_mem _ inside)
    simp [cutFirst, clean x List.mem_cons_self, more]

theorem cutFirstNone (clean : ∀ x ∈ xs, mark x = false) : cutFirst mark xs = none := by
  induction xs with
  | nil => rfl
  | cons x xs ih =>
    have more := ih fun y inside => clean y (List.mem_cons_of_mem _ inside)
    simp [cutFirst, clean x List.mem_cons_self, more]

theorem cutFirstClean (none : cutFirst mark xs = none) : ∀ x ∈ xs, mark x = false := by
  induction xs with
  | nil => simp
  | cons y ys ih =>
    unfold cutFirst at none
    split at none
    · cases none
    rename_i miss
    have later := ih (by simpa using none)
    intro x inside
    rcases List.mem_cons.mp inside with rfl | inside
    · simpa using miss
    · exact later x inside

theorem piecesWhole (clean : ∀ x ∈ xs, mark x = false) : pieces mark xs = [xs] := by
  induction xs with
  | nil => rfl
  | cons x xs ih =>
    have more := ih fun y inside => clean y (List.mem_cons_of_mem _ inside)
    simp [pieces, clean x List.mem_cons_self, more]

theorem piecesCut (clean : ∀ x ∈ xs, mark x = false) (hit : mark m = true) :
    pieces mark (xs ++ m :: ys) = xs :: pieces mark ys := by
  induction xs with
  | nil => simp [pieces, hit]
  | cons x xs ih =>
    have more := ih fun y inside => clean y (List.mem_cons_of_mem _ inside)
    simp [pieces, clean x List.mem_cons_self, more]

/- The first piece is where the text starts; only the others may lie anywhere. -/
theorem piecesParts (mark : α → Bool) (xs : List α) :
    (∀ p ∈ (pieces mark xs).head?, p <+: xs) ∧ ∀ p ∈ pieces mark xs, p <:+: xs := by
  induction xs with
  | nil => simp [pieces]
  | cons x xs ih =>
    obtain ⟨first, all⟩ := ih
    have later : ∀ p ∈ pieces mark xs, p <:+: x :: xs := fun p inside =>
      (all p inside).trans (List.suffix_cons x xs).isInfix
    unfold pieces
    split
    · exact ⟨by simp, List.forall_mem_cons.mpr ⟨List.nil_infix, later⟩⟩
    split
    · have alone : [x] <+: x :: xs := ⟨xs, rfl⟩
      exact ⟨by simp, by simpa using alone.isInfix⟩
    · rename_i head rest found
      rw [found] at first later
      have front : x :: head <+: x :: xs := List.cons_prefix_cons.mpr ⟨rfl, first head rfl⟩
      refine ⟨by simpa using front, List.forall_mem_cons.mpr ⟨front.isInfix, ?_⟩⟩
      exact fun p inside => later p (List.mem_cons_of_mem _ inside)

theorem mapPiecesWhole {f : List α → List α} (clean : ∀ x ∈ xs, mark x = false) :
    mapPieces mark f xs = f xs := by
  have all : ∀ x ∈ xs, (!mark x) = true := fun x inside => by rw [clean x inside]; rfl
  have none : xs.dropWhile (!mark ·) = [] := List.dropWhile_eq_nil_iff.mpr all
  rw [mapPieces, List.takeWhile_eq_self_iff.mpr all]
  split
  · exact List.append_nil _
  · rename_i same
    cases same.symm.trans none

theorem mapPiecesCut {f : List α → List α} (clean : ∀ x ∈ xs, mark x = false) (hit : mark m = true) :
    mapPieces mark f (xs ++ m :: ys) = f xs ++ m :: mapPieces mark f ys := by
  have all : ∀ x ∈ xs, (!mark x) = true := fun x inside => by rw [clean x inside]; rfl
  have front : (xs ++ m :: ys).takeWhile (!mark ·) = xs := by
    rw [List.takeWhile_append_of_pos all, List.takeWhile_cons_of_neg (by simp [hit]), List.append_nil]
  have behind : (xs ++ m :: ys).dropWhile (!mark ·) = m :: ys := by
    rw [List.dropWhile_append_of_pos all, List.dropWhile_cons_of_neg (by simp [hit])]
  rw [mapPieces, front]
  split
  · rename_i none
    cases none.symm.trans behind
  · rename_i same
    cases same.symm.trans behind
    rfl

theorem cutInduction (mark : α → Bool) {P : List α → Prop}
    (whole : ∀ xs, (∀ x ∈ xs, mark x = false) → P xs)
    (cut : ∀ xs m ys, (∀ x ∈ xs, mark x = false) → mark m = true → P ys → P (xs ++ m :: ys))
    (xs : List α) : P xs := by
  induction size : xs.length using Nat.strong_induction_on generalizing xs with
  | _ n ih =>
    cases found : cutFirst mark xs with
    | none => exact whole xs (cutFirstClean found)
    | some parts =>
      obtain ⟨before, after⟩ := parts
      have shorter := cutFirstLength found
      obtain ⟨m, hit, rfl, clean⟩ := cutFirstParts found
      exact cut before m after clean hit (ih after.length (by omega) after rfl)

end

theorem piecesJoined {m : Char} {parts : List (List Char)} (some : parts ≠ [])
    (clean : ∀ part ∈ parts, m ∉ part) :
    pieces (· == m) ([m].intercalate parts) = parts := by
  have unmarked {part : List Char} (free : m ∉ part) : ∀ x ∈ part, (x == m) = false := by
    intro x inside
    exact beq_eq_false_iff_ne.mpr fun same => free (same ▸ inside)
  induction parts with
  | nil => exact absurd rfl some
  | cons part rest ih =>
    have own := unmarked (clean part List.mem_cons_self)
    cases rest with
    | nil => simpa using piecesWhole own
    | cons next more =>
      have others := ih (by simp) fun p inside => clean p (List.mem_cons_of_mem _ inside)
      rw [List.intercalate_cons_cons, List.append_assoc, List.singleton_append,
        piecesCut own (beq_self_eq_true m), others]

theorem memJoined {m x : α} {parts : List (List α)} (inside : x ∈ [m].intercalate parts) :
    x = m ∨ ∃ part ∈ parts, x ∈ part := by
  induction parts with
  | nil => simp at inside
  | cons part rest ih =>
    cases rest with
    | nil => exact .inr ⟨part, by simp, by simpa using inside⟩
    | cons next more =>
      rw [List.intercalate_cons_cons, List.append_assoc, List.mem_append] at inside
      rcases inside with own | joined
      · exact .inr ⟨part, by simp, own⟩
      rcases List.mem_append.mp joined with single | later
      · exact .inl (List.mem_singleton.mp single)
      rcases ih later with same | ⟨part, among, own⟩
      · exact .inl same
      · exact .inr ⟨part, List.mem_cons_of_mem _ among, own⟩

variable {c : Char} {cs : List Char}

theorem trimEdges {d : Char} (first : isBlank c = false) (last : isBlank d = false) :
    trim (c :: (cs ++ [d])) = c :: (cs ++ [d]) := by
  simp [trim, trimStart, trimEnd, first, last]

theorem trimVisible (visible : ∀ c ∈ cs, isBlank c = false) : trim cs = cs := by
  have front : trimStart cs = cs := by
    cases cs with
    | nil => rfl
    | cons c rest => simp [trimStart, visible c List.mem_cons_self]
  rw [trim, front, trimEnd]
  cases turned : cs.reverse with
  | nil => simpa using turned
  | cons d rest =>
    have member : d ∈ cs := List.mem_reverse.mp (turned ▸ List.mem_cons_self)
    rw [List.dropWhile_cons_of_neg (by simp [visible d member]), ← turned, List.reverse_reverse]

theorem afterStart [BEq α] [LawfulBEq α] (start rest : List α) :
    after? start (start ++ rest) = some rest := by
  induction start with
  | nil => rfl
  | cons s start ih => simpa [after?] using ih

theorem afterParts [BEq α] [LawfulBEq α] {start list rest : List α}
    (found : after? start list = some rest) : list = start ++ rest := by
  induction start generalizing list with
  | nil =>
    cases found
    rfl
  | cons s start ih =>
    cases list with
    | nil => cases found
    | cons x xs =>
      unfold after? at found
      split at found
      · rename_i same
        rw [eq_of_beq same, ih found, List.cons_append]
      · cases found

theorem beforeEnd [BEq α] [LawfulBEq α] (front finish : List α) :
    before? finish (front ++ finish) = some front := by
  rw [before?, List.reverse_append, afterStart]
  simp

theorem digitNameChar (digit : c.isDigit = true) : isNameChar c = true := by
  simp [isNameChar, Char.isAlphanum, digit]

theorem startNameChar (start : isNameStart c = true) : isNameChar c = true := by
  rcases Bool.or_eq_true_iff.mp start with alpha | line
  · simp [isNameChar, Char.isAlphanum, alpha]
  · simp [isNameChar, line]

theorem digitRange (digit : c.isDigit = true) : 48 ≤ c.toNat ∧ c.toNat ≤ 57 :=
  (Bool.and_eq_true_iff.mp digit).imp of_decide_eq_true of_decide_eq_true

theorem alphaRange (alpha : c.isAlpha = true) :
    65 ≤ c.toNat ∧ c.toNat ≤ 90 ∨ 97 ≤ c.toNat ∧ c.toNat ≤ 122 := by
  rcases Bool.or_eq_true_iff.mp alpha with upper | lower
  · exact .inl (of_decide_eq_true upper)
  · exact .inr ((Bool.and_eq_true_iff.mp lower).imp of_decide_eq_true of_decide_eq_true)

theorem nameCharRange (name : isNameChar c = true) : 48 ≤ c.toNat ∧ c.toNat ≤ 122 := by
  rcases Bool.or_eq_true_iff.mp name with plain | line
  · rcases Bool.or_eq_true_iff.mp plain with alpha | digit
    · have range := alphaRange alpha
      omega
    · have range := digitRange digit
      omega
  · rw [beq_iff_eq.mp line]
    decide

theorem nameWord (named : isNameChar c = true) : isWord c = true := by
  have range := nameCharRange named
  rw [isWord, if_pos (by omega)]
  exact named

theorem nameParts {w : List Char} (name : isName w = true) : ∃ c cs, w = c :: cs ∧
    isNameStart c = true ∧ ∀ d ∈ w, isNameChar d = true := by
  cases w with
  | nil => cases name
  | cons c cs =>
    obtain ⟨start, more⟩ := Bool.and_eq_true_iff.mp name
    refine ⟨c, cs, rfl, start, ?_⟩
    intro d member
    rcases List.mem_cons.mp member with rfl | inside
    · exact startNameChar start
    · exact List.all_eq_true.mp more d inside

/- A run of characters that ends in the first of two texts, or where the second one starts. -/
theorem runAcross {p : α → Bool} {xs ys : List α}
    (stops : (∀ x ∈ xs, p x = true) → ∀ y ∈ ys.head?, p y = false) :
    (xs ++ ys).takeWhile p = xs.takeWhile p ∧ (xs ++ ys).dropWhile p = xs.dropWhile p ++ ys := by
  induction xs with
  | nil =>
    have stop := stops (by simp)
    cases ys with
    | nil => exact ⟨rfl, rfl⟩
    | cons y ys => simp [stop y rfl]
  | cons x xs ih =>
    cases holds : p x with
    | false => simp [holds]
    | true =>
      have later := ih fun all => stops (List.forall_mem_cons.mpr ⟨holds, all⟩)
      simp [holds, later]

theorem byteLengthAppend (a b : List Char) : byteLength (a ++ b) = byteLength a + byteLength b := by
  induction a with
  | nil => exact (Nat.zero_add _).symm
  | cons c a ih =>
    change c.utf8Size + byteLength (a ++ b) = c.utf8Size + byteLength a + byteLength b
    rw [ih, Nat.add_assoc]

end Crochet.Text
