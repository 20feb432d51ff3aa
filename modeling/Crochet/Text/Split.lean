/-! Cutting lists at marks. A text with no mark is one piece, so a cut is never lossy. -/
namespace Crochet.Text

def cutFirst (mark : α → Bool) : List α → Option (List α × List α)
  | [] => none
  | x :: xs =>
    if mark x then some ([], xs)
    else (cutFirst mark xs).map fun (before, after) => (x :: before, after)

def pieces (mark : α → Bool) : List α → List (List α)
  | [] => [[]]
  | x :: xs =>
    if mark x then [] :: pieces mark xs
    else match pieces mark xs with
      | [] => [[x]]
      | piece :: rest => (x :: piece) :: rest

def after? [BEq α] : (start list : List α) → Option (List α)
  | [], xs => some xs
  | _ :: _, [] => none
  | s :: start, x :: xs => if s == x then after? start xs else none

def before? [BEq α] (finish list : List α) : Option (List α) :=
  (after? finish.reverse list.reverse).map List.reverse

def runOf (p : α → Bool) (xs : List α) : List α × List α := (xs.takeWhile p, xs.dropWhile p)

theorem lengthDropWhile (p : α → Bool) (xs : List α) : (xs.dropWhile p).length ≤ xs.length :=
  (List.dropWhile_suffix p).length_le

def mapPieces (mark : α → Bool) (f : List α → List α) (xs : List α) : List α :=
  f (xs.takeWhile (!mark ·)) ++ match _h : xs.dropWhile (!mark ·) with
    | [] => []
    | x :: rest => x :: mapPieces mark f rest
termination_by xs.length
decreasing_by
  have shorter := lengthDropWhile (!mark ·) xs
  rw [_h] at shorter
  simp at shorter
  omega

theorem cutFirstParts {mark : α → Bool} {xs before after : List α}
    (h : cutFirst mark xs = some (before, after)) :
    ∃ x, mark x = true ∧ xs = before ++ x :: after ∧ ∀ y ∈ before, mark y = false := by
  induction xs generalizing before after with
  | nil => simp [cutFirst] at h
  | cons x xs ih =>
    unfold cutFirst at h
    split at h
    · rename_i hit
      cases Option.some.inj h
      exact ⟨x, hit, rfl, by simp⟩
    · rename_i miss
      obtain ⟨⟨b, a⟩, hb, same⟩ := Option.map_eq_some_iff.mp h
      cases same
      obtain ⟨y, hy, parts, clean⟩ := ih hb
      refine ⟨y, hy, by simp [parts], ?_⟩
      intro z hz
      rcases List.mem_cons.mp hz with here | there
      · subst here; simpa using miss
      · exact clean z there

theorem cutFirstLength {mark : α → Bool} {xs before after : List α}
    (h : cutFirst mark xs = some (before, after)) :
    before.length + after.length + 1 = xs.length := by
  obtain ⟨x, _, parts, _⟩ := cutFirstParts h
  simp [parts]
  omega

end Crochet.Text
