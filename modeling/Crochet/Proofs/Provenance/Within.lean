import Crochet.Proofs.Index.Worked
import Crochet.Proofs.Repeat.Kept

/-! Text that comes from the source. Each of its bytes has an origin of a kind `Q`: in front of some
byte of the source, say, or where a character of it begins. Repeats written out and indices worked out
copy such text and put in characters that stand for the place of some of it. -/
namespace Crochet
open Text

def Glyph.Within (Q : Nat → Prop) (g : Glyph) : Prop := ∀ o ∈ g.origins, Q o

namespace MappedText

def Within (Q : Nat → Prop) (t : MappedText) : Prop := ∀ g ∈ t, g.Within Q

variable {t a b : MappedText} {g : Glyph} {o : Nat}

theorem withinOrigins {Q : Nat → Prop} (within : Within Q t) :
    ∀ o ∈ origins t, Q o := by
  intro o member
  obtain ⟨g, inside, own⟩ := List.mem_flatMap.mp member
  exact within g inside o own

theorem originsLength (t : MappedText) : (origins t).length = byteLength (chars t) := by
  induction t with
  | nil => rfl
  | cons g rest ih =>
    have own : g.origins.length = g.char.utf8Size := by simp [Glyph.origins, Glyph.width]
    have more : (origins (g :: rest)).length = g.origins.length + (origins rest).length := by
      simp [origins]
    rw [more, own, ih]
    rfl

theorem charsWidth (t : MappedText) : byteLength (chars t) = width t := by
  induction t with
  | nil => rfl
  | cons g t ih => exact congrArg (g.width + ·) ih

theorem originsWidth (t : MappedText) : (origins t).length = width t := by
  rw [originsLength, charsWidth]

section
variable {Q : Nat → Prop}

theorem glyphOrigin (g : Glyph) : ∃ rest, g.origins = g.origin :: rest := by
  obtain ⟨k, size⟩ := Nat.exists_eq_succ_of_ne_zero (Nat.ne_of_gt g.char.utf8Size_pos)
  refine ⟨((List.range k).map Nat.succ).map g.originAt, ?_⟩
  rw [Glyph.origins, Glyph.width, size, Nat.succ_eq_add_one, List.range_succ_eq_map]
  rfl

theorem originWithin (within : g.Within Q) : Q g.origin := by
  obtain ⟨rest, first⟩ := glyphOrigin g
  exact within g.origin (first ▸ List.mem_cons_self)

theorem madeWithin (below : Q o) (c : Char) : (made o c).Within Q := by
  intro p member
  obtain ⟨k, _, rfl⟩ := List.mem_map.mp member
  have same : (made o c).originAt k = o := by
    simp only [Glyph.originAt, made]
    omega
  rw [same]
  exact below

theorem madeTextWithin (below : Q o) (cs : List Char) : Within Q (madeText o cs) := by
  intro g member
  obtain ⟨c, _, rfl⟩ := List.mem_map.mp member
  exact madeWithin below c

theorem startOriginCons (g : Glyph) (t : MappedText) : startOrigin (g :: t) = g.origin := by
  obtain ⟨rest, first⟩ := glyphOrigin g
  have all : origins (g :: t) = g.origin :: (rest ++ origins t) := by simp [origins, first]
  rw [startOrigin, origin, originIn, all]
  rfl

theorem startWithin (some : Q 0) (within : Within Q t) : Q (startOrigin t) := by
  cases t with
  | nil => exact some
  | cons g rest =>
    rw [startOriginCons]
    exact originWithin (within g List.mem_cons_self)

theorem withinNil : Within Q [] := by simp [Within]

theorem withinAppend : Within Q (a ++ b) ↔ Within Q a ∧ Within Q b := by
  simp [Within, or_imp, forall_and]

theorem withinCons : Within Q (g :: t) ↔ g.Within Q ∧ Within Q t := by
  simp [Within]

theorem Within.mono (within : Within Q b) (inside : a ⊆ b) : Within Q a :=
  fun g member => within g (inside member)

end
end MappedText

open MappedText

theorem Repeat.eachStable {R : Glyph → Prop} (comma : ∀ g, R g → R (made g.origin ',')) :
    Repeat.Stable (fun t => ∀ g ∈ t, R g) where
  nil := by simp
  one := by
    intro a b g each
    simpa using each g (by simp)
  rest := fun each g member => each g (List.mem_append_right _ member)
  front := fun _ each g member => each g (List.mem_append_left _ member)
  join := by
    intro a b g _ first own second
    exact List.forall_mem_append.mpr ⟨first, List.forall_mem_cons.mpr ⟨own g (by simp), second⟩⟩
  opened := by
    intro b g _ own second
    exact List.forall_mem_cons.mpr ⟨own g (by simp), second⟩
  dress := by
    intro a b c _ _ _ both hung
    exact List.forall_mem_append.mpr ⟨(List.forall_mem_append.mp both).1, hung⟩
  comma := by
    intro item each some
    cases item with
    | nil => exact absurd rfl some
    | cons g rest =>
      rw [startOriginCons]
      simpa using comma g (each g List.mem_cons_self)

theorem Repeat.withinStable (Q : Nat → Prop) : Repeat.Stable (Within Q) :=
  Repeat.eachStable fun _ within => madeWithin (originWithin within) ','

namespace Index
variable {Q : Nat → Prop}
variable {t out : MappedText}

theorem Worked.within {last : Option Char} (worked : Worked last t out) (within : Within Q t)
    (base : ∀ o, Q o → Q 0) : Within Q out := by
  induction worked with
  | done => exact withinNil
  | keep _ _ ih =>
    obtain ⟨own, rest⟩ := withinCons.mp within
    exact withinCons.mpr ⟨own, ih rest⟩
  | @number _ _ g old word _ _ _ _ _ inside _ _ ih =>
    obtain ⟨own, more⟩ := withinCons.mp within
    obtain ⟨replaced, rest⟩ := withinAppend.mp more
    have name : Within Q word := Within.mono (withinCons.mpr ⟨own, replaced⟩) inside
    have place := startWithin (base _ (originWithin own)) name
    exact withinAppend.mpr ⟨madeTextWithin place _, ih rest⟩
  | block _ _ _ _ ih =>
    obtain ⟨_, more⟩ := withinCons.mp within
    exact ih (withinCons.mp (withinAppend.mp more).2).2
  | comma _ _ _ ih => exact ih (withinCons.mp within).2

theorem componentWithin {piece : MappedText} (within : Within Q piece) :
    Within Q (foldComponent piece) := by
  have main : piece.takeWhile (·.char != ';') ⊆ piece := (List.takeWhile_sublist _).subset
  have part : ((piece.takeWhile (·.char != ';')).reverse.takeWhile (·.char != ':')).reverse ⊆ piece := by
    intro g member
    exact main (List.mem_reverse.mp ((List.takeWhile_sublist _).subset (List.mem_reverse.mp member)))
  unfold foldComponent
  simp only
  generalize ((piece.takeWhile (·.char != ';')).reverse.takeWhile (·.char != ':')).reverse =
    expression at part ⊢
  split
  · rename_i operator
    split
    · cases expression with
      | nil => cases operator
      | cons g rest =>
        have place : Q (startOrigin (g :: rest)) := by
          rw [startOriginCons]
          exact originWithin (within g (part List.mem_cons_self))
        have number := madeTextWithin place
        have lead : Within Q (piece.takeWhile (·.char != ';')) := within.mono main
        have behind : Within Q (piece.dropWhile (·.char != ';')) :=
          within.mono (List.dropWhile_sublist _).subset
        exact withinAppend.mpr ⟨withinAppend.mpr ⟨lead.mono (List.take_subset _ _), number _⟩, behind⟩
    · exact within
  · exact within

theorem piecesWithin {mark : Glyph → Bool} {f : MappedText → MappedText}
    (keeps : ∀ piece, Within Q piece → Within Q (f piece)) (within : Within Q t) :
    Within Q (mapPieces mark f t) := by
  fun_induction mapPieces mark f t with
  | case1 t ih =>
    have piece := keeps _ (within.mono (List.takeWhile_sublist (!mark ·)).subset)
    have rest : Within Q (t.dropWhile (!mark ·)) := within.mono (List.dropWhile_sublist _).subset
    refine withinAppend.mpr ⟨piece, ?_⟩
    split
    · exact withinNil
    · rename_i g more behind
      rw [behind] at rest
      obtain ⟨own, others⟩ := withinCons.mp rest
      exact withinCons.mpr ⟨own, ih g more behind others⟩

theorem foldWithin (within : Within Q t) : Within Q (foldBrackets t) := by
  fun_induction foldBrackets t with
  | case1 => exact withinNil
  | case2 g rest opens =>
    rename_i ih
    obtain ⟨own, more⟩ := withinCons.mp within
    have inner : Within Q (rest.takeWhile isInside) := more.mono (List.takeWhile_sublist _).subset
    have behind := ih (more.mono (List.dropWhile_sublist _).subset)
    refine withinAppend.mpr ⟨withinCons.mpr ⟨own, ?_⟩, behind⟩
    split
    · exact piecesWithin (fun _ => componentWithin) inner
    · exact inner
  | case3 g rest other ih =>
    obtain ⟨own, more⟩ := withinCons.mp within
    exact withinCons.mpr ⟨own, ih more⟩

theorem evaluateWithin {registry : Registry} (within : Within Q t) (base : ∀ o, Q o → Q 0)
    (ok : evaluate registry t = .ok out) : Within Q out := by
  obtain ⟨text, worked, rfl⟩ := mapOk ok
  have named : Named [] := by simp [Named]
  exact foldWithin ((evaluateWorked named worked).within within base)

end Index
end Crochet
