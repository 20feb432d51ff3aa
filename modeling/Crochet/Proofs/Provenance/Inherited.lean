import Crochet.Proofs.Provenance.Spans

/-! Repeats written out hold nothing new but commas. Every byte comes with its origin from the text that
was expanded, or it is a comma between two copies, which has the origin of a byte of that text. So a
range of the expansion has its place inside the place of the whole text. -/
namespace Crochet
open Text

def Glyph.bytes (g : Glyph) : List (UInt8 × Nat) := (String.utf8EncodeChar g.char).zip g.origins

namespace MappedText

def encoded (t : MappedText) : List UInt8 := (chars t).flatMap String.utf8EncodeChar

def bytes (t : MappedText) : List (UInt8 × Nat) := (encoded t).zip (origins t)

theorem encodedLength (t : MappedText) : (encoded t).length = (origins t).length := by
  induction t with
  | nil => rfl
  | cons g t ih =>
    have own : (String.utf8EncodeChar g.char).length = g.origins.length := by
      simp [Glyph.origins, Glyph.width]
    simp only [encoded, origins, chars, List.map_cons, List.flatMap_cons, List.length_append] at ih ⊢
    rw [own, ih]

theorem bytesUnzip (t : MappedText) : (bytes t).unzip = (encoded t, origins t) :=
  List.unzip_zip (encodedLength t)

theorem bytesCons (g : Glyph) (t : MappedText) : bytes (g :: t) = g.bytes ++ bytes t := by
  refine List.zip_append ?_
  simp [Glyph.origins, Glyph.width]

variable {t : MappedText} {o : Nat}

theorem bytesGlyph {entry : UInt8 × Nat} :
    entry ∈ bytes t ↔ ∃ g ∈ t, entry ∈ g.bytes := by
  induction t with
  | nil => simp [bytes, encoded, origins, chars]
  | cons g t ih => simp [bytesCons, ih]

theorem madeOrigins (o : Nat) : (made o ',').origins = [o] := by
  simp [Glyph.origins, Glyph.width, Glyph.originAt, made, Char.utf8Size]

theorem coverHolds (member : o ∈ origins t) :
    (cover t).start ≤ o ∧ o < (cover t).stop := by
  have some : origins t ≠ [] := List.ne_nil_of_mem member
  have all : ((origins t).drop 0).take (width t - 0) = origins t := by
    rw [List.drop_zero, Nat.sub_zero, ← originsWidth, List.take_length]
  obtain ⟨low, least⟩ := Option.isSome_iff_exists.mp (List.isSome_min?_of_ne_nil some)
  obtain ⟨high, greatest⟩ := Option.isSome_iff_exists.mp (List.isSome_max?_of_ne_nil some)
  have place : cover t = ⟨low, high + 1⟩ := by
    simp only [cover, sourceSpan, spanIn, all, least, greatest]
  rw [place]
  exact ⟨(List.min?_eq_some_iff.mp least).2 o member,
    Nat.lt_succ_of_le ((List.max?_eq_some_iff.mp greatest).2 o member)⟩

theorem spanHeld {u : MappedText} (inside : origins u ⊆ origins t) {range : Span}
    (low : (sourceSpan u range).start ≤ o) (high : o < (sourceSpan u range).stop) :
    (cover t).start ≤ o ∧ o < (cover t).stop := by
  rcases spanCases (origins u) range with ⟨first, started, last, ended, _, place⟩ | ⟨_, place⟩
  · rw [sourceSpan, place] at low high
    have front := coverHolds (inside started)
    have behind := coverHolds (inside ended)
    exact ⟨Nat.le_trans front.1 low, Nat.lt_of_le_of_lt (Nat.le_of_lt_succ high) behind.2⟩
  · rw [sourceSpan, place] at low high
    exact absurd high (Nat.not_lt.mpr low)

end MappedText

namespace Repeat
open MappedText

def Inherits (t : MappedText) (g : Glyph) : Prop := g ∈ t ∨ ∃ o ∈ origins t, g = made o ','

variable {t : MappedText}

theorem Inherits.within {g : Glyph} (inherits : Inherits t g) :
    g.Within (· ∈ origins t) := by
  rcases inherits with own | ⟨o, member, rfl⟩
  · exact fun o inside => List.mem_flatMap.mpr ⟨g, own, inside⟩
  · exact madeWithin member ','

theorem inheritedGlyphs {u : MappedText} (ok : expand t = .ok u) : ∀ g ∈ u, Inherits t g :=
  expandKept (eachStable fun g inherits => .inr ⟨g.origin, originWithin inherits.within, rfl⟩)
    (fun _ member => .inl member) ok

theorem expansionInherits {t u : MappedText} (ok : expand t = .ok u) :
    (bytes u).unzip = (encoded u, origins u) ∧
    (∀ byte o, (byte, o) ∈ bytes u →
      (byte, o) ∈ bytes t ∨ (byte = ','.toUInt8 ∧ o ∈ origins t)) ∧
    ∀ (range : Span) (o : Nat), (sourceSpan u range).start ≤ o → o < (sourceSpan u range).stop →
      (cover t).start ≤ o ∧ o < (cover t).stop := by
  have glyphs := inheritedGlyphs ok
  refine ⟨bytesUnzip u, ?_, fun range o => spanHeld (withinOrigins fun g member => ?_)⟩
  · intro byte o member
    obtain ⟨g, inside, entry⟩ := bytesGlyph.mp member
    rcases glyphs g inside with own | ⟨p, place, rfl⟩
    · exact .inl (bytesGlyph.mpr ⟨g, own, entry⟩)
    · right
      rw [Glyph.bytes, madeOrigins] at entry
      cases List.mem_singleton.mp entry
      exact ⟨rfl, place⟩
  · exact (glyphs g member).within

def twoBytePiece : MappedText := ofSource "ch,2[é.A,3sc]@B".toList

theorem expansionInheritsTwoByte : ∃ u, expand twoBytePiece = .ok u ∧
    (','.toUInt8, 3) ∈ bytes u ∧ (','.toUInt8, 3) ∉ bytes twoBytePiece ∧
    (∀ byte o, (byte, o) ∈ bytes u →
      (byte, o) ∈ bytes twoBytePiece ∨ (byte = ','.toUInt8 ∧ o ∈ origins twoBytePiece)) ∧
    ∀ (range : Span) (o : Nat), (sourceSpan u range).start ≤ o → o < (sourceSpan u range).stop →
      (cover twoBytePiece).start ≤ o ∧ o < (cover twoBytePiece).stop := by
  have runs : (expand twoBytePiece).toOption.any (fun u => (bytes u).contains (','.toUInt8, 3) &&
      !(bytes twoBytePiece).contains (','.toUInt8, 3)) = true := by
    decide +kernel
  obtain ⟨u, ok, test⟩ := testOk runs
  obtain ⟨fresh, absent⟩ := Bool.and_eq_true_iff.mp test
  refine ⟨u, ok, List.contains_iff_mem.mp fresh, ?_, (expansionInherits ok).2⟩
  simpa using absent

end Repeat
end Crochet
