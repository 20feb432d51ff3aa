import Crochet.Span
import Crochet.Text.Blank

/-! Text derived from a pattern, every byte of which knows the source offset it came from.

Text copied from the source keeps one offset for each byte. Text put in for other text has one
offset for all its bytes: the place of the source that called for it. -/
namespace Crochet
open Text

structure Glyph where
  char : Char
  source : Span
  deriving DecidableEq, Repr

namespace Glyph

def width (g : Glyph) : Nat := g.char.utf8Size

def originAt (g : Glyph) (k : Nat) : Nat := min (g.source.start + k) (g.source.stop - 1)

def origins (g : Glyph) : List Nat := (List.range g.width).map g.originAt

def origin (g : Glyph) : Nat := g.originAt 0

end Glyph

abbrev MappedText := List Glyph

namespace MappedText

def copied (offset : Nat) : List Char → MappedText
  | [] => []
  | c :: cs => ⟨c, ⟨offset, offset + c.utf8Size⟩⟩ :: copied (offset + c.utf8Size) cs

def ofSource (source : List Char) : MappedText := copied 0 source

def made (origin : Nat) (c : Char) : Glyph := ⟨c, ⟨origin, origin + 1⟩⟩

def madeText (origin : Nat) (cs : List Char) : MappedText := cs.map (made origin)

def chars (t : MappedText) : List Char := t.map Glyph.char

theorem charsAppend (a b : MappedText) : chars (a ++ b) = chars a ++ chars b := List.map_append

theorem copiedChars (offset : Nat) (cs : List Char) : chars (copied offset cs) = cs := by
  induction cs generalizing offset with
  | nil => rfl
  | cons c cs ih => exact congrArg (c :: ·) (ih _)

theorem charsMade (origin : Nat) (cs : List Char) : chars (madeText origin cs) = cs := by
  simp [chars, madeText, Function.comp_def, made]

def text (t : MappedText) : String := String.ofList (chars t)

def width (t : MappedText) : Nat := totalWidth Glyph.width t

def origins (t : MappedText) : List Nat := t.flatMap Glyph.origins

/-- Offset of byte `i`; past the end, one more than the last offset. -/
def originIn (origins : List Nat) (i : Nat) : Nat :=
  match origins[i]? with
  | some o => o
  | none => match origins.getLast? with
    | some o => o + 1
    | none => 0

/-- The source covered by the bytes of `range`; for no bytes, the empty span where they would be. -/
def spanIn (origins : List Nat) (range : Span) : Span :=
  let covered := (origins.drop range.start).take (range.stop - range.start)
  match covered.min?, covered.max? with
  | some low, some high => ⟨low, high + 1⟩
  | _, _ =>
    let at' := originIn origins range.start
    ⟨at', at'⟩

def origin (t : MappedText) (i : Nat) : Nat := originIn (origins t) i

def sourceSpan (t : MappedText) (range : Span) : Span := spanIn (origins t) range

def cover (t : MappedText) : Span := sourceSpan t ⟨0, width t⟩

def startOrigin (t : MappedText) : Nat := origin t 0

def slice? (start stop : Nat) (t : MappedText) : Option MappedText :=
  sliceBytes? Glyph.width start stop t

def endOrigin (t : MappedText) : Nat := origin t (width t)

def trimStart (t : MappedText) : MappedText := t.dropWhile fun g => isBlank g.char

def trimEnd (t : MappedText) : MappedText := (t.reverse.dropWhile fun g => isBlank g.char).reverse

def after? : (start : List Char) → MappedText → Option MappedText
  | [], t => some t
  | _ :: _, [] => none
  | c :: start, g :: t => if c = g.char then after? start t else none

theorem afterLength {start : List Char} {t rest : MappedText}
    (h : after? start t = some rest) : rest.length + start.length = t.length := by
  induction start generalizing t with
  | nil => simp only [after?] at h; cases h; simp
  | cons c start ih =>
    cases t with
    | nil => simp [after?] at h
    | cons g t =>
      simp only [after?] at h
      split at h
      · have := ih h
        simp; omega
      · cases h

def trimCommas (t : MappedText) : MappedText :=
  (t.reverse.dropWhile (·.char == ',')).reverse

end MappedText
end Crochet
