import Crochet.Bracket
import Crochet.MappedText

/-! Items of a sequence: what stands between commas and line ends outside brackets and variable
blocks. Brackets in a block do not count, and a closing bracket without its partner is text. -/
namespace Crochet.Repeat

structure Item where
  text : MappedText
  separator : Option Glyph
  deriving DecidableEq, Repr

def isSeparator (c : Char) : Bool := c == ',' || c == '\n'

def growFirst (g : Glyph) : List Item → List Item
  | [] => [⟨[g], none⟩]
  | item :: more => { item with text := g :: item.text } :: more

def itemsFrom (depth : Nat) (inBlock : Bool) : MappedText → List Item
  | [] => [⟨[], none⟩]
  | g :: rest =>
    if g.char = '$' then growFirst g (itemsFrom depth (!inBlock) rest)
    else if inBlock then growFirst g (itemsFrom depth inBlock rest)
    else if isOpening g.char then growFirst g (itemsFrom (depth + 1) inBlock rest)
    else if isClosing g.char then growFirst g (itemsFrom (depth - 1) inBlock rest)
    else if isSeparator g.char && depth == 0 then ⟨[], some g⟩ :: itemsFrom depth inBlock rest
    else growFirst g (itemsFrom depth inBlock rest)

def items (t : MappedText) : List Item := itemsFrom 0 false t

theorem growFirstLength {g : Glyph} {parts : List Item} {n : Nat}
    (h : ∀ item ∈ parts, item.text.length ≤ n) :
    ∀ item ∈ growFirst g parts, item.text.length ≤ n + 1 := by
  intro item member
  cases parts with
  | nil => simp [growFirst] at member; subst member; simp
  | cons first more =>
    rcases List.mem_cons.mp member with here | there
    · subst here
      have := h first (by simp)
      simp
      omega
    · have := h item (by simp [there])
      omega

theorem itemsFromLength (depth : Nat) (inBlock : Bool) (t : MappedText) :
    ∀ item ∈ itemsFrom depth inBlock t, item.text.length ≤ t.length := by
  induction t generalizing depth inBlock with
  | nil => simp [itemsFrom]
  | cons g rest ih =>
    have grown := fun depth inBlock => growFirstLength (g := g) (ih depth inBlock)
    intro item member
    simp only [itemsFrom] at member
    repeat' split at member
    all_goals try exact grown _ _ item member
    rcases List.mem_cons.mp member with here | there
    · subst here; simp
    · have := ih _ _ item there
      simp
      omega

theorem itemsLength {t : MappedText} {item : Item} (h : item ∈ items t) :
    item.text.length ≤ t.length := itemsFromLength 0 false t item h

/-- `>` ends the last repetition of a group, `<` starts its first. -/
inductive Marker where
  | exit
  | entry
  deriving DecidableEq, Repr

def Marker.char : Marker → Char
  | exit => '>'
  | entry => '<'

def Marker.isText (m : Marker) (t : MappedText) : Bool := MappedText.chars t == [m.char]

def isMarker (t : MappedText) : Bool := Marker.exit.isText t || Marker.entry.isText t

def markerSpan? (t : MappedText) : Option Span :=
  ((items t).find? fun item => isMarker item.text).map fun item => MappedText.cover item.text

end Crochet.Repeat
