/-! Lists cut at byte offsets, where each element has a width in bytes. A cut inside an element is
refused or moved back to the element's start. -/
namespace Crochet.Text

def totalWidth (width : α → Nat) (xs : List α) : Nat :=
  xs.foldr (fun x n => width x + n) 0

def dropBytes? (width : α → Nat) : Nat → List α → Option (List α)
  | 0, xs => some xs
  | _ + 1, [] => none
  | n + 1, x :: xs => if width x ≤ n + 1 then dropBytes? width (n + 1 - width x) xs else none

def takeBytes? (width : α → Nat) : Nat → List α → Option (List α)
  | 0, _ => some []
  | _ + 1, [] => none
  | n + 1, x :: xs =>
    if width x ≤ n + 1 then (takeBytes? width (n + 1 - width x) xs).map (x :: ·) else none

def fitBytes (width : α → Nat) : Nat → List α → List α
  | _, [] => []
  | n, x :: xs => if width x ≤ n then x :: fitBytes width (n - width x) xs else []

/-- The part from byte `start` up to byte `stop`, if both fall between elements. -/
def sliceBytes? (width : α → Nat) (start stop : Nat) (xs : List α) : Option (List α) := do
  let rest ← dropBytes? width start xs
  takeBytes? width (stop - start) rest

def byteLength (cs : List Char) : Nat := totalWidth Char.utf8Size cs

def leadByte (c : Char) : Nat :=
  let n := c.toNat
  if n < 0x80 then n
  else if n < 0x800 then 0xC0 + n / 0x40
  else if n < 0x10000 then 0xE0 + n / 0x1000
  else 0xF0 + n / 0x40000

end Crochet.Text
