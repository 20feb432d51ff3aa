import Crochet.Proofs.Text.Pieces
import Crochet.Span

/-! Offsets in the bytes of a text. A character takes one to four of them, and an offset is on a
boundary where it lies between characters; a text is cut there and nowhere else. -/
namespace Crochet
namespace Text

def Boundary (cs : List Char) (o : Nat) : Prop :=
  ∃ before after, cs = before ++ after ∧ byteLength before = o

def BeginsAt (cs : List Char) (c : Char) (o : Nat) : Prop :=
  ∃ before after, cs = before ++ c :: after ∧ byteLength before = o

theorem byteLengthCons (c : Char) (cs : List Char) :
    byteLength (c :: cs) = c.utf8Size + byteLength cs := rfl

variable {cs : List Char} {n o : Nat} {c : Char}

theorem noBytes (none : byteLength cs = 0) : cs = [] := by
  cases cs with
  | nil => rfl
  | cons c cs =>
    have wide := c.utf8Size_pos
    rw [byteLengthCons] at none
    omega

theorem someBytes (c : Char) (cs : List Char) : ∃ n, c.utf8Size + byteLength cs = n + 1 := by
  have wide := c.utf8Size_pos
  exact ⟨c.utf8Size + byteLength cs - 1, by omega⟩

theorem dropFront (before rest : List Char) :
    dropBytes? Char.utf8Size (byteLength before) (before ++ rest) = some rest := by
  induction before with
  | nil => cases rest <;> rfl
  | cons c before ih =>
    obtain ⟨n, size⟩ := someBytes c before
    rw [byteLengthCons, size, List.cons_append, dropBytes?, if_pos (by omega), ← size,
      Nat.add_sub_cancel_left]
    exact ih

theorem takeFront (part after : List Char) :
    takeBytes? Char.utf8Size (byteLength part) (part ++ after) = some part := by
  induction part with
  | nil => cases after <;> rfl
  | cons c part ih =>
    obtain ⟨n, size⟩ := someBytes c part
    rw [byteLengthCons, size, List.cons_append, takeBytes?, if_pos (by omega), ← size,
      Nat.add_sub_cancel_left, ih]
    rfl

theorem dropParts {rest : List Char} (cut : dropBytes? Char.utf8Size n cs = some rest) :
    ∃ before, cs = before ++ rest ∧ byteLength before = n := by
  fun_induction dropBytes? Char.utf8Size n cs with
  | case1 cs =>
    cases cut
    exact ⟨[], rfl, rfl⟩
  | case2 => cases cut
  | case3 n c cs fits ih =>
    obtain ⟨before, rfl, size⟩ := ih cut
    refine ⟨c :: before, rfl, ?_⟩
    rw [byteLengthCons]
    omega
  | case4 => cases cut

theorem takeParts {part : List Char} (cut : takeBytes? Char.utf8Size n cs = some part) :
    ∃ after, cs = part ++ after ∧ byteLength part = n := by
  fun_induction takeBytes? Char.utf8Size n cs generalizing part with
  | case1 cs =>
    cases cut
    exact ⟨cs, rfl, rfl⟩
  | case2 => cases cut
  | case3 n c cs fits ih =>
    obtain ⟨more, found, rfl⟩ := Option.map_eq_some_iff.mp cut
    obtain ⟨after, rfl, size⟩ := ih found
    refine ⟨after, rfl, ?_⟩
    rw [byteLengthCons]
    omega
  | case4 => cases cut

theorem boundaryIff :
    Boundary cs o ↔ (dropBytes? Char.utf8Size o cs).isSome = true := by
  constructor
  · rintro ⟨before, after, rfl, rfl⟩
    rw [dropFront]
    rfl
  · intro cut
    obtain ⟨rest, found⟩ := Option.isSome_iff_exists.mp cut
    obtain ⟨before, whole, size⟩ := dropParts found
    exact ⟨before, rest, whole, size⟩

instance (cs : List Char) (o : Nat) : Decidable (Boundary cs o) := decidable_of_iff _ boundaryIff.symm

theorem beginsIff :
    BeginsAt cs c o ↔ (dropBytes? Char.utf8Size o cs).bind List.head? = some c := by
  constructor
  · rintro ⟨before, after, rfl, rfl⟩
    rw [dropFront]
    rfl
  · intro found
    obtain ⟨rest, cut, first⟩ := Option.bind_eq_some_iff.mp found
    obtain ⟨before, whole, size⟩ := dropParts cut
    obtain ⟨after, rfl⟩ := List.head?_eq_some_iff.mp first
    exact ⟨before, after, whole, size⟩

instance (cs : List Char) (c : Char) (o : Nat) : Decidable (BeginsAt cs c o) :=
  decidable_of_iff _ beginsIff.symm

theorem boundaryFront {a b c d : List Char} (same : a ++ b = c ++ d)
    (rising : byteLength a ≤ byteLength c) : ∃ part, c = a ++ part ∧ b = part ++ d := by
  rcases List.append_eq_append_iff.mp same with ⟨part, front, behind⟩ | ⟨part, front, behind⟩
  · exact ⟨part, front, behind⟩
  · have none : part = [] := by
      rw [front, byteLengthAppend] at rising
      exact noBytes (by omega)
    rw [none] at front behind
    exact ⟨[], by simpa using front.symm, by simpa using behind.symm⟩

theorem BeginsAt.boundary (begins : BeginsAt cs c o) :
    Boundary cs o := by
  obtain ⟨before, after, whole, size⟩ := begins
  exact ⟨before, c :: after, whole, size⟩

theorem BeginsAt.inside (begins : BeginsAt cs c o) :
    o < byteLength cs := by
  obtain ⟨before, after, rfl, rfl⟩ := begins
  have wide := c.utf8Size_pos
  rw [byteLengthAppend, byteLengthCons]
  omega

theorem Boundary.begins (boundary : Boundary cs o) (inside : o < byteLength cs) :
    ∃ c, BeginsAt cs c o := by
  obtain ⟨before, after, rfl, rfl⟩ := boundary
  cases after with
  | nil =>
    rw [List.append_nil] at inside
    exact absurd inside (Nat.lt_irrefl _)
  | cons c after => exact ⟨c, before, after, rfl, rfl⟩

theorem nextBoundary (begins : BeginsAt cs c o) :
    Boundary cs (o + 1) ↔ c.utf8Size = 1 := by
  obtain ⟨before, after, whole, rfl⟩ := begins
  have wide := c.utf8Size_pos
  constructor
  · rintro ⟨front, behind, same, size⟩
    obtain ⟨part, rfl, rest⟩ := boundaryFront (whole.symm.trans same) (by omega)
    rw [byteLengthAppend] at size
    cases part with
    | nil => exact absurd size (Nat.ne_of_lt (Nat.lt_succ_self _))
    | cons d part =>
      cases rest
      rw [byteLengthCons] at size
      omega
  · intro narrow
    refine ⟨before ++ [c], after, by simp [whole], ?_⟩
    rw [byteLengthAppend, byteLengthCons, narrow]
    rfl

end Text

open Text

def Span.Quotes (s : Span) (source text : List Char) : Prop :=
  (∃ before after, source = before ++ text ++ after ∧ byteLength before = s.start ∧
    byteLength before + byteLength text = s.stop) ∨
  (¬(Boundary source s.start ∧ Boundary source s.stop) ∧ text = [])

theorem Span.snippetQuotes {s : Span} {source : List Char} (rising : s.start ≤ s.stop)
    (inside : s.stop ≤ byteLength source) : s.Quotes source (s.snippet source) := by
  rw [Span.snippet, Nat.min_eq_left inside, Nat.min_eq_left rising, sliceBytes?]
  cases cut : dropBytes? Char.utf8Size s.start source with
  | none =>
    refine .inr ⟨fun both => ?_, rfl⟩
    rw [boundaryIff, cut] at both
    cases both.1
  | some rest =>
    obtain ⟨before, rfl, size⟩ := dropParts cut
    change Quotes s _ ((takeBytes? Char.utf8Size (s.stop - s.start) rest).getD [])
    cases taken : takeBytes? Char.utf8Size (s.stop - s.start) rest with
    | none =>
      refine .inr ⟨fun both => ?_, rfl⟩
      obtain ⟨front, after, same, length⟩ := both.2
      obtain ⟨part, rfl, rfl⟩ := boundaryFront same (by omega)
      rw [byteLengthAppend] at length
      rw [show s.stop - s.start = byteLength part by omega, takeFront] at taken
      cases taken
    | some text =>
      obtain ⟨after, rfl, length⟩ := takeParts taken
      refine .inl ⟨before, after, by simp, size, ?_⟩
      change byteLength before + byteLength text = s.stop
      omega

end Crochet
