import Crochet.Proofs.Fabric.Sequence
import Crochet.Proofs.Fabric.Settled

/-! Turns between rows. Each row has a side, by the turns before it; two rows lie on different sides
when the work was turned between them, and then they are worked over in opposite directions. While a
row is placed, the direction over an earlier row is the one that the finished fabric tells from the
turns between the two. -/
namespace Crochet

theorem turnedAppend (xs ys : List Bool) : isTurned (xs ++ ys) = (isTurned xs ^^ isTurned ys) := by
  simp only [isTurned, List.count_append]
  rcases Nat.mod_two_eq_zero_or_one (xs.count true) with even | odd
  · simp [Nat.add_mod, even]
  · rcases Nat.mod_two_eq_zero_or_one (ys.count true) with even' | odd'
    · simp [Nat.add_mod, odd, even']
    · simp [Nat.add_mod, odd, odd']

theorem signSame {a b : Bool} : sign a = sign b ↔ a = b := by
  cases a <;> cases b <;> decide

namespace Fabric

/- The side of a row; rows past the last one lie on the side where the work ended. -/
def side (f : Fabric) (row : Nat) : Bool := isTurned (f.turns.take row)

theorem turnedSym (f : Fabric) (a b : Nat) : f.turnedBetween a b = f.turnedBetween b a := by
  rw [turnedBetween, turnedBetween, Nat.min_comm, Nat.max_comm]

theorem turnedForward (f : Fabric) {a b : Nat} (le : a ≤ b) :
    f.turnedBetween a b = (f.side a ^^ f.side b) := by
  have split : f.side b = (f.side a ^^ isTurned ((f.turns.drop a).take (b - a))) := by
    rw [side, side, ← turnedAppend, ← List.take_add, Nat.add_sub_cancel' le]
  rw [turnedBetween, Nat.min_eq_left le, Nat.max_eq_right le, split, ← Bool.xor_assoc, Bool.xor_self,
    Bool.false_xor]

theorem turnedSides (f : Fabric) (a b : Nat) : f.turnedBetween a b = (f.side a ^^ f.side b) := by
  rcases Nat.le_total a b with le | ge
  · exact f.turnedForward le
  · rw [turnedSym, f.turnedForward ge, Bool.xor_comm]

theorem directionSide (f : Fabric) (row : Nat) :
    f.direction row = sign (f.side row ^^ isTurned f.turns) := by
  have split : isTurned f.turns = (f.side row ^^ isTurned (f.turns.drop row)) := by
    rw [side, ← turnedAppend, List.take_append_drop]
  rw [direction, split, ← Bool.xor_assoc, Bool.xor_self, Bool.false_xor]

variable {f : Fabric} {w after : Work} {rows : Rows}

theorem directionSoFar {g : Fabric} {later : List Bool} (more : g.turns = f.turns ++ later)
    {row : Nat} (begun : row ≤ f.turns.length) :
    f.direction row = sign (g.turnedBetween row f.turns.length) := by
  have between : (g.turns.drop row).take (f.turns.length - row) = f.turns.drop row := by
    rw [more, List.drop_append_of_le_length begun, ← List.length_drop, List.take_left]
  rw [turnedBetween, Nat.min_eq_left begun, Nat.max_eq_right begun, between, direction]

theorem turnsItems {items : List Row.Item} (ok : items.foldlM Work.putItem w = .ok after) :
    after.fabric.turns = w.fabric.turns :=
  foldKeeps (fun v => v.fabric.turns = w.fabric.turns)
    (fun _ _ _ _ same one => (sameRowsItem one).turns.trans same) rfl ok

theorem turnsRows (ok : rows.foldlM Work.putRow w = .ok after) :
    after.fabric.turns = w.fabric.turns ++ rows.map Work.endsInTurn := by
  induction rows generalizing w with
  | nil =>
    cases pureOk ok
    simp
  | cons row rest ih =>
    obtain ⟨next, one, more⟩ := foldConsOk ok
    obtain ⟨v, items, rfl⟩ := putRowParts one
    rw [ih more]
    simp [turnsItems items, startRowFabric]

theorem comesUpTurns {registry : Registry} {options : Options} {item : Row.Item}
    (numbered : Row.NumberedFrom 0 rows) (ok : weave rows registry options = .ok f)
    (comes : Work.ComesUp rows registry options item w) :
    w.fabric.turns.length = item.row ∧ ∃ later, f.turns = w.fabric.turns ++ later := by
  obtain ⟨before, done, rest, after, u, rfl, earlier, here⟩ := comes.run
  obtain ⟨last, run, rfl⟩ := mapOk ok
  have made : w.fabric.turns = before.map Work.endsInTurn := by
    rw [turnsItems here, startRowFabric, turnsRows earlier]
    rfl
  constructor
  · have own := numbered before.length (done ++ item :: rest) (by simp) item (by simp)
    rw [made, own, List.length_map, Nat.zero_add]
  · rw [turnsRows run, made, List.map_append]
    exact ⟨_, rfl⟩

theorem directionsAgree (f : Fabric) (a b c : Nat) :
    f.turnedBetween a b = f.turnedBetween b a ∧
    f.turnedBetween a c = (f.turnedBetween a b ^^ f.turnedBetween b c) ∧
    (f.direction a ≠ f.direction b ↔ f.turnedBetween a b = true) ∧
    ∀ (rows : Rows) (registry : Registry) (options : Options) (item : Row.Item) (w : Work),
      Row.NumberedFrom 0 rows → weave rows registry options = .ok f →
      Work.ComesUp rows registry options item w → a ≤ item.row →
      w.fabric.direction a = sign (f.turnedBetween a item.row) := by
  refine ⟨f.turnedSym a b, ?_, ?_, ?_⟩
  · rw [turnedSides, turnedSides, turnedSides, Bool.xor_assoc, ← Bool.xor_assoc (f.side b),
      Bool.xor_self, Bool.false_xor]
  · rw [directionSide, directionSide, turnedSides, ne_eq, signSame, Bool.xor_left_inj]
    cases f.side a <;> cases f.side b <;> decide
  · intro rows registry options item w numbered ok comes begun
    obtain ⟨row, later, more⟩ := comesUpTurns numbered ok comes
    rw [← row] at begun ⊢
    exact directionSoFar more begun

def turnedThrice : MappedText :=
  MappedText.ofSource "ch.A,ch.A,turn\nsc,sc,turn\nsc,sc,turn\nsc@A,sc@A".toList

theorem directionsAgreeTurned : ∃ rows f item w, Row.parseRows turnedThrice [] "red" = .ok rows ∧
    weave rows Registry.plain {} = .ok f ∧ Work.ComesUp rows Registry.plain {} item w ∧
    item.row = 3 ∧ f.turnedBetween 0 3 = true ∧ w.fabric.direction 0 = -1 ∧
    f.turnedBetween 1 3 = false ∧ w.fabric.direction 1 = 1 := by
  obtain ⟨rows, item, w, parsed, comes, last⟩ := Work.lastRuns turnedThrice Registry.plain {}
    (fun up => up.1.row == 3) (by decide +kernel)
  have runs : (Row.parseRows turnedThrice [] "red" >>= fun rows =>
      weave rows Registry.plain {}).toOption.any
        (fun f => f.turnedBetween 0 3 && !f.turnedBetween 1 3) = true := by
    decide +kernel
  obtain ⟨f, ok, turned⟩ := testOk runs
  rw [parsed, okBind] at ok
  have row : item.row = 3 := beq_iff_eq.mp last
  obtain ⟨odd, even⟩ := Bool.and_eq_true_iff.mp turned
  have even : f.turnedBetween 1 3 = false := by simpa using even
  have numbered := Row.parseNumbered parsed
  have seen (a : Nat) (begun : a ≤ item.row) :=
    (directionsAgree f a a a).2.2.2 rows Registry.plain {} item w numbered ok comes begun
  have back := seen 0 (by omega)
  have along := seen 1 (by omega)
  rw [row, odd] at back
  rw [row, even] at along
  exact ⟨rows, f, item, w, parsed, ok, comes, row, odd, back, even, along⟩

end Fabric
end Crochet
