import Crochet.Proofs.Fabric.Weaving
import Crochet.Proofs.Row.Numbering
import Crochet.Proofs.Template.Reached

/-! The sequence of stitches that a pattern comes to. Stitches stand in the order of their rows, their
tops are numbered through without a gap, and every bottom goes into a top made before. -/
namespace Crochet
namespace Fabric

structure InRows (f : Fabric) (limit : Nat) : Prop where
  ascend : (f.stitches.map Stitch.row).Pairwise (· ≤ ·)
  below : ∀ s ∈ f.stitches, s.row < limit

variable {f : Fabric} {w after : Work} {item : Row.Item}

theorem inRowsMono {limit more : Nat} (rows : InRows f limit) (le : limit ≤ more) :
    InRows f more where
  ascend := rows.ascend
  below := fun s member => Nat.lt_of_lt_of_le (rows.below s member) le

theorem inRowsAdded {g : Fabric} {s : Stitch} {row : Nat} (rows : InRows f (row + 1))
    (added : g.stitches = f.stitches ++ [s]) (last : s.row = row) : InRows g (row + 1) := by
  constructor
  · rw [added, List.map_append]
    refine List.pairwise_append.mpr ⟨rows.ascend, List.pairwise_singleton _ _, ?_⟩
    intro r old r' new
    obtain ⟨t, member, rfl⟩ := List.mem_map.mp old
    rw [List.mem_singleton.mp new, last]
    exact Nat.le_of_lt_succ (rows.below t member)
  · intro t member
    rw [added] at member
    rcases List.mem_append.mp member with old | new
    · exact rows.below t old
    · rw [List.mem_singleton.mp new, last]
      exact Nat.lt_succ_self row

structure SameRows (f g : Fabric) : Prop where
  turns : g.turns = f.turns
  firstId : g.firstId = f.firstId

theorem sameRowsLocated {v : Work} {spot : Spot} (located : Work.Located w spot v) :
    SameRows w.fabric v.fabric ∧ v.fabric.stitches = w.fabric.stitches := by
  rw [located.fabric]
  exact ⟨⟨rfl, rfl⟩, rfl⟩

theorem sameRowsItem (ok : w.putItem item = .ok after) :
    SameRows w.fabric after.fabric := by
  rcases Work.putItemCases ok with rfl | ⟨spot, v, located, rfl⟩ |
    ⟨name, template, spot, v, plain, bottoms, labels, placed⟩
  · exact ⟨rfl, rfl⟩
  · exact (sameRowsLocated located).1
  · rw [placed.fabric]
    exact ⟨(sameRowsLocated placed.located).1.turns, (sameRowsLocated placed.located).1.firstId⟩

theorem inRowsItem (rows : InRows w.fabric (item.row + 1)) (ok : w.putItem item = .ok after) :
    InRows after.fabric (item.row + 1) ∧ SameRows w.fabric after.fabric := by
  refine ⟨?_, sameRowsItem ok⟩
  have kept {v : Work} (stitches : v.fabric.stitches = w.fabric.stitches) :
      InRows v.fabric (item.row + 1) :=
    ⟨by simpa only [stitches] using rows.ascend, by simpa only [stitches] using rows.below⟩
  rcases Work.putItemCases ok with rfl | ⟨spot, v, located, rfl⟩ |
    ⟨name, template, spot, v, plain, bottoms, labels, placed⟩
  · exact rows
  · exact kept (sameRowsLocated located).2
  · exact inRowsAdded (kept (sameRowsLocated placed.located).2) placed.added rfl

theorem inRowsRow {row : List Row.Item} (rows : InRows w.fabric w.fabric.turns.length)
    (numbered : ∀ item ∈ row, item.row = w.fabric.turns.length) (ok : w.putRow row = .ok after) :
    InRows after.fabric after.fabric.turns.length ∧
      after.fabric.turns.length = w.fabric.turns.length + 1 ∧
      after.fabric.firstId = w.fabric.firstId := by
  obtain ⟨v, items, rfl⟩ := putRowParts ok
  have kept : InRows v.fabric (w.fabric.turns.length + 1) ∧ SameRows w.fabric v.fabric := by
    refine foldKeeps (fun v => InRows v.fabric (w.fabric.turns.length + 1) ∧
      SameRows w.fabric v.fabric) ?_ ?_ items
    · intro item member u next inside one
      have here := numbered item member
      rw [← here] at inside ⊢
      obtain ⟨placed, same⟩ := inRowsItem inside.1 one
      exact ⟨placed, same.turns.trans inside.2.turns, same.firstId.trans inside.2.firstId⟩
    · rw [startRowFabric]
      exact ⟨inRowsMono rows (Nat.le_succ _), rfl, rfl⟩
  obtain ⟨inside, same⟩ := kept
  have length : (v.fabric.turns ++ [Work.endsInTurn row]).length = w.fabric.turns.length + 1 := by
    rw [List.length_append, same.turns]
    rfl
  refine ⟨?_, length, same.firstId⟩
  simp only [length]
  exact ⟨inside.ascend, inside.below⟩

theorem weaveInRows {rows : Rows} {registry : Registry} {options : Options}
    (numbered : Row.NumberedFrom 0 rows) (ok : weave rows registry options = .ok f) :
    InRows f f.turns.length ∧ f.turns.length = rows.length ∧ f.firstId = options.firstId := by
  obtain ⟨w, run, rfl⟩ := mapOk ok
  have final := foldRest (fun rest w => InRows w.fabric w.fabric.turns.length ∧
    Row.NumberedFrom w.fabric.turns.length rest ∧
    w.fabric.turns.length + rest.length = rows.length ∧ w.fabric.firstId = options.firstId)
    ?_ ?_ run
  · exact ⟨final.1, final.2.2.1, final.2.2.2⟩
  · rintro row rest w next ⟨inside, here, total, first⟩ one
    obtain ⟨items, more⟩ := Row.numberedRest here
    obtain ⟨placed, length, same⟩ := inRowsRow inside items one
    rw [List.length_cons] at total
    exact ⟨placed, by rw [length]; exact more, by omega, same.trans first⟩
  · refine ⟨⟨by simp [Work.start], by simp [Work.start]⟩, numbered, ?_, rfl⟩
    simp [Work.start]

/- Everything a finished piece of work can be relied on for, labels aside. -/
structure Sequenced (f : Fabric) (firstId rows : Nat) : Prop where
  uid : ∀ (i : Nat) (s : Stitch), f.stitches[i]? = some s → s.uid = i
  first : f.firstId = firstId
  firstLeNext : f.firstId ≤ f.nextId
  ids : f.stitches.flatMap Stitch.tops = List.range' f.firstId (f.nextId - f.firstId)
  tops : ∀ s ∈ f.stitches, s.tops.length = s.template.tops.length
  bottoms : ∀ s ∈ f.stitches, s.bottoms.length = s.template.bottoms.length
  ascend : (f.stitches.map Stitch.row).Pairwise (· ≤ ·)
  below : ∀ s ∈ f.stitches, s.row < f.turns.length
  turns : f.turns.length = rows
  earlier : ∀ (i : Nat) (s : Stitch), f.stitches[i]? = some s → ∀ node ∈ s.bottoms,
    ∀ id ∈ node.ids, ∃ (j : Nat) (t : Stitch), j < i ∧ f.stitches[j]? = some t ∧ t.owns id = true

theorem wovenSequence {text : MappedText} {colors : List (Nat × String)} {color : String}
    {rows : Rows} {registry : Registry} {options : Options} {f : Fabric}
    (parsed : Row.parseRows text colors color = .ok rows)
    (ok : weave rows registry options = .ok f) : Sequenced f options.firstId rows.length := by
  have woven := weaveWoven ok
  obtain ⟨inside, turns, first⟩ := weaveInRows (Row.parseNumbered parsed) ok
  exact {
    uid := woven.counted.uid
    first := first
    firstLeNext := woven.counted.firstLeNext
    ids := woven.counted.ids
    tops := woven.counted.tops
    bottoms := woven.counted.bottoms
    ascend := inside.ascend
    below := inside.below
    turns := turns
    earlier := woven.acyclic }

def turnedPiece : MappedText :=
  MappedText.ofSource "ch,ch.A,ch.A,turn\nsc@A,sc@[0,1],sc@[@+1]\nsc@[1,0]^".toList

theorem wovenSequenceTurned : ∃ rows f, Row.parseRows turnedPiece [] "red" = .ok rows ∧
    weave rows Registry.plain { firstId := 7 } = .ok f ∧ Sequenced f 7 rows.length := by
  have runs : (Row.parseRows turnedPiece [] "red" >>= fun rows =>
      weave rows Registry.plain { firstId := 7 }).isOk = true := by decide +kernel
  obtain ⟨f, run⟩ := someOk runs
  obtain ⟨rows, parsed, ok⟩ := bindOk run
  exact ⟨rows, f, parsed, ok, wovenSequence parsed ok⟩

end Fabric
end Crochet
