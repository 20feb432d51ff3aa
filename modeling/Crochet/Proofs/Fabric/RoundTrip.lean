import Crochet.Proofs.Fabric.Order
import Crochet.Proofs.Fabric.StandIns

/-! A label worked one to one. A pass that has a bottom for every top of its label, the ends that `!`
leaves out not counted, comes out as these tops in the order of the label. If the work was turned an
odd number of times in between, it comes out as the same tops from the other end. -/
namespace Crochet

def emptySlots : Option Skip → Nat
  | none => 0
  | some .first => 1
  | some .last => 1
  | some .both => 2

def skipEnds : Option Skip → List α → List α
  | none, ids => ids
  | some .first, ids => ids.tail
  | some .last, ids => ids.dropLast
  | some .both, ids => ids.tail.dropLast

def flipped : Option Skip → Option Skip
  | some .first => some .last
  | some .last => some .first
  | skip => skip

theorem skipEndsReverse (skip : Option Skip) (ids : List α) :
    skipEnds (flipped skip) ids.reverse = (skipEnds skip ids).reverse := by
  cases skip with
  | none => rfl
  | some ends => cases ends <;> simp [flipped, skipEnds, List.tail_dropLast]

theorem skipEndsMap (skip : Option Skip) (f : α → β) (ids : List α) :
    skipEnds skip (ids.map f) = (skipEnds skip ids).map f := by
  cases skip with
  | none => rfl
  | some ends => cases ends <;> simp [skipEnds]

namespace Fabric

def turnsBetween (f : Fabric) (a b : Nat) : Nat :=
  (List.range' (min a b) (max a b - min a b)).countP fun row => f.turns[row]? == some true

def bottomsOf (f : Fabric) (stitches : List Nat) : List NodeRef :=
  stitches.flatMap fun i => (f.stitches[i]?.map Stitch.bottoms).getD []

theorem countTurns (turns : List Bool) (start length : Nat) :
    ((turns.drop start).take length).count true =
      (List.range' start length).countP fun row => turns[row]? == some true := by
  induction length with
  | zero => rfl
  | succ length ih =>
    rw [List.take_add_one, List.count_append, ih, List.range'_concat, List.countP_append,
      List.getElem?_drop]
    congr 1
    cases found : turns[start + length]? with
    | none => simp [found]
    | some turn => cases turn <;> simp [found]

theorem turnedOdd (f : Fabric) (a b : Nat) :
    f.turnedBetween a b = decide (f.turnsBetween a b % 2 = 1) := by
  simp only [turnedBetween, isTurned, turnsBetween, countTurns, Bool.beq_eq_decide_eq]

theorem emptySkipped (skip : Option Skip) : (skipped skip).1 = emptySlots skip := by
  cases skip with
  | none => rfl
  | some ends => cases ends <;> rfl

theorem emptyFlipped (skip : Option Skip) : emptySlots (flipped skip) = emptySlots skip := by
  cases skip with
  | none => rfl
  | some ends => cases ends <;> rfl

theorem offsetFlipped (skip : Option Skip) :
    (if (skipped skip).2.2 then 1 - (skipped skip).2.1 else (skipped skip).2.1) =
      (skipped (flipped skip)).2.1 := by
  cases skip with
  | none => rfl
  | some ends => cases ends <;> rfl

theorem skipEndsTake (skip : Option Skip) (ids : List α) :
    (ids.drop (skipped skip).2.1).take (ids.length - emptySlots skip) = skipEnds skip ids := by
  cases skip with
  | none => exact List.take_length
  | some ends =>
    cases ends with
    | both => simp [skipped, emptySlots, skipEnds, List.dropLast_eq_take, Nat.sub_sub]
    | first => simp [skipped, emptySlots, skipEnds, List.take_of_length_le]
    | last => simp [skipped, emptySlots, skipEnds, List.dropLast_eq_take]

variable {l : Label} {made worked : Stitch} {entries : List ((Nat × Nat) × NodeRef)}

section
variable {f g : Fabric} {p : Pass} {s : Spread}

structure Laid (f : Fabric) (p : Pass) (s : Spread) (l : Label) (turned : Bool) : Prop where
  anchors : s.anchors =
    if turned then (l.ids.map NodeRef.top).reverse else l.ids.map NodeRef.top
  total : s.total = (f.slots p).length + emptySlots p.modifiers.skip
  offset : s.offset =
    (skipped (if turned then flipped p.modifiers.skip else p.modifiers.skip)).2.1

theorem spreadLaid (ok : f.spread p = .ok s) (narrow : p.modifiers.extend = none)
    (flat : p.modifiers.post = none) (label : f.label? p.key = some l)
    (owner : l.ids.head?.bind f.owner? = some made)
    (begins : p.stitches.head?.bind (f.stitches[·]?) = some worked) :
    Laid f p s l (f.turnedBetween made.row worked.row) := by
  unfold spread at ok
  rw [label] at ok
  simp only at ok
  split at ok
  · rename_i first last head final
    obtain ⟨⟨nodes, length⟩, anchored, ok⟩ := bindOk ok
    rw [head, Option.bind_some] at owner
    have own : nodes = l.ids.map NodeRef.top := by
      rcases anchorsCases anchored with ⟨_, wide, _⟩ | ⟨_, _, _, _, around, _⟩
      · exact wide.plain narrow
      · cases flat.symm.trans around.written
    subst own
    simp only [owner, begins] at ok
    cases turned : f.turnedBetween made.row worked.row with
    | true =>
      rw [if_pos turned] at ok
      cases pureOk ok
      exact ⟨rfl, by rw [← emptySkipped], offsetFlipped _⟩
    | false =>
      rw [if_neg (by simp [turned])] at ok
      cases pureOk ok
      exact ⟨rfl, by rw [← emptySkipped], rfl⟩
  · cases ok

theorem Laid.slots {turned : Bool} (laid : Laid f p s l turned)
    (fits : (f.slots p).length + emptySlots p.modifiers.skip = l.ids.length) :
    (s.anchors.drop s.offset).take (f.slots p).length =
      if turned then ((skipEnds p.modifiers.skip l.ids).map NodeRef.top).reverse
      else (skipEnds p.modifiers.skip l.ids).map NodeRef.top := by
  have count : (f.slots p).length = l.ids.length - emptySlots p.modifiers.skip := by omega
  rw [laid.anchors, laid.offset, count]
  cases turned with
  | true =>
    have taken := skipEndsTake (flipped p.modifiers.skip) (l.ids.map NodeRef.top).reverse
    rw [emptyFlipped, List.length_reverse, List.length_map] at taken
    simpa only [if_true, skipEndsReverse, skipEndsMap] using taken
  | false =>
    have taken := skipEndsTake p.modifiers.skip (l.ids.map NodeRef.top)
    rw [List.length_map] at taken
    simpa only [Bool.false_eq_true, if_false, skipEndsMap] using taken

theorem Assigns.paired (assigns : Assigns f p s entries) (same : s.anchors.length = s.total) :
    entries.map Prod.snd = (s.anchors.drop s.offset).take (f.slots p).length := by
  have length : entries.length = (f.slots p).length := by
    rw [← assigns.slots, List.length_map]
  refine List.ext_getElem? fun k => ?_
  rw [List.getElem?_map, List.getElem?_take, List.getElem?_drop, ← length]
  cases found : entries[k]? with
  | none => rw [if_neg (Nat.not_lt.mpr (List.getElem?_eq_none_iff.mp found))]; rfl
  | some entry =>
    obtain ⟨slot, node⟩ := entry
    rw [if_pos (List.getElem?_eq_some_iff.mp found).1]
    cases slotAt (assigns.nodes k slot node found) with
    | paired _ there => rw [Nat.add_comm, there]; rfl
    | exact different => exact absurd same different
    | between different => exact absurd same different

theorem bottomsSlots (f : Fabric) (p : Pass) :
    (f.bottomsOf p.stitches).map some =
      (f.slots p).map fun (i, b) => f.stitches[i]?.bind (·.bottoms[b]?) := by
  simp only [bottomsOf, slots, List.map_flatMap, List.map_map]
  congr 1
  funext i
  unfold bottomCount
  cases place : f.stitches[i]? with
  | none => rfl
  | some s =>
    refine List.ext_getElem? fun b => ?_
    by_cases inside : b < s.bottoms.length <;> simp [place, inside]

theorem slotsLength (f : Fabric) (p : Pass) :
    (f.slots p).length = (f.bottomsOf p.stitches).length := by
  simpa using (congrArg List.length (bottomsSlots f p)).symm

theorem bottomsAssigned (keys : entries.map Prod.fst = g.slots p)
    (each : ∀ i b node, ((i, b), node) ∈ entries → g.HasBottom i b node) :
    g.bottomsOf p.stitches = entries.map Prod.snd := by
  refine List.map_injective_iff.mpr (fun _ _ => Option.some.inj) ?_
  rw [bottomsSlots, ← keys, List.map_map, List.map_map]
  refine List.map_congr_left ?_
  rintro ⟨⟨i, b⟩, node⟩ member
  obtain ⟨t, place, bottom⟩ := each i b node member
  simp [place, bottom]

end

section
variable {f g : Fabric}

theorem passLanded (labelled : f.Labelled) {before after : List Pass} {p : Pass}
    (collects : Pass.Collects f.uses (before ++ p :: after))
    (run : f.runPasses (before ++ p :: after) = (g, .ok ())) :
    ∃ s entries, Assigns (f.runPasses before).1 p s entries ∧
      g.bottomsOf p.stitches = entries.map Prod.snd := by
  obtain ⟨entries, assigned, more⟩ := runCons (runSplit run)
  obtain ⟨s, assigns⟩ := assigns assigned
  obtain ⟨once, apart⟩ := passesApart labelled collects
  have reworked := runReworked f (before ++ p :: after)
  rw [run] at reworked
  refine ⟨s, entries, assigns, bottomsAssigned ?_ ?_⟩
  · rw [assigns.slots, (runReworked f before).slotsSame, reworked.slotsSame]
  · intro i b node entry
    have inside : (i, b) ∈ (f.runPasses before).1.slots p :=
      assigns.slots ▸ List.mem_map_of_mem entry
    have kept := bottomRuns (apart i (slotMember.mp inside).1) (landed assigned once entry)
    rwa [more] at kept

theorem firstMade (woven : f.Woven) {u : LabelUse} (used : u ∈ f.uses) :
    ∃ l made, f.label? u.key = some l ∧ l.ids.head?.bind f.owner? = some made := by
  obtain ⟨l, label, _, nonempty, owned⟩ := woven.labelled.frozen u used
  obtain ⟨first, rest, ids⟩ := List.exists_cons_of_ne_nil nonempty
  obtain ⟨j, made, _, place, owns⟩ := owned first (by simp [ids])
  refine ⟨l, made, label, ?_⟩
  rw [ids]
  exact woven.counted.ownerOf place ((woven.counted.owns (List.mem_of_getElem? place)).mp owns)

theorem firstWorked (labelled : f.Labelled) {passes : List Pass}
    (collects : Pass.Collects f.uses passes) {p : Pass} (member : p ∈ passes) :
    ∃ worked, p.stitches.head?.bind (f.stitches[·]?) = some worked := by
  obtain ⟨i, rest, stitches⟩ := List.exists_cons_of_ne_nil (collects.nonempty p member)
  obtain ⟨v, used, rfl, _⟩ := collects.source p member i (by simp [stitches])
  obtain ⟨worked, place, _⟩ := labelled.worked v used
  rw [stitches]
  exact ⟨worked, place⟩

end

section
variable {f g : Fabric} (reworked : Reworked f g)
include reworked

theorem Reworked.madeRow (counted : f.Counted) {id : Option Nat}
    (owner : id.bind f.owner? = some made) : ∃ s, id.bind g.owner? = some s ∧ s.row = made.row := by
  obtain ⟨first, rfl, owner⟩ := Option.bind_eq_some_iff.mp owner
  rcases reworked.ownerCases counted first with ⟨none, _⟩ | ⟨s, t, _, _, here, there, same⟩
  · cases none.symm.trans owner
  · cases here.symm.trans owner
    exact ⟨t, there, congrArg (·.1.row) same⟩

theorem Reworked.workedRow {i : Option Nat} (begins : i.bind (f.stitches[·]?) = some worked) :
    ∃ s, i.bind (g.stitches[·]?) = some s ∧ s.row = worked.row := by
  obtain ⟨first, rfl, place⟩ := Option.bind_eq_some_iff.mp begins
  have same := reworked.rowSame first
  rw [place] at same
  exact Option.map_eq_some_iff.mp same

end

theorem labelRoundTrip {rows : Rows} {registry : Registry} {options : Options} {f g : Fabric}
    {u : LabelUse} (ok : weave rows registry options = .ok f) (resolved : f.resolve = (g, .ok ()))
    (used : u ∈ f.uses) (narrow : u.modifiers.extend = none) (flat : u.modifiers.post = none) :
    ∃ l made worked, f.label? u.key = some l ∧ l.ids.head?.bind f.owner? = some made ∧
      (f.passOrder u.key u.group).head?.bind (f.stitches[·]?) = some worked ∧
      ((f.bottomsOf (f.passOrder u.key u.group)).length + emptySlots u.modifiers.skip =
          l.ids.length →
        g.bottomsOf (f.passOrder u.key u.group) =
          if f.turnsBetween made.row worked.row % 2 = 1 then
            ((skipEnds u.modifiers.skip l.ids).map NodeRef.top).reverse
          else (skipEnds u.modifiers.skip l.ids).map NodeRef.top) := by
  have woven := weaveWoven ok
  obtain ⟨passes, collected, run, _⟩ := resolves resolved
  obtain ⟨p, member, key, group, marks, order⟩ := passOf collected used
  have collects := passesCollect collected
  obtain ⟨l, made, label, owner⟩ := firstMade woven used
  obtain ⟨worked, begins⟩ := firstWorked woven.labelled collects member
  refine ⟨l, made, worked, label, owner, order ▸ begins, ?_⟩
  intro fits
  obtain ⟨before, after, rfl⟩ := List.append_of_mem member
  obtain ⟨s, entries, assigns, bottoms⟩ := passLanded woven.labelled collects run
  have reworked := runReworked f before
  obtain ⟨first, owner, madeRow⟩ := reworked.madeRow woven.counted owner
  obtain ⟨start, begins, workedRow⟩ := reworked.workedRow begins
  have laid := spreadLaid assigns.spread (marks ▸ narrow) (marks ▸ flat)
    ((reworked.labelSame _).trans (key ▸ label)) owner begins
  rw [reworked.turnedSame, madeRow, workedRow, turnedOdd] at laid
  have count : ((f.runPasses before).1.slots p).length = (f.bottomsOf p.stitches).length := by
    rw [reworked.slotsSame, slotsLength]
  rw [← order, ← marks, ← count] at fits
  have one : s.anchors.length = s.total := by
    rw [laid.total, fits, laid.anchors]
    split <;> simp
  rw [← order, bottoms, assigns.paired one, laid.slots fits, marks]
  simp only [decide_eq_true_eq]

def workedBackPiece : MappedText := MappedText.ofSource
  "ch.A,ch.A,ch.A,ch.A,ch.A,ch.B,ch.B,turn\nsc@A!0~,sc2tog@A!0~,sc@B,sc@A!0,sc@B".toList

theorem labelRoundTripTurned : ∃ rows f g u, Row.parseRows workedBackPiece [] "red" = .ok rows ∧
    weave rows Registry.plain {} = .ok f ∧ f.resolve = (g, .ok ()) ∧ u ∈ f.uses ∧ u.key = "A" ∧
    u.group = 0 ∧ u.modifiers = { skip := some .first } ∧ f.passOrder "A" 0 = [8, 7, 10] ∧
    g.bottomsOf [8, 7, 10] = [.top 5, .top 4, .top 3, .top 2] := by
  obtain ⟨rows, f, all, parsed, ok, found, holds⟩ := foundPiece workedBackPiece (fun f all =>
    decide (all.Pairwise fun a b => Pass.comesFirst f a b = true) && (f.runPasses all).2.isOk &&
      (f.runPasses all).1.checkBottoms.isOk &&
      decide (∃ u ∈ f.uses, u.key = "A" ∧ u.group = 0 ∧ u.modifiers = { skip := some .first }) &&
      decide (f.passOrder "A" 0 = [8, 7, 10]) && decide ((f.bottomsOf [8, 7, 10]).length = 4) &&
      decide ((f.label? "A").map Label.ids = some [1, 2, 3, 4, 5]) &&
      decide ((f.owner? 1).map Stitch.row = some 0) &&
      decide (f.stitches[8]?.map Stitch.row = some 1) && decide (f.turnsBetween 0 1 = 1))
    (by decide +kernel)
  simp only [Bool.and_eq_true, decide_eq_true_eq] at holds
  obtain ⟨⟨⟨⟨⟨⟨⟨⟨⟨sorted, ran⟩, checked⟩, u, used, key, group, marks⟩, order⟩, four⟩, ids⟩,
    madeRow⟩, workedRow⟩, odd⟩ := holds
  obtain ⟨_, ran⟩ := someOk ran
  obtain ⟨_, checked⟩ := someOk checked
  have resolved := resolveFound found sorted (Prod.ext rfl ran) checked
  obtain ⟨l, made, worked, label, owner, begins, trip⟩ :=
    labelRoundTrip ok resolved used (by rw [marks]) (by rw [marks])
  rw [key, group, order] at begins trip
  rw [key] at label
  rw [label] at ids
  have ids : l.ids = [1, 2, 3, 4, 5] := Option.some.inj ids
  rw [ids] at owner trip
  have madeRow : made.row = 0 := Option.some.inj ((congrArg _ owner).symm.trans madeRow)
  have workedRow : worked.row = 1 := Option.some.inj ((congrArg _ begins).symm.trans workedRow)
  rw [four, marks, madeRow, workedRow, odd] at trip
  exact ⟨rows, f, _, u, parsed, ok, resolved, used, key, group, marks, order, trip rfl⟩

end Fabric
end Crochet
