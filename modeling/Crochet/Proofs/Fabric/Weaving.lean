import Crochet.Proofs.Fabric.Ownership
import Crochet.Proofs.Fabric.Placement
import Crochet.Proofs.Fabric.References
import Crochet.Proofs.Lists

/-! The invariant of weaving. Each step either marks labels, ends a row or adds one stitch, so it is
enough to see that these three keep it. -/
namespace Crochet
namespace Fabric

structure Labelled (f : Fabric) : Prop where
  owned : ∀ key l, f.label? key = some l → ∀ id ∈ l.ids, f.firstId ≤ id ∧ id < f.nextId
  frozen : ∀ u ∈ f.uses, ∃ l, f.label? u.key = some l ∧ l.referenced = true ∧ l.ids ≠ [] ∧
    ∀ id ∈ l.ids, f.OwnedBefore id u.stitch
  worked : ∀ u ∈ f.uses, ∃ s, f.stitches[u.stitch]? = some s ∧ s.bottoms ≠ []
  ordered : (f.uses.map LabelUse.stitch).Pairwise (· < ·)

structure Woven (f : Fabric) : Prop where
  counted : f.Counted
  acyclic : f.Acyclic
  labelled : f.Labelled
  anchors : ∀ s ∈ f.stitches, ∀ node ∈ s.bottoms, node.isAnchor = true

def Paired (f : Fabric) : Prop := ∀ s ∈ f.stitches, ∀ node ∈ s.bottoms, node.isPair = true

variable {f : Fabric} {w : Work}

theorem Woven.paired (woven : Woven f) : f.Paired := by
  intro s member node bottom
  exact NodeRef.anchorPair (woven.anchors s member node bottom)

theorem wovenStart (registry : Registry) (options : Options) :
    Woven (Work.start registry options).fabric where
  counted := by
    constructor <;> simp [Work.start]
  acyclic := by
    intro i s found
    simp [Work.start] at found
  labelled := by
    constructor <;> simp [Work.start, label?]
  anchors := by
    simp [Work.start]

theorem wovenTurned (woven : Woven f) (turns : List Bool) :
    Woven { f with turns := turns } where
  counted := ⟨woven.counted.uid, woven.counted.firstLeNext, woven.counted.ids, woven.counted.tops,
    woven.counted.bottoms⟩
  acyclic := woven.acyclic
  labelled := ⟨woven.labelled.owned, woven.labelled.frozen, woven.labelled.worked,
    woven.labelled.ordered⟩
  anchors := woven.anchors

variable {labels : List Label} {row : List Row.Item} {rows : Rows} {after : Work}

theorem labelledMarked (labelled : Labelled f) (marks : Label.Marks f.labels labels) :
    Labelled { f with labels := labels } where
  owned := by
    intro key l found
    obtain ⟨on, same⟩ := marks key
    obtain ⟨old, before, rfl⟩ := Option.map_eq_some_iff.mp (same.symm.trans found)
    exact labelled.owned key old before
  frozen := by
    intro u member
    obtain ⟨l, found, referenced, nonempty, owned⟩ := labelled.frozen u member
    obtain ⟨on, same⟩ := marks u.key
    refine ⟨l.marked on, ?_, ?_, nonempty, owned⟩
    · exact same.trans (by rw [show Label.named? u.key f.labels = some l from found]; rfl)
    · simp [Label.marked, referenced]
  worked := labelled.worked
  ordered := labelled.ordered

theorem wovenMarked (woven : Woven f) (marks : Label.Marks f.labels labels) :
    Woven { f with labels := labels } where
  counted := ⟨woven.counted.uid, woven.counted.firstLeNext, woven.counted.ids, woven.counted.tops,
    woven.counted.bottoms⟩
  acyclic := woven.acyclic
  labelled := labelledMarked woven.labelled marks
  anchors := woven.anchors

variable {i id : Nat} {stands : Bool} {node : NodeRef} {key : String} {u : LabelUse}

section
variable {g : Fabric} {s : Stitch} (added : g.stitches = f.stitches ++ [s])
include added

theorem ownedAdded (owned : f.OwnedBefore id i) : g.OwnedBefore id i := by
  obtain ⟨j, t, before, found, owns⟩ := owned
  exact ⟨j, t, before, by rw [added]; exact atEnd.mpr (.inl found), owns⟩

theorem countedAdded (counted : Counted f) (uid : s.uid = f.stitches.length)
    (first : g.firstId = f.firstId) (next : g.nextId = f.nextId + s.tops.length)
    (fresh : s.tops = List.range' f.nextId s.tops.length)
    (tops : s.tops.length = s.template.tops.length)
    (bottoms : s.bottoms.length = s.template.bottoms.length) : Counted g where
  uid := by
    intro i t found
    rw [added] at found
    rcases atEnd.mp found with old | ⟨place, same⟩
    · exact counted.uid i t old
    · rw [same, place, uid]
  firstLeNext := by
    have le := counted.firstLeNext
    omega
  ids := by
    have le := counted.firstLeNext
    rw [added, List.flatMap_append, counted.ids, List.flatMap_singleton, fresh, first, next]
    have whole := List.range'_append_1 (s := f.firstId) (m := f.nextId - f.firstId)
      (n := s.tops.length)
    rw [Nat.add_sub_cancel' le] at whole
    rw [whole]
    congr 1
    omega
  tops := by
    intro t member
    rw [added] at member
    rcases List.mem_append.mp member with old | new
    · exact counted.tops t old
    · rw [List.mem_singleton.mp new]; exact tops
  bottoms := by
    intro t member
    rw [added] at member
    rcases List.mem_append.mp member with old | new
    · exact counted.bottoms t old
    · rw [List.mem_singleton.mp new]; exact bottoms

theorem acyclicAdded (acyclic : Acyclic f)
    (earlier : ∀ node ∈ s.bottoms, ∀ id ∈ node.ids, f.OwnedBefore id f.stitches.length) :
    Acyclic g := by
  intro i t found node member id inside
  rw [added] at found
  rcases atEnd.mp found with old | ⟨rfl, rfl⟩
  · exact ownedAdded added (acyclic i t old node member id inside)
  · exact ownedAdded added (earlier node member id inside)

end

/- A stand-in is the first top of all, which exists as soon as a label has tops. -/
theorem sourceEarlier (woven : Woven f) (label : stands = true → f.firstId < f.nextId)
    (source : Work.BottomSource f stands node) (inside : id ∈ node.ids) :
    f.OwnedBefore id f.stitches.length := by
  cases source with
  | made first next =>
    rw [List.mem_singleton.mp inside]
    exact woven.counted.ownedIff.mpr ⟨first, next⟩
  | standIn waits =>
    rw [List.mem_singleton.mp inside]
    exact woven.counted.ownedIff.mpr ⟨Nat.le_refl _, label waits⟩
  | post owner reached =>
    obtain ⟨⟨j, place⟩, _⟩ := ownerAt owner
    have before := (List.getElem?_eq_some_iff.mp place).1
    obtain ⟨top, _, bottom | ⟨name, rfl, _⟩⟩ := Stitch.postTargetCases reached
    · exact (woven.acyclic j _ place node bottom id inside).mono (Nat.le_of_lt before)
    · rw [List.mem_singleton.mp inside]
      exact ⟨j, _, before, place, top⟩

theorem sourceAnchor (woven : Woven f) (source : Work.BottomSource f stands node) :
    node.isAnchor = true := by
  cases source with
  | made first next => rfl
  | standIn waits => rfl
  | post owner reached =>
    obtain ⟨⟨j, place⟩, _⟩ := ownerAt owner
    obtain ⟨_, _, bottom | ⟨name, rfl, _⟩⟩ := Stitch.postTargetCases reached
    · exact woven.anchors _ (List.mem_of_getElem? place) node bottom
    · rfl

section
variable {v : Work} {name : String} {item : Row.Item} {template : Template} {spot : Spot}
  {plain bottoms : List NodeRef}
  (placed : Work.Placed w name item template spot v plain bottoms labels after)
include placed

/- A label that is referred to keeps its tops, so they stay older than its uses. -/
theorem frozenPlaced {limit : Nat}
    (frozen : ∃ l, v.fabric.label? key = some l ∧ l.referenced = true ∧ l.ids ≠ [] ∧
      ∀ id ∈ l.ids, v.fabric.OwnedBefore id limit) :
    ∃ l, after.fabric.label? key = some l ∧ l.referenced = true ∧ l.ids ≠ [] ∧
      ∀ id ∈ l.ids, after.fabric.OwnedBefore id limit := by
  obtain ⟨l, found, referenced, nonempty, owned⟩ := frozen
  obtain ⟨m, now, _, flag, ids⟩ := (Label.definesGrow placed.labelled).kept key l found
  refine ⟨m, by rw [placed.fabric]; exact now, flag.trans referenced, ?_, ?_⟩
  · rw [ids referenced]; exact nonempty
  · intro id inside
    rw [ids referenced] at inside
    exact ownedAdded placed.added (owned id inside)

theorem usePlaced (member : u ∈ after.fabric.uses) :
    u ∈ v.fabric.uses ∨ ∃ p, v.waiting spot template = some p ∧
      u.stitch = v.fabric.stitches.length ∧ u.key = p.key := by
  rw [placed.fabric] at member
  exact (List.mem_append.mp member).imp_right Work.newUseOf

variable (woven : Woven v.fabric)
include woven

theorem waitingLabel {p : Pending} (waits : v.waiting spot template = some p) :
    ∃ l, v.fabric.label? p.key = some l ∧ l.referenced = true ∧ l.ids ≠ [] ∧
      ∀ id ∈ l.ids, v.fabric.OwnedBefore id v.fabric.stitches.length := by
  obtain ⟨l, found, referenced, nonempty⟩ := placed.located.pending p (Work.waitingSpot waits).1
  refine ⟨l, found, referenced, nonempty, ?_⟩
  intro id inside
  exact woven.counted.ownedIff.mpr (woven.labelled.owned p.key l found id inside)

theorem waitingFirst (waits : (v.waiting spot template).isSome = true) :
    v.fabric.firstId < v.fabric.nextId := by
  obtain ⟨p, some⟩ := Option.isSome_iff_exists.mp waits
  obtain ⟨l, found, _, nonempty, _⟩ := waitingLabel placed woven some
  obtain ⟨id, inside⟩ := List.exists_mem_of_ne_nil _ nonempty
  have range := woven.labelled.owned p.key l found id inside
  omega

theorem ownedPlaced {l : Label} (found : after.fabric.label? key = some l) :
    ∀ id ∈ l.ids, after.fabric.firstId ≤ id ∧ id < after.fabric.nextId := by
  intro id inside
  have first := woven.counted.firstLeNext
  rw [placed.fabric] at found ⊢
  rcases (Label.definesGrow placed.labelled).source key l found id inside with
    new | ⟨old, before, member⟩
  · simp only [Work.freshTops, List.mem_map, List.mem_range] at new
    obtain ⟨k, bound, rfl⟩ := new
    simp only
    omega
  · have range := woven.labelled.owned key old before id member
    simp only
    omega

theorem workedPlaced (member : u ∈ after.fabric.uses) :
    ∃ s, after.fabric.stitches[u.stitch]? = some s ∧ s.bottoms ≠ [] := by
  rw [placed.added]
  rcases usePlaced placed member with old | ⟨p, waits, place, _⟩
  · obtain ⟨s, found, some⟩ := woven.labelled.worked u old
    exact ⟨s, atEnd.mpr (.inl found), some⟩
  · refine ⟨_, atEnd.mpr (.inr ⟨place, rfl⟩), ?_⟩
    intro empty
    have length := placed.bottomsLength
    rw [show bottoms = [] from empty] at length
    exact (Work.waitingSpot waits).2 length.symm

theorem orderedPlaced : (after.fabric.uses.map LabelUse.stitch).Pairwise (· < ·) := by
  rw [placed.fabric, List.map_append]
  refine List.pairwise_append.mpr ⟨woven.labelled.ordered, ?_, ?_⟩
  · cases v.waiting spot template with
    | none => exact List.Pairwise.nil
    | some p => exact List.pairwise_singleton _ _
  · intro i old j new
    obtain ⟨u, member, rfl⟩ := List.mem_map.mp old
    obtain ⟨fresh, added, rfl⟩ := List.mem_map.mp new
    obtain ⟨s, found, _⟩ := woven.labelled.worked u member
    obtain ⟨_, _, place, _⟩ := Work.newUseOf added
    rw [place]
    exact (List.getElem?_eq_some_iff.mp found).1

theorem labelledPlaced : Labelled after.fabric where
  owned := fun _ _ found => ownedPlaced placed woven found
  frozen := by
    intro u member
    apply frozenPlaced placed
    rcases usePlaced placed member with old | ⟨p, waits, place, key⟩
    · exact woven.labelled.frozen u old
    · rw [place, key]
      exact waitingLabel placed woven waits
  worked := fun _ member => workedPlaced placed woven member
  ordered := orderedPlaced placed woven

theorem wovenPlaced : Woven after.fabric := by
  have same := placed.fabric
  have added := placed.added
  have fresh : (v.freshTops template).length = template.tops.length := by simp [Work.freshTops]
  constructor
  · refine countedAdded added woven.counted rfl (by rw [same]) ?_ ?_ fresh placed.bottomsLength
    · rw [same]
      exact congrArg (v.fabric.nextId + ·) fresh.symm
    · change v.freshTops template = _
      rw [List.range'_eq_map_range]
      change _ = List.map _ (List.range (v.freshTops template).length)
      rw [fresh]
      rfl
  · refine acyclicAdded added woven.acyclic ?_
    intro node member id inside
    exact sourceEarlier woven (waitingFirst placed woven) (placed.bottomSource member) inside
  · exact labelledPlaced placed woven
  · intro s member
    rw [added] at member
    rcases List.mem_append.mp member with old | new
    · exact woven.anchors s old
    · cases List.mem_singleton.mp new
      intro node bottom
      exact sourceAnchor woven (placed.bottomSource bottom)

end

theorem wovenLocated {v : Work} {spot : Spot} (located : Work.Located w spot v)
    (woven : Woven w.fabric) : Woven v.fabric := by
  rw [located.fabric]
  exact wovenMarked woven located.labels

theorem startRowFabric (w : Work) : w.startRow.fabric = w.fabric := by
  unfold Work.startRow
  split <;> rfl

theorem startRowRegistry (w : Work) : w.startRow.registry = w.registry := by
  unfold Work.startRow
  split <;> rfl

theorem putRowParts {row : List Row.Item} (ok : w.putRow row = .ok after) :
    ∃ v, row.foldlM Work.putItem w.startRow = .ok v ∧ after =
      { v with fabric := { v.fabric with turns := v.fabric.turns ++ [Work.endsInTurn row] } } := by
  obtain ⟨v, items, ok⟩ := bindOk ok
  exact ⟨v, items, (pureOk ok).symm⟩

section
variable {item : Row.Item} (Inv : Fabric → Prop)
  (located : ∀ {w v : Work} {spot : Spot}, Work.Located w spot v → Inv w.fabric → Inv v.fabric)
  (placed : ∀ {w v after : Work} {name : String} {item : Row.Item} {template : Template}
    {spot : Spot} {plain bottoms : List NodeRef} {labels : List Label},
    Work.Placed w name item template spot v plain bottoms labels after →
    Inv v.fabric → Inv after.fabric)
  (turned : ∀ (f : Fabric) (turns : List Bool), Inv f → Inv { f with turns := turns })
include located placed

theorem itemKeeps (holds : Inv w.fabric) (ok : w.putItem item = .ok after) : Inv after.fabric := by
  rcases Work.putItemCases ok with rfl | ⟨spot, v, here, rfl⟩ |
    ⟨name, template, spot, v, plain, bottoms, labels, put⟩
  · exact holds
  · have kept : Inv v.fabric := located here holds
    exact kept
  · exact placed put (located put.located holds)

theorem itemsKeep {items : List Row.Item} (holds : Inv w.fabric)
    (ok : items.foldlM Work.putItem w = .ok after) : Inv after.fabric :=
  foldKeeps (fun w => Inv w.fabric)
    (fun _ _ _ _ kept one => itemKeeps Inv located placed kept one) holds ok

include turned

theorem rowKeeps (holds : Inv w.fabric) (ok : w.putRow row = .ok after) :
    Inv after.fabric := by
  obtain ⟨v, items, rfl⟩ := putRowParts ok
  refine turned _ _ (itemsKeep Inv located placed ?_ items)
  rw [startRowFabric]
  exact holds

theorem rowsKeep (holds : Inv w.fabric) (ok : rows.foldlM Work.putRow w = .ok after) :
    Inv after.fabric :=
  foldKeeps (fun w => Inv w.fabric)
    (fun _ _ _ _ kept one => rowKeeps Inv located placed turned kept one) holds ok

end

theorem wovenItem {item : Row.Item} (woven : Woven w.fabric) (ok : w.putItem item = .ok after) :
    Woven after.fabric :=
  itemKeeps Woven wovenLocated wovenPlaced woven ok

theorem wovenRow (woven : Woven w.fabric) (ok : w.putRow row = .ok after) : Woven after.fabric :=
  rowKeeps Woven wovenLocated wovenPlaced (fun _ turns woven => wovenTurned woven turns) woven ok

theorem weaveWoven {registry : Registry} {options : Options}
    (ok : weave rows registry options = .ok f) : Woven f := by
  obtain ⟨w, run, rfl⟩ := mapOk ok
  exact rowsKeep Woven wovenLocated wovenPlaced (fun _ turns woven => wovenTurned woven turns)
    (wovenStart registry options) run

end Fabric
end Crochet
