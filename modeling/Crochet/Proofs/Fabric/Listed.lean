import Mathlib.Data.List.Flatten
import Crochet.Proofs.Fabric.Posts

/-! What a label lists. Each time a stitch is put under a label its tops go to the end of the list, and
nothing else changes the list. So a label names its stitches in the order of work, and each of them
once unless a stitch is under it twice, as in `[ch.A].A`. A label that is referred to lists no more
tops, so what a use of it finds is what there is in the end. -/
namespace Crochet
namespace Label

def listed (key : String) (labels : List Label) : List Nat :=
  ((named? key labels).map Label.ids).getD []

theorem listedCons (key : String) (l : Label) (labels : List Label) :
    listed key (l :: labels) = if l.key = key then l.ids else listed key labels := by
  unfold listed
  rw [namedCons]
  split <;> rfl

variable {labels after : List Label}

theorem marksList (marks : Marks labels after) (key : String) :
    listed key after = listed key labels := by
  obtain ⟨on, same⟩ := marks key
  unfold listed
  rw [same, Option.map_map]
  rfl

variable {ids : List Nat}

theorem defineLists {d : Row.LabelDef} (ok : defineLabel ids labels d = .ok after) (key : String) :
    listed key after = listed key labels ++ if d.key = key then ids else [] := by
  induction labels generalizing after with
  | nil =>
    cases ok
    rw [listedCons]
    rfl
  | cons l rest ih =>
    unfold defineLabel at ok
    split at ok
    · rename_i same
      obtain ⟨grown, one, rfl⟩ := mapOk ok
      obtain ⟨rfl, _⟩ := growOk one
      rw [listedCons, listedCons, ← same]
      split <;> simp
    · rename_i other
      obtain ⟨more, one, rfl⟩ := mapOk ok
      rw [listedCons, listedCons, ih one]
      split
      · rename_i here
        rw [if_neg fun same => other (here.trans same.symm), List.append_nil]
      · rfl

theorem definesList {defs : List Row.LabelDef}
    (ok : defs.foldlM (defineLabel ids) labels = .ok after) (key : String) :
    listed key after = listed key labels ++
      (List.replicate ((defs.map Row.LabelDef.key).count key) ids).flatten := by
  induction defs generalizing labels with
  | nil => cases pureOk ok; simp
  | cons d rest ih =>
    obtain ⟨next, one, more⟩ := foldConsOk ok
    rw [ih more, defineLists one, List.map_cons, List.count_cons, List.append_assoc]
    by_cases here : d.key = key
    · simp [here, List.replicate_succ]
    · simp [here]

end Label

def Stitch.topsUnder (s : Stitch) (key : String) : List Nat :=
  (List.replicate (s.labels.count key) s.tops).flatten

namespace Fabric

def topsUnder (f : Fabric) (key : String) : List Nat := f.stitches.flatMap (·.topsUnder key)

def topsWith (f : Fabric) (key : String) : List Nat :=
  (f.stitches.filter (·.hasLabel key)).flatMap Stitch.tops

def Lists (f : Fabric) : Prop := ∀ key, Label.listed key f.labels = f.topsUnder key

variable {w v after : Work} {spot : Spot} {item : Row.Item}

theorem listsLocated (located : Work.Located w spot v) (lists : Lists w.fabric) :
    Lists v.fabric := by
  intro key
  rw [Label.marksList located.labels, lists key, located.fabric]
  rfl

variable {name : String} {template : Template} {plain bottoms : List NodeRef} {labels : List Label}
  {f : Fabric}

theorem listsPlaced (placed : Work.Placed w name item template spot v plain bottoms labels after)
    (lists : Lists v.fabric) : Lists after.fabric := by
  intro key
  have more := Label.definesList placed.labelled key
  rw [lists key] at more
  rw [topsUnder, placed.added, List.flatMap_append, List.flatMap_singleton, placed.fabric]
  exact more

variable {rows : Rows} {registry : Registry} {options : Options} {s : Stitch} {u : LabelUse}

theorem weaveLists (ok : weave rows registry options = .ok f) : Lists f := by
  obtain ⟨w, run, rfl⟩ := mapOk ok
  refine rowsKeep Lists listsLocated listsPlaced (fun _ _ lists => lists) ?_ run
  intro key
  rfl

section
variable {key : String}

theorem topsOnce (once : s.tops ≠ [] → s.labels.count key ≤ 1) :
    s.topsUnder key = if s.hasLabel key then s.tops else [] := by
  unfold Stitch.topsUnder Stitch.hasLabel
  by_cases empty : s.tops = []
  · simp [empty]
  have bound := once empty
  by_cases under : key ∈ s.labels
  · have one : s.labels.count key = 1 := Nat.le_antisymm bound (List.count_pos_iff.mpr under)
    simp [one, under]
  · simp [List.count_eq_zero.mpr under, under]

theorem topsTwice (ascend : (s.topsUnder key).Pairwise (· < ·)) (some : s.tops ≠ []) :
    s.labels.count key ≤ 1 := by
  by_contra many
  obtain ⟨n, count⟩ : ∃ n, s.labels.count key = n + 2 := ⟨s.labels.count key - 2, by omega⟩
  obtain ⟨id, top⟩ := List.exists_mem_of_ne_nil _ some
  unfold Stitch.topsUnder at ascend
  rw [count, List.replicate_succ, List.replicate_succ, List.flatten_cons, List.flatten_cons] at ascend
  have again : id ∈ s.tops ++ (List.replicate n s.tops).flatten := List.mem_append_left _ top
  exact absurd ((List.pairwise_append.mp ascend).2.2 id top id again) (Nat.lt_irrefl id)

theorem underOnce {stitches : List Stitch}
    (once : ∀ s ∈ stitches, s.tops ≠ [] → s.labels.count key ≤ 1) :
    stitches.flatMap (·.topsUnder key) =
      (stitches.filter (·.hasLabel key)).flatMap Stitch.tops := by
  induction stitches with
  | nil => rfl
  | cons s rest ih =>
    obtain ⟨here, later⟩ := List.forall_mem_cons.mp once
    rw [List.flatMap_cons, ih later, topsOnce here, List.filter_cons]
    split <;> rfl

theorem ascendIff (counted : f.Counted) :
    ((f.topsUnder key).Pairwise (· < ·) ∧ f.topsUnder key = f.topsWith key) ↔
      ∀ s ∈ f.stitches, s.tops ≠ [] → s.labels.count key ≤ 1 := by
  constructor
  · rintro ⟨ascend, _⟩ s member
    exact topsTwice ((List.pairwise_flatMap.mp ascend).1 s member)
  · intro once
    have same : f.topsUnder key = f.topsWith key := underOnce once
    have all := List.pairwise_lt_range' (s := f.firstId) (n := f.nextId - f.firstId)
    rw [← counted.ids] at all
    refine ⟨?_, same⟩
    rw [same]
    exact all.sublist (List.filter_sublist.flatMap Stitch.tops)

end

def FrozenAt (f : Fabric) (key : String) (ids : List Nat) : Prop :=
  ∃ l, f.label? key = some l ∧ l.referenced = true ∧ l.ids = ids

section
variable {key : String} {ids : List Nat}

theorem frozenLocated (located : Work.Located w spot v) (frozen : w.fabric.FrozenAt key ids) :
    v.fabric.FrozenAt key ids := by
  obtain ⟨l, found, referenced, same⟩ := frozen
  obtain ⟨on, marks⟩ := located.labels key
  refine ⟨l.marked on, ?_, by simp [Label.marked, referenced], same⟩
  exact marks.trans (by rw [show Label.named? key w.fabric.labels = some l from found]; rfl)

theorem frozenDefined (placed : Work.Placed w name item template spot v plain bottoms labels after)
    (frozen : v.fabric.FrozenAt key ids) : after.fabric.FrozenAt key ids := by
  obtain ⟨l, found, referenced, same⟩ := frozen
  obtain ⟨m, now, _, flag, kept⟩ := (Label.definesGrow placed.labelled).kept key l found
  exact ⟨m, by rw [placed.fabric]; exact now, flag.trans referenced, (kept referenced).trans same⟩

end

theorem useAdded (ok : w.putItem item = .ok after) (before : u ∉ w.fabric.uses)
    (now : u ∈ after.fabric.uses) :
    after.fabric.uses = w.fabric.uses ++ [u] ∧
      ∃ l, w.fabric.label? u.key = some l ∧ after.fabric.FrozenAt u.key l.ids := by
  rcases Work.putItemCases ok with rfl | ⟨spot, v, located, rfl⟩ |
    ⟨name, template, spot, v, plain, bottoms, labels, placed⟩
  · exact absurd now before
  · have uses : v.fabric.uses = w.fabric.uses := by rw [located.fabric]
    exact absurd (uses ▸ now) before
  · have uses : v.fabric.uses = w.fabric.uses := by rw [placed.located.fabric]
    have added : after.fabric.uses =
        w.fabric.uses ++ v.newUses item (v.waiting spot template) := by
      rw [placed.fabric, ← uses]
    rcases List.mem_append.mp (added ▸ now) with old | new
    · exact absurd old before
    obtain ⟨p, waits, _, key⟩ := Work.newUseOf new
    rw [waits] at new added
    refine ⟨by rw [added, List.mem_singleton.mp new]; rfl, ?_⟩
    obtain ⟨m, found, referenced, _⟩ := placed.located.pending p (Work.waitingSpot waits).1
    obtain ⟨on, marks⟩ := placed.located.labels p.key
    obtain ⟨l, old, same⟩ := Option.map_eq_some_iff.mp (marks.symm.trans found)
    rw [key]
    exact ⟨l, old, frozenDefined placed ⟨m, found, referenced, by rw [← same]; rfl⟩⟩

theorem recorded (ok : weave rows registry options = .ok f) (used : u ∈ f.uses) :
    ∃ item w after, Work.ComesUp rows registry options item w ∧ w.putItem item = .ok after ∧
      after.fabric.uses = w.fabric.uses ++ [u] ∧
      ∃ l, w.fabric.label? u.key = some l ∧ after.fabric.FrozenAt u.key l.ids ∧
        f.FrozenAt u.key l.ids := by
  obtain ⟨last, run, rfl⟩ := mapOk ok
  obtain ⟨before, row, after, w, next, rfl, earlier, missing, one, present, later⟩ :=
    foldFirst (fun w => u ∈ w.fabric.uses) (by simp [Work.start]) used run
  obtain ⟨v, items, rfl⟩ := putRowParts one
  rw [← startRowFabric] at missing
  obtain ⟨done, item, rest, x, y, rfl, here, absent, step, now, more⟩ :=
    foldFirst (fun w => u ∈ w.fabric.uses) missing present items
  obtain ⟨added, l, label, frozen⟩ := useAdded step absent now
  have inRow := itemsKeep (·.FrozenAt u.key l.ids) frozenLocated frozenDefined frozen more
  refine ⟨item, x, y, ⟨before, done, rest, after, w, rfl, earlier, here⟩, step, added, l, label,
    frozen, ?_⟩
  refine rowsKeep (·.FrozenAt u.key l.ids) frozenLocated frozenDefined (fun _ _ kept => kept) ?_ later
  exact inRow

def groupedPiece : MappedText :=
  MappedText.ofSource "[ch.A,ch].B,ch.A\nsc@A,sc@A".toList

def twicePiece : MappedText := MappedText.ofSource "[ch.A].A".toList

end Fabric
end Crochet
