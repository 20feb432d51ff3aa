import Crochet.Proofs.Fabric.Pairs

/-! Work around a post found by its place in the fabric. The post is followed while the rows are
worked, when a stitch on a label of several stitches still has a stand-in for what it goes into, and
the stitch around the post keeps what was found then. So it follows the finished fabric exactly where
the bottom at which the post ends is not worked out anew. -/
namespace Crochet
namespace Stitch

def postBottom? (s : Stitch) (id : Nat) (which : Int) : Option Nat := do
  let top ← s.topName? id
  let connection ← pick? (s.postConnections top) which
  let name ← connection.tail.name?
  s.template.bottomIndex? name

variable {id : Nat} {which : Int}

section
variable {s t : Stitch} (same : t.outline = s.outline)
include same

theorem outlineTopName (id : Nat) : t.topName? id = s.topName? id := by
  simp only [topName?, topNode?, topIndex?, outlineTops same, outlineTemplate same]

theorem outlinePosts (top : String) : t.postConnections top = s.postConnections top := by
  simp only [postConnections, outlineTemplate same]

theorem postInside (inside : s.postBottom? id which = none) :
    t.postTarget id which = s.postTarget id which := by
  simp only [postTarget, outlineTopName same, outlinePosts same, outlineTemplate same]
  simp only [postBottom?] at inside
  cases named : s.topName? id with
  | none => rfl
  | some top =>
    cases picked : pick? (s.postConnections top) which with
    | none => simp [picked]
    | some connection =>
      cases tail : connection.tail.name? with
      | none => simp [picked, tail]
      | some name =>
        have none : s.template.bottomIndex? name = none := by
          simpa [named, picked, tail] using inside
        simp [picked, tail, none]

end

theorem postAtBottom {s : Stitch} {b : Nat} (ends : s.postBottom? id which = some b) :
    ∃ length, ∀ t : Stitch, t.outline = s.outline →
      t.postTarget id which = t.bottoms[b]?.map (·, length) := by
  simp only [postBottom?, bind, Option.bind_eq_some_iff] at ends
  obtain ⟨top, named, connection, picked, name, tail, index⟩ := ends
  refine ⟨connection.length, ?_⟩
  intro t same
  simp only [postTarget, outlineTopName same, outlinePosts same, outlineTemplate same, named, picked,
    tail, index, bind, Option.bind_some]
  cases t.bottoms[b]? with
  | none => rfl
  | some node => rfl

end Stitch

namespace Fabric

/- What the rows worked so far have made stays: new stitches come behind the old ones, and a stitch
that waits for a label says so when it is made. -/
structure Grown (f g : Fabric) : Prop where
  stitches : f.stitches <+: g.stitches
  uses : ∀ u ∈ g.uses, u ∈ f.uses ∨ f.stitches.length ≤ u.stitch

namespace Grown
variable {f g h : Fabric}

theorem refl (f : Fabric) : Grown f f := ⟨List.prefix_refl _, fun _ member => .inl member⟩

theorem trans (first : Grown f g) (second : Grown g h) : Grown f h where
  stitches := first.stitches.trans second.stitches
  uses := by
    intro u member
    rcases second.uses u member with old | new
    · exact first.uses u old
    · exact .inr (Nat.le_trans first.stitches.length_le new)

theorem stitchAt (grown : Grown f g) {i : Nat} {s : Stitch} (found : f.stitches[i]? = some s) :
    g.stitches[i]? = some s := by
  obtain ⟨more, same⟩ := grown.stitches
  rw [← same, List.getElem?_append_left (List.getElem?_eq_some_iff.mp found).1]
  exact found

end Grown

variable {w v after : Work} {spot : Spot} {item : Row.Item}

theorem grownLocated (located : Work.Located w spot v) :
    Grown w.fabric v.fabric := by
  rw [located.fabric]
  exact ⟨List.prefix_refl _, fun _ member => .inl member⟩

theorem grownPlaced {name : String} {template : Template} {plain bottoms : List NodeRef}
    {labels : List Label}
    (placed : Work.Placed w name item template spot v plain bottoms labels after) :
    Grown v.fabric after.fabric where
  stitches := by
    rw [placed.added]
    exact List.prefix_append _ _
  uses := by
    intro u member
    rcases usePlaced placed member with old | ⟨_, _, place, _⟩
    · exact .inl old
    · exact .inr (Nat.le_of_eq place.symm)

theorem grownItem (ok : w.putItem item = .ok after) :
    Grown w.fabric after.fabric := by
  rcases Work.putItemCases ok with rfl | ⟨spot, v, located, rfl⟩ |
    ⟨name, template, spot, v, plain, bottoms, labels, placed⟩
  · exact .refl _
  · have found : Grown w.fabric v.fabric := grownLocated located
    exact found
  · have found := grownLocated placed.located
    exact found.trans (grownPlaced placed)

theorem grownItems {items : List Row.Item} (ok : items.foldlM Work.putItem w = .ok after) :
    Grown w.fabric after.fabric :=
  foldKeeps (fun v => Grown w.fabric v.fabric) (fun _ _ _ _ kept one => kept.trans (grownItem one))
    (.refl _) ok

theorem grownRow {row : List Row.Item} (ok : w.putRow row = .ok after) :
    Grown w.fabric after.fabric := by
  obtain ⟨v, items, rfl⟩ := putRowParts ok
  have grown := grownItems items
  rw [startRowFabric] at grown
  exact ⟨grown.stitches, grown.uses⟩

theorem grownRows {rows : Rows} (ok : rows.foldlM Work.putRow w = .ok after) :
    Grown w.fabric after.fabric :=
  foldKeeps (fun v => Grown w.fabric v.fabric) (fun _ _ _ _ kept one => kept.trans (grownRow one))
    (.refl _) ok

end Fabric

/- The work as it stands when an item of the rows comes up. -/
structure Work.ComesUp (rows : Rows) (registry : Registry) (options : Options) (item : Row.Item)
    (w : Work) : Prop where
  run : ∃ before done rest after u, rows = before ++ (done ++ item :: rest) :: after ∧
    before.foldlM Work.putRow (Work.start registry options) = .ok u ∧
    done.foldlM Work.putItem u.startRow = .ok w

def Row.Target.isBracketed : Row.Target → Bool
  | .absolute _ _ _ => true
  | .relative _ _ => true
  | _ => false

structure Work.PostAddressed (w : Work) (item : Row.Item) (id : Nat) (which : Option Int) : Prop where
  bracketed : item.attached.attachment.target.isBracketed = true
  post : item.attached.attachment.post = some which
  located : ∃ name template u spot v, item.kind = .stitch name ∧
    w.resolve name item.span = .ok (template, u) ∧ template.bottoms ≠ [] ∧
    u.locate item = .ok (spot, v) ∧ spot.first.toInt = id

namespace Fabric

def firstBottom? (f : Fabric) (i : Nat) : Option NodeRef := f.stitches[i]?.bind (·.bottoms.head?)

def postTarget? (f : Fabric) (id : Nat) (which : Int) : Option NodeRef :=
  (f.owner? id).bind fun s => (s.postTarget id which).map Prod.fst

variable {w : Work} {item : Row.Item} {id : Nat} {which : Option Int} {rows : Rows}
  {registry : Registry} {options : Options}

theorem bracketedSettled {v : Work} {spot : Spot}
    (bracketed : item.attached.attachment.target.isBracketed = true)
    (ok : w.locate item = .ok (spot, v)) : spot.pending = none := by
  unfold Work.locate at ok
  split at ok
  · rename_i shape
    rw [shape] at bracketed
    cases bracketed
  · rename_i shape
    rw [shape] at bracketed
    cases bracketed
  · unfold Work.locateAbsolute at ok
    obtain ⟨x, _, ok⟩ := bindOk ok
    obtain ⟨y, _, ok⟩ := bindOk ok
    simp only at ok
    split at ok
    · cases ok
    · obtain ⟨id, _, ok⟩ := bindOk ok
      obtain ⟨rfl, rfl⟩ := Prod.mk.inj (pureOk ok)
      rfl
  · unfold Work.locateRelative at ok
    split at ok
    · cases ok
    · obtain ⟨id, _, ok⟩ := bindOk ok
      obtain ⟨rfl, rfl⟩ := Prod.mk.inj (pureOk ok)
      rfl

theorem postPlaced {after : Work} (addressed : w.PostAddressed item id which)
    (ok : w.putItem item = .ok after) :
    after.fabric.uses = w.fabric.uses ∧ ∃ s below target length,
      after.fabric.stitches = w.fabric.stitches ++ [s] ∧ w.fabric.owner? id = some below ∧
      below.postTarget id (which.getD (-1)) = some (target, length) ∧
      s.bottoms.head? = some target := by
  obtain ⟨name, template, u, spot, v, kind, read, bottoms, found, first⟩ := addressed.located
  simp only [Work.putItem, kind] at ok
  obtain ⟨plain, nodes, labels, placed⟩ := Work.placesAt read found ok
  have settled : v.waiting spot template = none := by
    simp [Work.waiting, bracketedSettled addressed.bracketed found]
  have stitches : v.fabric.stitches = w.fabric.stitches := by rw [placed.located.fabric]
  have uses : v.fabric.uses = w.fabric.uses := by rw [placed.located.fabric]
  refine ⟨by rw [placed.fabric, settled]; simpa [Work.newUses] using uses, ?_⟩
  obtain ⟨count, length⟩ := Nat.exists_eq_add_one_of_ne_zero
    (n := template.bottoms.length) (by simpa using bottoms)
  obtain ⟨more, wanted⟩ : ∃ more, v.wantedAt spot.first template = spot.first :: more := by
    simp [Work.wantedAt, length, List.range_succ_eq_map]
  have worked := placed.worked
  have around := placed.around
  rw [wanted] at worked around
  obtain ⟨node, rest, _, _, rfl⟩ := mapMConsOk worked
  rw [addressed.post] at around
  have least : 0 ≤ spot.first.toInt := by omega
  simp only [Work.aroundPost, wordId least, first, Int.toNat_natCast] at around
  split at around
  · rename_i target yarn reached
    cases around
    obtain ⟨below, owner, reached⟩ := Option.bind_eq_some_iff.mp reached
    refine ⟨_, below, target, yarn, stitches ▸ placed.added, ?_, reached, rfl⟩
    simpa only [owner?, stitches] using owner
  · cases around

theorem comesUpMade (comes : Work.ComesUp rows registry options item w) : Woven w.fabric := by
  obtain ⟨before, done, rest, after, u, _, earlier, here⟩ := comes.run
  have started : Woven u.startRow.fabric := by
    rw [startRowFabric]
    exact foldKeeps (fun w => Woven w.fabric) (fun _ _ _ _ kept step => wovenRow kept step)
      (wovenStart registry options) earlier
  exact foldKeeps (fun w => Woven w.fabric) (fun _ _ _ _ kept step => wovenItem kept step) started here

variable {f g : Fabric}

theorem comesUpWoven (ok : weave rows registry options = .ok f)
    (comes : Work.ComesUp rows registry options item w) :
    Woven w.fabric ∧ ∃ next, w.putItem item = .ok next ∧ Grown next.fabric f := by
  obtain ⟨before, done, rest, after, u, rfl, earlier, here⟩ := comes.run
  obtain ⟨last, run, rfl⟩ := mapOk ok
  rw [List.foldlM_append, earlier] at run
  obtain ⟨v, row, later⟩ : ∃ v, u.putRow _ = .ok v ∧ after.foldlM Work.putRow v = .ok last :=
    foldConsOk run
  obtain ⟨x, items, rfl⟩ := putRowParts row
  rw [List.foldlM_append, here] at items
  obtain ⟨next, one, more⟩ :
      ∃ next, w.putItem item = .ok next ∧ rest.foldlM Work.putItem next = .ok x := foldConsOk items
  have inRow : Grown next.fabric x.fabric := grownItems more
  have ended := grownRows later
  exact ⟨comesUpMade comes, next, one, inRow.trans ⟨ended.stitches, ended.uses⟩⟩

theorem Grown.ownerSame (grown : Grown f g) (counted : g.Counted) {s : Stitch}
    (owner : f.owner? id = some s) : g.owner? id = some s := by
  obtain ⟨⟨j, place⟩, owns⟩ := ownerAt owner
  have member := List.mem_of_getElem? (grown.stitchAt place)
  exact counted.ownerOf (grown.stitchAt place) ((counted.owns member).mp owns)

theorem postWoven (ok : weave rows registry options = .ok f)
    (comes : Work.ComesUp rows registry options item w) (addressed : w.PostAddressed item id which) :
    w.fabric.stitches.length ∉ f.uses.map LabelUse.stitch ∧ ∃ below target length,
      f.owner? id = some below ∧ below.postTarget id (which.getD (-1)) = some (target, length) ∧
      f.HasBottom w.fabric.stitches.length 0 target := by
  obtain ⟨woven, next, one, grown⟩ := comesUpWoven ok comes
  obtain ⟨uses, s, below, target, length, added, owner, reached, first⟩ := postPlaced addressed one
  have final := weaveWoven ok
  constructor
  · intro used
    obtain ⟨u, member, here⟩ := List.mem_map.mp used
    rcases grown.uses u member with old | new
    · obtain ⟨t, place, _⟩ := woven.labelled.worked u (uses ▸ old)
      have bound := (List.getElem?_eq_some_iff.mp place).1
      omega
    · rw [added, List.length_append, List.length_singleton] at new
      omega
  · have older : w.fabric.Grown f := (grownItem one).trans grown
    refine ⟨below, target, length, older.ownerSame final.counted owner, reached, s, ?_, ?_⟩
    · refine grown.stitchAt ?_
      rw [added]
      exact atEnd.mpr (.inr ⟨rfl, rfl⟩)
    · rw [← List.head?_eq_getElem?]
      exact first

theorem unusedKept (resolved : f.resolve = (g, .ok ())) {i b : Nat} {node : NodeRef}
    (unused : i ∉ f.uses.map LabelUse.stitch) (has : f.HasBottom i b node) :
    g.HasBottom i b node := by
  obtain ⟨passes, collected, run, _⟩ := resolves resolved
  have kept := bottomRuns ((passesCollect collected).apart unused) has
  rw [run] at kept
  exact kept

theorem resolveReworked (resolved : f.resolve = (g, .ok ())) : Reworked f g := by
  obtain ⟨passes, _, run, _⟩ := resolves resolved
  have reworked := runReworked f passes
  rw [run] at reworked
  exact reworked

/- Where the post leads once all labels are worked out: to the same node, unless it ends in a bottom
that has been worked out anew. -/
theorem postAfter (counted : f.Counted) (reworked : Reworked f g) {which : Int} {below : Stitch}
    {target : NodeRef} {length : Length} (owner : f.owner? id = some below)
    (reached : below.postTarget id which = some (target, length)) :
    g.postTarget? id which = some target ↔
      ∀ b, below.postBottom? id which = some b → g.HasBottom below.uid b target := by
  obtain ⟨⟨j, place⟩, top⟩ := counted.ownerTop owner
  obtain ⟨t, there, same⟩ := reworked.symm.source place
  have outline : t.outline = below.outline := same.symm
  have now : g.owner? id = some t :=
    (reworked.counted counted).ownerOf there (by rw [Stitch.outlineTops outline]; exact top)
  rw [counted.uid j below place]
  simp only [postTarget?, now, Option.bind_some]
  cases ends : below.postBottom? id which with
  | none => simp [Stitch.postInside outline ends, reached]
  | some b =>
    obtain ⟨yarn, leads⟩ := Stitch.postAtBottom ends
    simp [leads t outline, HasBottom, there, Option.map_eq_some_iff]

theorem postFollowsIff {rows : Rows} {registry : Registry} {options : Options} {f g : Fabric}
    {item : Row.Item} {w : Work} {id : Nat} {which : Option Int}
    (ok : weave rows registry options = .ok f) (resolved : f.resolve = (g, .ok ()))
    (comes : Work.ComesUp rows registry options item w) (addressed : w.PostAddressed item id which) :
    ∃ below target, f.owner? id = some below ∧
      f.postTarget? id (which.getD (-1)) = some target ∧
      g.firstBottom? w.fabric.stitches.length = some target ∧
      (g.firstBottom? w.fabric.stitches.length = g.postTarget? id (which.getD (-1)) ↔
        ∀ b, below.postBottom? id (which.getD (-1)) = some b → g.HasBottom below.uid b target) ∧
      (below.uid ∉ f.uses.map LabelUse.stitch →
        g.firstBottom? w.fabric.stitches.length = g.postTarget? id (which.getD (-1))) := by
  have counted := (weaveWoven ok).counted
  obtain ⟨unused, below, target, length, owner, reached, has⟩ := postWoven ok comes addressed
  obtain ⟨s, place, first⟩ := unusedKept resolved unused has
  have bottom : g.firstBottom? w.fabric.stitches.length = some target := by
    simp [firstBottom?, place, List.head?_eq_getElem?, first]
  have after := postAfter counted (resolveReworked resolved) owner reached
  refine ⟨below, target, owner, by simp [postTarget?, owner, reached], bottom, ?_, ?_⟩
  · rw [bottom, eq_comm]
    exact after
  · intro settled
    rw [bottom, eq_comm, after]
    intro b ends
    obtain ⟨⟨j, there⟩, _⟩ := ownerAt owner
    obtain ⟨yarn, leads⟩ := Stitch.postAtBottom ends
    refine unusedKept resolved settled ⟨below, ?_, ?_⟩
    · rw [counted.uid j below there]
      exact there
    · rw [leads below rfl] at reached
      obtain ⟨node, found, pair⟩ := Option.map_eq_some_iff.mp reached
      cases pair
      exact found

def postAddress? (w : Work) (item : Row.Item) : Option (Nat × Option Int) :=
  match item.kind, item.attached.attachment.post with
  | .stitch name, some which => match w.resolve name item.span with
    | .ok (template, u) => match u.locate item with
      | .ok (spot, _) =>
        if item.attached.attachment.target.isBracketed = true ∧ template.bottoms ≠ [] ∧
            0 ≤ spot.first.toInt then some (spot.first.toInt.toNat, which)
        else none
      | .error _ => none
    | .error _ => none
  | _, _ => none

theorem postAddressOk (found : postAddress? w item = some (id, which)) :
    w.PostAddressed item id which := by
  unfold postAddress? at found
  split at found
  · rename_i name post kind written
    split at found
    · rename_i template u read
      split at found
      · rename_i spot v located
        split at found
        · rename_i fits
          cases found
          exact ⟨fits.1, written, name, template, u, spot, v, kind, read, fits.2.1, located,
            (Int.toNat_of_nonneg fits.2.2).symm⟩
        · cases found
      · cases found
    · cases found
  · cases found

def lastAlone? (rows : Rows) : Option (Rows × Row.Item) :=
  match rows.reverse with
  | [item] :: before => some (before.reverse, item)
  | _ => none

theorem lastAloneOk {before : Rows} (found : lastAlone? rows = some (before, item)) :
    rows = before ++ [[item]] := by
  unfold lastAlone? at found
  split at found
  · rename_i more shape
    cases found
    rw [← List.reverse_reverse rows, shape]
    simp
  · cases found

theorem postPiece (text : MappedText) (test : Fabric → Nat → Nat → Int → Bool)
    (runs : (Row.parseRows text [] "red" >>= fun rows =>
      (weave rows Registry.plain {}).map fun f => (rows, f)).toOption.any (fun (rows, f) =>
        (lastAlone? rows).any fun (before, item) =>
          (before.foldlM Work.putRow (Work.start Registry.plain {})).toOption.any fun u =>
            (postAddress? u.startRow item).any fun (id, which) => f.resolve.2.isOk &&
              test f.resolve.1 u.startRow.fabric.stitches.length id (which.getD (-1))) = true) :
    ∃ rows f g item w id which, Row.parseRows text [] "red" = .ok rows ∧
      weave rows Registry.plain {} = .ok f ∧ f.resolve = (g, .ok ()) ∧
      Work.ComesUp rows Registry.plain {} item w ∧ w.PostAddressed item id which ∧
      test g w.fabric.stitches.length id (which.getD (-1)) = true := by
  obtain ⟨⟨rows, f⟩, run, holds⟩ := testOk runs
  obtain ⟨_, parsed, run⟩ := bindOk run
  obtain ⟨_, ok, same⟩ := mapOk run
  cases same
  obtain ⟨⟨before, item⟩, alone, holds⟩ := (Option.any_eq_true _ _).mp holds
  obtain ⟨u, earlier, holds⟩ := testOk holds
  obtain ⟨⟨id, which⟩, address, holds⟩ := (Option.any_eq_true _ _).mp holds
  obtain ⟨resolved, holds⟩ := Bool.and_eq_true_iff.mp holds
  obtain ⟨_, done⟩ := someOk resolved
  exact ⟨rows, f, _, item, u.startRow, id, which, parsed, ok, Prod.ext rfl done,
    ⟨before, [], [], [], u, lastAloneOk alone, earlier, rfl⟩, postAddressOk address, holds⟩

def placedPiece : MappedText :=
  MappedText.ofSource "ch,ch.A,ch.A\nsc@[0,0],sc@A\nsc@[1,0]^".toList

def hungPiece : MappedText :=
  MappedText.ofSource "ch.A,ch.A\nsc@A\nsc@[1,0]^".toList

theorem postFollowsPlaced : ∃ rows f g item w id which,
    Row.parseRows placedPiece [] "red" = .ok rows ∧ weave rows Registry.plain {} = .ok f ∧
    f.resolve = (g, .ok ()) ∧ Work.ComesUp rows Registry.plain {} item w ∧
    w.PostAddressed item id which ∧ ∃ below target, f.owner? id = some below ∧
      f.postTarget? id (which.getD (-1)) = some target ∧
      g.firstBottom? w.fabric.stitches.length = some target ∧
      g.firstBottom? w.fabric.stitches.length = g.postTarget? id (which.getD (-1)) := by
  obtain ⟨rows, f, g, item, w, id, which, parsed, ok, resolved, comes, addressed, follows⟩ :=
    postPiece placedPiece (fun g i id which => g.firstBottom? i == g.postTarget? id which)
      (by decide +kernel)
  obtain ⟨below, target, owner, leads, first, _, _⟩ := postFollowsIff ok resolved comes addressed
  exact ⟨rows, f, g, item, w, id, which, parsed, ok, resolved, comes, addressed, below, target,
    owner, leads, first, by simpa using follows⟩

theorem postNotFollowed : ∃ rows f g item w id which,
    Row.parseRows hungPiece [] "red" = .ok rows ∧ weave rows Registry.plain {} = .ok f ∧
    f.resolve = (g, .ok ()) ∧ Work.ComesUp rows Registry.plain {} item w ∧
    w.PostAddressed item id which ∧
    g.firstBottom? w.fabric.stitches.length ≠ g.postTarget? id (which.getD (-1)) := by
  obtain ⟨rows, f, g, item, w, id, which, parsed, ok, resolved, comes, addressed, differs⟩ :=
    postPiece hungPiece (fun g i id which => g.firstBottom? i != g.postTarget? id which)
      (by decide +kernel)
  exact ⟨rows, f, g, item, w, id, which, parsed, ok, resolved, comes, addressed, by simpa using differs⟩

end Fabric
end Crochet
