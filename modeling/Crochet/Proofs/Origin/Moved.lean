import Crochet.Fabric.Basic

/-! A fabric with other numbers: every top is numbered so much higher. What is looked up in it by a
number that has moved along is the same, and numbers below the first one lead nowhere. -/
namespace Crochet

def NodeRef.moved (k : Nat) : NodeRef → NodeRef
  | .top id => .top (id + k)
  | .post id name => .post (id + k) name
  | .between near far nearPull farPull =>
    .between (near.moved k) (far.moved k) nearPull farPull

def Stitch.moved (k : Nat) (s : Stitch) : Stitch :=
  { s with tops := s.tops.map (· + k), bottoms := s.bottoms.map (NodeRef.moved k) }

def Label.moved (k : Nat) (l : Label) : Label := { l with ids := l.ids.map (· + k) }

def Fabric.moved (k : Nat) (f : Fabric) : Fabric :=
  { f with
    stitches := f.stitches.map (Stitch.moved k)
    labels := f.labels.map (Label.moved k)
    firstId := f.firstId + k
    nextId := f.nextId + k }

section
variable {k : Nat}

namespace NodeRef

theorem movedInj {node other : NodeRef} : node.moved k = other.moved k ↔ node = other := by
  induction node generalizing other with
  | top id => cases other <;> simp [moved]
  | post id name => cases other <;> simp [moved]
  | between near far nearPull farPull left right => cases other <;> simp [moved, left, right]

theorem movedTop (node : NodeRef) : (node.moved k).top? = node.top?.map (· + k) := by
  cases node <;> rfl

theorem movedIds (node : NodeRef) : (node.moved k).ids = node.ids.map (· + k) := by
  induction node with
  | top id => rfl
  | post id name => rfl
  | between near far nearPull farPull left right => simp [moved, ids, left, right]

end NodeRef

namespace Stitch
variable (s : Stitch)

theorem movedTemplate : (s.moved k).template = s.template := rfl

theorem movedTopIndex (id : Nat) : (s.moved k).topIndex? (id + k) = s.topIndex? id := by
  simp only [topIndex?, moved, List.head?_map, List.getLast?_map]
  cases s.tops.head? with
  | none => rfl
  | some first =>
    cases s.tops.getLast? with
    | none => rfl
    | some last => simp [Nat.add_sub_add_right]

theorem movedOwns (id : Nat) : (s.moved k).owns (id + k) = s.owns id := by
  rw [owns, movedTopIndex, owns]

theorem movedOwnsBelow {id : Nat} (below : id < k) : (s.moved k).owns id = false := by
  simp only [owns, topIndex?, moved, List.head?_map, List.getLast?_map]
  cases s.tops.head? with
  | none => rfl
  | some first =>
    cases s.tops.getLast? with
    | none => rfl
    | some last =>
      simp only [Option.map_some]
      rw [if_neg (by omega)]
      rfl

theorem movedTopNode (id : Nat) : (s.moved k).topNode? (id + k) = s.topNode? id := by
  simp only [topNode?, movedTopIndex]
  rfl

theorem movedTopName (id : Nat) : (s.moved k).topName? (id + k) = s.topName? id := by
  simp only [topName?, movedTopNode]

theorem movedTopTag (id : Nat) : (s.moved k).topTag? (id + k) = s.topTag? id := by
  simp only [topTag?, movedTopNode]

theorem movedBottomIndex (node : NodeRef) :
    (s.moved k).bottoms.idxOf? (node.moved k) = s.bottoms.idxOf? node := by
  simp only [moved, List.idxOf?, List.findIdx?_map]
  congr 1
  funext other
  rw [Bool.eq_iff_iff]
  simp [NodeRef.movedInj]

theorem movedPostTarget (top : Nat) (which : Int) : (s.moved k).postTarget (top + k) which =
    (s.postTarget top which).map (Prod.map (NodeRef.moved k) id) := by
  simp only [postTarget, movedTopName]
  cases s.topName? top with
  | none => rfl
  | some name =>
    change (pick? (s.postConnections name) which).bind _ = _
    simp only [bind, Option.bind_some]
    cases pick? (s.postConnections name) which with
    | none => rfl
    | some connection =>
      simp only [Option.bind_some]
      cases connection.tail.name? with
      | none => rfl
      | some tail =>
        simp only [Option.bind_some, moved]
        cases s.template.bottomIndex? tail with
        | none => rfl
        | some b =>
          simp only [List.getElem?_map]
          cases s.bottoms[b]? <;> rfl

end Stitch

namespace Fabric
variable (f : Fabric)

theorem movedOwner (id : Nat) :
    (f.moved k).owner? (id + k) = (f.owner? id).map (Stitch.moved k) := by
  simp only [owner?, moved, ← List.map_reverse, List.find?_map]
  congr 2
  funext s
  exact s.movedOwns id

theorem movedOwnerBelow {id : Nat} (below : id < k) : (f.moved k).owner? id = none := by
  refine List.find?_eq_none.mpr ?_
  simp only [moved, List.mem_reverse, List.mem_map, forall_exists_index, and_imp]
  rintro _ s _ rfl
  simp [s.movedOwnsBelow below]

theorem movedPost (top : Nat) (which : Int) :
    ((f.moved k).owner? (top + k)).bind (·.postTarget (top + k) which) =
      ((f.owner? top).bind (·.postTarget top which)).map (Prod.map (NodeRef.moved k) id) := by
  rw [movedOwner]
  cases f.owner? top with
  | none => rfl
  | some s => exact s.movedPostTarget top which

theorem movedInRow (row : Nat) :
    (f.moved k).inRow row = (f.inRow row).map (Stitch.moved k) := by
  simp only [inRow, moved, List.filter_map]
  rfl

theorem movedRowIds (row : Nat) : (f.moved k).rowIds row = (f.rowIds row).map (· + k) := by
  simp only [rowIds, movedInRow, List.flatMap_map, List.map_flatMap]
  rfl

theorem movedProduced (id limit : Nat) :
    (f.moved k).producedBefore (id + k) limit = f.producedBefore id limit := by
  simp only [producedBefore, moved, ← List.map_take, List.any_map]
  congr 1
  funext s
  exact s.movedOwns id

theorem movedLabel (key : String) :
    (f.moved k).label? key = (f.label? key).map (Label.moved k) := by
  simp only [label?, moved, List.find?_map]
  rfl

theorem movedBelow (node : NodeRef) :
    (f.moved k).below (node.moved k) = (f.below node).map (NodeRef.moved k) := by
  simp only [below, NodeRef.movedTop]
  cases node.top? with
  | none => rfl
  | some id =>
    simp only [bind, Option.bind_some, Option.map_some, movedOwner]
    cases f.owner? id with
    | none => rfl
    | some s =>
      simp only [Option.bind_some, Option.map_some, Stitch.movedTopNode]
      cases s.topNode? id with
      | none => rfl
      | some top =>
        simp only [Option.bind_some]
        cases top.attach with
        | none => rfl
        | some bottom =>
          simp only [Option.bind_some]
          change (s.template.bottomIndex? bottom).bind _ = _
          cases s.template.bottomIndex? bottom with
          | none => rfl
          | some b => exact List.getElem?_map

theorem movedDescendBy (n : Nat) (node : NodeRef) :
    (f.moved k).descendBy n (node.moved k) = (f.descendBy n node).map (NodeRef.moved k) := by
  induction n generalizing node with
  | zero => rfl
  | succ n ih =>
    simp only [descendBy, movedBelow]
    cases f.below node with
    | none => rfl
    | some next => exact ih next

theorem movedDescend (node : NodeRef) (depth : Nat) :
    (f.moved k).descend (node.moved k) depth =
      (f.descend node depth).map (NodeRef.moved k) :=
  f.movedDescendBy (depth - 1) node

theorem movedSummaries : (f.moved k).summaries = f.summaries := by
  simp only [summaries, movedInRow, List.foldl_map]
  rfl

theorem movedTaggedIds (row : Nat) (tag : Option String) :
    (f.moved k).taggedIds row tag = (f.taggedIds row tag).map (· + k) := by
  simp only [taggedIds, movedInRow, List.flatMap_map, List.map_flatMap]
  congr 1
  funext s
  change ((s.tops.map (· + k)).zip s.template.tops).filterMap _ = _
  rw [List.zip_map_left, List.filterMap_map, List.map_filterMap]
  congr 1
  funext entry
  rw [apply_ite (Option.map (· + k))]
  rfl

theorem movedRelativeStart (ids : List Nat) (id : Nat) (direction : Int) :
    relativeStart (ids.map (· + k)) (id + k) direction = relativeStart ids id direction := by
  simp only [relativeStart, List.findIdx?_map]
  congr 2
  funext other
  simp

theorem movedChoice (ids : List Nat) (index : Int) (missing : Outcome Nat)
    (same : missing.map (· + k) = missing) :
    (if index < 0 then missing else match (ids.map (· + k))[index.toNat]? with
      | some id => Except.ok id
      | none => missing) = (if index < 0 then missing else match ids[index.toNat]? with
      | some id => Except.ok id
      | none => missing).map (· + k) := by
  split
  · exact same.symm
  · rw [List.getElem?_map]
    cases ids[index.toNat]? with
    | none => exact same.symm
    | some id => rfl

theorem movedFind (row : Nat) (position : Int) (relative : Option Nat) (direction : Int)
    (tag : Option String) :
    (f.moved k).findByPosition row position (relative.map (· + k)) direction tag =
      (f.findByPosition row position relative direction tag).map (· + k) := by
  have turned : (if direction < 0 then ((f.taggedIds row tag).map (· + k)).reverse
      else (f.taggedIds row tag).map (· + k)) =
        (if direction < 0 then (f.taggedIds row tag).reverse else f.taggedIds row tag).map
          (· + k) := by
    split <;> simp
  have here (id : Nat) : ((f.moved k).owner? (id + k)).bind (·.topTag? (id + k)) =
      (f.owner? id).bind (·.topTag? id) := by
    rw [movedOwner, Option.bind_map]
    congr 1
    funext s
    exact s.movedTopTag id
  simp only [findByPosition, movedTaggedIds, turned, List.isEmpty_map, List.length_map]
  generalize (if direction < 0 then (f.taggedIds row tag).reverse else f.taggedIds row tag) = ids
  split
  · rfl
  cases relative with
  | none => exact movedChoice ids _ _ rfl
  | some id =>
    simp only [Option.map_some, here, movedRelativeStart]
    exact movedChoice ids _ _ rfl

end Fabric
end
end Crochet
