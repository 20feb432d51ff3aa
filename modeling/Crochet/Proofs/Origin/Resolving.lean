import Crochet.Fabric.Resolve
import Crochet.Proofs.Origin.InStep
import Crochet.Proofs.Origin.Moved

/-! Labels worked out in a moved fabric. Passes keep their order, since they compare first tops with
each other, and neighbours and lengths are found by differences of ids. -/
namespace Crochet

def LabelCause.Like (cause other : LabelCause) : Prop := other.kind = cause.kind

namespace Fabric
variable {k : Nat} (f : Fabric)

def Spread.moved (k : Nat) (s : Spread) : Spread :=
  { s with anchors := s.anchors.map (NodeRef.moved k) }

theorem passesMoved : (f.moved k).passes = f.passes := by
  have order : Pass.comesFirst (f.moved k) = Pass.comesFirst f := by
    funext p q
    have first (p : Pass) : ((f.moved k).label? p.key).bind (·.ids.head?) =
        ((f.label? p.key).bind (·.ids.head?)).map (· + k) := by
      rw [movedLabel]
      cases f.label? p.key with
      | none => rfl
      | some l => exact List.head?_map
    simp only [Pass.comesFirst, first]
    cases (f.label? p.key).bind (·.ids.head?) with
    | none => cases (f.label? q.key).bind (·.ids.head?) <;> rfl
    | some x =>
      cases (f.label? q.key).bind (·.ids.head?) with
      | none => rfl
      | some y =>
        have same : (x + k == y + k) = (x == y) := by
          rw [Bool.eq_iff_iff]
          simp
        simp [same]
  unfold passes
  rw [order]
  rfl

theorem bottomCountMoved (i : Nat) : (f.moved k).bottomCount i = f.bottomCount i := by
  simp only [bottomCount, moved, List.getElem?_map]
  cases f.stitches[i]? with
  | none => rfl
  | some s => exact List.length_map _

theorem slotsMoved (p : Pass) : (f.moved k).slots p = f.slots p := by
  simp only [slots, bottomCountMoved]

theorem distanceMoved (near far : NodeRef) (key : String) :
    InStep LabelCause.Like id (f.distance near far key)
      ((f.moved k).distance (near.moved k) (far.moved k) key) := by
  unfold distance
  simp only [NodeRef.movedTop]
  cases near.top? with
  | none => exact .error rfl
  | some a =>
    cases far.top? with
    | none => exact .error rfl
    | some b =>
      simp only [Option.map_some, Nat.add_min_add_right, Nat.add_max_add_right, movedOwner]
      cases f.owner? (max a b) with
      | none => exact .error rfl
      | some above =>
        simp only [Option.map_some, Stitch.movedTopName]
        cases above.topName? (max a b) with
        | none => exact .error rfl
        | some name =>
          have parted : LabelCause.Like (.unconnected (min a b) (max a b) key)
              (.unconnected (min a b + k) (max a b + k) key) := rfl
          simp only [Stitch.movedOwns, Stitch.movedTemplate]
          refine .either ?_ ?_
          · split
            · exact .ok _
            · exact .error parted
          have index : (above.moved k).bottoms.idxOf? (.top (min a b + k)) =
              above.bottoms.idxOf? (.top (min a b)) := above.movedBottomIndex (.top (min a b))
          rw [index]
          cases above.bottoms.idxOf? (.top (min a b)) with
          | none =>
            simp only [Nat.add_sub_add_right]
            refine .either ?_ (.error rfl)
            split
            · exact .ok _
            · exact .error parted
          | some index =>
            simp only
            cases above.template.bottoms[index]? with
            | none => exact .error parted
            | some bottom =>
              refine .either (.error rfl) ?_
              split
              · exact .ok _
              · exact .error parted

theorem neighbourMoved (p : Pass) (near : Option Nat) :
    InStep LabelCause.Like (NodeRef.moved k) (f.neighbour p near)
      ((f.moved k).neighbour p (near.map (· + k))) := by
  cases near with
  | none => exact .error rfl
  | some near =>
    simp only [neighbour, Option.map_some, Option.filter_some, movedOwner, Option.isSome_map]
    cases (f.owner? near).isSome with
    | false => exact .error rfl
    | true =>
      simp only [if_true, movedProduced]
      exact .either (.ok _) (.error rfl)

theorem neighbourBelow (p : Pass) {near : Nat} (below : near < k) :
    (f.moved k).neighbour p (some near) = .error (.pastEnds p.key) := by
  simp only [neighbour, Option.filter_some, movedOwnerBelow f below, Option.isSome_none,
    Bool.false_eq_true, if_false]

theorem leftMoved (p : Pass) (first : Nat) :
    InStep LabelCause.Like (NodeRef.moved k)
      (f.neighbour p (if first = 0 then none else some (first - 1)))
      ((f.moved k).neighbour p (if first + k = 0 then none else some (first + k - 1))) := by
  by_cases least : first = 0
  · rw [if_pos least]
    split
    · exact .error rfl
    · rw [neighbourBelow f p (by omega)]
      exact .error rfl
  · rw [if_neg least, if_neg (by omega), show first + k - 1 = first - 1 + k by omega]
    exact f.neighbourMoved p (some (first - 1))

theorem widenedMoved (p : Pass) (ids : List Nat) (first last : Nat) :
    InStep LabelCause.Like (List.map (NodeRef.moved k)) (f.widened p ids first last)
      ((f.moved k).widened p (ids.map (· + k)) (first + k) (last + k)) := by
  have left := f.leftMoved (k := k) p first
  have right : InStep LabelCause.Like (NodeRef.moved k) (f.neighbour p (some (last + 1)))
      ((f.moved k).neighbour p (some (last + k + 1))) := by
    rw [Nat.add_right_comm]
    exact f.neighbourMoved p (some (last + 1))
  have own : (ids.map (· + k)).map NodeRef.top = (ids.map NodeRef.top).map (NodeRef.moved k) := by
    simp [NodeRef.moved]
  simp only [widened, own]
  cases p.modifiers.extend with
  | none => exact .okAs (by simp)
  | some side =>
    cases side with
    | both =>
      simp only [pure_bind]
      exact left.bind fun near _ _ => right.bind fun far _ _ => .okAs (by simp)
    | left =>
      simp only [pure_bind]
      exact left.bind fun near _ _ => .okAs (by simp)
    | right =>
      simp only [pure_bind]
      exact right.bind fun far _ _ => .okAs (by simp)

theorem anchorsMoved (p : Pass) (ids : List Nat) (first last : Nat) :
    InStep LabelCause.Like (Prod.map (List.map (NodeRef.moved k)) id)
      (f.anchors p ids first last)
      ((f.moved k).anchors p (ids.map (· + k)) (first + k) (last + k)) := by
  unfold anchors
  refine (f.widenedMoved p ids first last).bind ?_
  intro nodes _ _
  cases p.modifiers.post with
  | none => exact .ok _
  | some which =>
    simp only [List.length_map, movedPost]
    refine .either (.error rfl) (.either (.error rfl) ?_)
    cases (f.owner? first).bind (·.postTarget first (which.getD (-1))) with
    | none => exact .error rfl
    | some found => exact .okAs (by simp [Prod.map, NodeRef.movedTop])

theorem spreadMoved (p : Pass) :
    InStep LabelCause.Like (Spread.moved k) (f.spread p) ((f.moved k).spread p) := by
  unfold spread
  rw [movedLabel]
  cases f.label? p.key with
  | none => exact .error rfl
  | some label =>
    simp only [Option.map_some, Label.moved, List.head?_map, List.getLast?_map]
    cases label.ids.head? with
    | none => exact .error rfl
    | some first =>
      cases label.ids.getLast? with
      | none => exact .error rfl
      | some last =>
        simp only [Option.map_some]
        refine (f.anchorsMoved p label.ids first last).bind ?_
        rintro ⟨nodes, length⟩ _ _
        have begins : p.stitches.head?.bind ((f.moved k).stitches[·]?) =
            (p.stitches.head?.bind (f.stitches[·]?)).map (Stitch.moved k) := by
          cases p.stitches.head? with
          | none => rfl
          | some i => exact List.getElem?_map
        simp only [slotsMoved, movedOwner, begins]
        -- Stitches keep their rows, whichever of the two is found.
        cases f.owner? first <;> cases p.stitches.head?.bind (f.stitches[·]?) <;>
          exact .either (.okAs (by simp [Spread.moved])) (.ok _)

theorem anchorAtMoved (key : String) (anchors : List NodeRef) (slot : Nat) :
    InStep LabelCause.Like (NodeRef.moved k) (anchorAt key anchors slot)
      (anchorAt key (anchors.map (NodeRef.moved k)) slot) := by
  unfold anchorAt
  rw [List.getElem?_map]
  cases anchors[slot]? with
  | none => exact .error rfl
  | some node => exact .ok node

theorem slotNodeMoved (key : String) (s : Spread) (slot : Nat) :
    InStep LabelCause.Like (NodeRef.moved k) (f.slotNode key s slot)
      ((f.moved k).slotNode key (s.moved k) slot) := by
  unfold slotNode
  simp only [Spread.moved, List.length_map]
  refine .either (anchorAtMoved key s.anchors _) ?_
  refine (anchorAtMoved key s.anchors _).bind ?_
  intro near _ _
  refine .either (.ok near) ?_
  refine (anchorAtMoved key s.anchors _).bind ?_
  intro far _ _
  cases s.length with
  | some length => exact .ok _
  | none =>
    refine (f.distanceMoved near far key).bind ?_
    intro length _ _
    exact .ok _

theorem assignmentsMoved (p : Pass) :
    InStep Fault.Like (List.map (Prod.map id (NodeRef.moved k))) (f.assignments p)
      ((f.moved k).assignments p) := by
  unfold assignments
  refine InStep.mapError ?_ fun cause other same => ⟨same, rfl⟩
  refine (f.spreadMoved p).bind ?_
  intro s _ _
  rw [slotsMoved]
  refine InStep.mapM ?_
  rintro ⟨slot, n⟩ _
  refine (f.slotNodeMoved p.key s n).bind ?_
  intro node _ _
  exact .ok _

theorem assignMoved (entry : (Nat × Nat) × NodeRef) :
    (f.moved k).assign (Prod.map id (NodeRef.moved k) entry) = (f.assign entry).moved k := by
  obtain ⟨⟨i, b⟩, node⟩ := entry
  simp only [assign, setBottom, moved, Prod.map, id]
  congr 1
  refine List.ext_getElem? fun j => ?_
  simp only [List.getElem?_map, List.getElem?_modify]
  cases f.stitches[j]? with
  | none => rfl
  | some s =>
    by_cases here : i = j
    · simp [here, Stitch.moved]
    · simp [here]

theorem assignAllMoved (entries : List ((Nat × Nat) × NodeRef)) :
    (entries.map (Prod.map id (NodeRef.moved k))).foldl assign (f.moved k) =
      (entries.foldl assign f).moved k := by
  induction entries generalizing f with
  | nil => rfl
  | cons entry rest ih =>
    rw [List.map_cons, List.foldl_cons, List.foldl_cons, assignMoved]
    exact ih (f.assign entry)

structure RunMoved (k : Nat) (run moved : Fabric × Outcome Unit) : Prop where
  fabric : moved.1 = run.1.moved k
  outcome : InStep Fault.Like id run.2 moved.2

theorem RunMoved.split {run moved : Fabric × Outcome Unit} (same : RunMoved k run moved) :
    (∃ g, run = (g, .ok ()) ∧ moved = (g.moved k, .ok ())) ∨
      ∃ g fault other, run = (g, .error fault) ∧ moved = (g.moved k, .error other) ∧
        fault.Like other := by
  obtain ⟨g, outcome⟩ := run
  obtain ⟨h, outcome'⟩ := moved
  obtain ⟨rfl, inStep⟩ := same
  cases inStep with
  | ok _ => exact .inl ⟨g, rfl, rfl⟩
  | error like => exact .inr ⟨g, _, _, rfl, rfl, like⟩

theorem runPassesMoved (passes : List Pass) :
    RunMoved k (f.runPasses passes) ((f.moved k).runPasses passes) := by
  induction passes generalizing f with
  | nil => exact ⟨rfl, .ok ()⟩
  | cons p rest ih =>
    have one := f.assignmentsMoved (k := k) p
    unfold runPasses
    generalize f.assignments p = entries at one
    generalize (f.moved k).assignments p = others at one
    cases one with
    | error same => exact ⟨rfl, .error same⟩
    | ok entries =>
      simp only
      rw [assignAllMoved]
      exact ih _

theorem checkBottomMoved (s : Stitch) (index : Nat) (b : BottomNode) (node : NodeRef) :
    InStep Fault.Like id (f.checkBottom s index b node)
      ((f.moved k).checkBottom (s.moved k) index b (node.moved k)) := by
  have earlier : ((node.moved k).ids.all fun id => (f.moved k).producedBefore id index) =
      node.ids.all fun id => f.producedBefore id index := by
    rw [NodeRef.movedIds, List.all_map]
    congr 1
    funext id
    exact f.movedProduced id index
  unfold checkBottom
  rw [earlier, movedDescend, Option.isNone_map]
  refine .either (inStepFault s.source rfl) (.either (inStepFault s.source rfl) (.ok ()))

theorem checkBottomsMoved : InStep Fault.Like id f.checkBottoms (f.moved k).checkBottoms := by
  have numbered : (f.moved k).stitches.zipIdx =
      f.stitches.zipIdx.map (Prod.map (Stitch.moved k) id) := List.zipIdx_map
  unfold checkBottoms
  rw [numbered]
  refine InStep.forM ?_
  rintro ⟨s, index⟩ _
  have paired : s.template.bottoms.zip (s.moved k).bottoms =
      (s.template.bottoms.zip s.bottoms).map (Prod.map id (NodeRef.moved k)) :=
    List.zip_map_right
  simp only [Prod.map, Stitch.movedTemplate, paired]
  refine InStep.forM ?_
  rintro ⟨b, node⟩ _
  exact f.checkBottomMoved s index b node

theorem resolveMoved : RunMoved k f.resolve (f.moved k).resolve := by
  unfold resolve
  rw [passesMoved]
  cases f.passes with
  | error fault => exact ⟨rfl, .error (.refl fault)⟩
  | ok passes =>
    simp only
    rcases (f.runPassesMoved (k := k) passes).split with ⟨g, run, moved⟩ |
      ⟨g, fault, other, run, moved, like⟩
    · rw [run, moved]
      exact ⟨rfl, g.checkBottomsMoved⟩
    · rw [run, moved]
      exact ⟨rfl, .error like⟩

end Fabric
end Crochet
