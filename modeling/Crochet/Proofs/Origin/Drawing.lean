import Crochet.Graph.Draw
import Crochet.Proofs.Origin.InStep
import Crochet.Proofs.Origin.Moved

/-! The graph of a moved fabric. Nodes are named by their place in the row, so the drawing is the
same but for the ids under which it keeps the tops it has drawn. -/
namespace Crochet

def ExportCause.Like (_ _ : ExportCause) : Prop := True

namespace Graph
variable {k : Nat}

def Drawing.moved (k : Nat) (d : Drawing) : Drawing :=
  { d with tops := d.tops.map (Prod.map (· + k) id), lastTop := d.lastTop.map (· + k) }

theorem lookupMoved (tops : List (Nat × String)) (top : Nat) :
    (tops.map (Prod.map (· + k) id)).lookup (top + k) = tops.lookup top := by
  induction tops with
  | nil => rfl
  | cons entry rest ih =>
    obtain ⟨other, node⟩ := entry
    have same : (top + k == other + k) = (top == other) := by
      rw [Bool.eq_iff_iff]
      simp
    simp only [List.map_cons, Prod.map, List.lookup_cons, same, ih]
    rfl

theorem topMoved (d : Drawing) (top : Nat) :
    InStep ExportCause.Like id (d.top top) ((d.moved k).top (top + k)) := by
  have same : (d.moved k).tops.lookup (top + k) = d.tops.lookup top := lookupMoved d.tops top
  unfold Drawing.top
  rw [same]
  cases d.tops.lookup top with
  | none => exact .error trivial
  | some node => exact .ok node

section
variable (f : Fabric)

theorem topNameMoved (s : Stitch) (id : Nat) :
    topName (f.moved k) (s.moved k) (id + k) = topName f s id := by
  simp only [topName, show (s.moved k).row = s.row from rfl, Fabric.movedRowIds, List.head?_map]
  cases (f.rowIds s.row).head? with
  | none => rfl
  | some first =>
    simp only [Option.map_some, Nat.add_sub_add_right]
    rfl

theorem firstPlaceMoved (s : Stitch) : firstPlace? (f.moved k) (s.moved k) = firstPlace? f s := by
  simp only [firstPlace?, Fabric.movedRowIds, List.head?_map, Stitch.moved]
  cases s.tops.head? with
  | none => rfl
  | some top =>
    cases (f.rowIds s.row).head? with
    | none => rfl
    | some first => simp [Nat.add_sub_add_right]

theorem basePlaceMoved (i : Nat) (s : Stitch) :
    basePlace (f.moved k) i (s.moved k) = basePlace f i s := by
  have before : ((f.moved k).stitches.take i).reverse.findSome? (firstPlace? (f.moved k)) =
      (f.stitches.take i).reverse.findSome? (firstPlace? f) := by
    rw [show (f.moved k).stitches = f.stitches.map (Stitch.moved k) from rfl, ← List.map_take,
      ← List.map_reverse, List.findSome?_map]
    congr 1
    funext t
    exact firstPlaceMoved f t
  simp only [basePlace, firstPlaceMoved, before]
  rfl

theorem hiddenNameMoved (i : Nat) (s : Stitch) (node : String) :
    hiddenName (f.moved k) i (s.moved k) node = hiddenName f i s node := by
  simp only [hiddenName, basePlaceMoved]
  rfl

theorem postNameMoved (s : Stitch) (node : String) :
    postName (f.moved k) (s.moved k) node = postName f s node := by
  simp only [postName, firstPlaceMoved]
  rfl

theorem anchorNameMoved (d : Drawing) (node : NodeRef) :
    InStep ExportCause.Like id (anchorName f d node)
      (anchorName (f.moved k) (d.moved k) (node.moved k)) := by
  cases node with
  | top top => exact topMoved d top
  | post top name =>
    simp only [anchorName, NodeRef.moved, Fabric.movedOwner]
    cases f.owner? top with
    | none => exact .error trivial
    | some s =>
      simp only [Option.map_some, Stitch.movedTemplate, postNameMoved]
      exact .either (.ok _) (.error trivial)
  | between near far nearPull farPull => exact .error trivial

theorem splitEndMoved (d : Drawing) (i : Nat) (s : Stitch) (b : Nat) (name : String)
    (near far : NodeRef) (nearPull farPull : Float) :
    InStep ExportCause.Like (Prod.map id (Drawing.moved k))
      (splitEnd f d i s b name near far nearPull farPull)
      (splitEnd (f.moved k) (d.moved k) i (s.moved k) b name (near.moved k) (far.moved k) nearPull
        farPull) := by
  unfold splitEnd
  rw [show (d.moved k).splits = d.splits from rfl]
  cases d.splits.lookup b with
  | some node => exact .ok _
  | none =>
    simp only [hiddenNameMoved]
    refine (anchorNameMoved f d near).bind fun low _ _ => ?_
    refine (anchorNameMoved f d far).bind fun high _ _ => ?_
    exact .ok _

theorem bottomEndMoved (weight : Float) (d : Drawing) (i : Nat) (s : Stitch) (b : Nat)
    (bottom : BottomNode) :
    InStep ExportCause.Like (Prod.map id (Drawing.moved k)) (bottomEnd f weight d i s b bottom)
      (bottomEnd (f.moved k) weight (d.moved k) i (s.moved k) b bottom) := by
  unfold bottomEnd
  rw [show (s.moved k).bottoms = s.bottoms.map (NodeRef.moved k) from rfl, List.getElem?_map]
  cases s.bottoms[b]? with
  | none => exact .error trivial
  | some node =>
    simp only [Option.map_some, Fabric.movedDescend]
    cases f.descend node bottom.depth with
    | none => exact .error trivial
    | some found =>
      cases found with
      | top top => exact (topMoved d top).map fun _ _ => rfl
      | post top name => exact (anchorNameMoved f d (.post top name)).map fun _ _ => rfl
      | between near far nearPull farPull =>
        exact splitEndMoved f d i s b bottom.name near far nearPull farPull

theorem endOfMoved (weight : Float) (previous : Option Nat) (i : Nat) (s : Stitch) (d : Drawing)
    (e : Endpoint) :
    InStep ExportCause.Like (Prod.map id (Drawing.moved k)) (endOf f weight previous i s d e)
      (endOf (f.moved k) weight (previous.map (· + k)) i (s.moved k) (d.moved k) e) := by
  cases e with
  | previous =>
    cases previous with
    | none => exact .ok _
    | some top => exact (topMoved d top).map fun _ _ => rfl
  | node name =>
    simp only [endOf, Stitch.movedTemplate]
    cases s.template.role name with
    | none => exact .error trivial
    | some role =>
      cases role with
      | top =>
        have found : (s.template.topIndex? name).bind ((s.moved k).tops[·]?) =
            ((s.template.topIndex? name).bind (s.tops[·]?)).map (· + k) := by
          cases s.template.topIndex? name with
          | none => rfl
          | some i => exact List.getElem?_map
        simp only [found]
        cases (s.template.topIndex? name).bind (s.tops[·]?) with
        | none => exact .error trivial
        | some top => exact (topMoved d top).map fun _ _ => rfl
      | hidden =>
        simp only [hiddenNameMoved]
        exact .ok _
      | bottom =>
        simp only
        cases s.template.bottomIndex? name with
        | none => exact .error trivial
        | some b =>
          simp only
          cases s.template.bottoms[b]? with
          | none => exact .error trivial
          | some bottom => exact (bottomEndMoved f weight d i s b bottom).map fun _ _ => rfl

theorem loopSidesMoved (d : Drawing) (color : String) (tail head : End) :
    loopSides (d.moved k) color tail head =
      Prod.map id (Prod.map id (Drawing.moved k)) (loopSides d color tail head) := by
  unfold loopSides
  cases tail.pull with
  | some pull => rfl
  | none => cases head.pull <;> rfl

theorem joinEndsMoved (d : Drawing) (color : String) (length : Float) (soft : Bool)
    (tail head : End) :
    joinEnds (d.moved k) color length soft tail head =
      (joinEnds d color length soft tail head).moved k := by
  simp only [joinEnds, loopSidesMoved]
  generalize loopSides d color tail head = sides
  obtain ⟨tail', head', d'⟩ := sides
  cases soft with
  | true => rfl
  | false =>
    simp only [Bool.false_eq_true, if_false, Prod.map, id,
      show (d'.moved k).primaries = d'.primaries from rfl]
    split <;> rfl

theorem connectMoved (weight : Float) (previous : Option Nat) (i : Nat) (s : Stitch)
    (d : Drawing) (c : Connection) :
    InStep ExportCause.Like (Drawing.moved k) (connect f weight previous i s d c)
      (connect (f.moved k) weight (previous.map (· + k)) i (s.moved k) (d.moved k) c) := by
  unfold connect
  cases c.length.value? with
  | none => exact .ok d
  | some length =>
    refine (endOfMoved f weight previous i s d c.tail).bind ?_
    rintro ⟨tail, d⟩ _ _
    refine (endOfMoved f weight previous i s d c.head).bind ?_
    rintro ⟨head, d⟩ _ _
    cases tail with
    | none => exact .ok d
    | some tail =>
      cases head with
      | none => exact .ok d
      | some head => exact .okAs (joinEndsMoved d s.color length c.soft tail head)

theorem drawTopMoved (s : Stitch) (d : Drawing) (entry : Nat × TopNode) :
    InStep ExportCause.Like (Drawing.moved k) (drawTop f s d entry)
      (drawTop (f.moved k) (s.moved k) (d.moved k) (Prod.map (· + k) id entry)) := by
  obtain ⟨top, node⟩ := entry
  simp only [drawTop, Prod.map, topNameMoved]
  cases topName f s top with
  | error cause => exact .error trivial
  | ok name => exact .ok _

theorem drawHiddenMoved (i : Nat) (s : Stitch) (d : Drawing) (hidden : HiddenNode) :
    drawHidden (f.moved k) i (s.moved k) (d.moved k) hidden =
      (drawHidden f i s d hidden).moved k := by
  simp only [drawHidden, hiddenNameMoved]
  rfl

theorem drawHiddensMoved (i : Nat) (s : Stitch) (d : Drawing) (hidden : List HiddenNode) :
    hidden.foldl (drawHidden (f.moved k) i (s.moved k)) (d.moved k) =
      (hidden.foldl (drawHidden f i s) d).moved k := by
  induction hidden generalizing d with
  | nil => rfl
  | cons first rest ih =>
    rw [List.foldl_cons, List.foldl_cons, drawHiddenMoved]
    exact ih _

theorem drawStitchMoved (weight : Float) (d : Drawing) (entry : Stitch × Nat) :
    InStep ExportCause.Like (Drawing.moved k) (drawStitch f weight d entry)
      (drawStitch (f.moved k) weight (d.moved k) (Prod.map (Stitch.moved k) id entry)) := by
  obtain ⟨s, i⟩ := entry
  have tops : (s.moved k).tops.zip s.template.tops =
      (s.tops.zip s.template.tops).map (Prod.map (· + k) id) := List.zip_map_left
  simp only [drawStitch, Prod.map, id, Stitch.movedTemplate, tops, List.foldlM_map]
  refine InStep.bind (show InStep _ (Drawing.moved k) _ _ from
    InStep.foldAll ?_ _ { d with splits := [] }) ?_
  · intro entry d
    exact drawTopMoved f s d entry
  intro e _ _
  rw [drawHiddensMoved]
  refine InStep.bind (show InStep _ (Drawing.moved k) _ _ from InStep.foldAll ?_ _ _) ?_
  · intro c d'
    exact connectMoved f weight d.lastTop i s d' c
  intro e _ _
  have last : (s.moved k).tops.getLast?.or (e.lastTop.map (· + k)) =
      (s.tops.getLast?.or e.lastTop).map (· + k) := by
    rw [show (s.moved k).tops = s.tops.map (· + k) from rfl, List.getLast?_map]
    cases s.tops.getLast? <;> rfl
  exact .okAs (congrArg (fun lastTop => { e.moved k with lastTop }) last)

end

theorem ofFabricMoved (f : Fabric) (options : Options) (firstId : Nat) :
    InStep Fault.Like id (ofFabric f options)
      (ofFabric (f.moved k) { options with firstId := firstId }) := by
  have drawn : InStep ExportCause.Like (Drawing.moved k)
      (f.stitches.zipIdx.foldlM (drawStitch f options.loopWeight) {})
      ((f.moved k).stitches.zipIdx.foldlM (drawStitch (f.moved k) options.loopWeight) {}) := by
    rw [show (f.moved k).stitches = f.stitches.map (Stitch.moved k) from rfl, List.zipIdx_map,
      List.foldlM_map]
    exact InStep.foldAll (fun entry d => drawStitchMoved f options.loopWeight d entry) _ {}
  unfold ofFabric
  simp only
  generalize f.stitches.zipIdx.foldlM (drawStitch f options.loopWeight) {} = run at drawn
  generalize (f.moved k).stitches.zipIdx.foldlM (drawStitch (f.moved k) options.loopWeight) {} =
    other at drawn
  cases drawn with
  | ok d => exact .ok _
  | error _ => exact .error ⟨rfl, rfl⟩

end Graph
end Crochet
