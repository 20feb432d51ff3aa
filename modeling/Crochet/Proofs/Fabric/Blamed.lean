import Crochet.Proofs.Fabric.Reworked
import Crochet.Proofs.Provenance.Spans
import Crochet.Proofs.Provenance.Traced

/-! What placing stitches and working out labels is blamed on. A stitch and a use of a label keep the
place of their item, so a fault stands at the place of an item or of a label written on one. -/
namespace Crochet

structure Fabric.Sited (good : Span → Prop) (f : Fabric) : Prop where
  stitches : ∀ s ∈ f.stitches, good s.source
  uses : ∀ u ∈ f.uses, good u.span

variable {ids : List Nat}

section
variable {good : Span → Prop} {span : Span} (own : good span)
include own

theorem indexBlamed {text : String} {here : Nat} :
    Faults (Fault.At good) (indexOf text here span) := by
  simp only [indexOf]
  split
  · exact faultsAt own
  · exact faultsAt own
  · exact Faults.ok _

theorem unplacedBlamed {m : Outcome α} (unplaced : Faults (fun fault => fault.span = none) m) :
    Faults (Fault.At good) (m.mapError (·.orAt span)) := by
  refine unplaced.mapError fun fault none other same => ?_
  rw [Fault.orAt, none] at same
  cases same
  exact own

namespace Work
variable {w : Work}

theorem labelBlamed {ref : Row.LabelRef} : Faults (Fault.At good) (w.locateLabel ref span) := by
  unfold locateLabel
  split
  · exact faultsAt own
  split
  · exact faultsAt own
  split
  · exact faultsAt own
  split
  · exact faultsAt own
  dsimp only
  split
  · exact Faults.ok _
  · exact Faults.ok _

variable {f : Fabric}

theorem bottomBlamed {stitch : String} {pending : Bool} {id : Int64} :
    Faults (Fault.At good) (bottomAt f stitch pending span id) := by
  unfold bottomAt
  dsimp only
  split
  · exact Faults.ok _
  split
  · exact Faults.ok _
  · exact faultsAt own

theorem postBlamed {post : Option (Option Int)} {wanted : List Int64} {bottoms : List NodeRef} :
    Faults (Fault.At good) (aroundPost f post wanted span bottoms) := by
  unfold aroundPost
  split
  · dsimp only
    split
    · exact Faults.ok _
    · exact faultsAt own
  · exact Faults.ok _

theorem templateBlamed {name : String} : Faults (Fault.At good) (w.resolve name span) := by
  unfold resolve
  split
  · exact faultsAt own
  · exact Faults.ok _

end Work

theorem definingBlamed {labels : List Label} {d : Row.LabelDef} (place : d.span = span) :
    Faults (Fault.At good) (defineLabel ids labels d) := by
  rw [← place] at own
  induction labels with
  | nil => exact Faults.ok _
  | cons l rest ih =>
    unfold defineLabel
    split
    · refine Faults.map ?_
      unfold Label.grow
      split
      · exact faultsAt own
      split
      · exact faultsAt own
      · exact Faults.ok _
    · exact ih.map

end

section
variable {good : Span → Prop}

theorem chosenUnplaced {index : Int} {fault : Fault} (unplaced : fault.span = none) :
    Faults (fun fault => fault.span = none) (if index < 0 then .error fault
      else match ids[index.toNat]? with
        | some id => .ok id
        | none => .error fault : Outcome Nat) := by
  split
  · exact Faults.error unplaced
  split
  · exact Faults.ok _
  · exact Faults.error unplaced

theorem positionUnplaced {f : Fabric} {row : Nat} {position : Int} {relative : Option Nat}
    {direction : Int} {tag : Option String} : Faults (fun fault => fault.span = none)
      (f.findByPosition row position relative direction tag) := by
  simp only [Fabric.findByPosition]
  generalize (if direction < 0 then (f.taggedIds row tag).reverse else f.taggedIds row tag) = ids
  split
  · exact Faults.error rfl
  · exact chosenUnplaced rfl

namespace Work
variable {w : Work} {item : Row.Item}

theorem locateBlamed (own : good item.span) : Faults (Fault.At good) (w.locate item) := by
  unfold locate
  split
  · exact Faults.ok _
  · exact labelBlamed own
  · refine (indexBlamed own).bind fun x _ => ?_
    refine (indexBlamed own).bind fun y _ => ?_
    dsimp only
    split
    · exact faultsAt own
    · exact (unplacedBlamed own positionUnplaced).bind fun id _ => Faults.ok _
  · unfold locateRelative
    split
    · exact faultsAt own
    · exact (unplacedBlamed own positionUnplaced).bind fun id _ => Faults.ok _

theorem placeBlamed {name : String} (sited : item.Sited good) :
    Faults (Fault.At good) (w.place name item) := by
  have own := sited.1
  refine (templateBlamed own).bind fun found _ => ?_
  obtain ⟨template, u⟩ := found
  refine (locateBlamed own).bind fun spotted _ => ?_
  obtain ⟨spot, v⟩ := spotted
  refine (Faults.mapM fun id _ => bottomBlamed own).bind fun plain _ => ?_
  refine (postBlamed own).bind fun bottoms _ => ?_
  refine Faults.bind ?_ fun labels _ => Faults.ok _
  exact Faults.fold (fun _ => True) (fun d member _ _ => definingBlamed (sited.2 d member) rfl)
    (fun _ _ _ _ _ _ => trivial) trivial

theorem itemBlamed (sited : item.Sited good) : Faults (Fault.At good) (w.putItem item) := by
  unfold putItem
  split
  · exact Faults.ok _
  · simp only [seek]
    split
    all_goals
      split
      · exact faultsAt sited.1
      · exact (locateBlamed sited.1).bind fun spotted _ => Faults.ok _
  · exact placeBlamed sited

variable {after : Work} {row : List Row.Item}

theorem itemSited (before : w.fabric.Sited good) (sited : item.Sited good)
    (ok : w.putItem item = .ok after) : after.fabric.Sited good := by
  have located {u v : Work} {spot : Spot} (found : Located u spot v) (kept : u.fabric.Sited good) :
      v.fabric.Sited good := by
    rw [found.fabric]
    exact ⟨kept.stitches, kept.uses⟩
  rcases putItemCases ok with rfl | ⟨spot, v, found, rfl⟩ | ⟨_, template, spot, v, _, _, _, placed⟩
  · exact before
  · have kept := located found before
    exact ⟨kept.stitches, kept.uses⟩
  · have kept := located placed.located before
    rw [placed.fabric]
    refine ⟨fun s member => ?_, fun u member => ?_⟩
    · rcases List.mem_append.mp member with old | new
      · exact kept.stitches s old
      · rw [List.mem_singleton.mp new]
        exact sited.1
    · rcases List.mem_append.mp member with old | new
      · exact kept.uses u old
      · cases waits : v.waiting spot template with
        | none =>
          rw [waits] at new
          cases new
        | some p =>
          rw [waits] at new
          rw [List.mem_singleton.mp new]
          exact sited.1

theorem startRowSited (before : w.fabric.Sited good) : w.startRow.fabric.Sited good := by
  rw [Fabric.startRowFabric]
  exact before

theorem rowBlamed (before : w.fabric.Sited good) (sited : ∀ item ∈ row, item.Sited good) :
    Faults (Fault.At good) (w.putRow row) := by
  refine Faults.bind ?_ fun _ _ => Faults.ok _
  exact Faults.fold (fun v => v.fabric.Sited good) (fun item member _ _ => itemBlamed (sited item member))
    (fun item member _ _ kept ok => itemSited kept (sited item member) ok) (startRowSited before)

theorem rowSited (before : w.fabric.Sited good) (sited : ∀ item ∈ row, item.Sited good)
    (ok : w.putRow row = .ok after) :
    after.fabric.Sited good := by
  obtain ⟨v, run, ok⟩ := bindOk ok
  have kept : v.fabric.Sited good := foldKeeps (fun v => v.fabric.Sited good)
    (fun item member _ _ kept ok => itemSited kept (sited item member) ok) (startRowSited before) run
  cases pureOk ok
  exact ⟨kept.stitches, kept.uses⟩

end Work

namespace Fabric

theorem startSited (registry : Registry) (options : Options) :
    (Work.start registry options).fabric.Sited good := ⟨by simp [Work.start], by simp [Work.start]⟩

variable {f : Fabric} {passes : List Pass} {u : LabelUse}

section
variable {rows : Rows} {registry : Registry} {options : Options}
  (sited : ∀ row ∈ rows, ∀ item ∈ row, item.Sited good)
include sited

theorem weaveBlamed : Faults (Fault.At good) (weave rows registry options) := by
  refine Faults.map (Faults.fold (fun w => w.fabric.Sited good) ?_ ?_ (startSited registry options))
  · exact fun row member w kept => Work.rowBlamed kept (sited row member)
  · exact fun row member w after kept ok => Work.rowSited kept (sited row member) ok

theorem weaveSited (ok : weave rows registry options = .ok f) : f.Sited good := by
  obtain ⟨w, run, rfl⟩ := mapOk ok
  exact foldKeeps (fun w => w.fabric.Sited good)
    (fun row member _ _ kept ok => Work.rowSited kept (sited row member) ok)
    (startSited registry options) run

end

theorem usesBlamed (own : good u.span) :
    Faults (Fault.At good) (Pass.addUse passes u) := by
  induction passes with
  | nil => exact Faults.ok _
  | cons p rest ih =>
    unfold Pass.addUse
    split
    · refine Faults.map ?_
      unfold Pass.join
      split
      · exact faultsAt own
      · exact Faults.ok _
    · exact ih.map

theorem usesSited {after : List Pass} (own : good u.span) (before : ∀ p ∈ passes, good p.span)
    (ok : Pass.addUse passes u = .ok after) :
    ∀ p ∈ after, good p.span := by
  induction passes generalizing after with
  | nil =>
    cases ok
    exact List.forall_mem_singleton.mpr own
  | cons p rest ih =>
    obtain ⟨first, more⟩ := List.forall_mem_cons.mp before
    unfold Pass.addUse at ok
    split at ok
    · obtain ⟨q, joined, rfl⟩ := mapOk ok
      obtain ⟨rfl, _⟩ := Pass.joinOk joined
      exact List.forall_mem_cons.mpr ⟨first, more⟩
    · obtain ⟨others, added, rfl⟩ := mapOk ok
      exact List.forall_mem_cons.mpr ⟨first, ih more added⟩

theorem passesBlamed (sited : f.Sited good) : Faults (Fault.At good) f.passes := by
  refine Faults.bind ?_ fun _ _ => Faults.ok _
  exact Faults.fold (fun _ => True) (fun u member _ _ => usesBlamed (sited.uses u member))
    (fun _ _ _ _ _ _ => trivial) trivial

theorem passesSited (sited : f.Sited good) (ok : f.passes = .ok passes) :
    ∀ p ∈ passes, good p.span := by
  obtain ⟨all, run, ok⟩ := bindOk ok
  cases pureOk ok
  have placed : ∀ p ∈ all, good p.span := foldKeeps (fun passes => ∀ p ∈ passes, good p.span)
    (fun u member _ _ before ok => usesSited (sited.uses u member) before ok) (by simp) run
  exact fun p member => placed p (List.mem_mergeSort.mp member)

theorem runBlamed (placed : ∀ p ∈ passes, good p.span) :
    Faults (Fault.At good) (f.runPasses passes).2 := by
  induction passes generalizing f with
  | nil => exact Faults.ok _
  | cons p rest ih =>
    obtain ⟨own, more⟩ := List.forall_mem_cons.mp placed
    unfold runPasses
    split
    · rename_i fault failed
      have blamed : Faults (Fault.At good) (f.assignments p) := by
        refine Faults.mapError (E := fun _ => True) (fun _ _ => trivial) fun cause _ span same => ?_
        cases same
        exact own
      exact Faults.error (blamed fault failed)
    · exact ih more

theorem checkBlamed (placed : ∀ s ∈ f.stitches, good s.source) :
    Faults (Fault.At good) f.checkBottoms := by
  refine Faults.forM fun entry member => Faults.forM fun pair _ => ?_
  obtain ⟨s, index⟩ := entry
  have own : good s.source := placed s (List.fst_mem_of_mem_zipIdx member)
  simp only [checkBottom]
  split
  · exact faultsAt own
  split
  · exact faultsAt own
  · exact Faults.ok _

theorem resolveBlamed (sited : f.Sited good) : Faults (Fault.At good) f.resolve.2 := by
  unfold resolve
  split
  · rename_i fault failed
    exact Faults.error (passesBlamed sited fault failed)
  rename_i passes collected
  have run := runBlamed (f := f) (passesSited sited collected)
  have kept := runReworked f passes
  split
  · rename_i g fault same
    rw [same] at run
    exact run
  · rename_i g same
    rw [same] at kept
    refine checkBlamed fun t member => ?_
    obtain ⟨s, inside, outline⟩ := kept.memberSource member
    have source : t.source = s.source := congrArg (·.1.source) outline
    rw [source]
    exact sited.stitches s inside

end Fabric

end
end Crochet
