import Crochet.Proofs.Fabric.Reworked
import Crochet.Proofs.Template.Reached
import Crochet.Row.Flatten

/-! Working out labels keeps a woven fabric acyclic, whatever the order of the passes and wherever
they stop: a label is frozen once it is referred to, so its tops are older than every stitch on it,
and so is everything that can be reached from them. -/
namespace Crochet
namespace Fabric

variable {i : Nat} {node : NodeRef}

section
variable {f g : Fabric} {passes : List Pass} {p : Pass}

theorem labelEarlier (labelled : f.Labelled) (collects : Pass.Collects f.uses passes)
    (member : p ∈ passes) (worked : i ∈ p.stitches) {l : Label} (label : f.label? p.key = some l) :
    ∀ id ∈ l.ids, f.OwnedBefore id i := by
  obtain ⟨u, used, rfl, key, _⟩ := collects.source p member i worked
  obtain ⟨other, found, _, _, owned⟩ := labelled.frozen u used
  rw [key, label] at found
  cases found
  exact owned

theorem firstStitchLe (worked : i ∈ p.stitches) : p.stitches.min?.getD 0 ≤ i := by
  cases least : p.stitches.min? with
  | none =>
    rw [List.min?_eq_none_iff.mp least] at worked
    cases worked
  | some first => exact (List.min?_eq_some_iff.mp least).2 i worked

theorem anchorEarlier (counted : f.Counted) (acyclic : f.Acyclic) (worked : i ∈ p.stitches)
    (labels : ∀ l, f.label? p.key = some l → ∀ id ∈ l.ids, f.OwnedBefore id i)
    (anchor : AnchorOf f p node) : ∀ id ∈ node.ids, f.OwnedBefore id i := by
  cases anchor with
  | own label member =>
    intro id same
    rw [List.mem_singleton.mp same]
    exact labels _ label _ member
  | neighbour earlier =>
    intro id same
    rw [List.mem_singleton.mp same]
    exact (producedBeforeIff.mp earlier).mono (firstStitchLe worked)
  | post label member owner reached =>
    have own := labels _ label _ member
    obtain ⟨⟨j, place⟩, top⟩ := counted.ownerTop owner
    have older := counted.ownerBefore own place top
    obtain ⟨_, _, below | ⟨name, rfl, _⟩⟩ := Stitch.postTargetCases reached
    · intro id inside
      exact (acyclic j _ place node below id inside).mono (Nat.le_of_lt older)
    · intro id same
      rw [List.mem_singleton.mp same]
      exact own

theorem passAcyclic (woven : f.Woven) (collects : Pass.Collects f.uses passes)
    (member : p ∈ passes) (reworked : Reworked f g) (acyclic : g.Acyclic)
    {entries : List ((Nat × Nat) × NodeRef)} (ok : g.assignments p = .ok entries) :
    (entries.foldl assign g).Acyclic := by
  have kept := passKeeps (P := fun i node => ∀ id ∈ node.ids, g.OwnedBefore id i) ok acyclic ?_ ?_
  · intro i t found node inside id dependent
    exact (assignReworked g entries).ownedBefore (kept i t found node inside id dependent)
  · intro i worked node anchor
    refine anchorEarlier (reworked.counted woven.counted) acyclic worked ?_ anchor
    intro l label id inside
    rw [reworked.labelSame] at label
    exact reworked.ownedBefore (labelEarlier woven.labelled collects member worked label id inside)
  · intro i near far _ _ left right id inside
    rcases List.mem_append.mp inside with inNear | inFar
    · exact left id inNear
    · exact right id inFar

theorem runAcyclic (woven : f.Woven) (collects : Pass.Collects f.uses passes)
    (applied : List Pass) (some : ∀ p ∈ applied, p ∈ passes) :
    (f.runPasses applied).1.Acyclic := by
  have step : ∀ p ∈ applied, ∀ g entries, Reworked f g ∧ g.Acyclic →
      g.assignments p = .ok entries →
      Reworked f (entries.foldl assign g) ∧ (entries.foldl assign g).Acyclic := by
    intro p member g entries ⟨reworked, acyclic⟩ ok
    exact ⟨reworked.trans (assignReworked g entries),
      passAcyclic woven collects (some p member) reworked acyclic ok⟩
  exact (runKeeps (fun g => Reworked f g ∧ g.Acyclic) step ⟨.refl f, woven.acyclic⟩).2

end

variable {f : Fabric}

theorem resolveAcyclic (woven : f.Woven) : f.resolve.1.Acyclic := by
  unfold resolve
  split
  · exact woven.acyclic
  rename_i passes ok
  have kept := runAcyclic woven (passesCollect ok) passes (fun _ member => member)
  split
  · rename_i same
    rw [same] at kept
    exact kept
  · rename_i same
    rw [same] at kept
    exact kept

theorem resolves {g : Fabric} (ok : f.resolve = (g, .ok ())) :
    ∃ passes, f.passes = .ok passes ∧ f.runPasses passes = (g, .ok ()) ∧
      g.checkBottoms = .ok () := by
  unfold resolve at ok
  split at ok
  · cases ok
  rename_i passes collected
  split at ok
  · cases ok
  · rename_i run
    obtain ⟨rfl, checked⟩ := Prod.mk.inj ok
    exact ⟨passes, collected, run, checked⟩

theorem checkedBottom (checked : f.checkBottoms = .ok ()) {s : Stitch} (member : s ∈ f.stitches)
    {b : BottomNode} (pair : (b, node) ∈ s.template.bottoms.zip s.bottoms) :
    (f.descend node b.depth).isSome = true := by
  obtain ⟨i, found⟩ := List.mem_iff_getElem?.mp member
  have inside : (s, i) ∈ f.stitches.zipIdx := List.mk_mem_zipIdx_iff_getElem?.mpr found
  have fine := forMOk (forMOk checked (s, i) inside) (b, node) pair
  simp only [checkBottom] at fine
  split at fine
  · cases fine
  split at fine
  · cases fine
  · rename_i deep
    exact Option.isSome_iff_ne_none.mpr (by simpa using deep)

theorem checkFault (acyclic : f.Acyclic) {fault : Fault} (failed : f.checkBottoms = .error fault) :
    ∃ (i : Nat) (s : Stitch) (b : BottomNode) (node : NodeRef), f.stitches[i]? = some s ∧
      (b, node) ∈ s.template.bottoms.zip s.bottoms ∧ f.descend node b.depth = none ∧
      fault = { cause := .label (.tooDeep s.name b.depth node), span := some s.source } := by
  obtain ⟨⟨s, i⟩, member, failed⟩ := forMError failed
  obtain ⟨⟨b, node⟩, inside, failed⟩ := forMError failed
  have found : f.stitches[i]? = some s := List.mk_mem_zipIdx_iff_getElem?.mp member
  have earlier : node.ids.all (fun id => f.producedBefore id i) = true := by
    rw [List.all_eq_true]
    intro id dependent
    exact producedBeforeIff.mpr (acyclic i s found node (List.of_mem_zip inside).2 id dependent)
  simp only [checkBottom, earlier, Bool.not_true, Bool.false_eq_true, if_false] at failed
  split at failed
  · rename_i tooDeep
    cases failed
    exact ⟨i, s, b, node, found, inside, Option.isNone_iff_eq_none.mp tooDeep, rfl⟩
  · cases failed

def widePiece : MappedText :=
  MappedText.ofSource "ch,ch.A,ch.A,ch\nsc@A+,sc@A+,deep@A+".toList

def deepStitches : Registry :=
  (Registry.plain.defineSpec "deep" "&deep^A(sc):3B~A-B::!-1-A;B-1-A").2

end Fabric
end Crochet
