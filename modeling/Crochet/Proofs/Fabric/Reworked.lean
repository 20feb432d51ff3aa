import Crochet.Proofs.Fabric.Spread
import Crochet.Proofs.Fabric.Weaving

/-! Passes change what bottoms are worked into and nothing else: stitches keep their place, their
tops and the number of their bottoms, and labels and uses stay. -/
namespace Crochet

def Stitch.outline (s : Stitch) : Stitch × Nat := ({ s with bottoms := [] }, s.bottoms.length)

namespace Stitch
variable {s t : Stitch} (same : t.outline = s.outline)
include same

theorem outlineTops : t.tops = s.tops := congrArg (·.1.tops) same

theorem outlineTopIndex (id : Nat) : t.topIndex? id = s.topIndex? id := by
  simp only [topIndex?, outlineTops same]

theorem outlineTemplate : t.template = s.template := congrArg (·.1.template) same

theorem outlineBottoms : t.bottoms.length = s.bottoms.length := congrArg Prod.snd same

theorem outlineEq (bottoms : t.bottoms = s.bottoms) : t = s := by
  have put := congrArg (fun u => { u.1 with bottoms := s.bottoms }) same
  calc t = { t with bottoms := s.bottoms } := by rw [← bottoms]
    _ = s := put

end Stitch

namespace Fabric

structure Reworked (f g : Fabric) : Prop where
  rest : g = { f with stitches := g.stitches }
  stitches : g.stitches.map Stitch.outline = f.stitches.map Stitch.outline

namespace Reworked
variable {f g h : Fabric}

theorem refl (f : Fabric) : Reworked f f := ⟨rfl, rfl⟩

theorem trans (first : Reworked f g) (second : Reworked g h) : Reworked f h where
  rest := by
    rw [second.rest, first.rest]
  stitches := second.stitches.trans first.stitches

theorem symm (reworked : Reworked f g) : Reworked g f where
  rest := by
    rw [reworked.rest]
  stitches := reworked.stitches.symm

variable (reworked : Reworked f g)
include reworked

theorem labelSame (key : String) : g.label? key = f.label? key := by
  rw [reworked.rest]
  rfl

theorem source {i : Nat} {t : Stitch} (found : g.stitches[i]? = some t) :
    ∃ s, f.stitches[i]? = some s ∧ t.outline = s.outline := by
  have same := congrArg (·[i]?) reworked.stitches
  simp only [List.getElem?_map, found, Option.map_some] at same
  obtain ⟨s, atSource, outline⟩ := Option.map_eq_some_iff.mp same.symm
  exact ⟨s, atSource, outline.symm⟩

theorem memberSource {t : Stitch} (member : t ∈ g.stitches) :
    ∃ s ∈ f.stitches, t.outline = s.outline := by
  obtain ⟨i, found⟩ := List.mem_iff_getElem?.mp member
  obtain ⟨s, atSource, same⟩ := reworked.source found
  exact ⟨s, List.mem_of_getElem? atSource, same⟩

theorem ownedBefore {id limit : Nat} (owned : f.OwnedBefore id limit) : g.OwnedBefore id limit := by
  obtain ⟨j, s, before, found, owns⟩ := owned
  obtain ⟨t, place, same⟩ := reworked.symm.source found
  refine ⟨j, t, before, place, ?_⟩
  rw [Stitch.owns, ← Stitch.outlineTopIndex same]
  exact owns

theorem bottomCountSame (i : Nat) : g.bottomCount i = f.bottomCount i := by
  have same := congrArg (·[i]?) reworked.stitches
  simp only [List.getElem?_map] at same
  unfold bottomCount
  cases found : g.stitches[i]? with
  | none =>
    rw [found] at same
    rw [Option.map_eq_none_iff.mp same.symm]
  | some t =>
    obtain ⟨s, atSource, outline⟩ := reworked.source found
    rw [atSource]
    exact Stitch.outlineBottoms outline

theorem counted (counted : f.Counted) : g.Counted where
  uid := by
    intro i t found
    obtain ⟨s, atSource, same⟩ := reworked.source found
    have uid : t.uid = s.uid := congrArg (·.1.uid) same
    exact uid.trans (counted.uid i s atSource)
  firstLeNext := by
    rw [reworked.rest]
    exact counted.firstLeNext
  ids := by
    have tops (xs : List Stitch) :
        xs.flatMap Stitch.tops = (xs.map Stitch.outline).flatMap (·.1.tops) := by
      rw [List.flatMap_map]
      rfl
    rw [tops, reworked.stitches, ← tops, reworked.rest]
    exact counted.ids
  tops := by
    intro t member
    obtain ⟨s, inSource, same⟩ := reworked.memberSource member
    rw [Stitch.outlineTops same, Stitch.outlineTemplate same]
    exact counted.tops s inSource
  bottoms := by
    intro t member
    obtain ⟨s, inSource, same⟩ := reworked.memberSource member
    rw [Stitch.outlineBottoms same, Stitch.outlineTemplate same]
    exact counted.bottoms s inSource

end Reworked

theorem setBottomReworked (f : Fabric) (i b : Nat) (node : NodeRef) :
    Reworked f (f.setBottom i b node) where
  rest := rfl
  stitches := by
    refine List.ext_getElem? fun j => ?_
    simp only [setBottom, List.getElem?_map, List.getElem?_modify]
    cases f.stitches[j]? with
    | none => rfl
    | some s =>
      by_cases here : i = j
      · simp [here, Stitch.outline]
      · simp [here]

theorem assignReworked (f : Fabric) (entries : List ((Nat × Nat) × NodeRef)) :
    Reworked f (entries.foldl assign f) := by
  induction entries generalizing f with
  | nil => exact .refl f
  | cons entry rest ih => exact (setBottomReworked f _ _ _).trans (ih (f.assign entry))

theorem runReworked (f : Fabric) (passes : List Pass) : Reworked f (f.runPasses passes).1 := by
  induction passes generalizing f with
  | nil => exact .refl f
  | cons p rest ih =>
    unfold runPasses
    split
    · exact .refl f
    · rename_i entries _
      exact (assignReworked f entries).trans (ih _)

variable {i b : Nat} {node : NodeRef} {entries : List ((Nat × Nat) × NodeRef)}
variable {f : Fabric}

theorem setBottomAt {j : Nat} {t : Stitch} (found : (f.setBottom i b node).stitches[j]? = some t) :
    ∃ s, f.stitches[j]? = some s ∧
      t.bottoms = if i = j then s.bottoms.set b node else s.bottoms := by
  simp only [setBottom, List.getElem?_modify] at found
  obtain ⟨s, place, rfl⟩ := Option.map_eq_some_iff.mp found
  refine ⟨s, place, ?_⟩
  split <;> rfl

/- The last entry for a bottom decides. -/
theorem bottomAfter {t : Stitch} (found : (entries.foldl assign f).stitches[i]? = some t)
    (bottom : t.bottoms[b]? = some node) :
    ((i, b), node) ∈ entries ∨ (i, b) ∉ entries.map Prod.fst ∧
      ∃ s, f.stitches[i]? = some s ∧ s.bottoms[b]? = some node := by
  induction entries generalizing f with
  | nil => exact .inr ⟨by simp, t, found, bottom⟩
  | cons entry rest ih =>
    obtain ⟨⟨j, c⟩, other⟩ := entry
    rcases ih found with later | ⟨never, s, place, kept⟩
    · exact .inl (List.mem_cons_of_mem _ later)
    obtain ⟨old, before, same⟩ := setBottomAt (i := j) (b := c) place
    rw [same] at kept
    by_cases here : j = i
    · rw [if_pos here, List.getElem?_set] at kept
      by_cases spot : c = b
      · subst here spot
        rw [if_pos rfl] at kept
        split at kept
        · cases kept
          exact .inl List.mem_cons_self
        · cases kept
      · rw [if_neg spot] at kept
        refine .inr ⟨?_, old, before, kept⟩
        simpa [Ne.symm spot] using never
    · rw [if_neg here] at kept
      refine .inr ⟨?_, old, before, kept⟩
      simpa [Ne.symm here] using never

/- A property of what stitches are worked into survives a pass if the anchors of the pass have it
and it passes on to the points between them. -/
theorem passKeeps {p : Pass} {P : Nat → NodeRef → Prop} (ok : f.assignments p = .ok entries)
    (before : ∀ (i : Nat) (s : Stitch), f.stitches[i]? = some s → ∀ node ∈ s.bottoms, P i node)
    (anchors : ∀ i ∈ p.stitches, ∀ node, AnchorOf f p node → P i node)
    (joined : ∀ i near far nearPull farPull, P i near → P i far →
      P i (.between near far nearPull farPull)) :
    ∀ (i : Nat) (t : Stitch), (entries.foldl assign f).stitches[i]? = some t →
      ∀ node ∈ t.bottoms, P i node := by
  intro i t found node member
  obtain ⟨spread, assigns⟩ := assigns ok
  obtain ⟨b, bottom⟩ := List.mem_iff_getElem?.mp member
  rcases bottomAfter found bottom with entry | ⟨_, s, place, kept⟩
  · obtain ⟨k, slot⟩ := List.mem_iff_getElem?.mp entry
    have inside : (i, b) ∈ f.slots p := assigns.slots ▸ List.mem_map_of_mem entry
    have worked := (slotMember.mp inside).1
    exact (slotAt (assigns.nodes k (i, b) node slot)).fromAnchors
      (fun anchor member => anchors i worked anchor (spreadAnchor assigns.spread member)) (joined i)
  · exact before i s place node (List.mem_of_getElem? kept)

theorem runKeeps (Inv : Fabric → Prop) {passes : List Pass}
    (keeps : ∀ p ∈ passes, ∀ f entries, Inv f → f.assignments p = .ok entries →
      Inv (entries.foldl assign f)) (initial : Inv f) :
    Inv (f.runPasses passes).1 := by
  induction passes generalizing f with
  | nil => exact initial
  | cons p rest ih =>
    unfold runPasses
    split
    · exact initial
    · rename_i entries ok
      exact ih (fun q member => keeps q (List.mem_cons_of_mem _ member))
        (keeps p List.mem_cons_self f entries initial ok)

end Fabric
end Crochet
