import Crochet.Proofs.Fabric.Resolution

/-! Posts. A bottom around a post names an inner node of the stitch it goes around, provided the
templates are closed; placing stitches and working out labels both keep that. -/
namespace Crochet

theorem Stitch.InnerEnd.hidden {t : Template} {name : String} (inner : InnerEnd t name)
    (closed : t.Closed) : t.role name = some .hidden := by
  obtain ⟨c, member, tail⟩ := inner.joined
  have named := (closed.ends c member).1
  rw [tail] at named
  obtain ⟨role, found⟩ := Option.isSome_iff_exists.mp (Template.roleSome.mpr named)
  cases role with
  | top =>
    have notTop := inner.notTop
    simp [Template.isTop, found] at notTop
  | bottom =>
    obtain ⟨n, inside, same⟩ := Template.roleBottom found
    have absent := List.findIdx?_eq_none_iff.mp inner.notBottom n inside
    simp [same] at absent
  | hidden => exact found

namespace Fabric

def HooksOn (f : Fabric) (node : NodeRef) : Prop :=
  ∀ hook ∈ node.posts, ∃ s ∈ f.stitches, s.owns hook.1 = true ∧
    s.template.role hook.2 = some .hidden

structure Hooked (f : Fabric) : Prop where
  closed : ∀ s ∈ f.stitches, s.template.Closed
  hooks : ∀ s ∈ f.stitches, ∀ node ∈ s.bottoms, f.HooksOn node

theorem topHooks (f : Fabric) (id : Nat) : f.HooksOn (.top id) := by
  intro hook member
  cases member

variable {f : Fabric} {node : NodeRef} {p : Pass} {w v after : Work} {item : Row.Item} {spot : Spot}

theorem betweenHooks {near far : NodeRef} (nearPull farPull : Float) (left : f.HooksOn near)
    (right : f.HooksOn far) :
    f.HooksOn (.between near far nearPull farPull) := by
  intro hook member
  rcases List.mem_append.mp member with inNear | inFar
  · exact left hook inNear
  · exact right hook inFar

theorem postHooks (hooked : f.Hooked) {id : Nat} {which : Int} {s : Stitch} {target : NodeRef}
    {length : Length} (owner : f.owner? id = some s)
    (reached : s.postTarget id which = some (target, length)) : f.HooksOn target := by
  obtain ⟨⟨j, place⟩, top⟩ := ownerAt owner
  have member := List.mem_of_getElem? place
  obtain ⟨_, _, below | ⟨name, rfl, inner⟩⟩ := Stitch.postTargetCases reached
  · exact hooked.hooks s member target below
  · intro hook same
    rw [List.mem_singleton.mp same]
    exact ⟨s, member, top, inner.hidden (hooked.closed s member)⟩

theorem sourceHooks (hooked : f.Hooked) {stands : Bool} (source : Work.BottomSource f stands node) :
    f.HooksOn node := by
  cases source with
  | made first next => exact topHooks f _
  | standIn waits => exact topHooks f _
  | post owner reached => exact postHooks hooked owner reached

theorem anchorHooks (hooked : f.Hooked) (anchor : AnchorOf f p node) : f.HooksOn node := by
  cases anchor with
  | own label member => exact topHooks f _
  | neighbour earlier => exact topHooks f _
  | post label member owner reached => exact postHooks hooked owner reached

theorem hookedPlaced {name : String} {template : Template} {plain bottoms : List NodeRef}
    {labels : List Label}
    (placed : Work.Placed w name item template spot v plain bottoms labels after)
    (closed : template.Closed) (hooked : v.fabric.Hooked) : after.fabric.Hooked := by
  have added := placed.added
  have kept : ∀ node, v.fabric.HooksOn node → after.fabric.HooksOn node := by
    intro node hooks hook member
    obtain ⟨s, inside, facts⟩ := hooks hook member
    exact ⟨s, by rw [added]; exact List.mem_append_left _ inside, facts⟩
  constructor
  · intro s member
    rw [added] at member
    rcases List.mem_append.mp member with old | new
    · exact hooked.closed s old
    · cases List.mem_singleton.mp new
      exact closed
  · intro s member node bottom
    rw [added] at member
    rcases List.mem_append.mp member with old | new
    · exact kept node (hooked.hooks s old node bottom)
    · cases List.mem_singleton.mp new
      exact kept node (sourceHooks hooked (placed.bottomSource bottom))

structure HookedWork (w : Work) : Prop where
  registry : w.registry.Every Template.Closed
  fabric : w.fabric.Hooked

theorem hookedLocated (located : Work.Located w spot v) (hooked : w.fabric.Hooked) :
    v.fabric.Hooked := by
  rw [located.fabric]
  exact ⟨hooked.closed, hooked.hooks⟩

theorem hookedItem (kept : HookedWork w) (ok : w.putItem item = .ok after) : HookedWork after := by
  rcases Work.putItemCases ok with rfl | ⟨spot, v, located, rfl⟩ |
    ⟨name, template, spot, v, plain, bottoms, labels, placed⟩
  · exact kept
  · have registry : v.registry.Every Template.Closed := located.registry ▸ kept.registry
    have fabric : v.fabric.Hooked := hookedLocated located kept.fabric
    exact ⟨registry, fabric⟩
  · have every := Registry.everyResolve Registry.closedHereditary kept.registry name
    have closed := Registry.resolvedHolds Registry.closedHereditary kept.registry placed.resolved
    rw [placed.resolved] at every
    refine ⟨placed.registry ▸ every, hookedPlaced placed closed ?_⟩
    exact hookedLocated placed.located kept.fabric

theorem hookedRow {row : List Row.Item} (kept : HookedWork w) (ok : w.putRow row = .ok after) :
    HookedWork after := by
  obtain ⟨v, items, rfl⟩ := putRowParts ok
  have hooked := foldKeeps HookedWork (fun item _ w next kept one => hookedItem kept one) ?_ items
  · exact ⟨hooked.registry, hooked.fabric.closed, hooked.fabric.hooks⟩
  · exact ⟨by rw [startRowRegistry]; exact kept.registry, by rw [startRowFabric]; exact kept.fabric⟩

theorem weaveHooked {rows : Rows} {registry : Registry} {options : Options}
    (reached : registry.Reached) (ok : weave rows registry options = .ok f) : f.Hooked := by
  obtain ⟨w, run, rfl⟩ := mapOk ok
  have hooked := foldKeeps HookedWork (fun row _ w next kept one => hookedRow kept one) ?_ run
  · exact hooked.fabric
  · refine ⟨Registry.everyReached Registry.closedHereditary reached, ?_, ?_⟩ <;> simp [Work.start]

theorem Reworked.hooksOn {g : Fabric} (reworked : Reworked f g) (hooks : f.HooksOn node) :
    g.HooksOn node := by
  intro hook member
  obtain ⟨s, inside, top, hidden⟩ := hooks hook member
  obtain ⟨t, place, same⟩ := reworked.symm.memberSource inside
  refine ⟨t, place, ?_, ?_⟩
  · rw [Stitch.owns, ← Stitch.outlineTopIndex same]; exact top
  · rw [← Stitch.outlineTemplate same]; exact hidden

theorem passHooked (hooked : f.Hooked) {entries : List ((Nat × Nat) × NodeRef)}
    (ok : f.assignments p = .ok entries) :
    (entries.foldl assign f).Hooked := by
  have reworked := assignReworked f entries
  constructor
  · intro t member
    obtain ⟨s, inside, same⟩ := reworked.memberSource member
    rw [Stitch.outlineTemplate same]
    exact hooked.closed s inside
  · intro t member node bottom
    obtain ⟨i, place⟩ := List.mem_iff_getElem?.mp member
    have kept := passKeeps (P := fun _ node => f.HooksOn node) ok
      (fun _ s found => hooked.hooks s (List.mem_of_getElem? found))
      (fun _ _ _ anchor => anchorHooks hooked anchor)
      (fun _ _ _ nearPull farPull => betweenHooks nearPull farPull)
    exact reworked.hooksOn (kept i t place node bottom)

theorem runHooked (hooked : f.Hooked) (passes : List Pass) :
    (f.runPasses passes).1.Hooked :=
  runKeeps Hooked (fun _ _ _ _ kept ok => passHooked kept ok) hooked

end Fabric
end Crochet
