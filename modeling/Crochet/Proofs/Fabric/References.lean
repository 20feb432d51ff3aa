import Crochet.Fabric.Stitch

/-! Shapes of references, and what working around a post can reach: a node inside the stitch, or
whatever one of its bottoms is worked into. -/
namespace Crochet
namespace NodeRef

def isAnchor : NodeRef → Bool
  | between _ _ _ _ => false
  | _ => true

def isPair : NodeRef → Bool
  | between near far _ _ => near.isAnchor && far.isAnchor
  | _ => true

def posts : NodeRef → List (Nat × String)
  | top _ => []
  | post id node => [(id, node)]
  | between near far _ _ => near.posts ++ far.posts

theorem anchorPair {node : NodeRef} (anchor : node.isAnchor = true) : node.isPair = true := by
  cases node with
  | top id => rfl
  | post id name => rfl
  | between near far nearPull farPull => cases anchor

end NodeRef

namespace Stitch

variable {which : Int} {s : Stitch} {id : Nat}

theorem pickMember {xs : List α} {x : α} (found : pick? xs which = some x) :
    x ∈ xs := by
  unfold pick? at found
  split at found
  · split at found
    · exact List.mem_of_getElem? found
    · cases found
  · exact List.mem_of_getElem? found

theorem postConnection {top : String} {c : Connection} (member : c ∈ s.postConnections top) :
    c ∈ s.template.connections ∧ s.template.isTop c.tail = false ∧ c.length.value?.isSome = true := by
  obtain ⟨inside, kept⟩ := List.mem_filter.mp (List.mem_mergeSort.mp member)
  simp only [Bool.and_eq_true, Bool.not_eq_true'] at kept
  exact ⟨inside, kept.1.2, kept.2⟩

structure InnerEnd (t : Template) (name : String) : Prop where
  joined : ∃ c ∈ t.connections, c.tail = .node name
  notTop : t.isTop (.node name) = false
  notBottom : t.bottomIndex? name = none

theorem postTargetCases {target : NodeRef} {length : Length}
    (reached : s.postTarget id which = some (target, length)) :
    s.owns id = true ∧ length.value?.isSome = true ∧
      (target ∈ s.bottoms ∨ ∃ name, target = .post id name ∧ InnerEnd s.template name) := by
  simp only [postTarget, bind, Option.bind_eq_some_iff] at reached
  obtain ⟨top, named, c, picked, name, tailName, ends⟩ := reached
  obtain ⟨inside, notTop, valued⟩ := postConnection (pickMember picked)
  have tail : c.tail = .node name := by
    cases shape : c.tail with
    | previous => rw [shape] at tailName; cases tailName
    | node other => rw [shape] at tailName; cases tailName; rfl
  simp only [topName?, topNode?, bind, Option.map_eq_some_iff, Option.bind_eq_some_iff] at named
  obtain ⟨_, ⟨i, index, _⟩, _⟩ := named
  refine ⟨by rw [owns, index]; rfl, ?_⟩
  split at ends
  · obtain ⟨node, found, last⟩ := Option.bind_eq_some_iff.mp ends
    cases last
    exact ⟨valued, .inl (List.mem_of_getElem? found)⟩
  · rename_i below
    cases ends
    exact ⟨valued, .inr ⟨name, rfl, ⟨c, inside, tail⟩, tail ▸ notTop, below⟩⟩

end Stitch
end Crochet
