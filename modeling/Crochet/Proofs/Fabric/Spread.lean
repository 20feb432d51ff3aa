import Crochet.Proofs.Fabric.Passes
import Crochet.Proofs.Fabric.References

/-! What a pass puts into the bottoms of its stitches: one of its anchors, or a point between two of
them. The anchors are tops of the label, neighbours of these, and what one post leads to. -/
namespace Crochet
namespace Fabric

inductive AnchorOf (f : Fabric) (p : Pass) : NodeRef → Prop where
  | own {l : Label} {id : Nat} (label : f.label? p.key = some l) (member : id ∈ l.ids) :
      AnchorOf f p (.top id)
  | neighbour {id : Nat} (earlier : f.producedBefore id (p.stitches.min?.getD 0) = true) :
      AnchorOf f p (.top id)
  | post {l : Label} {first : Nat} {which : Int} {s : Stitch} {target : NodeRef} {length : Length}
      (label : f.label? p.key = some l) (member : first ∈ l.ids) (owner : f.owner? first = some s)
      (reached : s.postTarget first which = some (target, length)) : AnchorOf f p target

variable {f : Fabric} {p : Pass} {node : NodeRef} {ids : List Nat} {first last k : Nat} {s : Spread}
  {key : String}

theorem neighbourOk {id : Option Nat} (ok : f.neighbour p id = .ok node) :
    ∃ n, node = .top n ∧ f.producedBefore n (p.stitches.min?.getD 0) = true := by
  unfold neighbour at ok
  split at ok
  · cases ok
  split at ok
  · rename_i earlier
    cases ok
    exact ⟨_, rfl, earlier⟩
  · cases ok

structure Widened (f : Fabric) (p : Pass) (ids : List Nat) (nodes : List NodeRef) : Prop where
  sides : ∃ left right, nodes = left ++ ids.map NodeRef.top ++ right ∧
    ∀ node ∈ left ++ right,
      ∃ n, node = .top n ∧ f.producedBefore n (p.stitches.min?.getD 0) = true
  plain : p.modifiers.extend = none → nodes = ids.map NodeRef.top

theorem widens {nodes : List NodeRef} (ok : f.widened p ids first last = .ok nodes) :
    Widened f p ids nodes := by
  simp only [widened] at ok
  cases written : p.modifiers.extend with
  | none =>
    simp only [written, pure_bind] at ok
    cases pureOk ok
    exact ⟨⟨[], [], by simp⟩, by simp⟩
  | some side =>
    cases side with
    | both =>
      simp only [written] at ok
      obtain ⟨near, one, ok⟩ := bindOk ok
      simp only [pure_bind] at ok
      obtain ⟨far, two, ok⟩ := bindOk ok
      cases pureOk ok
      refine ⟨⟨[near], [far], rfl, ?_⟩, by simp [written]⟩
      simpa using ⟨neighbourOk one, neighbourOk two⟩
    | left =>
      simp only [written] at ok
      obtain ⟨near, one, ok⟩ := bindOk ok
      simp only [pure_bind] at ok
      cases pureOk ok
      exact ⟨⟨[near], [], rfl, by simpa using neighbourOk one⟩, by simp [written]⟩
    | right =>
      simp only [written, pure_bind] at ok
      obtain ⟨far, two, ok⟩ := bindOk ok
      cases pureOk ok
      exact ⟨⟨[], [far], rfl, by simpa using neighbourOk two⟩, by simp [written]⟩

structure AroundPost (f : Fabric) (p : Pass) (ids : List Nat) (first : Nat) (which : Option Int)
    (s : Stitch) (target : NodeRef) (length : Length) : Prop where
  written : p.modifiers.post = some which
  single : ids.length = 1
  owner : f.owner? first = some s
  reached : s.postTarget first (which.getD (-1)) = some (target, length)

theorem anchorsCases {nodes : List NodeRef} {length : Option Float}
    (ok : f.anchors p ids first last = .ok (nodes, length)) :
    (p.modifiers.post = none ∧ Widened f p ids nodes ∧ length = none) ∨
      ∃ which s target yarn, AroundPost f p ids first which s target yarn ∧
        nodes = target :: ids.map NodeRef.top ∧
        length = if target.top?.isSome then none else yarn.value? := by
  unfold anchors at ok
  obtain ⟨own, widened, ok⟩ := bindOk ok
  have wide := widens widened
  split at ok
  · rename_i none
    obtain ⟨rfl, rfl⟩ := Prod.mk.inj (pureOk ok)
    exact .inl ⟨none, wide, rfl⟩
  · rename_i which written
    simp only at ok
    split at ok
    · cases ok
    rename_i bare
    split at ok
    · cases ok
    rename_i single
    split at ok
    · cases ok
    · rename_i target yarn found
      obtain ⟨rfl, rfl⟩ := Prod.mk.inj (pureOk ok)
      have same := wide.plain (by simpa using bare)
      obtain ⟨s, owner, reached⟩ := Option.bind_eq_some_iff.mp found
      subst same
      exact .inr ⟨which, s, target, yarn, ⟨written, by simpa using single, owner, reached⟩, rfl, rfl⟩

structure Spreads (f : Fabric) (p : Pass) (l : Label) (first last : Nat) (nodes : List NodeRef)
    (s : Spread) : Prop where
  label : f.label? p.key = some l
  head : l.ids.head? = some first
  final : l.ids.getLast? = some last
  anchored : f.anchors p l.ids first last = .ok (nodes, s.length)
  laid : s.anchors = nodes ∨ s.anchors = nodes.reverse
  total : s.total = (f.slots p).length + (skipped p.modifiers.skip).1
  offset : s.offset = (skipped p.modifiers.skip).2.1 ∨
    (skipped p.modifiers.skip).2.2 = true ∧ s.offset = 1 - (skipped p.modifiers.skip).2.1

theorem spreads (ok : f.spread p = .ok s) :
    ∃ l first last nodes, Spreads f p l first last nodes s := by
  unfold spread at ok
  split at ok
  · cases ok
  rename_i l label
  split at ok
  · rename_i first last head final
    obtain ⟨⟨nodes, length⟩, anchored, ok⟩ := bindOk ok
    obtain ⟨⟨empty, offset, oneSided⟩, skips⟩ : ∃ skip, skipped p.modifiers.skip = skip := ⟨_, rfl⟩
    simp only [skips] at ok
    rcases iteOk ok with rfl | rfl
    · refine ⟨l, first, last, nodes, label, head, final, anchored, .inr rfl, by rw [skips], ?_⟩
      rw [skips]
      cases oneSided with
      | false => exact .inl rfl
      | true => exact .inr ⟨rfl, rfl⟩
    · exact ⟨l, first, last, nodes, label, head, final, anchored, .inl rfl, by rw [skips],
        .inl (by rw [skips])⟩
  · cases ok

theorem Spreads.member {l : Label} {nodes : List NodeRef}
    (spreads : Spreads f p l first last nodes s) (member : node ∈ s.anchors) : node ∈ nodes := by
  rcases spreads.laid with same | same
  · exact same ▸ member
  · exact List.mem_reverse.mp (same ▸ member)

theorem Spreads.margins {l : Label} {nodes : List NodeRef}
    (spreads : Spreads f p l first last nodes s) : s.offset ≤ 1 ∧
      s.offset + (f.slots p).length ≤ s.total ∧ s.total ≤ s.offset + (f.slots p).length + 1 := by
  have total := spreads.total
  have offset := spreads.offset
  cases skip : p.modifiers.skip with
  | none =>
    simp only [skip, skipped, Bool.false_eq_true, false_and, or_false] at total offset
    omega
  | some ends =>
    cases ends <;>
      simp only [skip, skipped, Bool.false_eq_true, false_and, or_false, true_and] at total offset <;>
      omega

theorem spreadAnchor (ok : f.spread p = .ok s) (member : node ∈ s.anchors) : AnchorOf f p node := by
  obtain ⟨l, first, last, nodes, spreads⟩ := spreads ok
  have inNodes := spreads.member member
  have own : ∀ id ∈ l.ids, AnchorOf f p (.top id) := fun id inside => .own spreads.label inside
  rcases anchorsCases spreads.anchored with ⟨_, wide, _⟩ | ⟨which, t, target, yarn, around, same, _⟩
  · obtain ⟨left, right, same, sides⟩ := wide.sides
    subst same
    have beside : node ∈ left ++ right → AnchorOf f p node := by
      intro inside
      obtain ⟨n, rfl, earlier⟩ := sides node inside
      exact .neighbour earlier
    rcases List.mem_append.mp inNodes with inside | inRight
    · rcases List.mem_append.mp inside with inLeft | inOwn
      · exact beside (List.mem_append_left _ inLeft)
      · obtain ⟨id, inIds, rfl⟩ := List.mem_map.mp inOwn
        exact own id inIds
    · exact beside (List.mem_append_right _ inRight)
  · subst same
    rcases List.mem_cons.mp inNodes with rfl | inOwn
    · exact .post spreads.label (List.mem_of_head? spreads.head) around.owner around.reached
    · obtain ⟨id, inIds, rfl⟩ := List.mem_map.mp inOwn
      exact own id inIds

theorem anchorAtOk {anchors : List NodeRef} (ok : anchorAt key anchors k = .ok node) :
    anchors[k]? = some node := by
  unfold anchorAt at ok
  split at ok
  · rename_i found
    cases ok
    exact found
  · cases ok

def Spread.share (s : Spread) (k : Nat) : Nat × Nat :=
  if 1 < s.total then ((k + s.offset) * (s.anchors.length - 1), s.total - 1)
  else (s.anchors.length - 1, 2)

inductive SlotAt (s : Spread) (k : Nat) : NodeRef → Prop where
  | paired {node : NodeRef} (same : s.anchors.length = s.total)
      (found : s.anchors[k + s.offset]? = some node) : SlotAt s k node
  | exact {node : NodeRef} (different : s.anchors.length ≠ s.total)
      (whole : (s.share k).1 % (s.share k).2 = 0)
      (found : s.anchors[(s.share k).1 / (s.share k).2]? = some node) : SlotAt s k node
  | between {near far : NodeRef} (different : s.anchors.length ≠ s.total)
      (part : (s.share k).1 % (s.share k).2 ≠ 0)
      (left : s.anchors[(s.share k).1 / (s.share k).2]? = some near)
      (right : s.anchors[(s.share k).1 / (s.share k).2 + 1]? = some far)
      (nearPull farPull : Float) : SlotAt s k (.between near far nearPull farPull)

theorem slotAt (ok : f.slotNode key s k = .ok node) : SlotAt s k node := by
  unfold slotNode at ok
  simp only [← Spread.share.eq_def] at ok
  split at ok
  · rename_i same
    exact .paired same (anchorAtOk ok)
  rename_i different
  obtain ⟨near, left, ok⟩ := bindOk ok
  split at ok
  · rename_i whole
    cases pureOk ok
    exact .exact different whole (anchorAtOk left)
  rename_i part
  obtain ⟨far, right, ok⟩ := bindOk ok
  split at ok
  · obtain ⟨length, _, ok⟩ := bindOk ok
    cases pureOk ok
    exact .between different part (anchorAtOk left) (anchorAtOk right) _ _
  · obtain ⟨length, _, ok⟩ := bindOk ok
    cases pureOk ok
    exact .between different part (anchorAtOk left) (anchorAtOk right) _ _

theorem SlotAt.fromAnchors (slot : SlotAt s k node) {P : NodeRef → Prop}
    (each : ∀ anchor ∈ s.anchors, P anchor) (joined : ∀ near far nearPull farPull, P near → P far →
      P (.between near far nearPull farPull)) : P node := by
  cases slot with
  | paired _ found => exact each node (List.mem_of_getElem? found)
  | exact _ _ found => exact each node (List.mem_of_getElem? found)
  | between _ _ left right nearPull farPull =>
    exact joined _ _ _ _ (each _ (List.mem_of_getElem? left)) (each _ (List.mem_of_getElem? right))

structure Assigns (f : Fabric) (p : Pass) (s : Spread) (entries : List ((Nat × Nat) × NodeRef)) :
    Prop where
  spread : f.spread p = .ok s
  slots : entries.map Prod.fst = f.slots p
  nodes : ∀ (k : Nat) (slot : Nat × Nat) (node : NodeRef), entries[k]? = some (slot, node) →
    f.slotNode p.key s k = .ok node

theorem assigns {entries : List ((Nat × Nat) × NodeRef)} (ok : f.assignments p = .ok entries) :
    ∃ s, Assigns f p s entries := by
  unfold assignments at ok
  obtain ⟨s, spread, run⟩ := bindOk (mapErrorOk ok)
  have entryAt : ∀ k : Nat, ∀ slot node, entries[k]? = some (slot, node) →
      (f.slots p)[k]? = some slot ∧ f.slotNode p.key s k = .ok node := by
    intro k slot node found
    obtain ⟨⟨slot', k'⟩, source, made⟩ := (mapMAt run k).2 _ found
    rw [List.getElem?_zipIdx] at source
    obtain ⟨slot'', atSlot, same⟩ := Option.map_eq_some_iff.mp source
    obtain ⟨rfl, rfl⟩ := Prod.mk.inj same
    obtain ⟨node', slotOk, made⟩ := bindOk made
    obtain ⟨rfl, rfl⟩ := Prod.mk.inj (pureOk made)
    exact ⟨atSlot, by simpa using slotOk⟩
  refine ⟨s, spread, ?_, fun k slot node found => (entryAt k slot node found).2⟩
  have lengths : entries.length = (f.slots p).length := by
    simpa using mapMLength run
  refine List.ext_getElem? fun k => ?_
  rw [List.getElem?_map]
  cases found : entries[k]? with
  | none =>
    rw [List.getElem?_eq_none_iff, lengths] at found
    simp [found]
  | some entry => exact (entryAt k entry.1 entry.2 found).1.symm

theorem slotMember {i b : Nat} :
    (i, b) ∈ f.slots p ↔ i ∈ p.stitches ∧ b < f.bottomCount i := by
  simp [slots]

end Fabric
end Crochet
