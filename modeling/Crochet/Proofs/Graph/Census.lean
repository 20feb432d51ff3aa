import Crochet.Proofs.Graph.Names
import Crochet.Proofs.Graph.Drawable

/-! The nodes of a graph, counted. They are the tops and inner nodes of the stitches, one node for
each bottom between two anchors that yarn runs to, and the loop sides. -/
namespace Crochet
namespace Template

def valuedEnds (connections : List Connection) : List Endpoint :=
  connections.flatMap fun c => if c.length.value?.isSome then [c.tail, c.head] else []

end Template

def NodeRef.isBetween : NodeRef → Bool
  | between _ _ _ _ => true
  | _ => false

namespace Graph

section
variable (f : Fabric) (i : Nat) (s : Stitch)

def isSplit (entry : BottomNode × Nat) : Bool :=
  (s.bottoms[entry.2]?.bind (f.descend · entry.1.depth)).any NodeRef.isBetween &&
    (Template.valuedEnds s.template.connections).contains (.node entry.1.name)

def splitBottoms : List BottomNode := (s.template.bottoms.zipIdx.filter (isSplit f s)).map Prod.fst

def splitNode (bottom : BottomNode) : GraphNode :=
  { id := hiddenName f i s bottom.name, kind := .hidden, labels := [], display := "hidden"
    color := s.color }

def stitchNodes : List GraphNode :=
  (s.tops.zip s.template.tops).map (topNode f s) ++
    (s.template.hidden.map (innerNode f i s) ++ (splitBottoms f s).map (splitNode f i s))

end

def ownNodes (f : Fabric) : List GraphNode :=
  f.stitches.zipIdx.flatMap fun entry => stitchNodes f entry.2 entry.1

inductive Named (f : Fabric) : String → Prop where
  | top {s : Stitch} (member : s ∈ f.stitches) {id : Nat} (made : id ∈ s.tops) :
      Named f (topText f s id)
  | inner {i : Nat} {s : Stitch} (place : f.stitches[i]? = some s) (name : String) :
      Named f (hiddenName f i s name)

theorem Named.tagged {f : Fabric} {id : String} (named : Named f id) :
    ∃ text, ∃ s ∈ f.stitches, Tagged id text s.uid := by
  cases named with
  | @top s member id made => exact ⟨_, s, member, topTagged f s id⟩
  | @inner i s place name => exact ⟨_, s, List.mem_of_getElem? place, hiddenTagged f s i name⟩

structure IsSide (f : Fabric) (n : GraphNode) (node other : String) (pull : Float) : Prop where
  loop : ∃ s ∈ f.stitches, ∃ id ∈ s.tops, node = topText f s id
  ending : Named f other
  name : n.id = sideText node other pull
  hidden : n.kind = .hidden

structure Known (f : Fabric) (d : Drawing) : Prop where
  tops : ∀ entry ∈ d.tops, ∃ s ∈ f.stitches, entry.1 ∈ s.tops ∧ entry.2 = topText f s entry.1
  splits : ∀ entry ∈ d.splits, Named f entry.2

variable {id b : Nat} {node : String} {target : NodeRef} {r : Option End} {bottom : BottomNode}

section
variable {f : Fabric} {i : Nat} {s : Stitch} {d e : Drawing} {weight : Float}
  {previous : Option Nat}

theorem Known.top (known : Known f d) (drawn : d.top id = .ok node) :
    ∃ s ∈ f.stitches, id ∈ s.tops ∧ node = topText f s id := known.tops _ (topMember drawn)

theorem Known.named (known : Known f d) (drawn : d.top id = .ok node) : Named f node := by
  obtain ⟨s, member, made, rfl⟩ := known.top drawn
  exact .top member made

theorem Known.anchor (known : Known f d) (drawn : anchorName f d target = .ok node) :
    Named f node := by
  rcases anchorCases drawn with ⟨id, _, drawn⟩ | ⟨id, name, s, _, owner, _, rfl⟩
  · exact known.named drawn
  · obtain ⟨i, place⟩ := List.mem_iff_getElem?.mp
      (List.mem_reverse.mp (List.mem_of_find?_eq_some owner))
    rw [postNameHidden owner i]
    exact .inner place name

theorem endKnown (place : f.stitches[i]? = some s) (known : Known f d) {ending : Endpoint}
    (ends : EndAt f weight previous i s d ending r e) :
    Known f e ∧ ∀ x, r = some x → Named f x.node ∧
      ∀ pull, x.pull = some pull → ∃ s ∈ f.stitches, ∃ id ∈ s.tops, x.node = topText f s id := by
  have plain {node : String} {isTop : Bool} (named : Named f node) : Known f d ∧ ∀ x,
      some { node, isTop : End } = some x → Named f x.node ∧ ∀ pull, x.pull = some pull →
        ∃ s ∈ f.stitches, ∃ id ∈ s.tops, x.node = topText f s id := by
    refine ⟨known, ?_⟩
    intro x same
    cases same
    exact ⟨named, fun pull none => by cases none⟩
  cases ends with
  | nothing first => exact ⟨known, fun x none => by cases none⟩
  | before last drawn => exact plain (known.named drawn)
  | top role made drawn => exact plain (known.named drawn)
  | inner role => exact plain (.inner place _)
  | loop sits drawn =>
    refine ⟨known, ?_⟩
    intro x same
    cases same
    obtain ⟨t, owner, made, rfl⟩ := known.top drawn
    exact ⟨.top owner made, fun _ _ => ⟨t, owner, _, made, rfl⟩⟩
  | post sits anchor => exact plain (known.anchor anchor)
  | again sits met => exact plain (known.splits _ (lookupMember met))
  | @split name b bottom near far nearPull farPull left right sits fresh nearDrawn farDrawn =>
    have named : Named f (hiddenName f i s bottom.name) := .inner place bottom.name
    refine ⟨⟨known.tops, ?_⟩, fun x same => by cases same; exact (plain named).2 _ rfl⟩
    intro entry inside
    rcases List.mem_cons.mp inside with rfl | old
    · exact named
    · exact known.splits entry old

theorem Sits.same {name : String} {c : Nat} {other : BottomNode} {node : NodeRef}
    (left : Sits f s name b bottom node) (right : Sits f s name c other target) :
    b = c ∧ bottom = other ∧ node = target := by
  obtain rfl : b = c := Option.some.inj (left.index.symm.trans right.index)
  obtain rfl : bottom = other := Option.some.inj (left.here.symm.trans right.here)
  obtain ⟨first, worked, down⟩ := left.worked
  obtain ⟨second, again, same⟩ := right.worked
  obtain rfl : first = second := Option.some.inj (worked.symm.trans again)
  exact ⟨rfl, rfl, Option.some.inj (down.symm.trans same)⟩

theorem Sits.named {name : String} {node : NodeRef} (sits : Sits f s name b bottom node) :
    bottom.name = name := by
  obtain ⟨bound, holds, _⟩ := List.findIdx?_eq_some_iff_getElem.mp sits.index
  have here : s.template.bottoms[b] = bottom :=
    Option.some.inj ((List.getElem?_eq_getElem bound).symm.trans sits.here)
  rw [here] at holds
  exact beq_iff_eq.mp holds

theorem EndAt.drawn {ending : Endpoint} (ends : EndAt f weight previous i s d ending r e) :
    (e = d ∧ ∀ name b bottom node, ending = .node name → Sits f s name b bottom node →
      node.isBetween = true → ∃ split, d.splits.lookup b = some split) ∨
    ∃ name b bottom near far nearPull farPull left right, ending = .node name ∧
      Sits f s name b bottom (.between near far nearPull farPull) ∧ d.splits.lookup b = none ∧
      anchorName f d near = .ok left ∧ anchorName f d far = .ok right ∧
      e = d.split b (hiddenName f i s bottom.name) s.color left right nearPull farPull := by
  cases ends with
  | nothing first => exact .inl ⟨rfl, fun _ _ _ _ none => by cases none⟩
  | before last drawn => exact .inl ⟨rfl, fun _ _ _ _ none => by cases none⟩
  | top role made drawn =>
    refine .inl ⟨rfl, fun name b bottom node same sits _ => ?_⟩
    cases same
    cases role.symm.trans sits.role
  | inner role =>
    refine .inl ⟨rfl, fun name b bottom node same sits _ => ?_⟩
    cases same
    cases role.symm.trans sits.role
  | loop here drawn =>
    refine .inl ⟨rfl, fun name b bottom node same sits between => ?_⟩
    cases same
    obtain ⟨_, _, rfl⟩ := here.same sits
    cases between
  | post here anchor =>
    refine .inl ⟨rfl, fun name b bottom node same sits between => ?_⟩
    cases same
    obtain ⟨_, _, rfl⟩ := here.same sits
    cases between
  | again here met =>
    refine .inl ⟨rfl, fun name b bottom node same sits between => ?_⟩
    cases same
    obtain ⟨rfl, _, _⟩ := here.same sits
    exact ⟨_, met⟩
  | split here fresh nearDrawn farDrawn =>
    exact .inr ⟨_, _, _, _, _, _, _, _, _, rfl, here, fresh, nearDrawn, farDrawn, rfl⟩

def entryNode (s : Stitch) (entry : Nat × String) : GraphNode :=
  { id := entry.2, kind := .hidden, labels := [], display := "hidden", color := s.color }

/- What the connections of a stitch have drawn, once the ends `met` have been asked for. -/
structure Tallied (f : Fabric) (i : Nat) (s : Stitch) (start : List GraphNode) (met : List Endpoint)
    (d : Drawing) (sides : List GraphNode) : Prop where
  nodes : d.graph.nodes.Perm (start ++ (d.splits.map (entryNode s) ++ sides))
  once : (d.splits.map Prod.fst).Nodup
  named : ∀ entry ∈ d.splits, ∃ bottom, s.template.bottoms[entry.1]? = some bottom ∧
    entry.2 = hiddenName f i s bottom.name
  split : ∀ b, b ∈ d.splits.map Prod.fst ↔ ∃ name bottom node, Sits f s name b bottom node ∧
    node.isBetween = true ∧ .node name ∈ met
  sides : ∀ n ∈ sides, ∃ node other pull, IsSide f n node other pull

variable {start sides : List GraphNode} {met : List Endpoint}

theorem Tallied.read (tallied : Tallied f i s start met d sides) {ending : Endpoint}
    (plain : ∀ name b bottom node, ending = .node name → Sits f s name b bottom node →
      node.isBetween = true → b ∈ d.splits.map Prod.fst) :
    Tallied f i s start (met ++ [ending]) d sides where
  nodes := tallied.nodes
  once := tallied.once
  named := tallied.named
  sides := tallied.sides
  split := by
    intro b
    rw [tallied.split]
    constructor
    · rintro ⟨name, bottom, node, sits, between, inside⟩
      exact ⟨name, bottom, node, sits, between, List.mem_append_left _ inside⟩
    · rintro ⟨name, bottom, node, sits, between, inside⟩
      rcases List.mem_append.mp inside with old | new
      · exact ⟨name, bottom, node, sits, between, old⟩
      · exact (tallied.split b).mp
          (plain name b bottom node (List.mem_singleton.mp new).symm sits between)

theorem endTallied {ending : Endpoint} (tallied : Tallied f i s start met d sides)
    (ends : EndAt f weight previous i s d ending r e) :
    Tallied f i s start (met ++ [ending]) e sides := by
  rcases ends.drawn with ⟨rfl, known⟩ |
    ⟨name, b, bottom, near, far, nearPull, farPull, left, right, rfl, here, fresh, _, _, rfl⟩
  · refine tallied.read fun name b bottom node same sits between => ?_
    obtain ⟨split, met⟩ := known name b bottom node same sits between
    exact List.mem_map_of_mem (lookupMember met)
  have absent : b ∉ d.splits.map Prod.fst := by
    intro inside
    obtain ⟨entry, member, rfl⟩ := List.mem_map.mp inside
    simpa using List.lookup_eq_none_iff.mp fresh entry member
  constructor
  · have added : (d.graph.nodes ++ [entryNode s (b, hiddenName f i s bottom.name)]).Perm
        (start ++ (d.splits.map (entryNode s) ++ sides) ++
          [entryNode s (b, hiddenName f i s bottom.name)]) := tallied.nodes.append_right _
    refine added.trans ?_
    rw [List.append_assoc]
    exact List.Perm.append_left start (List.perm_append_singleton _ _)
  · exact List.nodup_cons.mpr ⟨absent, tallied.once⟩
  · intro entry member
    rcases List.mem_cons.mp member with rfl | old
    · exact ⟨bottom, here.here, rfl⟩
    · exact tallied.named entry old
  · intro c
    have old := tallied.split c
    constructor
    · intro inside
      rcases List.mem_cons.mp inside with rfl | before
      · exact ⟨name, bottom, _, here, rfl, by simp⟩
      · obtain ⟨name, bottom, node, sits, between, inside⟩ := old.mp before
        exact ⟨name, bottom, node, sits, between, List.mem_append_left _ inside⟩
    · rintro ⟨other, bottom', node, sits, between, inside⟩
      rcases List.mem_append.mp inside with before | now
      · exact List.mem_cons_of_mem _ (old.mpr ⟨other, bottom', node, sits, between, before⟩)
      · cases List.mem_singleton.mp now
        obtain ⟨rfl, _, _⟩ := here.same sits
        exact List.mem_cons_self
  · exact tallied.sides

theorem joinDrawn (color : String) (length : Float) (soft : Bool) {tail head : End}
    (tailNamed : Named f tail.node) (headNamed : Named f head.node)
    (tailLoop : ∀ pull, tail.pull = some pull →
      ∃ s ∈ f.stitches, ∃ id ∈ s.tops, tail.node = topText f s id)
    (headLoop : ∀ pull, head.pull = some pull →
      ∃ s ∈ f.stitches, ∃ id ∈ s.tops, head.node = topText f s id) :
    ∃ new, (joinEnds d color length soft tail head).graph.nodes = d.graph.nodes ++ new ∧
      (joinEnds d color length soft tail head).tops = d.tops ∧
      (joinEnds d color length soft tail head).splits = d.splits ∧
      ∀ n ∈ new, ∃ node other pull, IsSide f n node other pull := by
  have sides : ∃ new, (loopSides d color tail head).2.2.graph.nodes = d.graph.nodes ++ new ∧
      (loopSides d color tail head).2.2.tops = d.tops ∧
      (loopSides d color tail head).2.2.splits = d.splits ∧
      ∀ n ∈ new, ∃ node other pull, IsSide f n node other pull := by
    cases left : tail.pull with
    | some pull =>
      simp only [loopSides, left]
      refine ⟨_, rfl, rfl, rfl, ?_⟩
      intro n inside
      rw [List.mem_singleton.mp inside]
      exact ⟨_, _, _, tailLoop pull left, headNamed, rfl, rfl⟩
    | none =>
      cases right : head.pull with
      | some pull =>
        simp only [loopSides, left, right]
        refine ⟨_, rfl, rfl, rfl, ?_⟩
        intro n inside
        rw [List.mem_singleton.mp inside]
        exact ⟨_, _, _, headLoop pull right, tailNamed, rfl, rfl⟩
      | none =>
        exact ⟨[], by simp [loopSides, left, right]⟩
  unfold joinEnds
  split
  · exact ⟨[], by simp [Drawing.addEdge], rfl, rfl, by simp⟩
  · simp only
    split
    · exact sides
    · exact sides

theorem connectTallied (place : f.stitches[i]? = some s) {c : Connection} (known : Known f d)
    (tallied : Tallied f i s start met d sides) (drawn : Connects f weight previous i s d c e) :
    Known f e ∧ ∃ more, Tallied f i s start (met ++ Template.valuedEnds [c]) e (sides ++ more) := by
  cases drawn with
  | skipped none =>
    have nothing : Template.valuedEnds [c] = [] := by simp [Template.valuedEnds, none]
    rw [nothing, List.append_nil]
    exact ⟨known, [], by simpa using tallied⟩
  | loose valued first second missing =>
    have both : Template.valuedEnds [c] = [c.tail] ++ [c.head] := by
      simp [Template.valuedEnds, valued]
    obtain ⟨knownMid, _⟩ := endKnown place known first
    obtain ⟨knownLast, _⟩ := endKnown place knownMid second
    rw [both, ← List.append_assoc]
    exact ⟨knownLast, [], by simpa using endTallied (endTallied tallied first) second⟩
  | joined valued first second =>
    have both : Template.valuedEnds [c] = [c.tail] ++ [c.head] := by
      simp [Template.valuedEnds, valued]
    obtain ⟨knownMid, tailEnd⟩ := endKnown place known first
    obtain ⟨knownLast, headEnd⟩ := endKnown place knownMid second
    have last := endTallied (endTallied tallied first) second
    obtain ⟨tailNamed, tailLoop⟩ := tailEnd _ rfl
    obtain ⟨headNamed, headLoop⟩ := headEnd _ rfl
    obtain ⟨new, nodes, tops, splits, isSide⟩ :=
      joinDrawn s.color _ c.soft tailNamed headNamed tailLoop headLoop
    rw [both, ← List.append_assoc]
    refine ⟨⟨by rw [tops]; exact knownLast.tops, by rw [splits]; exact knownLast.splits⟩, new, ?_⟩
    refine ⟨?_, by rw [splits]; exact last.once, by rw [splits]; exact last.named,
      by rw [splits]; exact last.split, ?_⟩
    · rw [nodes, splits]
      simpa using last.nodes.append_right new
    · intro n inside
      rcases List.mem_append.mp inside with old | side
      · exact last.sides n old
      · exact isSide n side

theorem connectionsTallied (place : f.stitches[i]? = some s) {connections : List Connection}
    (known : Known f d) (tallied : Tallied f i s start met d sides)
    (ok : connections.foldlM (connect f weight previous i s) d = .ok e) :
    Known f e ∧ ∃ more, Tallied f i s start (met ++ Template.valuedEnds connections) e more := by
  induction connections generalizing d met sides with
  | nil =>
    cases pureOk ok
    exact ⟨known, sides, by simpa [Template.valuedEnds] using tallied⟩
  | cons c rest ih =>
    obtain ⟨next, one, later⟩ := foldConsOk ok
    obtain ⟨knownNext, more, counted⟩ := connectTallied place known tallied (connects one)
    obtain ⟨knownLast, all, final⟩ := ih knownNext counted later
    have ends : Template.valuedEnds (c :: rest) =
        Template.valuedEnds [c] ++ Template.valuedEnds rest := by
      simp [Template.valuedEnds]
    rw [ends, ← List.append_assoc]
    exact ⟨knownLast, all, final⟩

theorem openedKnown (member : s ∈ f.stitches) (known : Known f d) : Known f (d.opened f i s) where
  tops := by
    intro entry inside
    rcases List.mem_append.mp inside with new | old
    · obtain ⟨top, zipped, rfl⟩ := List.mem_map.mp (List.mem_reverse.mp new)
      exact ⟨s, member, (List.of_mem_zip zipped).1, rfl⟩
    · exact known.tops entry old
  splits := by
    intro entry inside
    cases inside

theorem splitFound (named : s.template.WellNamed) :
    (bottom, b) ∈ s.template.bottoms.zipIdx.filter (isSplit f s) ↔
      ∃ name node, Sits f s name b bottom node ∧ node.isBetween = true ∧
        .node name ∈ Template.valuedEnds s.template.connections := by
  rw [List.mem_filter, List.mem_zipIdx_iff_getElem?, isSplit, Bool.and_eq_true, Option.any_eq_true]
  simp only [Option.bind_eq_some_iff, List.contains_iff_mem]
  constructor
  · rintro ⟨here, ⟨node, ⟨first, worked, down⟩, between⟩, mentioned⟩
    obtain ⟨role, index⟩ := named.bottomFound here
    exact ⟨bottom.name, node, ⟨role, index, here, first, worked, down⟩, between, mentioned⟩
  · rintro ⟨name, node, sits, between, mentioned⟩
    obtain ⟨first, worked, down⟩ := sits.worked
    rw [← sits.named] at mentioned
    exact ⟨sits.here, ⟨node, ⟨first, worked, down⟩, between⟩, mentioned⟩

theorem splitsCounted (named : s.template.WellNamed)
    (tallied : Tallied f i s start (Template.valuedEnds s.template.connections) d sides) :
    (d.splits.map (entryNode s)).Perm ((splitBottoms f s).map (splitNode f i s)) := by
  let split := s.template.bottoms.zipIdx.filter (isSplit f s)
  let node (b : Nat) : Option GraphNode := s.template.bottoms[b]?.map (splitNode f i s)
  have once : (split.map Prod.snd).Nodup := by
    have indices : (s.template.bottoms.zipIdx.map Prod.snd).Nodup := by
      rw [List.zipIdx_map_snd]
      exact List.nodup_range'
    exact indices.sublist (List.filter_sublist.map Prod.snd)
  have same : (d.splits.map Prod.fst).Perm (split.map Prod.snd) := by
    rw [List.perm_ext_iff_of_nodup tallied.once once]
    intro b
    rw [tallied.split, List.mem_map]
    constructor
    · rintro ⟨name, bottom, node, sits⟩
      exact ⟨(bottom, b), (splitFound named).mpr ⟨name, node, sits⟩, rfl⟩
    · rintro ⟨⟨bottom, b⟩, inside, rfl⟩
      obtain ⟨name, node, sits⟩ := (splitFound named).mp inside
      exact ⟨name, bottom, node, sits⟩
  have left : (d.splits.map Prod.fst).filterMap node = d.splits.map (entryNode s) := by
    rw [List.filterMap_map, ← List.filterMap_eq_map]
    apply List.filterMap_congr
    intro entry inside
    obtain ⟨bottom, here, name⟩ := tallied.named entry inside
    simp [node, here, entryNode, splitNode, name]
  have right : (split.map Prod.snd).filterMap node = (splitBottoms f s).map (splitNode f i s) := by
    rw [List.filterMap_map, splitBottoms, List.map_map, ← List.filterMap_eq_map]
    apply List.filterMap_congr
    intro entry inside
    have here := List.mem_zipIdx_iff_getElem?.mp (List.mem_filter.mp inside).1
    simp [node, here]
  rw [← left, ← right]
  exact same.filterMap node

theorem stitchCounted (place : f.stitches[i]? = some s) (named : s.template.WellNamed)
    (known : Known f d) (ok : drawStitch f weight d (s, i) = .ok e) :
    Known f e ∧ ∃ sides, e.graph.nodes.Perm (d.graph.nodes ++ (stitchNodes f i s ++ sides)) ∧
      ∀ n ∈ sides, ∃ node other pull, IsSide f n node other pull := by
  have member := List.mem_of_getElem? place
  rw [stitchDrawnAs weight member] at ok
  obtain ⟨last, run, rfl⟩ := mapOk ok
  have opened : Tallied f i s (d.opened f i s).graph.nodes [] (d.opened f i s) [] :=
    ⟨by simp [Drawing.opened], by simp [Drawing.opened], by simp [Drawing.opened],
      by simp [Drawing.opened], by simp⟩
  obtain ⟨knownLast, sides, tallied⟩ :=
    connectionsTallied place (openedKnown member known) opened run
  rw [List.nil_append] at tallied
  refine ⟨⟨knownLast.tops, knownLast.splits⟩, sides, ?_, tallied.sides⟩
  have counted := (splitsCounted named tallied).append_right sides
  refine tallied.nodes.trans ((counted.append_left _).trans ?_)
  simp [Drawing.opened, stitchNodes]

theorem stitchesCounted {entries : List (Stitch × Nat)}
    (places : ∀ entry ∈ entries, f.stitches[entry.2]? = some entry.1)
    (named : ∀ s ∈ f.stitches, s.template.WellNamed) (known : Known f d)
    (ok : entries.foldlM (drawStitch f weight) d = .ok e) :
    ∃ sides, e.graph.nodes.Perm (d.graph.nodes ++
        (entries.flatMap (fun entry => stitchNodes f entry.2 entry.1) ++ sides)) ∧
      ∀ n ∈ sides, ∃ node other pull, IsSide f n node other pull := by
  induction entries generalizing d with
  | nil =>
    cases pureOk ok
    exact ⟨[], by simp, by simp⟩
  | cons entry rest ih =>
    have place := places entry List.mem_cons_self
    obtain ⟨next, one, more⟩ := foldConsOk ok
    obtain ⟨knownNext, first, nodes, firstSides⟩ :=
      stitchCounted place (named entry.1 (List.mem_of_getElem? place)) known one
    obtain ⟨others, all, otherSides⟩ :=
      ih (fun other inside => places other (List.mem_cons_of_mem _ inside)) knownNext more
    refine ⟨first ++ others, ?_, ?_⟩
    · refine all.trans ((nodes.append_right _).trans ?_)
      simp only [List.flatMap_cons, List.append_assoc]
      refine List.Perm.append_left _ (List.Perm.append_left _ ?_)
      rw [← List.append_assoc, ← List.append_assoc]
      exact List.perm_append_comm.append_right others
    · intro n inside
      rcases List.mem_append.mp inside with old | new
      · exact firstSides n old
      · exact otherSides n new

theorem rowFirstLe (counted : f.Counted) (member : s ∈ f.stitches) (made : id ∈ s.tops) :
    rowFirst f s ≤ id := by
  have within : (f.rowIds s.row).Sublist (f.stitches.flatMap Stitch.tops) :=
    List.filter_sublist.flatMap Stitch.tops
  have ascending : (f.rowIds s.row).Pairwise (· < ·) := by
    rw [counted.ids] at within
    exact List.Pairwise.sublist within List.pairwise_lt_range'
  have inRow := inOwnRow member made
  unfold rowFirst
  cases row : f.rowIds s.row with
  | nil => exact Nat.zero_le id
  | cons first rest =>
    rw [row] at inRow ascending
    rcases List.mem_cons.mp inRow with rfl | later
    · exact Nat.le_refl id
    · exact Nat.le_of_lt ((List.pairwise_cons.mp ascending).1 id later)

theorem placeInj {place other : Nat × Nat} {text : List Char}
    (same : placeChars place = placeChars other ++ text) :
    Nat.toDigits 10 place.2 = Nat.toDigits 10 other.2 ++ text := by
  unfold placeChars at same
  rw [List.append_assoc] at same
  exact (firstSplit (digitsClean (by decide) _) (digitsClean (by decide) _) same).2

theorem topTextInj (counted : f.Counted) (member : s ∈ f.stitches) {other : Nat}
    (left : id ∈ s.tops) (right : other ∈ s.tops) (same : topText f s id = topText f s other) :
    id = other := by
  have first := rowFirstLe counted member left
  have second := rowFirstLe counted member right
  have texts := ((topTagged f s id).same (same ▸ topTagged f s other)).1
  rw [← List.append_nil (placeChars (s.row, other - rowFirst f s))] at texts
  have digits := placeInj texts
  rw [List.append_nil] at digits
  have positions : id - rowFirst f s = other - rowFirst f s := digitsInj digits
  omega

theorem topNotInner {name : String} (letter : ∃ c ∈ name.toList, c.isDigit = false) :
    topText f s id ≠ hiddenName f i s name := by
  intro same
  have texts := ((topTagged f s id).same (same ▸ hiddenTagged f s i name)).1
  obtain ⟨c, inside, other⟩ := letter
  refine digitsClean other (id - rowFirst f s) ?_
  rw [placeInj texts]
  exact List.mem_append_right _ inside

theorem hiddenNameInj {name other : String}
    (same : hiddenName f i s name = hiddenName f i s other) : name = other := by
  have texts := ((hiddenTagged f s i name).same (same ▸ hiddenTagged f s i other)).1
  exact String.toList_inj.mp (List.append_cancel_left texts)

theorem stitchIds (counted : f.Counted) (member : s ∈ f.stitches) :
    (stitchNodes f i s).map (·.id) =
    s.tops.map (topText f s) ++ (s.template.hidden.map (·.name) ++
      (splitBottoms f s).map (·.name)).map (hiddenName f i s) := by
  have tops : (s.tops.zip s.template.tops).map Prod.fst = s.tops :=
    List.map_fst_zip (Nat.le_of_eq (counted.tops s member))
  simp only [stitchNodes, List.map_append, List.map_map]
  congr 1
  conv => rhs; rw [← tops, List.map_map]
  rfl

theorem stitchTagged (counted : f.Counted) (member : s ∈ f.stitches) {id : String}
    (inside : id ∈ (stitchNodes f i s).map (·.id)) : ∃ text, Tagged id text s.uid := by
  rw [stitchIds counted member] at inside
  rcases List.mem_append.mp inside with top | inner
  · obtain ⟨made, _, rfl⟩ := List.mem_map.mp top
    exact ⟨_, topTagged f s made⟩
  · obtain ⟨name, _, rfl⟩ := List.mem_map.mp inner
    exact ⟨_, hiddenTagged f s i name⟩

theorem stitchDistinct (counted : f.Counted) (member : s ∈ f.stitches)
    (named : s.template.WellNamed) : ((stitchNodes f i s).map (·.id)).Nodup := by
  have inner : (s.template.hidden.map (·.name) ++ (splitBottoms f s).map (·.name)).Nodup ∧
      ∀ name ∈ s.template.hidden.map (·.name) ++ (splitBottoms f s).map (·.name),
        Text.isName name.toList = true := by
    have within : (splitBottoms f s).Sublist s.template.bottoms := by
      have sub := (List.filter_sublist (p := isSplit f s) (l := s.template.bottoms.zipIdx)).map
        Prod.fst
      rwa [List.zipIdx_map_fst] at sub
    have names : ((splitBottoms f s).map (·.name) ++ s.template.hidden.map (·.name)).Sublist
        s.template.nodeNames :=
      ((within.map _).append_right _).trans (List.sublist_append_right _ _)
    refine ⟨List.nodup_append_comm.mp (named.1.sublist names), ?_⟩
    intro name inside
    exact named.2 name (names.subset (List.mem_append.mpr (List.mem_append.mp inside).symm))
  rw [stitchIds counted member, List.nodup_append]
  refine ⟨?_, ?_, ?_⟩
  · refine (counted.topsOnce member).map_on fun id left other right same => ?_
    exact topTextInj counted member left right same
  · exact inner.1.map fun _ _ same => hiddenNameInj same
  · intro id top other inside same
    obtain ⟨made, _, rfl⟩ := List.mem_map.mp top
    obtain ⟨name, listed, rfl⟩ := List.mem_map.mp inside
    exact topNotInner (Template.nameHead (inner.2 name listed)) same

theorem ownTagged (counted : f.Counted) {n : GraphNode} (inside : n ∈ ownNodes f) :
    ∃ text uid, Tagged n.id text uid := by
  obtain ⟨entry, among, own⟩ := List.mem_flatMap.mp inside
  have member := List.mem_of_getElem? (List.mem_zipIdx_iff_getElem?.mp among)
  obtain ⟨text, tagged⟩ := stitchTagged counted member (List.mem_map_of_mem own)
  exact ⟨text, _, tagged⟩

theorem allDistinct (counted : f.Counted) (named : ∀ s ∈ f.stitches, s.template.WellNamed) :
    ((ownNodes f).map (·.id)).Nodup := by
  rw [ownNodes, List.map_flatMap, List.nodup_flatMap]
  constructor
  · intro entry among
    have member := List.mem_of_getElem? (List.mem_zipIdx_iff_getElem?.mp among)
    exact stitchDistinct counted member (named entry.1 member)
  rw [List.pairwise_iff_getElem]
  intro i j left right before id inside other
  rw [List.length_zipIdx] at left right
  rw [List.getElem_zipIdx] at inside other
  obtain ⟨text, tagged⟩ := stitchTagged counted (List.getElem_mem left) inside
  obtain ⟨words, again⟩ := stitchTagged counted (List.getElem_mem right) other
  have same := (tagged.same again).2
  rw [counted.uid i _ (List.getElem?_eq_getElem left),
    counted.uid j _ (List.getElem?_eq_getElem right)] at same
  omega

end

theorem resolvedCounted {rows : Rows} {registry : Registry} {options : Options} {f g : Fabric}
    (ok : Fabric.weave rows registry options = .ok f) (resolved : f.resolve = (g, .ok ())) :
    g.Counted ∧ g.Acyclic := by
  have woven := Fabric.weaveWoven ok
  have acyclic := Fabric.resolveAcyclic woven
  rw [resolved] at acyclic
  obtain ⟨passes, _, run, _⟩ := Fabric.resolves resolved
  have reworked := Fabric.runReworked f passes
  rw [run] at reworked
  exact ⟨reworked.counted woven.counted, acyclic⟩

theorem namesApart {rows : Rows} {registry : Registry} {options drawing : Options} {f g : Fabric}
    {graph : Graph} (ok : Fabric.weave rows registry options = .ok f)
    (resolved : f.resolve = (g, .ok ())) (named : ∀ s ∈ g.stitches, s.template.WellNamed)
    (drawn : ofFabric g drawing = .ok graph) :
    ∃ sides, graph.nodes.Perm (ownNodes g ++ sides) ∧
      (∀ n ∈ sides, ∃ node other pull, IsSide g n node other pull) ∧
      ((ownNodes g).map (·.id)).Nodup ∧
      ∀ n ∈ ownNodes g, ∀ side ∈ sides, n.id ≠ side.id := by
  obtain ⟨counted, _⟩ := resolvedCounted ok resolved
  unfold ofFabric at drawn
  split at drawn
  · rename_i d run
    cases drawn
    have blank : Known g {} := ⟨by simp, by simp⟩
    obtain ⟨sides, nodes, areSides⟩ := stitchesCounted
      (fun _ inside => List.mem_zipIdx_iff_getElem?.mp inside) named blank run
    refine ⟨sides, by simpa [ownNodes] using nodes, areSides, allDistinct counted named, ?_⟩
    intro n inside side among same
    obtain ⟨text, uid, tagged⟩ := ownTagged counted inside
    obtain ⟨node, other, pull, isSide⟩ := areSides side among
    obtain ⟨words, t, _, ending⟩ := isSide.ending.tagged
    rw [same, isSide.name] at tagged
    exact sideUntagged ending node pull tagged
  · cases drawn

theorem namesApartPost : ∃ rows f g graph, Row.parseRows postPiece [] "red" = .ok rows ∧
    Fabric.weave rows tallStitches {} = .ok f ∧ f.resolve = (g, .ok ()) ∧
    (∀ s ∈ g.stitches, s.template.WellNamed) ∧ ofFabric g {} = .ok graph ∧
    ∃ sides, graph.nodes.Perm (ownNodes g ++ sides) ∧
      (∀ n ∈ sides, ∃ node other pull, IsSide g n node other pull) ∧
      ((ownNodes g).map (·.id)).Nodup ∧
      ∀ n ∈ ownNodes g, ∀ side ∈ sides, n.id ≠ side.id := by
  have runs : (Row.parseRows postPiece [] "red" >>= fun rows =>
      Fabric.weave rows tallStitches {} >>= fun f =>
      f.resolve.2.map fun _ => f.resolve.1).toOption.any (fun g =>
        g.stitches.all (fun s => decide s.template.WellNamed) && (ofFabric g {}).isOk) = true := by
    decide +kernel
  obtain ⟨g, run, facts⟩ := testOk runs
  obtain ⟨rows, parsed, run⟩ := bindOk run
  obtain ⟨f, ok, run⟩ := bindOk run
  obtain ⟨_, done, same⟩ := mapOk run
  have resolved : f.resolve = (g, .ok ()) := Prod.ext same done
  obtain ⟨names, draws⟩ := (Bool.and_eq_true _ _).mp facts
  have named : ∀ s ∈ g.stitches, s.template.WellNamed := by simpa using names
  obtain ⟨graph, drawn⟩ := someOk draws
  exact ⟨rows, f, g, graph, parsed, ok, resolved, named, drawn, namesApart ok resolved named drawn⟩

end Graph
end Crochet
