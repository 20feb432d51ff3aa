import Crochet.Proofs.Graph.Renamed

/-! A fabric with an increase and the fabric where it is taken apart, drawn side by side. The
increase names all its tops and inner nodes at once, where the stitches that take its place name
theirs one stitch after the other; those still to come are waited for. Every other stitch draws the
same on both sides. -/
namespace Crochet

def GraphNode.renamed (rename : String → String) (n : GraphNode) : GraphNode :=
  { n with id := rename n.id }

def GraphEdge.renamed (rename : String → String) (e : GraphEdge) : GraphEdge :=
  { e with tail := rename e.tail, head := rename e.head }

namespace Graph

def openedNodes (f : Fabric) (s : Stitch) : List GraphNode :=
  s.loops.map (topNode f s) ++ s.template.hidden.map (innerNode f s.uid s)

/- A drawing of a fabric with an increase and one of the fabric where it is taken apart. -/
structure Alike {f g : Fabric} (u : Fabric.Unrolled f g) (rename : String → String)
    (waiting : List Stitch) (d e : Drawing) : Prop where
  edges : e.graph.edges = d.graph.edges.map (.renamed rename)
  nodes : (d.graph.nodes.map (.renamed rename)).Perm
    (e.graph.nodes ++ waiting.flatMap (openedNodes g))
  named : ∀ n ∈ d.graph.nodes, ∃ other, Same u n.id other
  tops : ∀ id node, d.top id = .ok node →
    (∃ c ∈ waiting, id ∈ c.tops ∧ SameTop u node (topText g c id)) ∨
      (∀ c ∈ waiting, id ∉ c.tops) ∧ ∃ other, e.top id = .ok other ∧ SameTop u node other
  primaries : List.Forall₂ (SameNode u) d.primaries e.primaries

structure SameEnd {f g : Fabric} (u : Fabric.Unrolled f g) (a b : End) : Prop where
  node : SameNode u a.node b.node
  isTop : b.isTop = a.isTop
  pull : b.pull = a.pull
  loop : a.pull.isSome = true → SameTop u a.node b.node

structure SameTip {f g : Fabric} (u : Fabric.Unrolled f g) (a b : End) : Prop where
  node : Same u a.node b.node
  isTop : b.isTop = a.isTop
  top : a.isTop = true → SameNode u a.node b.node

variable {a b head : String} {tail tail' head' : End} {connections : List Connection}
  {next : Drawing} {ending : Endpoint} {r : Option End} {target : NodeRef}
variable {s : Stitch}

section
variable {f g : Fabric} {u : Fabric.Unrolled f g} {bottom : BottomNode} {last : TopNode}
  {loop : Nat} {rename : String → String} {waiting : List Stitch} {d e : Drawing}

theorem Alike.withLast (alike : Alike u rename waiting d e) (a b : Option Nat) :
    Alike u rename waiting { d with lastTop := a } { e with lastTop := b } :=
  ⟨alike.edges, alike.nodes, alike.named, alike.tops, alike.primaries⟩

theorem Alike.top (alike : Alike u rename waiting d e) {id : Nat} {node : String}
    (drawn : d.top id = .ok node) (here : ∀ c ∈ waiting, id ∉ c.tops) :
    ∃ other, e.top id = .ok other ∧ SameTop u node other := by
  rcases alike.tops id node drawn with ⟨c, inside, own, _⟩ | ⟨_, found⟩
  · exact absurd own (here c inside)
  · exact found

theorem SameEnd.unpulled (same : SameNode u a b) (isTop : Bool) :
    SameEnd u { node := a, isTop } { node := b, isTop } :=
  ⟨same, rfl, rfl, fun none => by cases none⟩

theorem SameEnd.tip {a b : End} (same : SameEnd u a b) : SameTip u a b :=
  ⟨.node same.node, same.isTop, fun _ => same.node⟩

section
variable (renames : ∀ a b, Same u a b → rename a = b) (alike : Alike u rename waiting d e)
include renames alike

theorem Alike.addHidden (same : Same u a b) (display color : String) :
    Alike u rename waiting (d.addHidden a display color) (e.addHidden b display color) where
  edges := alike.edges
  nodes := by
    have added := alike.nodes.append_right
      [{ id := b, kind := .hidden, labels := [], display, color : GraphNode }]
    rw [List.append_assoc] at added
    refine List.Perm.trans ?_ (added.trans ?_)
    · simp [Drawing.addHidden, Drawing.addNode, GraphNode.renamed, renames a b same]
    · simp only [Drawing.addHidden, Drawing.addNode, List.append_assoc]
      exact List.perm_append_comm.append_left _
  named := by
    intro n inside
    rcases List.mem_append.mp inside with old | new
    · exact alike.named n old
    · rw [List.mem_singleton.mp new]
      exact ⟨b, same⟩
  tops := alike.tops
  primaries := alike.primaries

theorem Alike.addEdge {tail tail' head' : String} (first : Same u tail tail')
    (second : Same u head head') (length : Float) (color : String) (weight : WeightClass) :
    Alike u rename waiting (d.addEdge tail head length color weight)
      (e.addEdge tail' head' length color weight) where
  edges := by
    simp [Drawing.addEdge, alike.edges, GraphEdge.renamed, renames _ _ first, renames _ _ second]
  nodes := alike.nodes
  named := alike.named
  tops := alike.tops
  primaries := alike.primaries

theorem Alike.loopSides (color : String) {head : End} (first : SameEnd u tail tail')
    (second : SameEnd u head head') :
    let sides := Graph.loopSides d color tail head
    let sides' := Graph.loopSides e color tail' head'
    Alike u rename waiting sides.2.2 sides'.2.2 ∧ SameTip u sides.1 sides'.1 ∧
      SameTip u sides.2.1 sides'.2.1 := by
  cases left : tail.pull with
  | some pull =>
    have loop := first.loop (by simp [left])
    have side : Same u _ _ := .side loop second.node pull
    simp only [Graph.loopSides, first.pull, left]
    refine ⟨?_, ⟨side, rfl, fun none => by cases none⟩, second.tip⟩
    exact (alike.addHidden renames side _ _).addEdge renames (.node first.node) side _ _ _
  | none =>
    cases right : head.pull with
    | some pull =>
      have loop := second.loop (by simp [right])
      have side : Same u _ _ := .side loop first.node pull
      simp only [Graph.loopSides, first.pull, second.pull, left, right]
      refine ⟨?_, first.tip, ⟨side, rfl, fun none => by cases none⟩⟩
      exact (alike.addHidden renames side _ _).addEdge renames (.node second.node) side _ _ _
    | none =>
      simp only [Graph.loopSides, first.pull, second.pull, left, right]
      exact ⟨alike, first.tip, second.tip⟩

end

theorem primariesAlike (fits : u.Fits bottom last loop) {heads others : List String}
    {other : String} (all : List.Forall₂ (SameNode u) heads others) (same : SameNode u head other) :
    others.contains other = heads.contains head := by
  induction all with
  | nil => rfl
  | cons first _ ih =>
    rw [List.contains_cons, List.contains_cons, ih, Bool.beq_eq_decide_eq, Bool.beq_eq_decide_eq]
    congr 1
    exact decide_eq_decide.mpr (nodeIff fits same first).symm

theorem Alike.join (fits : u.Fits bottom last loop) (renames : ∀ a b, Same u a b → rename a = b)
    (alike : Alike u rename waiting d e) (color : String) (length : Float) (soft : Bool)
    {head : End} (first : SameEnd u tail tail') (second : SameEnd u head head') :
    Alike u rename waiting (joinEnds d color length soft tail head)
      (joinEnds e color length soft tail' head') := by
  unfold joinEnds
  split
  · exact alike.addEdge renames (.node first.node) (.node second.node) _ _ _
  obtain ⟨sides, tip, other⟩ := alike.loopSides renames color first second
  simp only [tip.isTop, other.isTop]
  by_cases tops : (Graph.loopSides d color tail head).1.isTop = true ∧
      (Graph.loopSides d color tail head).2.1.isTop = true
  · have head := other.top tops.2
    rw [primariesAlike fits sides.primaries head]
    split
    · have drawn := sides.addEdge renames tip.node other.node length color .primary
      exact ⟨drawn.edges, drawn.nodes, drawn.named, drawn.tops, .cons head sides.primaries⟩
    · exact sides.addEdge renames tip.node other.node _ _ _
  · have none : ∀ rest, ((Graph.loopSides d color tail head).1.isTop &&
        (Graph.loopSides d color tail head).2.1.isTop && rest) = false := by
      intro rest
      grind
    rw [none, none]
    exact sides.addEdge renames tip.node other.node _ _ _

section
variable {weight : Float} {previous before : Option Nat} {t : Stitch}

/- An end that is found on one side is found on the other. -/
def Transfers (u : Fabric.Unrolled f g) (weight : Float) (previous before : Option Nat)
    (s t : Stitch) (Inv : Drawing → Drawing → Prop) (ending other : Endpoint) : Prop :=
  ∀ d e r next, Inv d e → EndAt f weight previous s.uid s d ending r next →
    ∃ q after, EndAt g weight before t.uid t e other q after ∧ Inv next after ∧
      Option.Rel (SameEnd u) r q

theorem connectionsAlong {Inv : Drawing → Drawing → Prop} {move : Connection → Connection}
    (lengths : ∀ c, (move c).length = c.length) (softs : ∀ c, (move c).soft = c.soft)
    (color : t.color = s.color)
    (joins : ∀ d e length soft tail head tail' head', Inv d e → SameEnd u tail tail' →
      SameEnd u head head' → Inv (joinEnds d s.color length soft tail head)
        (joinEnds e s.color length soft tail' head'))
    (ends : ∀ c ∈ connections, Transfers u weight previous before s t Inv (move c).tail c.tail ∧
      Transfers u weight previous before s t Inv (move c).head c.head) (inv : Inv d e)
    (ok : (connections.map move).foldlM (connect f weight previous s.uid s) d = .ok next) :
    ∃ after, connections.foldlM (connect g weight before t.uid t) e = .ok after ∧
      Inv next after := by
  induction connections generalizing d e with
  | nil =>
    cases pureOk ok
    exact ⟨e, rfl, inv⟩
  | cons c rest ih =>
    rw [List.map_cons] at ok
    obtain ⟨mid, one, more⟩ := foldConsOk ok
    obtain ⟨tailFound, headFound⟩ := ends c List.mem_cons_self
    have step : ∃ after, connect g weight before t.uid t e c = .ok after ∧ Inv mid after := by
      cases connects one with
      | skipped none =>
        rw [lengths] at none
        exact ⟨e, (Connects.skipped none).ok, inv⟩
      | loose valued first second missing =>
        rw [lengths] at valued
        obtain ⟨tail, _, first', inv, tails⟩ := tailFound _ _ _ _ inv first
        obtain ⟨head, after, second', inv, heads⟩ := headFound _ _ _ _ inv second
        have missing' : tail = none ∨ head = none := by
          rcases missing with rfl | rfl
          · cases tails
            exact .inl rfl
          · cases heads
            exact .inr rfl
        exact ⟨after, (Connects.loose valued first' second' missing').ok, inv⟩
      | joined valued first second =>
        rw [lengths] at valued
        obtain ⟨_, _, first', inv, tails⟩ := tailFound _ _ _ _ inv first
        obtain ⟨_, after, second', inv, heads⟩ := headFound _ _ _ _ inv second
        cases tails with
        | some tail =>
          cases heads with
          | some head =>
            refine ⟨_, (Connects.joined valued first' second').ok, ?_⟩
            rw [softs, color]
            exact joins _ _ _ _ _ _ _ _ inv tail head
    obtain ⟨after, drawn, inv⟩ := step
    obtain ⟨final, run, same⟩ :=
      ih (fun k inside => ends k (List.mem_cons_of_mem _ inside)) inv more
    exact ⟨final, by rw [List.foldlM_cons, drawn]; exact run, same⟩

end

theorem joinSplits (d : Drawing) (color : String) (length : Float) (soft : Bool) (tail head : End) :
    (joinEnds d color length soft tail head).splits = d.splits := by
  have sides : (loopSides d color tail head).2.2.splits = d.splits := by
    unfold loopSides
    split <;> rfl
  unfold joinEnds
  split
  · rfl
  simp only
  split
  · exact sides
  · exact sides

section
variable {weight : Float} {previous : Option Nat}

theorem connectionsKeep (ok : connections.foldlM (connect f weight previous s.uid s) d = .ok e) :
    d.Keeps e := by
  refine foldKeeps d.Keeps ?_ (.refl d) ok
  intro c _ mid next keeps one
  exact keeps.trans (connects one).keeps

end

def SameSplits (u : Fabric.Unrolled f g) (d e : Drawing) : Prop :=
  List.Forall₂ (fun a b => b.1 = a.1 ∧ SameNode u a.2 b.2) d.splits e.splits

theorem splitsFound (same : SameSplits u d e) (b : Nat) :
    (d.splits.lookup b = none ∧ e.splits.lookup b = none) ∨ ∃ node other,
      d.splits.lookup b = some node ∧ e.splits.lookup b = some other ∧ SameNode u node other := by
  unfold SameSplits at same
  generalize d.splits = old at same ⊢
  generalize e.splits = new at same ⊢
  induction same with
  | nil => exact .inl ⟨rfl, rfl⟩
  | @cons entry other _ _ first _ ih =>
    obtain ⟨index, node⟩ := first
    rw [List.lookup_cons, List.lookup_cons, index]
    by_cases here : b = entry.1
    · rw [beq_iff_eq.mpr here]
      exact .inr ⟨_, _, rfl, rfl, node⟩
    · rw [beq_false_of_ne here]
      exact ih

section
variable (kept : u.Kept s) {weight : Float} {previous : Option Nat}
variable (fits : u.Fits bottom last loop)

include fits in
theorem Alike.anchor (alike : Alike u rename [] d e) {node : String}
    (elsewhere : ∀ hook ∈ target.posts, hook.1 ∉ u.whole.tops)
    (drawn : anchorName f d target = .ok node) :
    ∃ other, anchorName g e target = .ok other ∧ SameNode u node other := by
  rcases anchorCases drawn with ⟨id, rfl, drawn⟩ | ⟨id, name, t, rfl, owner, role, rfl⟩
  · obtain ⟨other, found, same⟩ := alike.top drawn (List.forall_mem_nil _)
    exact ⟨other, found, .inl same⟩
  · obtain ⟨⟨j, place⟩, made⟩ := fits.counted.ownerTop owner
    rcases Fabric.Unrolled.otherWhole fits (List.mem_of_getElem? place) with rfl | kept
    · exact absurd made (elsewhere (id, name) (by simp [NodeRef.posts]))
    refine ⟨postName g (u.image t) name, ?_, .inr ?_⟩
    · simp only [anchorName, (Fabric.Unrolled.ownerKept fits kept made).2, u.imageTemplate]
      rw [if_pos role]
    · rw [postNameHidden owner t.uid,
        postNameHidden (Fabric.Unrolled.ownerKept fits kept made).2 (u.image t).uid]
      exact .kept kept name

include fits in
theorem sitsKept {name : String} {b : Nat} {node : BottomNode}
    (sits : Sits f s name b node target) : Sits g (u.image s) name b node target where
  role := by rw [u.imageTemplate]; exact sits.role
  index := by rw [u.imageTemplate]; exact sits.index
  here := by rw [u.imageTemplate]; exact sits.here
  worked := by
    obtain ⟨first, worked, down⟩ := sits.worked
    refine ⟨first, ?_, ?_⟩
    · rw [u.imageBottoms]
      exact worked
    · rw [Fabric.Unrolled.descend fits]
      exact down

include kept fits in
theorem endKept (renames : ∀ a b, Same u a b → rename a = b) (alike : Alike u rename [] d e)
    (splits : SameSplits u d e) (ends : EndAt f weight previous s.uid s d ending r next) :
    ∃ q after, EndAt g weight previous (u.image s).uid (u.image s) e ending q after ∧
      Alike u rename [] next after ∧ SameSplits u next after ∧ Option.Rel (SameEnd u) r q := by
  have elsewhere {name : String} {b : Nat} {node : BottomNode} {target : NodeRef}
      (sits : Sits f s name b node target) : ∀ hook ∈ target.posts, hook.1 ∉ u.whole.tops := by
    obtain ⟨first, worked, down⟩ := sits.worked
    exact fun hook inside => Fabric.Unrolled.descendElsewhere fits kept.member
      (List.mem_of_getElem? worked) down inside
  cases ends with
  | nothing first => exact ⟨none, e, .nothing first, alike, splits, .none⟩
  | before last drawn =>
    obtain ⟨other, found, same⟩ := alike.top drawn (List.forall_mem_nil _)
    exact ⟨_, e, .before last found, alike, splits, .some (.unpulled (.inl same) true)⟩
  | top role made drawn =>
    obtain ⟨other, found, same⟩ := alike.top drawn (List.forall_mem_nil _)
    refine ⟨_, e, .top ?_ ?_ found, alike, splits, .some (.unpulled (.inl same) true)⟩
    · rw [u.imageTemplate]
      exact role
    · rw [u.imageTemplate, u.imageTops]
      exact made
  | @inner name role =>
    refine ⟨_, e, .inner ?_, alike, splits, .some (.unpulled (.inr (.kept kept name)) false)⟩
    rw [u.imageTemplate]
    exact role
  | loop sits drawn =>
    obtain ⟨other, found, same⟩ := alike.top drawn (List.forall_mem_nil _)
    exact ⟨_, e, .loop (sitsKept fits sits) found, alike, splits,
      .some ⟨.inl same, rfl, rfl, fun _ => same⟩⟩
  | post sits anchor =>
    obtain ⟨other, found, same⟩ := alike.anchor fits (elsewhere sits) anchor
    exact ⟨_, e, .post (sitsKept fits sits) found, alike, splits, .some (.unpulled same false)⟩
  | @again name b node near far nearPull farPull split sits met =>
    rcases splitsFound splits b with ⟨absent, _⟩ | ⟨node, other, old, new, same⟩
    · rw [met] at absent
      cases absent
    · obtain rfl : split = node := Option.some.inj (met.symm.trans old)
      exact ⟨_, e, .again (sitsKept fits sits) new, alike, splits, .some (.unpulled same false)⟩
  | @split name b node near far nearPull farPull left right sits fresh nearDrawn farDrawn =>
    have hooks := elsewhere sits
    obtain ⟨left', nearFound, nearSame⟩ := alike.anchor fits
      (fun hook inside => hooks hook (List.mem_append_left _ inside)) nearDrawn
    obtain ⟨right', farFound, farSame⟩ := alike.anchor fits
      (fun hook inside => hooks hook (List.mem_append_right _ inside)) farDrawn
    have absent : e.splits.lookup b = none := by
      rcases splitsFound splits b with ⟨_, absent⟩ | ⟨_, _, old, _⟩
      · exact absent
      · rw [fresh] at old
        cases old
    have inner : SameNode u (innerText f s node.name) (innerText g (u.image s) node.name) :=
      .inr (.kept kept node.name)
    have drawn := ((alike.addHidden renames (.node inner) "hidden" s.color).addEdge renames
      (.node nearSame) (.node inner) nearPull s.color .internal).addEdge renames
      (.node inner) (.node farSame) farPull s.color .internal
    refine ⟨_, _, .split (sitsKept fits sits) absent nearFound farFound, ?_, ?_,
      .some (.unpulled inner false)⟩
    · rw [u.imageColor]
      exact ⟨drawn.edges, drawn.nodes, drawn.named, drawn.tops, drawn.primaries⟩
    · exact .cons ⟨rfl, inner⟩ splits

include kept fits in
theorem connectionsKept (renames : ∀ a b, Same u a b → rename a = b) (alike : Alike u rename [] d e)
    (splits : SameSplits u d e)
    (ok : connections.foldlM (connect f weight previous s.uid s) d = .ok next) :
    ∃ after, connections.foldlM (connect g weight previous (u.image s).uid (u.image s)) e =
      .ok after ∧ Alike u rename [] next after := by
  rw [← List.map_id connections] at ok
  have found (ending : Endpoint) : Transfers u weight previous previous s (u.image s)
      (fun d e => Alike u rename [] d e ∧ SameSplits u d e) ending ending := by
    intro d e r next inv ends
    obtain ⟨q, after, ends', alike, splits, same⟩ := endKept kept fits renames inv.1 inv.2 ends
    exact ⟨q, after, ends', ⟨alike, splits⟩, same⟩
  have unsplit {d e : Drawing} (splits : SameSplits u d e) (color : String) (length : Float)
      (soft : Bool) (tail head tail' head' : End) :
      SameSplits u (joinEnds d color length soft tail head)
        (joinEnds e color length soft tail' head') := by
    unfold SameSplits
    rw [joinSplits, joinSplits]
    exact splits
  obtain ⟨after, run, same, _⟩ := connectionsAlong (fun _ => rfl) (fun _ => rfl) (u.imageColor s)
    (fun d e length soft tail head tail' head' inv first second =>
      ⟨inv.1.join fits renames _ _ _ first second, unsplit inv.2 _ _ _ _ _ _ _⟩)
    (fun c _ => ⟨found c.tail, found c.head⟩) ⟨alike, splits⟩ ok
  exact ⟨after, run, same⟩

end

theorem lookupOwn (ids : List Nat) (text : Nat → String) (id : Nat) :
    (ids.map fun made => (made, text made)).lookup id =
      if id ∈ ids then some (text id) else none := by
  induction ids with
  | nil => rfl
  | cons made rest ih =>
    rw [List.map_cons, List.lookup_cons, ih]
    by_cases here : id = made
    · simp [here]
    · rw [beq_false_of_ne here]
      simp [here]

theorem openedTop (length : s.tops.length = s.template.tops.length) (id : Nat) :
    (d.opened f s.uid s).top id = if id ∈ s.tops then .ok (topText f s id) else d.top id := by
  have own : (s.loops.map fun entry => (entry.1, topText f s entry.1)).reverse =
      s.tops.reverse.map fun made => (made, topText f s made) := by
    rw [← Stitch.loopIds length, ← List.map_reverse, ← List.map_reverse, List.map_map]
    rfl
  have found : (d.opened f s.uid s).tops.lookup id =
      (if id ∈ s.tops then some (topText f s id) else none).or (d.tops.lookup id) := by
    rw [Drawing.opened, List.lookup_append]
    congr 1
    refine (congrArg (List.lookup id) own).trans ?_
    rw [lookupOwn]
    simp
  unfold Drawing.top
  rw [found]
  by_cases made : id ∈ s.tops
  · rw [if_pos made, if_pos made]
    rfl
  · rw [if_neg made, if_neg made, Option.none_or]

theorem openedGraph (f : Fabric) (s : Stitch) (d : Drawing) :
    (d.opened f s.uid s).graph.nodes = d.graph.nodes ++ openedNodes f s := rfl

section
variable (fits : u.Fits bottom last loop) (renames : ∀ a b, Same u a b → rename a = b)
include fits renames

omit fits in
theorem keptNodes (kept : u.Kept s) :
    (openedNodes f s).map (.renamed rename) = openedNodes g (u.image s) := by
  simp only [openedNodes, List.map_append, List.map_map, Stitch.loops, u.imageTops, u.imageTemplate]
  congr 1
  · refine List.map_congr_left fun entry inside => ?_
    have top := renames _ _ (.node (.inl (.kept kept (List.of_mem_zip inside).1)))
    simp [GraphNode.renamed, topNode, top]
  · refine List.map_congr_left fun h _ => ?_
    have inner := renames _ _ (.node (.inr (.kept kept h.name)))
    simp [GraphNode.renamed, innerNode, inner]

theorem Alike.openKept (alike : Alike u rename [] d e) (kept : u.Kept s) :
    Alike u rename [] (d.opened f s.uid s) (e.opened g (u.image s).uid (u.image s)) where
  edges := alike.edges
  nodes := by
    have both := alike.nodes.append_right (openedNodes g (u.image s))
    rw [List.flatMap_nil, List.append_nil] at both ⊢
    rw [openedGraph, openedGraph, List.map_append, keptNodes renames kept]
    exact both
  named := by
    intro n inside
    rcases List.mem_append.mp inside with old | new
    · exact alike.named n old
    rcases List.mem_append.mp new with top | inner
    · obtain ⟨entry, zipped, rfl⟩ := List.mem_map.mp top
      exact ⟨_, .node (.inl (.kept kept (List.of_mem_zip zipped).1))⟩
    · obtain ⟨h, _, rfl⟩ := List.mem_map.mp inner
      exact ⟨_, .node (.inr (.kept kept h.name))⟩
  tops := by
    intro id node drawn
    refine .inr ⟨fun c none => (by cases none), ?_⟩
    have image := (Fabric.Unrolled.counted fits).tops _ (Fabric.Unrolled.imageMember fits kept)
    rw [openedTop (fits.counted.tops s kept.member)] at drawn
    rw [openedTop image, u.imageTops]
    split
    · rename_i made
      rw [if_pos made] at drawn
      cases drawn
      exact ⟨_, rfl, .kept kept made⟩
    · rename_i other
      rw [if_neg other] at drawn
      exact alike.top drawn (List.forall_mem_nil _)
  primaries := alike.primaries

theorem keptDrawn {weight : Float} (kept : u.Kept s) (alike : Alike u rename [] d e)
    (lastTop : e.lastTop = d.lastTop) (ok : drawStitch f weight d s.entry = .ok next) :
    ∃ after, drawStitch g weight e (u.image s).entry = .ok after ∧ Alike u rename [] next after ∧
      after.lastTop = next.lastTop := by
  rw [stitchDrawnAs weight kept.member] at ok
  obtain ⟨drawn, run, rfl⟩ := mapOk ok
  obtain ⟨final, other, same⟩ :=
    connectionsKept kept fits renames (alike.openKept fits renames kept) .nil run
  refine ⟨{ final with lastTop := s.tops.getLast?.or final.lastTop }, ?_, ?_, ?_⟩
  · rw [stitchDrawnAs weight (Fabric.Unrolled.imageMember fits kept), u.imageTemplate, u.imageTops,
      lastTop, other]
    rfl
  · exact same.withLast _ _
  · have old := (connectionsKeep run).lastTop
    have new := (connectionsKeep other).lastTop
    have same : final.lastTop = drawn.lastTop := new.trans (lastTop.trans old.symm)
    exact congrArg (s.tops.getLast?.or ·) same

theorem allKeptDrawn {weight : Float} {stitches : List Stitch} (kept : ∀ s ∈ stitches, u.Kept s)
    (alike : Alike u rename [] d e) (lastTop : e.lastTop = d.lastTop)
    (ok : (stitches.map Stitch.entry).foldlM (drawStitch f weight) d = .ok next) :
    ∃ after, ((stitches.map u.image).map Stitch.entry).foldlM (drawStitch g weight) e = .ok after ∧
      Alike u rename [] next after ∧ after.lastTop = next.lastTop := by
  induction stitches generalizing d e with
  | nil =>
    cases pureOk ok
    exact ⟨e, rfl, alike, lastTop⟩
  | cons s rest ih =>
    obtain ⟨mid, one, more⟩ := foldConsOk ok
    obtain ⟨between, drawn, same, tops⟩ :=
      keptDrawn fits renames (kept s List.mem_cons_self) alike lastTop one
    obtain ⟨after, run, final⟩ :=
      ih (fun t inside => kept t (List.mem_cons_of_mem _ inside)) same tops more
    refine ⟨after, ?_, final⟩
    rw [List.map_cons, List.map_cons, List.foldlM_cons, drawn]
    exact run

end

end
end Graph
end Crochet
