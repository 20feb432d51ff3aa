import Crochet.Proofs.Graph.Accounted

/-! The primary edges of a graph: the first edge between tops into each node, and no other. The drawing
remembers the heads it has led such an edge into; they are the heads of the primary edges drawn so
far, so every later edge between tops into one of them is a secondary one. -/
namespace Crochet
namespace Graph

def HasTop (g : Graph) (id : String) : Prop := ∃ n ∈ g.nodes, n.id = id ∧ n.kind = .top

structure Extends (d e : Drawing) : Prop where
  nodes : d.graph.nodes <+: e.graph.nodes
  edges : d.graph.edges <+: e.graph.edges

namespace Extends
variable {d e last : Drawing}

theorem refl (d : Drawing) : Extends d d := ⟨List.prefix_rfl, List.prefix_rfl⟩

theorem trans (first : Extends d e) (second : Extends e last) : Extends d last :=
  ⟨first.nodes.trans second.nodes, first.edges.trans second.edges⟩

theorem hasTop (longer : Extends d e) {id : String} (has : d.graph.HasTop id) :
    e.graph.HasTop id := by
  obtain ⟨n, member, facts⟩ := has
  exact ⟨n, longer.nodes.subset member, facts⟩

theorem hidden (d : Drawing) (id display color : String) :
    Extends d (d.addHidden id display color) := ⟨List.prefix_append _ _, List.prefix_rfl⟩

theorem edge (d : Drawing) (tail head : String) (length : Float) (color : String)
    (weight : WeightClass) : Extends d (d.addEdge tail head length color weight) :=
  ⟨List.prefix_rfl, List.prefix_append _ _⟩

end Extends

structure Primed (d : Drawing) : Prop where
  led : Led d
  once : d.graph.edges.Pairwise fun a b =>
    a.weight = .primary → b.weight = .primary → a.head ≠ b.head
  tops : ∀ entry ∈ d.tops, d.graph.HasTop entry.2
  joins : ∀ e ∈ d.graph.edges, e.weight = .primary →
    d.graph.HasTop e.tail ∧ d.graph.HasTop e.head
  shown : ∀ e ∈ d.graph.edges, e.visible = false ↔ e.weight = .internal

variable {ending : Endpoint} {r : Option End} {tail head : End} {c : Connection}

section
variable {f : Fabric} {weight : Float} {previous : Option Nat} {i : Nat} {s : Stitch}
  {d e : Drawing}

theorem Primed.moreNodes (primed : Primed d) (longer : Extends d e)
    (primaries : e.primaries = d.primaries) (edges : e.graph.edges = d.graph.edges)
    (tops : ∀ entry ∈ e.tops, e.graph.HasTop entry.2) : Primed e where
  led := by
    intro node
    rw [primaries, edges]
    exact primed.led node
  once := edges ▸ primed.once
  tops := tops
  joins := by
    intro edge member isPrimary
    obtain ⟨tail, head⟩ := primed.joins edge (edges ▸ member) isPrimary
    exact ⟨longer.hasTop tail, longer.hasTop head⟩
  shown := edges ▸ primed.shown

theorem primedHidden (primed : Primed d) (id display color : String) :
    Primed (d.addHidden id display color) :=
  primed.moreNodes (.hidden d id display color) rfl rfl fun entry member =>
    (Extends.hidden d id display color).hasTop (primed.tops entry member)

theorem primedEdge (primed : Primed d) (tail head : String) (length : Float) (color : String)
    (weight : WeightClass) (other : (weight == .primary) = false) :
    Primed (d.addEdge tail head length color weight) where
  led := primed.led.edge tail head length color other
  once := by
    refine List.pairwise_append.mpr ⟨primed.once, List.pairwise_singleton _ _, ?_⟩
    intro a _ b new _ second
    rw [List.mem_singleton.mp new] at second
    subst second
    cases other
  tops := primed.tops
  joins := by
    intro edge member isPrimary
    rcases List.mem_append.mp member with old | new
    · exact primed.joins edge old isPrimary
    · rw [List.mem_singleton.mp new] at isPrimary
      subst isPrimary
      cases other
  shown := by
    intro edge member
    rcases List.mem_append.mp member with old | new
    · exact primed.shown edge old
    · rw [List.mem_singleton.mp new]
      simp

theorem primedFirst (primed : Primed d) {tail head : String} (length : Float) (color : String)
    (start : d.graph.HasTop tail) (stop : d.graph.HasTop head)
    (first : d.primaries.contains head = false) :
    Primed { d.addEdge tail head length color .primary with primaries := head :: d.primaries } where
  led := primed.led.primary tail head length color
  once := by
    refine List.pairwise_append.mpr ⟨primed.once, List.pairwise_singleton _ _, ?_⟩
    intro a old b new isPrimary _ same
    rw [List.mem_singleton.mp new] at same
    rw [primed.led head, List.any_eq_false] at first
    exact first a old (by simp [leadsInto, isPrimary, same])
  tops := primed.tops
  joins := by
    intro edge member isPrimary
    rcases List.mem_append.mp member with old | new
    · exact primed.joins edge old isPrimary
    · rw [List.mem_singleton.mp new]
      exact ⟨start, stop⟩
  shown := by
    intro edge member
    rcases List.mem_append.mp member with old | new
    · exact primed.shown edge old
    · rw [List.mem_singleton.mp new]
      simp

theorem primedSplit (primed : Primed d) (b : Nat) (node color left right : String)
    (nearPull farPull : Float) :
    Primed (d.split b node color left right nearPull farPull) ∧
      Extends d (d.split b node color left right nearPull farPull) := by
  have drawn := primedHidden primed node "hidden" color
  have first := primedEdge drawn left node nearPull color .internal rfl
  have second := primedEdge first node right farPull color .internal rfl
  refine ⟨⟨second.led, second.once, second.tops, second.joins, second.shown⟩,
    List.prefix_append _ _, ?_⟩
  exact (List.prefix_append _ _).trans (List.prefix_append _ _)

theorem endPrimed (primed : Primed d) (ends : EndAt f weight previous i s d ending r e) :
    Primed e ∧ Extends d e ∧ ∀ x, r = some x → x.isTop = true → e.graph.HasTop x.node := by
  have same (has : ∀ x, r = some x → x.isTop = true → d.graph.HasTop x.node) :
      Primed d ∧ Extends d d ∧ ∀ x, r = some x → x.isTop = true → d.graph.HasTop x.node :=
    ⟨primed, .refl d, has⟩
  have drawnTop {id : Nat} {node : String} (drawn : d.top id = .ok node) : d.graph.HasTop node :=
    primed.tops _ (topMember drawn)
  cases ends with
  | nothing first => exact same fun x none => by cases none
  | before last drawn => exact same fun x found _ => by cases found; exact drawnTop drawn
  | top role made drawn => exact same fun x found _ => by cases found; exact drawnTop drawn
  | inner role => exact same fun x found isTop => by cases found; cases isTop
  | loop sits drawn => exact same fun x found isTop => by cases found; cases isTop
  | post sits anchor => exact same fun x found isTop => by cases found; cases isTop
  | again sits met => exact same fun x found isTop => by cases found; cases isTop
  | split sits fresh nearDrawn farDrawn =>
    obtain ⟨drawn, longer⟩ := primedSplit primed _ _ s.color _ _ _ _
    exact ⟨drawn, longer, fun x found isTop => by cases found; cases isTop⟩

theorem loopPrimed (primed : Primed d) (color : String)
    (start : tail.isTop = true → d.graph.HasTop tail.node)
    (stop : head.isTop = true → d.graph.HasTop head.node) :
    let r := loopSides d color tail head
    Primed r.2.2 ∧ Extends d r.2.2 ∧ (r.1.isTop = true → r.2.2.graph.HasTop r.1.node) ∧
      (r.2.1.isTop = true → r.2.2.graph.HasTop r.2.1.node) := by
  have side (node other : String) (pull : Float) :
      Primed (loopSide d color node other pull).2 ∧
        Extends d (loopSide d color node other pull).2 := by
    refine ⟨primedEdge (primedHidden primed _ "hidden" color) node _ pull.abs color .secondary rfl, ?_⟩
    exact (Extends.hidden d _ "hidden" color).trans (.edge _ node _ pull.abs color .secondary)
  cases left : tail.pull with
  | some pull =>
    obtain ⟨drawn, longer⟩ := side tail.node head.node pull
    simp only [loopSides, left]
    exact ⟨drawn, longer, fun isTop => (by cases isTop), fun isTop => longer.hasTop (stop isTop)⟩
  | none =>
    cases right : head.pull with
    | some pull =>
      obtain ⟨drawn, longer⟩ := side head.node tail.node pull
      simp only [loopSides, left, right]
      exact ⟨drawn, longer, fun isTop => longer.hasTop (start isTop), fun isTop => by cases isTop⟩
    | none =>
      simp only [loopSides, left, right]
      exact ⟨primed, .refl d, start, stop⟩

theorem joinPrimed (primed : Primed d) (color : String) (length : Float) (soft : Bool)
    (start : tail.isTop = true → d.graph.HasTop tail.node)
    (stop : head.isTop = true → d.graph.HasTop head.node) :
    Primed (joinEnds d color length soft tail head) ∧
      Extends d (joinEnds d color length soft tail head) := by
  obtain ⟨drawn, longer, tails, heads⟩ := loopPrimed primed color start stop
  unfold joinEnds
  split
  · exact ⟨primedEdge primed _ _ length color .internal rfl, .edge d _ _ length color .internal⟩
  simp only
  split
  · rename_i first
    simp only [Bool.and_eq_true, Bool.not_eq_true'] at first
    obtain ⟨⟨tailTop, headTop⟩, fresh⟩ := first
    refine ⟨primedFirst drawn length color (tails tailTop) (heads headTop) fresh, longer.nodes, ?_⟩
    exact longer.edges.trans (List.prefix_append _ _)
  · exact ⟨primedEdge drawn _ _ length color .secondary rfl,
      longer.trans (.edge _ _ _ length color .secondary)⟩

theorem connectPrimed (primed : Primed d) (drawn : Connects f weight previous i s d c e) :
    Primed e ∧ Extends d e := by
  cases drawn with
  | skipped none => exact ⟨primed, .refl d⟩
  | loose valued first second missing =>
    obtain ⟨mid, toMid, _⟩ := endPrimed primed first
    obtain ⟨last, toLast, _⟩ := endPrimed mid second
    exact ⟨last, toMid.trans toLast⟩
  | joined valued first second =>
    obtain ⟨mid, toMid, tails⟩ := endPrimed primed first
    obtain ⟨last, toLast, heads⟩ := endPrimed mid second
    obtain ⟨joined, toJoined⟩ := joinPrimed last s.color _ c.soft
      (fun isTop => toLast.hasTop (tails _ rfl isTop)) (heads _ rfl)
    exact ⟨joined, (toMid.trans toLast).trans toJoined⟩

theorem connectionsPrimed (primed : Primed d) {connections : List Connection}
    (ok : connections.foldlM (connect f weight previous i s) d = .ok e) :
    Primed e ∧ Extends d e := by
  refine foldKeeps (fun now => Primed now ∧ Extends d now) ?_ ⟨primed, .refl d⟩ ok
  rintro c _ now next ⟨holds, since⟩ one
  obtain ⟨kept, added⟩ := connectPrimed holds (connects one)
  exact ⟨kept, since.trans added⟩

theorem openedPrimed (primed : Primed d) :
    Primed (d.opened f i s) ∧ Extends d (d.opened f i s) := by
  have longer : Extends d (d.opened f i s) := ⟨List.prefix_append _ _, List.prefix_rfl⟩
  refine ⟨primed.moreNodes longer rfl rfl ?_, longer⟩
  intro entry member
  rcases List.mem_append.mp member with new | old
  · obtain ⟨top, inside, rfl⟩ := List.mem_map.mp (List.mem_reverse.mp new)
    refine ⟨topNode f s top, ?_, rfl, rfl⟩
    exact List.mem_append_right _ (List.mem_append_left _ (List.mem_map_of_mem inside))
  · exact longer.hasTop (primed.tops entry old)

theorem stitchPrimed (member : s ∈ f.stitches) (primed : Primed d)
    (ok : drawStitch f weight d (s, i) = .ok e) : Primed e ∧ Extends d e := by
  rw [stitchDrawnAs weight member] at ok
  obtain ⟨last, run, rfl⟩ := mapOk ok
  obtain ⟨opened, toOpened⟩ := openedPrimed (f := f) (i := i) (s := s) primed
  obtain ⟨done, toDone⟩ := connectionsPrimed opened run
  have longer := toOpened.trans toDone
  exact ⟨⟨done.led, done.once, done.tops, done.joins, done.shown⟩, longer.nodes, longer.edges⟩

theorem stitchesPrimed {entries : List (Stitch × Nat)}
    (members : ∀ entry ∈ entries, entry.1 ∈ f.stitches) (primed : Primed d)
    (ok : entries.foldlM (drawStitch f weight) d = .ok e) : Primed e ∧ Extends d e := by
  refine foldKeeps (fun now => Primed now ∧ Extends d now) ?_ ⟨primed, .refl d⟩ ok
  rintro entry inside now next ⟨holds, since⟩ one
  obtain ⟨kept, added⟩ := stitchPrimed (members entry inside) holds one
  exact ⟨kept, since.trans added⟩

end

/- Stitch number `i` has come to its connection number `k`, and this takes the drawing `d` to `e`.
`previous` is the top before the stitch. -/
structure DrawnAt (f : Fabric) (weight : Float) (i k : Nat) (s : Stitch) (c : Connection)
    (previous : Option Nat) (d e : Drawing) : Prop where
  stitch : f.stitches[i]? = some s
  connection : s.template.connections[k]? = some c
  reached : ∃ start tops, (f.stitches.zipIdx.take i).foldlM (drawStitch f weight) {} = .ok start ∧
    start.lastTop = previous ∧
    (s.tops.zip s.template.tops).foldlM (drawTop f s) { start with splits := [] } = .ok tops ∧
    (s.template.connections.take k).foldlM (connect f weight previous i s)
      (s.template.hidden.foldl (drawHidden f i s) tops) = .ok d
  drawn : connect f weight previous i s d c = .ok e

section
variable {f : Fabric} {weight : Float} {previous : Option Nat} {i : Nat} {s : Stitch}
  {d e : Drawing}

theorem openedAs (member : s ∈ f.stitches) (d : Drawing) :
    ∃ tops, (s.tops.zip s.template.tops).foldlM (drawTop f s) { d with splits := [] } = .ok tops ∧
      s.template.hidden.foldl (drawHidden f i s) tops = d.opened f i s := by
  refine ⟨_, topsDrawnAs member _ (fun entry inside => (List.of_mem_zip inside).1) _, ?_⟩
  simp only [innersDrawnAs, Drawing.opened, List.append_assoc]

theorem blankPrimed : Primed {} := by
  refine ⟨fun _ => rfl, List.Pairwise.nil, ?_, ?_, ?_⟩
  all_goals simp

theorem connectionDrawn {last : Drawing} {k : Nat}
    (run : f.stitches.zipIdx.foldlM (drawStitch f weight) {} = .ok last)
    (here : f.stitches[i]? = some s) (there : s.template.connections[k]? = some c) :
    ∃ previous d e, DrawnAt f weight i k s c previous d e ∧ Primed d ∧ Extends e last := by
  have member := List.mem_of_getElem? here
  have entry : f.stitches.zipIdx[i]? = some (s, i) := by simp [here]
  obtain ⟨start, next, before, one, after⟩ := foldAt entry run
  have primed := (stitchesPrimed (fun _ inside =>
    List.fst_mem_of_mem_zipIdx (List.mem_of_mem_take inside)) blankPrimed before).1
  obtain ⟨tops, drawn, opens⟩ := openedAs member start
  rw [stitchDrawnAs weight member] at one
  obtain ⟨mid, run, rfl⟩ := mapOk one
  obtain ⟨d, e, earlier, step, later⟩ := foldAt there run
  have atHand := (connectionsPrimed (openedPrimed primed).1 earlier).1
  have drawnHere := (connectPrimed atHand (connects step)).1
  obtain ⟨done, toMid⟩ := connectionsPrimed drawnHere later
  have kept : Primed { mid with lastTop := s.tops.getLast?.or mid.lastTop } :=
    ⟨done.led, done.once, done.tops, done.joins, done.shown⟩
  have toLast := (stitchesPrimed (fun _ inside =>
    List.fst_mem_of_mem_zipIdx (List.mem_of_mem_drop inside)) kept after).2
  refine ⟨start.lastTop, d, e, ⟨here, there, ⟨start, tops, before, rfl, drawn, ?_⟩, step⟩,
    atHand, ?_⟩
  · rw [opens]
    exact earlier
  · exact ⟨toMid.nodes.trans toLast.nodes, toMid.edges.trans toLast.edges⟩

theorem topEnd (isTop : s.template.isTop ending = true)
    (ends : EndAt f weight previous i s d ending r e) :
    e = d ∧ ((r = none ∧ previous = none ∧ ending = .previous) ∨
      ∃ node, r = some { node, isTop := true }) := by
  have only {name : String} {role : Role} (known : s.template.role name = some role)
      (isTop : s.template.isTop (.node name) = true) : role = .top := by
    simpa [Template.isTop, known] using isTop
  cases ends with
  | nothing first => exact ⟨rfl, .inl ⟨rfl, first, rfl⟩⟩
  | before last drawn => exact ⟨rfl, .inr ⟨_, rfl⟩⟩
  | top role made drawn => exact ⟨rfl, .inr ⟨_, rfl⟩⟩
  | inner role => cases only role isTop
  | loop sits drawn => cases only sits.role isTop
  | post sits anchor => cases only sits.role isTop
  | again sits met => cases only sits.role isTop
  | split sits fresh nearDrawn farDrawn => cases only sits.role isTop

/- Primary, or after a primary edge into the same node. -/
def Follows (edges : List GraphEdge) (edge : GraphEdge) : Prop :=
  edge.weight = .primary ∨ ∃ p ∈ edges, p.weight = .primary ∧ p.head = edge.head

theorem topsJoin (led : Led d) (color : String) (length : Float) (tail head : String) :
    ∃ edge, (joinEnds d color length false { node := tail, isTop := true }
        { node := head, isTop := true }).graph.edges = d.graph.edges ++ [edge] ∧
      Follows d.graph.edges edge := by
  simp only [joinEnds, loopSides, Bool.false_eq_true, if_false, Bool.true_and]
  split
  · exact ⟨_, rfl, .inl rfl⟩
  · rename_i known
    refine ⟨_, rfl, .inr ?_⟩
    simp only [Bool.not_eq_true', Bool.not_eq_false, led head, List.any_eq_true] at known
    obtain ⟨p, member, leads⟩ := known
    simp only [leadsInto, Bool.and_eq_true, beq_iff_eq] at leads
    exact ⟨p, member, leads⟩

theorem topsConnect (led : Led d) (hard : c.soft = false) (tailTop : s.template.isTop c.tail = true)
    (headTop : s.template.isTop c.head = true) (drawn : Connects f weight previous i s d c e) :
    ∃ new, e.graph.edges = d.graph.edges ++ new ∧
      ((new = [] ∧ (c.length.value? = none ∨
          previous = none ∧ (c.tail = .previous ∨ c.head = .previous))) ∨
        ∃ edge, new = [edge] ∧ Follows d.graph.edges edge) := by
  cases drawn with
  | skipped none => exact ⟨[], by simp, .inl ⟨rfl, .inl none⟩⟩
  | loose valued first second missing =>
    obtain ⟨rfl, tail⟩ := topEnd tailTop first
    obtain ⟨rfl, head⟩ := topEnd headTop second
    refine ⟨[], by simp, .inl ⟨rfl, .inr ?_⟩⟩
    rcases missing with rfl | rfl
    · rcases tail with ⟨_, none, at'⟩ | ⟨node, found⟩
      · exact ⟨none, .inl at'⟩
      · cases found
    · rcases head with ⟨_, none, at'⟩ | ⟨node, found⟩
      · exact ⟨none, .inr at'⟩
      · cases found
  | joined valued first second =>
    obtain ⟨rfl, ⟨none, _⟩ | ⟨start, found⟩⟩ := topEnd tailTop first
    · cases none
    obtain ⟨rfl, ⟨none, _⟩ | ⟨stop, there⟩⟩ := topEnd headTop second
    · cases none
    cases found
    cases there
    rw [hard]
    obtain ⟨edge, added, follows⟩ := topsJoin led s.color _ start stop
    exact ⟨[edge], added, .inr ⟨edge, rfl, follows⟩⟩

end

theorem primaryEdges {f : Fabric} {options : Options} {graph : Graph}
    (drawn : ofFabric f options = .ok graph) :
    (graph.edges.Pairwise fun a b => a.weight = .primary → b.weight = .primary → a.head ≠ b.head) ∧
    (∀ e ∈ graph.edges, e.weight = .primary → graph.HasTop e.tail ∧ graph.HasTop e.head) ∧
    (∀ e ∈ graph.edges, e.visible = false ↔ e.weight = .internal) ∧
    ∀ i k s c, f.stitches[i]? = some s → s.template.connections[k]? = some c → c.soft = false →
      s.template.isTop c.tail = true → s.template.isTop c.head = true →
      ∃ previous d e new later, DrawnAt f options.loopWeight i k s c previous d e ∧
        e.graph.edges = d.graph.edges ++ new ∧ graph.edges = e.graph.edges ++ later ∧
        ((new = [] ∧ (c.length.value? = none ∨
            previous = none ∧ (c.tail = .previous ∨ c.head = .previous))) ∨
          ∃ edge, new = [edge] ∧ Follows d.graph.edges edge) := by
  unfold ofFabric at drawn
  split at drawn
  · rename_i last run
    cases drawn
    obtain ⟨primed, _⟩ := stitchesPrimed
      (fun _ inside => List.fst_mem_of_mem_zipIdx inside) blankPrimed run
    refine ⟨primed.once, primed.joins, primed.shown, ?_⟩
    intro i k s c here there hard tailTop headTop
    obtain ⟨previous, d, e, drawn, atHand, ⟨_, later, rest⟩⟩ := connectionDrawn run here there
    obtain ⟨new, added, facts⟩ :=
      topsConnect atHand.led hard tailTop headTop (connects drawn.drawn)
    exact ⟨previous, d, e, new, later, drawn, added, rest.symm, facts⟩
  · cases drawn

def picotPiece : MappedText := MappedText.ofSource "ch,picot3".toList

def picotStitches : Registry := (Registry.plain.defineSpec "picot3"
  "&picot^A(ch);B(ch);C(ch);D(ss):~::!-1-A;A-1-B;B-1-C;C-1-D;!-0.4-D").2

def closes (f : Fabric) (graph : Graph) : Bool :=
  graph.edges.map GraphEdge.weight == [.primary, .primary, .primary, .primary, .secondary] &&
  ((f.stitches.zipIdx.take 1).foldlM (drawStitch f ({} : Options).loopWeight) {}).toOption.any
    (fun d => d.lastTop.isSome) &&
  f.stitches[1]?.any fun s => s.template.connections[4]?.any fun c =>
    !c.soft && s.template.isTop c.tail && s.template.isTop c.head && c.length.value?.isSome

theorem primaryEdgesClosed : ∃ rows f graph s c, Row.parseRows picotPiece [] "red" = .ok rows ∧
    Fabric.weave rows picotStitches {} = .ok f ∧ ofFabric f {} = .ok graph ∧
    graph.edges.map GraphEdge.weight = [.primary, .primary, .primary, .primary, .secondary] ∧
    (graph.edges.Pairwise fun a b => a.weight = .primary → b.weight = .primary → a.head ≠ b.head) ∧
    (∀ e ∈ graph.edges, e.weight = .primary → graph.HasTop e.tail ∧ graph.HasTop e.head) ∧
    (∀ e ∈ graph.edges, e.visible = false ↔ e.weight = .internal) ∧
    f.stitches[1]? = some s ∧ s.template.connections[4]? = some c ∧ c.soft = false ∧
    s.template.isTop c.tail = true ∧ s.template.isTop c.head = true ∧
    ∃ previous d e edge later, DrawnAt f ({} : Options).loopWeight 1 4 s c previous d e ∧
      graph.edges = d.graph.edges ++ edge :: later ∧ Follows d.graph.edges edge := by
  have runs : (Row.parseRows picotPiece [] "red" >>= fun rows =>
      Fabric.weave rows picotStitches {} >>= fun f =>
      (ofFabric f {}).map fun graph => (f, graph)).toOption.any (fun pair =>
        closes pair.1 pair.2) = true := by decide +kernel
  obtain ⟨⟨f, graph⟩, run, holds⟩ := testOk runs
  obtain ⟨rows, parsed, run⟩ := bindOk run
  obtain ⟨g, ok, run⟩ := bindOk run
  obtain ⟨_, drawn, same⟩ := mapOk run
  cases same
  simp only [closes, Bool.and_eq_true, beq_iff_eq, Option.any_eq_true, Bool.not_eq_true'] at holds
  obtain ⟨⟨weights, begun⟩, s, here, c, there, ⟨⟨hard, tailTop⟩, headTop⟩, valued⟩ := holds
  obtain ⟨once, joins, shown, each⟩ := primaryEdges drawn
  refine ⟨rows, f, graph, s, c, parsed, ok, drawn, weights, once, joins, shown, here, there, hard,
    tailTop, headTop, ?_⟩
  obtain ⟨previous, d, e, new, later, at', added, rest, outcome⟩ :=
    each 1 4 s c here there hard tailTop headTop
  rcases outcome with ⟨_, none | ⟨none, _⟩⟩ | ⟨edge, rfl, follows⟩
  · rw [none] at valued
    cases valued
  · obtain ⟨start, _, before, last, _⟩ := at'.reached
    obtain ⟨_, ran, some⟩ := begun
    cases (congrArg Except.toOption before).symm.trans ran
    rw [last, none] at some
    cases some
  · exact ⟨previous, d, e, edge, later, at', by rw [rest, added]; simp, follows⟩

end Graph
end Crochet
