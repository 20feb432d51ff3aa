import Crochet.Proofs.Graph.Census

/-! Every node and edge of a graph accounted for. A stitch brings its tops and inner nodes. Each of
its connections brings what is written here, read off the fabric and the graph before it, so that
nothing is lost, drawn twice or drawn without a connection that asks for it. -/
namespace Crochet
namespace Graph

def add (g new : Graph) : Graph := ⟨g.nodes ++ new.nodes, g.edges ++ new.edges⟩

theorem addNothing (g : Graph) : g.add {} = g := by
  simp [add]

theorem addAdd (g a b : Graph) : (g.add a).add b = g.add (a.add b) := by
  simp [add]

inductive Site where
  | stitch (i : Nat) (s : Stitch)
  | connection (i : Nat) (s : Stitch) (k : Nat) (c : Connection)

def connectionSite (i : Nat) (s : Stitch) (entry : Connection × Nat) : Site :=
  .connection i s entry.2 entry.1

def stitchSites (entry : Stitch × Nat) : List Site :=
  .stitch entry.2 entry.1 ::
    entry.1.template.connections.zipIdx.map (connectionSite entry.2 entry.1)

def sites (f : Fabric) : List Site := f.stitches.zipIdx.flatMap stitchSites

section
variable (f : Fabric)

def lastBefore (n : Nat) : Option Nat := ((f.stitches.take n).flatMap Stitch.tops).getLast?

def topNames (n : Nat) : List (Nat × String) :=
  ((f.stitches.take n).flatMap fun s =>
    (s.tops.zip s.template.tops).map fun entry => (entry.1, topText f s entry.1)).reverse

inductive Anchored (i : Nat) : NodeRef → String → Prop where
  | top {id node} (made : (topNames f (i + 1)).lookup id = some node) : Anchored i (.top id) node
  | post {id name owner} (owned : f.owner? id = some owner)
      (inner : owner.template.role name = some .hidden) :
      Anchored i (.post id name) (postName f owner name)

inductive Reaches (weight : Float) (i : Nat) (s : Stitch) : Endpoint → Option End → Prop where
  | nothing (first : ∀ t ∈ f.stitches.take i, t.tops = []) : Reaches weight i s .previous none
  | before {id node} (last : lastBefore f i = some id)
      (made : (topNames f (i + 1)).lookup id = some node) :
      Reaches weight i s .previous (some { node, isTop := true })
  | top {name id node} (role : s.template.role name = some .top)
      (own : (s.template.topIndex? name).bind (s.tops[·]?) = some id)
      (made : (topNames f (i + 1)).lookup id = some node) :
      Reaches weight i s (.node name) (some { node, isTop := true })
  | inner {name} (role : s.template.role name = some .hidden) :
      Reaches weight i s (.node name) (some { node := hiddenName f i s name })
  | loop {name b bottom id node} (sits : Sits f s name b bottom (.top id))
      (made : (topNames f (i + 1)).lookup id = some node) :
      Reaches weight i s (.node name) (some { node, pull := bottom.loop.map (·.pull weight) })
  | post {name b bottom id inner node} (sits : Sits f s name b bottom (.post id inner))
      (anchored : Anchored f i (.post id inner) node) :
      Reaches weight i s (.node name) (some { node })
  | between {name b bottom near far nearPull farPull}
      (sits : Sits f s name b bottom (.between near far nearPull farPull)) :
      Reaches weight i s (.node name) (some { node := hiddenName f i s name })

def innerEdge (s : Stitch) (tail head : String) (length : Float) : GraphEdge :=
  { tail, head, length, color := s.color, visible := false, weight := .internal }

/- What an end brings by itself: the node of a bottom between two anchors and the yarn to both,
the first time it is asked for. `met` are the ends asked for before. -/
inductive Splits (i : Nat) (s : Stitch) (met : List Endpoint) : Endpoint → Graph → Prop where
  | plain {ending} (whole : ∀ name b bottom node, ending = .node name →
      Sits f s name b bottom node → node.isBetween = false) : Splits i s met ending {}
  | again {ending} (known : ending ∈ met) : Splits i s met ending {}
  | fresh {name b bottom near far nearPull farPull left right} (new : .node name ∉ met)
      (sits : Sits f s name b bottom (.between near far nearPull farPull))
      (nearNode : Anchored f i near left) (farNode : Anchored f i far right) :
      Splits i s met (.node name)
        { nodes := [splitNode f i s bottom]
          edges := [innerEdge s left (hiddenName f i s name) nearPull,
            innerEdge s (hiddenName f i s name) right farPull] }

end

def leadsInto (node : String) (e : GraphEdge) : Bool := e.weight == .primary && e.head == node

def hardEdge (s : Stitch) (tail head : String) (length : Float) (weight : WeightClass) :
    GraphEdge :=
  { tail, head, length, color := s.color, visible := true, weight }

def joint (g : Graph) (s : Stitch) (c : Connection) (length : Float) (tail head : End) : Graph :=
  if c.soft then { edges := [innerEdge s tail.node head.node length] }
  else
    let sideNode (id : String) : GraphNode :=
      { id, kind := .hidden, labels := [], display := "hidden", color := s.color }
    match tail.pull, head.pull with
    | some pull, _ =>
      let side := sideText tail.node head.node pull
      { nodes := [sideNode side]
        edges := [hardEdge s tail.node side pull.abs .secondary,
          hardEdge s side head.node length .secondary] }
    | none, some pull =>
      let side := sideText head.node tail.node pull
      { nodes := [sideNode side]
        edges := [hardEdge s head.node side pull.abs .secondary,
          hardEdge s tail.node side length .secondary] }
    | none, none =>
      let first := tail.isTop && head.isTop && !g.edges.any (leadsInto head.node)
      { edges := [hardEdge s tail.node head.node length (if first then .primary else .secondary)] }

inductive Adds (f : Fabric) (weight : Float) (g : Graph) : Site → Graph → Prop where
  | stitch {i s} : Adds f weight g (.stitch i s)
      { nodes := (s.tops.zip s.template.tops).map (topNode f s) ++
          s.template.hidden.map (innerNode f i s) }
  | skipped {i s k c} (skip : c.length = .skip) : Adds f weight g (.connection i s k c) {}
  | loose {i s k c length first second} (valued : c.length = .value length)
      (tailSplit : Splits f i s (Template.valuedEnds (s.template.connections.take k)) c.tail first)
      (headSplit : Splits f i s
        (Template.valuedEnds (s.template.connections.take k) ++ [c.tail]) c.head second)
      (missing : Reaches f weight i s c.tail none ∨ Reaches f weight i s c.head none) :
      Adds f weight g (.connection i s k c) (first.add second)
  | joined {i s k c length first second tail head} (valued : c.length = .value length)
      (tailSplit : Splits f i s (Template.valuedEnds (s.template.connections.take k)) c.tail first)
      (headSplit : Splits f i s
        (Template.valuedEnds (s.template.connections.take k) ++ [c.tail]) c.head second)
      (tailEnd : Reaches f weight i s c.tail (some tail))
      (headEnd : Reaches f weight i s c.head (some head)) :
      Adds f weight g (.connection i s k c)
        ((first.add second).add (joint (g.add (first.add second)) s c length tail head))

inductive Accounted (f : Fabric) (weight : Float) : List Site → Graph → Prop where
  | nothing : Accounted f weight [] {}
  | more {before g site new} (sofar : Accounted f weight before g)
      (adds : Adds f weight g site new) : Accounted f weight (before ++ [site]) (g.add new)

/- The heads the drawing remembers are those of its primary edges. -/
def Led (d : Drawing) : Prop :=
  ∀ node, d.primaries.contains node = d.graph.edges.any (leadsInto node)

theorem Led.edge {d : Drawing} (led : Led d) (tail head : String) (length : Float) (color : String)
    {weight : WeightClass} (other : (weight == .primary) = false) :
    Led (d.addEdge tail head length color weight) := by
  intro node
  simp only [Drawing.addEdge, List.any_append, List.any_cons, List.any_nil, leadsInto, other,
    Bool.false_and, Bool.or_false]
  exact led node

theorem Led.primary {d : Drawing} (led : Led d) (tail head : String) (length : Float)
    (color : String) : Led { d.addEdge tail head length color .primary with
      primaries := head :: d.primaries } := by
  intro node
  have kept := led node
  simp only [Drawing.addEdge, List.contains_cons, List.any_append, List.any_cons, List.any_nil,
    leadsInto, kept, Bool.or_false]
  rw [Bool.or_comm, show (node == head) = (head == node) from BEq.comm]
  rfl

structure Books (f : Fabric) (i : Nat) (s : Stitch) (met : List Endpoint) (d : Drawing) : Prop where
  tops : d.tops = topNames f (i + 1)
  last : d.lastTop = lastBefore f i
  led : Led d
  splits : ∀ name b bottom node, Sits f s name b bottom node → node.isBetween = true →
    d.splits.lookup b = if .node name ∈ met then some (hiddenName f i s name) else none

variable {node : String} {ending : Endpoint} {k n : Nat} {c : Connection}

section
variable {f : Fabric} {weight : Float} {i : Nat} {s : Stitch} {met : List Endpoint} {d e : Drawing}

theorem Books.top (books : Books f i s met d) {id : Nat} (drawn : d.top id = .ok node) :
    (topNames f (i + 1)).lookup id = some node :=
  books.tops ▸ topFound drawn

theorem Books.anchor (books : Books f i s met d) {target : NodeRef}
    (drawn : anchorName f d target = .ok node) : Anchored f i target node := by
  rcases anchorCases drawn with ⟨id, rfl, drawn⟩ | ⟨id, name, s, rfl, owner, inner, rfl⟩
  · exact .top (books.top drawn)
  · exact .post owner inner

theorem Books.read (books : Books f i s met d)
    (known : ∀ name b bottom node, ending = .node name → Sits f s name b bottom node →
      node.isBetween = true → .node name ∈ met) : Books f i s (met ++ [ending]) d where
  tops := books.tops
  last := books.last
  led := books.led
  splits := by
    intro name b bottom node sits between
    have same : (.node name ∈ met ++ [ending]) = (.node name ∈ met) := by
      apply propext
      rw [List.mem_append, List.mem_singleton]
      constructor
      · rintro (old | new)
        · exact old
        · exact known name b bottom node new.symm sits between
      · exact .inl
    simp only [same]
    exact books.splits name b bottom node sits between

theorem Books.reaches (books : Books f i s met d) {r : Option End}
    (ends : EndAt f weight (lastBefore f i) i s d ending r e) : Reaches f weight i s ending r := by
  cases ends with
  | nothing first => exact .nothing (by simpa [lastBefore] using first)
  | before last drawn => exact .before last (books.top drawn)
  | top role made drawn => exact .top role made (books.top drawn)
  | inner role => exact .inner role
  | loop sits drawn => exact .loop sits (books.top drawn)
  | post sits anchor => exact .post sits (books.anchor anchor)
  | again sits known =>
    have found := books.splits _ _ _ _ sits rfl
    rw [known] at found
    split at found
    · cases found
      exact .between sits
    · cases found
  | split sits fresh nearDrawn farDrawn =>
    rw [sits.named]
    exact .between sits

theorem endAccounted (books : Books f i s met d) {r : Option End}
    (ends : EndAt f weight (lastBefore f i) i s d ending r e) :
    Reaches f weight i s ending r ∧ ∃ new, e.graph = d.graph.add new ∧
      Splits f i s met ending new ∧ Books f i s (met ++ [ending]) e := by
  refine ⟨books.reaches ends, ?_⟩
  rcases ends.drawn with ⟨rfl, known⟩ | ⟨name, b, bottom, near, far, nearPull, farPull, left, right,
    rfl, here, fresh, nearDrawn, farDrawn, rfl⟩
  · have inside : ∀ name b bottom node, ending = .node name → Sits f s name b bottom node →
        node.isBetween = true → .node name ∈ met := by
      intro name b bottom node same sits between
      obtain ⟨split, found⟩ := known name b bottom node same sits between
      by_contra absent
      rw [books.splits name b bottom node sits between, if_neg absent] at found
      cases found
    refine ⟨{}, (addNothing _).symm, ?_, books.read inside⟩
    by_cases old : ending ∈ met
    · exact .again old
    · refine .plain fun name b bottom node same sits => ?_
      cases between : node.isBetween with
      | false => rfl
      | true => exact absurd (same ▸ inside name b bottom node same sits between) old
  · have absent : .node name ∉ met := by
      intro inside
      have found := books.splits _ _ _ _ here rfl
      rw [fresh, if_pos inside] at found
      cases found
    have named := here.named
    refine ⟨_, ?_, .fresh absent here (books.anchor nearDrawn) (books.anchor farDrawn), books.tops,
      books.last, ?_, ?_⟩
    · simp [Drawing.split, Drawing.addHidden, Drawing.addNode, Drawing.addEdge, add, splitNode,
        innerEdge, named]
    · exact Led.edge (Led.edge (d := d.addHidden _ _ _) books.led _ _ _ _ rfl) _ _ _ _ rfl
    · intro other c found node sits between
      by_cases same : other = name
      · subst same
        obtain ⟨rfl, _, _⟩ := here.same sits
        simp [Drawing.split, named]
      · have apart : c ≠ b := by
          rintro rfl
          have one := sits.here.symm.trans here.here
          exact same (sits.named.symm.trans ((congrArg _ (Option.some.inj one)).trans named))
        have old := books.splits other c found node sits between
        have missed : (c == b) = false := beq_false_of_ne apart
        simp only [Drawing.split, List.lookup_cons, missed, old, List.mem_append,
          List.mem_singleton, Endpoint.node.injEq, same, or_false]

theorem joinAccounted (books : Books f i s met d) (c : Connection) (length : Float)
    (tail head : End) : (joinEnds d s.color length c.soft tail head).graph =
        d.graph.add (joint d.graph s c length tail head) ∧
      Books f i s met (joinEnds d s.color length c.soft tail head) := by
  unfold joinEnds joint
  split
  · exact ⟨by simp [Drawing.addEdge, add, innerEdge], books.tops, books.last,
      books.led.edge _ _ _ _ rfl, books.splits⟩
  have side (node other : String) (pull : Float) : Led (loopSide d s.color node other pull).2 :=
    Led.edge (d := d.addHidden _ _ _) books.led _ _ _ _ rfl
  cases left : tail.pull with
  | some pull =>
    simp only [loopSides, left, loopSide, Bool.false_and, Bool.false_eq_true, if_false]
    refine ⟨?_, books.tops, books.last, (side _ _ pull).edge _ _ _ _ rfl, books.splits⟩
    simp [Drawing.addEdge, Drawing.addHidden, Drawing.addNode, add, hardEdge, sideText]
  | none =>
    cases right : head.pull with
    | some pull =>
      simp only [loopSides, left, right, loopSide, Bool.and_false, Bool.false_and,
        Bool.false_eq_true, if_false]
      refine ⟨?_, books.tops, books.last, (side _ _ pull).edge _ _ _ _ rfl, books.splits⟩
      simp [Drawing.addEdge, Drawing.addHidden, Drawing.addNode, add, hardEdge, sideText]
    | none =>
      simp only [loopSides, left, right, books.led head.node]
      split
      · exact ⟨by simp [Drawing.addEdge, add, hardEdge], books.tops, books.last,
          books.led.primary _ _ _ _, books.splits⟩
      · exact ⟨by simp [Drawing.addEdge, add, hardEdge], books.tops, books.last,
          books.led.edge _ _ _ _ rfl, books.splits⟩

theorem valuedNext {connections : List Connection} (here : connections[k]? = some c) :
    Template.valuedEnds (connections.take (k + 1)) =
      Template.valuedEnds (connections.take k) ++
        if c.length.value?.isSome then [c.tail, c.head] else [] := by
  rw [List.take_add_one, here]
  simp [Template.valuedEnds]

theorem connectAccounted (here : s.template.connections[k]? = some c)
    (books : Books f i s (Template.valuedEnds (s.template.connections.take k)) d)
    (drawn : Connects f weight (lastBefore f i) i s d c e) :
    (∃ new, e.graph = d.graph.add new ∧ Adds f weight d.graph (.connection i s k c) new) ∧
      Books f i s (Template.valuedEnds (s.template.connections.take (k + 1))) e := by
  have length {x : Float} (valued : c.length.value? = some x) : c.length = .value x := by
    cases form : c.length with
    | skip => rw [form] at valued; cases valued
    | value y => rw [form] at valued; cases valued; rfl
  rw [valuedNext here]
  cases drawn with
  | skipped none =>
    have skip : c.length = .skip := by
      cases form : c.length with
      | skip => rfl
      | value y => rw [form] at none; cases none
    refine ⟨⟨{}, (addNothing _).symm, .skipped skip⟩, ?_⟩
    simpa [none] using books
  | loose valued first second missing =>
    obtain ⟨tailEnd, new, drawnTail, tailSplit, mid⟩ := endAccounted books first
    obtain ⟨headEnd, more, drawnHead, headSplit, last⟩ := endAccounted mid second
    refine ⟨⟨new.add more, by rw [drawnHead, drawnTail, addAdd],
      .loose (length valued) tailSplit headSplit ?_⟩, by simpa [valued] using last⟩
    rcases missing with rfl | rfl
    · exact .inl tailEnd
    · exact .inr headEnd
  | joined valued first second =>
    obtain ⟨tailEnd, new, drawnTail, tailSplit, mid⟩ := endAccounted books first
    obtain ⟨headEnd, more, drawnHead, headSplit, last⟩ := endAccounted mid second
    obtain ⟨drawn, done⟩ := joinAccounted last c _ _ _
    refine ⟨⟨_, ?_, .joined (length valued) tailSplit headSplit tailEnd headEnd⟩,
      by simpa [valued] using done⟩
    rw [drawn, drawnHead, drawnTail]
    simp only [addAdd]

theorem connectionsAccounted {rest : List Connection} (done : List Connection)
    (all : s.template.connections = done ++ rest) {before : List Site}
    (books : Books f i s (Template.valuedEnds done) d) (sofar : Accounted f weight before d.graph)
    (ok : rest.foldlM (connect f weight (lastBefore f i) i s) d = .ok e) :
    Accounted f weight (before ++ (rest.zipIdx done.length).map (connectionSite i s)) e.graph ∧
      Books f i s (Template.valuedEnds s.template.connections) e := by
  induction rest generalizing d done before with
  | nil =>
    cases pureOk ok
    rw [List.append_nil] at all
    subst all
    exact ⟨by simpa using sofar, books⟩
  | cons c rest ih =>
    obtain ⟨next, one, more⟩ := foldConsOk ok
    have here : s.template.connections[done.length]? = some c := by simp [all]
    have upTo : s.template.connections.take done.length = done := by simp [all]
    have after : s.template.connections.take (done.length + 1) = done ++ [c] := by
      simp [all, List.take_append]
    obtain ⟨⟨new, drawn, adds⟩, kept⟩ :=
      connectAccounted here (by rw [upTo]; exact books) (connects one)
    rw [after] at kept
    have longer : Accounted f weight (before ++ [.connection i s done.length c]) next.graph := by
      rw [drawn]
      exact .more sofar adds
    have last := ih (done ++ [c]) (by simpa using all) kept longer more
    simpa [List.zipIdx_cons, connectionSite] using last

structure Page (f : Fabric) (n : Nat) (d : Drawing) : Prop where
  tops : d.tops = topNames f n
  last : d.lastTop = lastBefore f n
  led : Led d

theorem topNamesNext (here : f.stitches[n]? = some s) : topNames f (n + 1) =
    ((s.tops.zip s.template.tops).map fun entry => (entry.1, topText f s entry.1)).reverse ++
      topNames f n := by
  unfold topNames
  rw [List.take_add_one, here]
  simp

theorem lastBeforeNext (here : f.stitches[n]? = some s) :
    lastBefore f (n + 1) = s.tops.getLast?.or (lastBefore f n) := by
  unfold lastBefore
  rw [List.take_add_one, here]
  simp [List.getLast?_append]

theorem stitchAccounted (here : f.stitches[n]? = some s) {before : List Site} (page : Page f n d)
    (sofar : Accounted f weight before d.graph) (ok : drawStitch f weight d (s, n) = .ok e) :
    Accounted f weight (before ++ stitchSites (s, n)) e.graph ∧ Page f (n + 1) e := by
  rw [stitchDrawnAs weight (List.mem_of_getElem? here), page.last] at ok
  obtain ⟨last, run, rfl⟩ := mapOk ok
  have opened : (d.opened f n s).graph = d.graph.add
      { nodes := (s.tops.zip s.template.tops).map (topNode f s) ++
          s.template.hidden.map (innerNode f n s) } := by
    simp [Drawing.opened, add]
  have books : Books f n s (Template.valuedEnds []) (d.opened f n s) := by
    refine ⟨?_, page.last, page.led, fun _ _ _ _ _ _ => rfl⟩
    rw [topNamesNext here, ← page.tops]
    rfl
  have begun : Accounted f weight (before ++ [.stitch n s]) (d.opened f n s).graph := by
    rw [opened]
    exact .more sofar .stitch
  obtain ⟨accounted, kept⟩ := connectionsAccounted [] rfl books begun run
  refine ⟨by simpa [stitchSites] using accounted, kept.tops, ?_, kept.led⟩
  rw [lastBeforeNext here, kept.last]

theorem stitchesAccounted {rest : List Stitch} (done : List Stitch)
    (all : f.stitches = done ++ rest) {before : List Site} (page : Page f done.length d)
    (sofar : Accounted f weight before d.graph)
    (ok : (rest.zipIdx done.length).foldlM (drawStitch f weight) d = .ok e) :
    Accounted f weight (before ++ (rest.zipIdx done.length).flatMap stitchSites) e.graph := by
  induction rest generalizing d done before with
  | nil => cases pureOk ok; simpa using sofar
  | cons s rest ih =>
    rw [List.zipIdx_cons] at ok
    obtain ⟨next, one, more⟩ := foldConsOk ok
    have here : f.stitches[done.length]? = some s := by simp [all]
    obtain ⟨accounted, turned⟩ := stitchAccounted here page sofar one
    have last := ih (done ++ [s]) (by simpa using all) (by simpa using turned) accounted
      (by simpa using more)
    simpa [List.zipIdx_cons] using last

end

theorem graphAccounted {f : Fabric} {options : Options} {graph : Graph}
    (drawn : ofFabric f options = .ok graph) :
    Accounted f options.loopWeight (sites f) graph := by
  unfold ofFabric at drawn
  split at drawn
  · rename_i d run
    cases drawn
    have blank : Page f 0 {} := ⟨rfl, rfl, fun _ => rfl⟩
    simpa [sites] using stitchesAccounted [] rfl blank .nothing run
  · cases drawn

theorem graphAccountedPost : ∃ rows f g graph, Row.parseRows postPiece [] "red" = .ok rows ∧
    Fabric.weave rows tallStitches {} = .ok f ∧ f.resolve = (g, .ok ()) ∧
    ofFabric g {} = .ok graph ∧ graph.edges.length = 15 ∧ (sites g).length = 20 ∧
    Accounted g ({} : Options).loopWeight (sites g) graph := by
  have runs : (Row.parseRows postPiece [] "red" >>= fun rows =>
      Fabric.weave rows tallStitches {} >>= fun f =>
      f.resolve.2.map fun _ => f.resolve.1).toOption.any (fun g =>
        (sites g).length == 20 &&
          (ofFabric g {}).toOption.any (·.edges.length == 15)) = true := by
    decide +kernel
  obtain ⟨g, run, facts⟩ := testOk runs
  obtain ⟨rows, parsed, run⟩ := bindOk run
  obtain ⟨f, ok, run⟩ := bindOk run
  obtain ⟨_, done, same⟩ := mapOk run
  have resolved : f.resolve = (g, .ok ()) := Prod.ext same done
  obtain ⟨many, draws⟩ := (Bool.and_eq_true _ _).mp facts
  obtain ⟨graph, drawn, edges⟩ := testOk draws
  exact ⟨rows, f, g, graph, parsed, ok, resolved, drawn, by simpa using edges, by simpa using many,
    graphAccounted drawn⟩

end Graph
end Crochet
