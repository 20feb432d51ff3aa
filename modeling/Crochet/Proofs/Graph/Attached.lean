import Crochet.Proofs.Graph.Steps
import Crochet.Proofs.Graph.Drawable

/-! Every edge of a graph runs between nodes of it. An edge may be drawn before its node: around the
post of a stitch that is still to come. That node is drawn with its stitch. -/
namespace Crochet
namespace Graph

def Drawing.Has (d : Drawing) (id : String) : Prop := ∃ n ∈ d.graph.nodes, n.id = id

/- A node that is there, or comes with its stitch. -/
def Comes (f : Fabric) (d : Drawing) (id : String) : Prop :=
  d.Has id ∨ ∃ i s, f.stitches[i]? = some s ∧ ∃ h ∈ s.template.hidden, hiddenName f i s h.name = id

structure Attached (f : Fabric) (d : Drawing) : Prop where
  tops : ∀ entry ∈ d.tops, d.Has entry.2
  splits : ∀ entry ∈ d.splits, d.Has entry.2
  edges : ∀ e ∈ d.graph.edges, Comes f d e.tail ∧ Comes f d e.head

variable {id node : String} {weight : Float} {previous : Option Nat} {i : Nat} {s : Stitch}
  {tail head : End}

theorem hasAdded {d e : Drawing} (more : d.graph.nodes ⊆ e.graph.nodes) (has : d.Has id) :
    e.Has id := by
  obtain ⟨n, member, same⟩ := has
  exact ⟨n, more member, same⟩

section
variable {f : Fabric} {d e : Drawing}

theorem comesAdded (more : d.graph.nodes ⊆ e.graph.nodes) (comes : Comes f d id) :
    Comes f e id := comes.imp_left (hasAdded more)

theorem Attached.more (attached : Attached f d) (more : d.graph.nodes ⊆ e.graph.nodes)
    (tops : e.tops = d.tops) (splits : e.splits = d.splits)
    (edges : e.graph.edges = d.graph.edges) : Attached f e where
  tops := fun entry member => hasAdded more (attached.tops entry (tops ▸ member))
  splits := fun entry member => hasAdded more (attached.splits entry (splits ▸ member))
  edges := by
    intro edge member
    rw [edges] at member
    obtain ⟨tail, head⟩ := attached.edges edge member
    exact ⟨comesAdded more tail, comesAdded more head⟩

theorem hiddenAdded (d : Drawing) (id display color : String) :
    d.graph.nodes ⊆ (d.addHidden id display color).graph.nodes ∧
      (d.addHidden id display color).Has id := by
  constructor
  · exact List.subset_append_left _ _
  · exact ⟨_, List.mem_append_right _ List.mem_cons_self, rfl⟩

theorem attachedEdge (attached : Attached f d) {tail head : String} (length : Float)
    (color : String) (weight : WeightClass) (start : Comes f d tail) (stop : Comes f d head) :
    Attached f (d.addEdge tail head length color weight) where
  tops := attached.tops
  splits := attached.splits
  edges := by
    intro edge member
    rcases List.mem_append.mp member with old | new
    · exact attached.edges edge old
    · rw [List.mem_singleton.mp new]
      exact ⟨start, stop⟩

theorem attachedSplit (attached : Attached f d) (b : Nat) (node color : String)
    {left right : String} (nearPull farPull : Float) (near : Comes f d left)
    (far : Comes f d right) :
    Attached f (d.split b node color left right nearPull farPull) := by
  obtain ⟨more, has⟩ := hiddenAdded d node "hidden" color
  have drawn : Attached f (d.addHidden node "hidden" color) := attached.more more rfl rfl rfl
  have first := attachedEdge drawn nearPull color .internal (comesAdded more near) (.inl has)
  have second := attachedEdge first farPull color .internal (.inl has) (comesAdded more far)
  refine ⟨second.tops, ?_, second.edges⟩
  intro entry member
  rcases List.mem_cons.mp member with rfl | old
  · exact has
  · exact second.splits entry old

theorem topComes (attached : Attached f d) {id : Nat} (drawn : d.top id = .ok node) :
    d.Has node := attached.tops _ (topMember drawn)

theorem anchorComes (attached : Attached f d) {target : NodeRef}
    (drawn : anchorName f d target = .ok node) : Comes f d node := by
  rcases anchorCases drawn with ⟨id, _, drawn⟩ | ⟨id, name, s, _, owner, inner, rfl⟩
  · exact .inl (topComes attached drawn)
  · obtain ⟨h, hidden, rfl⟩ := roleHidden inner
    obtain ⟨i, place⟩ := List.mem_iff_getElem?.mp
      (List.mem_reverse.mp (List.mem_of_find?_eq_some owner))
    exact .inr ⟨i, s, place, h, hidden, (postNameHidden owner i h.name).symm⟩

theorem endAttached {ending : Endpoint} {r : Option End} (place : f.stitches[i]? = some s)
    (attached : Attached f d) (ends : EndAt f weight previous i s d ending r e) :
    Attached f e ∧ d.graph.nodes ⊆ e.graph.nodes ∧ ∀ x, r = some x → Comes f e x.node := by
  have same (node : String) (comes : Comes f d node) {x : End} (is : x.node = node) :
      Attached f d ∧ d.graph.nodes ⊆ d.graph.nodes ∧
        ∀ y, some x = some y → Comes f d y.node := by
    refine ⟨attached, fun _ inside => inside, ?_⟩
    intro y eq
    cases eq
    exact is ▸ comes
  cases ends with
  | nothing first => exact ⟨attached, fun _ inside => inside, fun x none => by cases none⟩
  | before last drawn => exact same _ (.inl (topComes attached drawn)) rfl
  | top role made drawn => exact same _ (.inl (topComes attached drawn)) rfl
  | inner role =>
    obtain ⟨h, hidden, rfl⟩ := roleHidden role
    exact same _ (.inr ⟨i, s, place, h, hidden, rfl⟩) rfl
  | loop sits drawn => exact same _ (.inl (topComes attached drawn)) rfl
  | post sits anchor => exact same _ (anchorComes attached anchor) rfl
  | again sits met => exact same _ (.inl (attached.splits _ (lookupMember met))) rfl
  | @split name b bottom near far nearPull farPull left right sits fresh nearDrawn farDrawn =>
    obtain ⟨more, has⟩ := hiddenAdded d (hiddenName f i s bottom.name) "hidden" s.color
    refine ⟨attachedSplit attached b _ s.color nearPull farPull (anchorComes attached nearDrawn)
      (anchorComes attached farDrawn), more, ?_⟩
    intro x eq
    cases eq
    exact .inl has

theorem loopAttached (attached : Attached f d) (color : String) (start : Comes f d tail.node)
    (stop : Comes f d head.node) :
    let r := loopSides d color tail head
    Attached f r.2.2 ∧ d.graph.nodes ⊆ r.2.2.graph.nodes ∧ Comes f r.2.2 r.1.node ∧
      Comes f r.2.2 r.2.1.node := by
  have side (node other : String) (pull : Float) (comes : Comes f d node) :
      let r := loopSide d color node other pull
      Attached f r.2 ∧ d.graph.nodes ⊆ r.2.graph.nodes ∧ Comes f r.2 r.1.node := by
    obtain ⟨more, has⟩ := hiddenAdded d (loopSide d color node other pull).1.node "hidden" color
    exact ⟨attachedEdge (attached.more more rfl rfl rfl) pull.abs color .secondary
      (comesAdded more comes) (.inl has), more, .inl has⟩
  cases left : tail.pull with
  | some pull =>
    obtain ⟨drawn, more, comes⟩ := side tail.node head.node pull start
    simp only [loopSides, left]
    exact ⟨drawn, more, comes, comesAdded more stop⟩
  | none =>
    cases right : head.pull with
    | some pull =>
      obtain ⟨drawn, more, comes⟩ := side head.node tail.node pull stop
      simp only [loopSides, left, right]
      exact ⟨drawn, more, comesAdded more start, comes⟩
    | none =>
      simp only [loopSides, left, right]
      exact ⟨attached, fun _ inside => inside, start, stop⟩

theorem joinAttached (attached : Attached f d) (color : String) (length : Float) (soft : Bool)
    (start : Comes f d tail.node) (stop : Comes f d head.node) :
    Attached f (joinEnds d color length soft tail head) ∧
      d.graph.nodes ⊆ (joinEnds d color length soft tail head).graph.nodes := by
  obtain ⟨drawn, more, tailComes, headComes⟩ := loopAttached attached color start stop
  unfold joinEnds
  split
  · exact ⟨attachedEdge attached length color .internal start stop, fun _ inside => inside⟩
  simp only
  split
  · have joined := attachedEdge drawn length color .primary tailComes headComes
    exact ⟨⟨joined.tops, joined.splits, joined.edges⟩, more⟩
  · exact ⟨attachedEdge drawn length color .secondary tailComes headComes, more⟩

theorem connectAttached {c : Connection} (place : f.stitches[i]? = some s)
    (attached : Attached f d) (drawn : Connects f weight previous i s d c e) :
    Attached f e ∧ d.graph.nodes ⊆ e.graph.nodes := by
  cases drawn with
  | skipped none => exact ⟨attached, fun _ inside => inside⟩
  | loose valued first second missing =>
    obtain ⟨mid, toMid, _⟩ := endAttached place attached first
    obtain ⟨last, toLast, _⟩ := endAttached place mid second
    exact ⟨last, fun _ inside => toLast (toMid inside)⟩
  | joined valued first second =>
    obtain ⟨mid, toMid, tailComes⟩ := endAttached place attached first
    obtain ⟨last, toLast, headComes⟩ := endAttached place mid second
    obtain ⟨joined, toJoined⟩ := joinAttached last s.color _ c.soft
      (comesAdded toLast (tailComes _ rfl)) (headComes _ rfl)
    exact ⟨joined, fun _ inside => toJoined (toLast (toMid inside))⟩

theorem openedAttached (attached : Attached f d) : Attached f (d.opened f i s) ∧
    d.graph.nodes ⊆ (d.opened f i s).graph.nodes ∧
    ∀ h ∈ s.template.hidden, (d.opened f i s).Has (hiddenName f i s h.name) := by
  have more : d.graph.nodes ⊆ (d.opened f i s).graph.nodes := List.subset_append_left _ _
  refine ⟨⟨?_, ?_, ?_⟩, more, ?_⟩
  · intro entry member
    rcases List.mem_append.mp member with new | old
    · obtain ⟨top, inside, rfl⟩ := List.mem_map.mp (List.mem_reverse.mp new)
      refine ⟨topNode f s top, ?_, rfl⟩
      exact List.mem_append_right _ (List.mem_append_left _ (List.mem_map_of_mem inside))
    · exact hasAdded more (attached.tops entry old)
  · intro entry member
    cases member
  · intro edge member
    obtain ⟨tail, head⟩ := attached.edges edge member
    exact ⟨comesAdded more tail, comesAdded more head⟩
  · intro h inside
    refine ⟨innerNode f i s h, ?_, rfl⟩
    exact List.mem_append_right _ (List.mem_append_right _ (List.mem_map_of_mem inside))

theorem stitchAttached (place : f.stitches[i]? = some s) (attached : Attached f d)
    (ok : drawStitch f weight d (s, i) = .ok e) :
    Attached f e ∧ d.graph.nodes ⊆ e.graph.nodes ∧
      ∀ h ∈ s.template.hidden, e.Has (hiddenName f i s h.name) := by
  rw [stitchDrawnAs weight (List.mem_of_getElem? place)] at ok
  obtain ⟨last, run, rfl⟩ := mapOk ok
  obtain ⟨opened, more, inners⟩ := openedAttached (i := i) (s := s) attached
  have kept : Attached f last ∧ (d.opened f i s).graph.nodes ⊆ last.graph.nodes := by
    refine foldKeeps (fun now => Attached f now ∧ (d.opened f i s).graph.nodes ⊆ now.graph.nodes) ?_
      ⟨opened, fun _ inside => inside⟩ run
    rintro c _ now next ⟨holds, since⟩ one
    obtain ⟨attached, added⟩ := connectAttached place holds (connects one)
    exact ⟨attached, fun _ inside => added (since inside)⟩
  obtain ⟨attached, since⟩ := kept
  exact ⟨⟨attached.tops, attached.splits, attached.edges⟩, fun _ inside => since (more inside),
    fun h inside => hasAdded since (inners h inside)⟩

theorem stitchesAttached {entries : List (Stitch × Nat)}
    (places : ∀ entry ∈ entries, f.stitches[entry.2]? = some entry.1) (attached : Attached f d)
    (ok : entries.foldlM (drawStitch f weight) d = .ok e) :
    Attached f e ∧ d.graph.nodes ⊆ e.graph.nodes ∧ ∀ entry ∈ entries,
      ∀ h ∈ entry.1.template.hidden, e.Has (hiddenName f entry.2 entry.1 h.name) := by
  induction entries generalizing d with
  | nil => cases pureOk ok; exact ⟨attached, fun _ inside => inside, by simp⟩
  | cons entry rest ih =>
    obtain ⟨next, one, more⟩ := foldConsOk ok
    obtain ⟨drawn, toNext, inners⟩ := stitchAttached (places entry List.mem_cons_self) attached one
    obtain ⟨last, toLast, others⟩ :=
      ih (fun other inside => places other (List.mem_cons_of_mem _ inside)) drawn more
    refine ⟨last, fun _ inside => toLast (toNext inside), ?_⟩
    intro other inside h hidden
    rcases List.mem_cons.mp inside with rfl | later
    · exact hasAdded toLast (inners h hidden)
    · exact others other later h hidden

end

theorem edgesAttached {f : Fabric} {options : Options} {graph : Graph}
    (drawn : ofFabric f options = .ok graph) :
    ∀ e ∈ graph.edges, (∃ n ∈ graph.nodes, n.id = e.tail) ∧ ∃ n ∈ graph.nodes, n.id = e.head := by
  unfold ofFabric at drawn
  split at drawn
  · rename_i d run
    cases drawn
    have blank : Attached f {} := ⟨by simp, by simp, by simp⟩
    obtain ⟨attached, _, inners⟩ := stitchesAttached
      (fun _ inside => List.mem_zipIdx_iff_getElem?.mp inside) blank run
    have there : ∀ id, Comes f d id → d.Has id := by
      rintro id (has | ⟨i, s, place, h, hidden, rfl⟩)
      · exact has
      · exact inners (s, i) (List.mem_zipIdx_iff_getElem?.mpr place) h hidden
    intro e member
    obtain ⟨tail, head⟩ := attached.edges e member
    exact ⟨there _ tail, there _ head⟩
  · cases drawn

def aheadPiece : MappedText := MappedText.ofSource "ch,ch\nsc,dc".toList

def ahead : NodeRef := .between (.post 4 "C") (.top 1) 0.5 0.25

theorem edgesAttachedAhead : ∃ rows f graph, Row.parseRows aheadPiece [] "red" = .ok rows ∧
    Fabric.weave rows tallStitches {} = .ok f ∧
    ofFabric (f.setBottom 2 0 ahead) {} = .ok graph ∧ graph.edges.length = 8 ∧
    ∀ e ∈ graph.edges, (∃ n ∈ graph.nodes, n.id = e.tail) ∧ ∃ n ∈ graph.nodes, n.id = e.head := by
  have runs : (Row.parseRows aheadPiece [] "red" >>= fun rows =>
      Fabric.weave rows tallStitches {} >>= fun f =>
      ofFabric (f.setBottom 2 0 ahead) {}).toOption.any (·.edges.length == 8) = true := by
    decide +kernel
  obtain ⟨graph, run, many⟩ := testOk runs
  obtain ⟨rows, parsed, run⟩ := bindOk run
  obtain ⟨f, ok, drawn⟩ := bindOk run
  exact ⟨rows, f, graph, parsed, ok, drawn, by simpa using many, edgesAttached drawn⟩

end Graph
end Crochet
