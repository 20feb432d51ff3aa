import Crochet.Graph.Draw
import Crochet.Proofs.Lists
import Crochet.Proofs.Outcome

/-! What each step of drawing can do. The ends of a connection are read off what is there, except
that a bottom between two anchors draws a node when it is first met. A stitch draws its tops and
inner nodes, then its connections one by one. -/
namespace Crochet
namespace Graph

variable {id : Nat}

theorem topFound {d : Drawing} {node : String} (drawn : d.top id = .ok node) :
    d.tops.lookup id = some node := by
  unfold Drawing.top at drawn
  split at drawn
  · rename_i found
    cases drawn
    exact found
  · cases drawn

theorem topMember {d : Drawing} {node : String} (drawn : d.top id = .ok node) :
    (id, node) ∈ d.tops := lookupMember (topFound drawn)

theorem anchorCases {f : Fabric} {d : Drawing} {target : NodeRef} {node : String}
    (drawn : anchorName f d target = .ok node) :
    (∃ id, target = .top id ∧ d.top id = .ok node) ∨ ∃ id name s, target = .post id name ∧
      f.owner? id = some s ∧ s.template.role name = some .hidden ∧ node = postName f s name := by
  unfold anchorName at drawn
  split at drawn
  · exact .inl ⟨_, rfl, drawn⟩
  · split at drawn
    · cases drawn
    rename_i owner
    split at drawn
    · rename_i inner
      cases drawn
      exact .inr ⟨_, _, _, rfl, owner, inner, rfl⟩
    · cases drawn
  · cases drawn

structure Sits (f : Fabric) (s : Stitch) (name : String) (b : Nat) (bottom : BottomNode)
    (node : NodeRef) : Prop where
  role : s.template.role name = some .bottom
  index : s.template.bottomIndex? name = some b
  here : s.template.bottoms[b]? = some bottom
  worked : ∃ first, s.bottoms[b]? = some first ∧ f.descend first bottom.depth = some node

def Drawing.split (d : Drawing) (b : Nat) (node color left right : String)
    (nearPull farPull : Float) : Drawing :=
  let drawn := ((d.addHidden node "hidden" color).addEdge left node nearPull color .internal).addEdge
    node right farPull color .internal
  { drawn with splits := (b, node) :: d.splits }

inductive EndAt (f : Fabric) (weight : Float) (previous : Option Nat) (i : Nat) (s : Stitch)
    (d : Drawing) : Endpoint → Option End → Drawing → Prop where
  | nothing (first : previous = none) : EndAt f weight previous i s d .previous none d
  | before {id node} (last : previous = some id) (drawn : d.top id = .ok node) :
      EndAt f weight previous i s d .previous (some { node, isTop := true }) d
  | top {name id node} (role : s.template.role name = some .top)
      (made : (s.template.topIndex? name).bind (s.tops[·]?) = some id)
      (drawn : d.top id = .ok node) :
      EndAt f weight previous i s d (.node name) (some { node, isTop := true }) d
  | inner {name} (role : s.template.role name = some .hidden) :
      EndAt f weight previous i s d (.node name) (some { node := hiddenName f i s name }) d
  | loop {name b bottom id node} (sits : Sits f s name b bottom (.top id))
      (drawn : d.top id = .ok node) : EndAt f weight previous i s d (.node name)
        (some { node, pull := bottom.loop.map (·.pull weight) }) d
  | post {name b bottom id inner node} (sits : Sits f s name b bottom (.post id inner))
      (anchor : anchorName f d (.post id inner) = .ok node) :
      EndAt f weight previous i s d (.node name) (some { node }) d
  | again {name b bottom near far nearPull farPull node}
      (sits : Sits f s name b bottom (.between near far nearPull farPull))
      (met : d.splits.lookup b = some node) :
      EndAt f weight previous i s d (.node name) (some { node }) d
  | split {name b bottom near far nearPull farPull left right}
      (sits : Sits f s name b bottom (.between near far nearPull farPull))
      (fresh : d.splits.lookup b = none) (nearDrawn : anchorName f d near = .ok left)
      (farDrawn : anchorName f d far = .ok right) :
      EndAt f weight previous i s d (.node name) (some { node := hiddenName f i s bottom.name })
        (d.split b (hiddenName f i s bottom.name) s.color left right nearPull farPull)

variable {name : String} {ending : Endpoint} {r : Option End} {c : Connection}

section
variable {f : Fabric} {weight : Float} {previous : Option Nat} {i : Nat} {s : Stitch}
  {d e : Drawing}

theorem bottomAt {b : Nat} {bottom : BottomNode} {r : End}
    (role : s.template.role name = some .bottom) (index : s.template.bottomIndex? name = some b)
    (inTemplate : s.template.bottoms[b]? = some bottom)
    (ok : bottomEnd f weight d i s b bottom = .ok (r, e)) :
    EndAt f weight previous i s d (.node name) (some r) e := by
  unfold bottomEnd at ok
  split at ok
  · cases ok
  rename_i first worked
  split at ok
  · cases ok
  · rename_i id down
    obtain ⟨node, drawn, same⟩ := mapOk ok
    cases same
    exact .loop ⟨role, index, inTemplate, first, worked, down⟩ drawn
  · rename_i id inner down
    obtain ⟨node, anchor, same⟩ := mapOk ok
    cases same
    exact .post ⟨role, index, inTemplate, first, worked, down⟩ anchor
  · rename_i near far nearPull farPull down
    have sits : Sits f s name b bottom (.between near far nearPull farPull) :=
      ⟨role, index, inTemplate, first, worked, down⟩
    unfold splitEnd at ok
    split at ok
    · rename_i node met
      cases ok
      exact .again sits met
    · rename_i fresh
      obtain ⟨left, nearDrawn, ok⟩ := bindOk ok
      obtain ⟨right, farDrawn, ok⟩ := bindOk ok
      cases pureOk ok
      exact .split sits fresh nearDrawn farDrawn

theorem endAt (ok : endOf f weight previous i s d ending = .ok (r, e)) :
    EndAt f weight previous i s d ending r e := by
  unfold endOf at ok
  split at ok
  · split at ok
    · cases ok
      exact .nothing rfl
    · rename_i id
      obtain ⟨node, drawn, same⟩ := mapOk ok
      cases same
      exact .before rfl drawn
  rename_i name
  simp only at ok
  split at ok
  · cases ok
  · rename_i role
    split at ok
    · cases ok
    · rename_i id made
      obtain ⟨node, drawn, same⟩ := mapOk ok
      cases same
      exact .top role made drawn
  · rename_i role
    cases ok
    exact .inner role
  · rename_i role
    split at ok
    · cases ok
    rename_i b index
    split at ok
    · cases ok
    rename_i bottom inTemplate
    obtain ⟨⟨reached, after⟩, drawn, same⟩ := mapOk ok
    cases same
    exact bottomAt role index inTemplate drawn

theorem EndAt.ok (ends : EndAt f weight previous i s d ending r e) :
    endOf f weight previous i s d ending = .ok (r, e) := by
  cases ends with
  | nothing first => subst first; rfl
  | before last drawn =>
    subst last
    simp only [endOf, drawn]
    rfl
  | top role made drawn =>
    simp only [endOf, role, made, drawn]
    rfl
  | inner role => simp only [endOf, role]
  | loop sits drawn =>
    obtain ⟨first, worked, down⟩ := sits.worked
    simp only [endOf, sits.role, sits.index, sits.here, bottomEnd, worked, down, drawn]
    rfl
  | post sits anchor =>
    obtain ⟨first, worked, down⟩ := sits.worked
    simp only [endOf, sits.role, sits.index, sits.here, bottomEnd, worked, down, anchor]
    rfl
  | again sits met =>
    obtain ⟨first, worked, down⟩ := sits.worked
    simp only [endOf, sits.role, sits.index, sits.here, bottomEnd, worked, down, splitEnd, met]
    rfl
  | split sits fresh nearDrawn farDrawn =>
    obtain ⟨first, worked, down⟩ := sits.worked
    simp only [endOf, sits.role, sits.index, sits.here, bottomEnd, worked, down, splitEnd, fresh,
      nearDrawn, farDrawn]
    rfl

/- A connection without a length or without one of its ends draws at most the nodes of its ends. -/
inductive Connects (f : Fabric) (weight : Float) (previous : Option Nat) (i : Nat) (s : Stitch)
    (d : Drawing) (c : Connection) : Drawing → Prop where
  | skipped (none : c.length.value? = none) : Connects f weight previous i s d c d
  | loose {length tail head mid last} (valued : c.length.value? = some length)
      (first : EndAt f weight previous i s d c.tail tail mid)
      (second : EndAt f weight previous i s mid c.head head last)
      (missing : tail = none ∨ head = none) : Connects f weight previous i s d c last
  | joined {length tail head mid last} (valued : c.length.value? = some length)
      (first : EndAt f weight previous i s d c.tail (some tail) mid)
      (second : EndAt f weight previous i s mid c.head (some head) last) :
      Connects f weight previous i s d c (joinEnds last s.color length c.soft tail head)

theorem connects (ok : connect f weight previous i s d c = .ok e) :
    Connects f weight previous i s d c e := by
  unfold connect at ok
  split at ok
  · rename_i none
    cases ok
    exact .skipped none
  rename_i length valued
  obtain ⟨⟨tail, mid⟩, first, ok⟩ := bindOk ok
  obtain ⟨⟨head, last⟩, second, ok⟩ := bindOk ok
  have first := endAt first
  have second := endAt second
  simp only at ok
  split at ok
  · cases pureOk ok
    exact .joined valued first second
  · rename_i apart
    cases pureOk ok
    refine .loose valued first second ?_
    cases tail with
    | none => exact .inl rfl
    | some t =>
      cases head with
      | none => exact .inr rfl
      | some h => exact absurd rfl (apart t h rfl)

theorem Connects.ok (connects : Connects f weight previous i s d c e) :
    connect f weight previous i s d c = .ok e := by
  cases connects with
  | skipped none => simp only [connect, none]
  | @loose length tail head mid last valued first second missing =>
    simp only [connect, valued, first.ok, second.ok, bind, Except.bind]
    rcases missing with rfl | rfl
    · rfl
    · cases tail <;> rfl
  | joined valued first second =>
    simp only [connect, valued, first.ok, second.ok, bind, Except.bind]
    rfl

end

theorem roleHidden {t : Template} (inner : t.role name = some .hidden) :
    ∃ h ∈ t.hidden, h.name = name := by
  unfold Template.role at inner
  split at inner
  · cases inner
  split at inner
  · cases inner
  split at inner
  · rename_i found
    simpa using found
  · cases inner

section
variable (f : Fabric) (i : Nat) (s : Stitch)

def topText (id : Nat) : String := s!"{s.row},{id - (f.rowIds s.row).head?.getD 0}|{s.uid}"

def topNode (entry : Nat × TopNode) : GraphNode :=
  { id := topText f s entry.1, kind := .top, labels := s.labels, display := entry.2.tag
    color := s.color }

def innerNode (h : HiddenNode) : GraphNode :=
  { id := hiddenName f i s h.name, kind := .hidden, labels := [], display := h.display
    color := s.color }

def Drawing.opened (d : Drawing) : Drawing :=
  { d with
    graph := { d.graph with nodes := d.graph.nodes ++
      ((s.tops.zip s.template.tops).map (topNode f s) ++ s.template.hidden.map (innerNode f i s)) }
    tops := ((s.tops.zip s.template.tops).map fun entry =>
      (entry.1, topText f s entry.1)).reverse ++ d.tops
    splits := [] }

end

section
variable {f : Fabric} {i : Nat} {s : Stitch}

theorem inOwnRow (member : s ∈ f.stitches) (made : id ∈ s.tops) : id ∈ f.rowIds s.row :=
  List.mem_flatMap.mpr ⟨s, List.mem_filter.mpr ⟨member, beq_self_eq_true s.row⟩, made⟩

theorem firstPlaceOwn (member : s ∈ f.stitches) (first : s.tops.head? = some id) :
    firstPlace? f s = some (s.row, id - (f.rowIds s.row).head?.getD 0) := by
  cases row : f.rowIds s.row with
  | nil =>
    have inRow := inOwnRow member (List.mem_of_head? first)
    rw [row] at inRow
    cases inRow
  | cons start rest => simp [firstPlace?, first, row]

theorem postNameHidden (owner : f.owner? id = some s) (i : Nat) (name : String) :
    postName f s name = hiddenName f i s name := by
  have owns := List.find?_some owner
  have member := List.mem_reverse.mp (List.mem_of_find?_eq_some owner)
  have some : s.tops ≠ [] := by
    intro none
    simp [Stitch.owns, Stitch.topIndex?, none] at owns
  obtain ⟨first, head⟩ := Option.isSome_iff_exists.mp (List.isSome_head?.mpr some)
  simp [postName, hiddenName, basePlace, firstPlaceOwn member head]

theorem topNameText (member : s ∈ f.stitches) (top : id ∈ s.tops) :
    topName f s id = .ok (topText f s id) := by
  have inRow := inOwnRow member top
  unfold topName topText
  cases row : f.rowIds s.row with
  | nil => rw [row] at inRow; cases inRow
  | cons first rest => rfl

theorem topsDrawnAs (member : s ∈ f.stitches) (entries : List (Nat × TopNode))
    (tops : ∀ entry ∈ entries, entry.1 ∈ s.tops) (d : Drawing) :
    entries.foldlM (drawTop f s) d = .ok { d with
      graph := { d.graph with nodes := d.graph.nodes ++ entries.map (topNode f s) }
      tops := (entries.map fun entry => (entry.1, topText f s entry.1)).reverse ++ d.tops } := by
  induction entries generalizing d with
  | nil => simp [pure, Except.pure]
  | cons entry rest ih =>
    have named := topNameText member (tops entry List.mem_cons_self)
    rw [List.foldlM_cons]
    simp only [drawTop, named, bind, Except.bind, pure, Except.pure]
    rw [ih fun other inside => tops other (List.mem_cons_of_mem _ inside)]
    simp [Drawing.addNode, topNode]

theorem innersDrawnAs (inners : List HiddenNode) (d : Drawing) :
    inners.foldl (drawHidden f i s) d = { d with
      graph := { d.graph with nodes := d.graph.nodes ++ inners.map (innerNode f i s) } } := by
  induction inners generalizing d with
  | nil => simp
  | cons h rest ih =>
    rw [List.foldl_cons, ih]
    simp [drawHidden, Drawing.addHidden, Drawing.addNode, innerNode]

theorem stitchDrawnAs (weight : Float) (member : s ∈ f.stitches) (d : Drawing) :
    drawStitch f weight d (s, i) =
      (s.template.connections.foldlM (connect f weight d.lastTop i s) (d.opened f i s)).map
        fun last => { last with lastTop := s.tops.getLast?.or last.lastTop } := by
  have tops := topsDrawnAs member (s.tops.zip s.template.tops)
    (fun entry inside => (List.of_mem_zip inside).1) { d with splits := [] }
  simp only [drawStitch, tops, innersDrawnAs, bind, Except.bind, Drawing.opened,
    List.append_assoc]
  cases s.template.connections.foldlM (connect f weight d.lastTop i s) _ <;> rfl

end
end Graph
end Crochet
