import Crochet.Proofs.Graph.Alike

/-! An increase is drawn like stitches worked one after another into the same loop. -/
namespace Crochet
namespace Graph

variable {x : Stitch} {id k : Nat} {n : TopNode} {next : Drawing}
variable {r : Option End}

section
variable {f g : Fabric} {u : Fabric.Unrolled f g} {bottom : BottomNode} {last : TopNode}
  {loop : Nat} {rename : String → String} {d e : Drawing}

section
variable (fits : u.Fits bottom last loop) (renames : ∀ a b, Same u a b → rename a = b)
include fits renames

theorem wholeNodes : ((openedNodes f u.whole).map (.renamed rename)).Perm
    (u.copies.flatMap (openedNodes g)) := by
  have tops : (u.whole.loops.map (topNode f u.whole)).map (.renamed rename) =
      u.copies.zipIdx.flatMap fun entry => entry.1.loops.map (topNode g entry.1) := by
    rw [Fabric.Unrolled.wholeLoops fits, List.map_flatMap, List.map_flatMap]
    refine List.flatMap_congr fun entry inside => ?_
    have here := List.mem_zipIdx_iff_getElem?.mp inside
    have copied := u.copied _ _ here
    rw [Stitch.loops, copied.template, List.map_map, List.map_map]
    refine List.map_congr_left fun loop zipped => ?_
    have top := renames _ _ (.node (.inl (.copy here (List.of_mem_zip zipped).1)))
    simp [GraphNode.renamed, topNode, top, copied.labels, copied.color]
  have hidden : (u.whole.template.hidden.map (innerNode f u.whole.uid u.whole)).map
      (.renamed rename) = u.copies.zipIdx.flatMap fun entry =>
        entry.1.template.hidden.map (innerNode g entry.1.uid entry.1) := by
    rw [fits.increase.hidden, Fabric.Unrolled.perCopy, List.map_flatMap, List.map_flatMap]
    refine List.flatMap_congr fun entry inside => ?_
    have here := List.mem_zipIdx_iff_getElem?.mp inside
    have copied := u.copied _ _ here
    rw [copied.template, List.map_map, List.map_map]
    refine List.map_congr_left fun h member => ?_
    have inner := renames _ _ (.node (.inr (.copy here member)))
    simp [GraphNode.renamed, innerNode, inner, copied.color]
  have split : u.copies.flatMap (openedNodes g) =
      u.copies.zipIdx.flatMap fun entry => openedNodes g entry.1 := by
    conv => lhs; rw [← List.zipIdx_map_fst 0 u.copies]
    rw [List.flatMap_map]
  rw [openedNodes, List.map_append, tops, hidden, split]
  exact List.flatMap_append_perm _ _ _

omit renames in
theorem wholeNamed : ∀ n ∈ openedNodes f u.whole, ∃ other, Same u n.id other := by
  intro n inside
  rcases List.mem_append.mp inside with top | inner
  · obtain ⟨⟨id, m⟩, zipped, rfl⟩ := List.mem_map.mp top
    obtain ⟨k, c, _, here, loop, _⟩ := Fabric.Unrolled.wholeLoopFrom fits zipped
    exact ⟨_, .node (.inl (.copy here (List.of_mem_zip loop).1))⟩
  · obtain ⟨m, member, rfl⟩ := List.mem_map.mp inner
    rw [fits.increase.hidden] at member
    obtain ⟨k, made, copied⟩ := Template.copiesFrom member
    obtain ⟨h, own, rfl⟩ := List.mem_map.mp copied
    exact ⟨_, .node (.inr (.copy (List.getElem?_eq_getElem made) own))⟩

theorem Alike.openWhole (alike : Alike u rename [] d e) :
    Alike u rename u.copies (d.opened f u.whole.uid u.whole) e where
  edges := alike.edges
  nodes := by
    have old := alike.nodes
    rw [List.flatMap_nil, List.append_nil] at old
    rw [openedGraph, List.map_append]
    exact old.append (wholeNodes fits renames)
  named := by
    intro n inside
    rcases List.mem_append.mp inside with old | new
    · exact alike.named n old
    · exact wholeNamed fits n new
  tops := by
    intro id node drawn
    rw [openedTop (fits.counted.tops _ u.wholeMember)] at drawn
    by_cases made : id ∈ u.whole.tops
    · rw [if_pos made] at drawn
      cases drawn
      rw [← u.tops] at made
      obtain ⟨c, inside, own⟩ := List.mem_flatMap.mp made
      obtain ⟨k, here⟩ := List.mem_iff_getElem?.mp inside
      exact .inl ⟨c, inside, own, .copy here own⟩
    · rw [if_neg made] at drawn
      exact .inr ⟨fun c inside own => made (u.copyOf inside own),
        alike.top drawn (List.forall_mem_nil _)⟩
  primaries := alike.primaries

end

section
variable (fits : u.Fits bottom last loop) {done rest : List Stitch} {c : Stitch}
  (split : u.copies = done ++ c :: rest)
include fits split

omit fits in
theorem copyHere : u.copies[done.length]? = some c := by
  rw [split]
  simp

theorem notWaiting (now : x ∈ done ++ [c]) (made : id ∈ x.tops) :
    ∀ y ∈ rest, id ∉ y.tops := by
  have once := fits.counted.topsOnce u.wholeMember
  rw [← u.tops, split, show done ++ c :: rest = (done ++ [c]) ++ rest by simp, List.flatMap_append,
    List.nodup_append] at once
  intro y inside own
  have early := List.mem_flatMap.mpr ⟨x, now, made⟩
  have late := List.mem_flatMap.mpr ⟨y, inside, own⟩
  exact once.2.2 id early id late rfl

theorem Alike.openCopy (alike : Alike u rename (c :: rest) d e) :
    Alike u rename rest d (e.opened g c.uid c) where
  edges := alike.edges
  nodes := by
    have old := alike.nodes
    rw [List.flatMap_cons, ← List.append_assoc] at old
    exact old
  named := alike.named
  tops := by
    intro id node drawn
    have member := u.copyMember (List.mem_of_getElem? (copyHere split))
    rw [openedTop ((Fabric.Unrolled.counted fits).tops c member)]
    rcases alike.tops id node drawn with ⟨x, inside, own, same⟩ | ⟨other, found⟩
    · rcases List.mem_cons.mp inside with rfl | later
      · rw [if_pos own]
        exact .inr ⟨notWaiting fits split (by simp) own, _, rfl, same⟩
      · exact .inl ⟨x, later, own, same⟩
    · rw [if_neg (other c List.mem_cons_self)]
      exact .inr ⟨fun x inside => other x (List.mem_cons_of_mem _ inside), found⟩
  primaries := alike.primaries

end

def lastMade (previous : Option Nat) (done : List Stitch) : Option Nat :=
  (done.flatMap Stitch.tops).getLast?.or previous

theorem lastMadeAfter (previous : Option Nat) (done : List Stitch) (c : Stitch) :
    lastMade previous (done ++ [c]) = c.tops.getLast?.or (lastMade previous done) := by
  rw [lastMade, lastMade, List.flatMap_append, List.flatMap_singleton, List.getLast?_append,
    Option.or_assoc]

section
variable {weight : Float} {previous : Option Nat} {s : Stitch} {name : String}

theorem EndAt.ofTop (role : s.template.role name = some .top)
    (ends : EndAt f weight previous s.uid s d (.node name) r e) :
    e = d ∧ ∃ id node, (s.template.topIndex? name).bind (s.tops[·]?) = some id ∧
      d.top id = .ok node ∧ r = some { node, isTop := true } := by
  cases ends with
  | top _ made drawn => exact ⟨rfl, _, _, made, drawn, rfl⟩
  | inner other => cases role.symm.trans other
  | loop sits => cases role.symm.trans sits.role
  | post sits => cases role.symm.trans sits.role
  | again sits => cases role.symm.trans sits.role
  | split sits => cases role.symm.trans sits.role

theorem EndAt.ofHidden (role : s.template.role name = some .hidden)
    (ends : EndAt f weight previous s.uid s d (.node name) r e) :
    e = d ∧ r = some { node := innerText f s name } := by
  cases ends with
  | top other => cases role.symm.trans other
  | inner _ => exact ⟨rfl, rfl⟩
  | loop sits => cases role.symm.trans sits.role
  | post sits => cases role.symm.trans sits.role
  | again sits => cases role.symm.trans sits.role
  | split sits => cases role.symm.trans sits.role

theorem EndAt.ofLoop {b : Nat} {node : BottomNode} (sits : Sits f s name b node (.top id))
    (ends : EndAt f weight previous s.uid s d (.node name) r e) :
    e = d ∧ ∃ text, d.top id = .ok text ∧
      r = some { node := text, pull := node.loop.map (·.pull weight) } := by
  cases ends with
  | top other => cases other.symm.trans sits.role
  | inner other => cases other.symm.trans sits.role
  | loop here drawn =>
    obtain ⟨_, rfl, same⟩ := sits.same here
    cases same
    exact ⟨rfl, _, drawn, rfl⟩
  | post here => cases (sits.same here).2.2
  | again here => cases (sits.same here).2.2
  | split here => cases (sits.same here).2.2

end

section
variable (fits : u.Fits bottom last loop) {done rest : List Stitch} {c : Stitch}
  (split : u.copies = done ++ c :: rest) {weight : Float} {previous before : Option Nat}
include fits split

omit split in
theorem wholeDistinct : (u.whole.template.tops.map (·.name)).Nodup :=
  (List.nodup_append.mp (Template.increasedDistinct fits.increase fits.repeatable)).1

omit split in
theorem wholeTop (here : u.copies[k]? = some x) (top : n ∈ u.base.tops)
    (made : (u.whole.template.topIndex? (Template.suffixed n.name k)).bind (u.whole.tops[·]?) =
      some id) : ∃ m, (id, m) ∈ x.loops ∧ m.name = n.name := by
  obtain ⟨m, loop, named⟩ := (Stitch.topNamedIff (wholeDistinct fits)).mp made
  obtain ⟨j, y, own, there, inCopy, rfl⟩ := Fabric.Unrolled.wholeLoopFrom fits loop
  have listed : own ∈ u.base.tops := by
    rw [← (u.copied j y there).template]
    exact (List.of_mem_zip inCopy).2
  have clean {n : TopNode} (top : n ∈ u.base.tops) : n.name.toList.any Char.isDigit = false :=
    fits.repeatable.unnumbered _ (Template.namesListed.mp (.inl ⟨n, top, rfl⟩))
  obtain ⟨names, rfl⟩ := Template.suffixedInj (clean listed) (clean top) named
  obtain rfl := Option.some.inj (here.symm.trans there)
  exact ⟨own, inCopy, names⟩

omit split in
theorem wholeTopRole (made : k < u.copies.length) (top : n ∈ u.base.tops) :
    u.whole.template.role (Template.suffixed n.name k) = some .top := by
  have copied : { n with name := Template.suffixed n.name k } ∈ u.whole.template.tops := by
    rw [fits.increase.tops]
    exact Template.copiesMember made (List.mem_map.mpr ⟨n, top, rfl⟩)
  exact Template.topRole copied

omit fits in
theorem copyBound : done.length < u.copies.length := by
  rw [split]
  simp

theorem endPrevious (alike : Alike u rename rest d e)
    (earlier : ∀ id, previous = some id → id ∉ u.whole.tops)
    (ends : EndAt f weight previous u.whole.uid u.whole d
      (Template.copiedEnd u.base done.length .previous) r next) :
    next = d ∧ ∃ q, EndAt g weight (lastMade previous done) c.uid c e .previous q e ∧
      Option.Rel (SameEnd u) r q := by
  rw [Template.copiedPrevious fits.lastTop] at ends
  rcases List.eq_nil_or_concat' done with rfl | ⟨init, x, rfl⟩
  · cases ends with
    | nothing first => exact ⟨rfl, none, .nothing first, .none⟩
    | before same drawn =>
      obtain ⟨other, there, sameTop⟩ := alike.top drawn fun x inside own =>
        earlier _ same (u.copyOf (by rw [split]; exact List.mem_cons_of_mem _ inside) own)
      exact ⟨rfl, _, .before same there, .some (.unpulled (.inl sameTop) true)⟩
  · have here : u.copies[init.length]? = some x := by
      rw [split]
      simp
    have bound := (List.getElem?_eq_some_iff.mp here).1
    have top := List.mem_of_getLast? fits.lastTop
    rw [if_pos (by simp), List.length_append, List.length_singleton, Nat.add_sub_cancel] at ends
    obtain ⟨same, id, node, made, drawn, rfl⟩ := ends.ofTop (wholeTopRole fits bound top)
    obtain ⟨m, loop, named⟩ := wholeTop fits here top made
    have copied := u.copied _ _ here
    have distinct := (List.nodup_append.mp fits.repeatable.named.1).1
    have lastOwn : x.tops.getLast? = some id := by
      refine Stitch.lastLoop ?_ ?_ ?_ loop named
      · rw [copied.template]
        exact copied.tops
      · rw [copied.template]
        exact distinct
      · rw [copied.template]
        exact fits.lastTop
    obtain ⟨other, there, sameTop⟩ := alike.top drawn
      (notWaiting fits split (x := x) (by simp) (List.of_mem_zip loop).1)
    refine ⟨same, _, .before ?_ there, .some (.unpulled (.inl sameTop) true)⟩
    rw [lastMadeAfter, lastOwn]
    rfl

theorem endTop (alike : Alike u rename rest d e) (top : n ∈ u.base.tops)
    (ends : EndAt f weight previous u.whole.uid u.whole d
      (.node (Template.suffixed n.name done.length)) r next) :
    next = d ∧ ∃ q, EndAt g weight before c.uid c e (.node n.name) q e ∧
      Option.Rel (SameEnd u) r q := by
  have here := copyHere split
  have template := (u.copied _ _ here).template
  obtain ⟨same, id, node, made, drawn, rfl⟩ := ends.ofTop (wholeTopRole fits (copyBound split) top)
  obtain ⟨m, loop, named⟩ := wholeTop fits here top made
  obtain ⟨text, there, sameTop⟩ := alike.top drawn
    (notWaiting fits split (x := c) (by simp) (List.of_mem_zip loop).1)
  refine ⟨same, _, .top ?_ ?_ there, .some (.unpulled (.inl sameTop) true)⟩
  · rw [template]
    exact Template.topRole top
  · refine (Stitch.topNamedIff ?_).mpr ⟨m, loop, named⟩
    rw [template]
    exact (List.nodup_append.mp fits.repeatable.named.1).1

theorem endInner {h : HiddenNode} (inner : h ∈ u.base.hidden)
    (ends : EndAt f weight previous u.whole.uid u.whole d
      (.node (Template.suffixed h.name done.length)) r next) :
    next = d ∧ ∃ q, EndAt g weight before c.uid c e (.node h.name) q e ∧
      Option.Rel (SameEnd u) r q := by
  have here := copyHere split
  have inWhole : { h with name := Template.suffixed h.name done.length } ∈
      u.whole.template.hidden := by
    rw [fits.increase.hidden]
    exact Template.copiesMember (copyBound split) (List.mem_map.mpr ⟨h, inner, rfl⟩)
  have role := Template.hiddenRole (Template.increasedDistinct fits.increase fits.repeatable) inWhole
  obtain ⟨same, rfl⟩ := ends.ofHidden role
  refine ⟨same, _, .inner ?_, .some (.unpulled (.inr (.copy here inner)) false)⟩
  rw [(u.copied _ _ here).template]
  exact Template.hiddenRole fits.repeatable.named.1 inner

theorem endBottom (alike : Alike u rename rest d e)
    (ends : EndAt f weight previous u.whole.uid u.whole d (.node bottom.name) r next) :
    next = d ∧ ∃ q, EndAt g weight before c.uid c e (.node bottom.name) q e ∧
      Option.Rel (SameEnd u) r q := by
  have copied := u.copied _ _ (copyHere split)
  have below : bottom ∈ u.base.bottoms := by simp [fits.oneBottom]
  have down (h : Fabric) : h.descend (.top loop) bottom.depth = some (.top loop) := by
    rw [fits.repeatable.shallow bottom below]
    rfl
  have sits {h : Fabric} {s : Stitch} (distinct : s.template.nodeNames.Nodup)
      (bottoms : s.template.bottoms = u.base.bottoms) (worked : s.bottoms = u.whole.bottoms) :
      Sits h s bottom.name 0 bottom (.top loop) := by
    rw [fits.oneBottom] at bottoms
    have role := Template.bottomRole distinct (n := bottom) (by simp [bottoms])
    refine ⟨role, ?_, by simp [bottoms], .top loop, ?_, down h⟩
    · simp [Template.bottomIndex?, bottoms]
    · simp [worked, fits.worked]
  obtain ⟨same, text, drawn, rfl⟩ := ends.ofLoop (sits
    (Template.increasedDistinct fits.increase fits.repeatable) fits.increase.bottoms rfl)
  obtain ⟨other, there, sameTop⟩ := alike.top drawn fun x inside own =>
    Fabric.Unrolled.loopElsewhere fits (u.copyOf (by rw [split]; simp [inside]) own)
  refine ⟨same, _, .loop (sits ?_ ?_ copied.bottoms) there, .some ?_⟩
  · rw [copied.template]
    exact fits.repeatable.named.1
  · rw [copied.template]
  · exact ⟨.inl sameTop, rfl, rfl, fun _ => sameTop⟩

theorem endCopy (alike : Alike u rename rest d e)
    (earlier : ∀ id, previous = some id → id ∉ u.whole.tops) {ending : Endpoint}
    (has : u.base.HasEnd ending)
    (ends : EndAt f weight previous u.whole.uid u.whole d
      (Template.copiedEnd u.base done.length ending) r next) :
    next = d ∧ ∃ q, EndAt g weight (lastMade previous done) c.uid c e ending q e ∧
      Option.Rel (SameEnd u) r q := by
  have distinct := fits.repeatable.named.1
  have bottomRole := Template.bottomRole distinct (n := bottom) (by simp [fits.oneBottom])
  cases ending with
  | previous => exact endPrevious fits split alike earlier ends
  | node name =>
    rcases has with ⟨n, top, rfl⟩ | ⟨b, below, rfl⟩ | ⟨h, inner, rfl⟩
    · have other : n.name ≠ bottom.name := by
        intro same
        cases (Template.topRole top).symm.trans (same ▸ bottomRole)
      rw [Template.copiedNode fits.oneBottom _ other] at ends
      exact endTop fits split alike top ends
    · obtain rfl : b = bottom := by simpa [fits.oneBottom] using below
      rw [Template.copiedBottom fits.oneBottom] at ends
      exact endBottom fits split alike ends
    · have other : h.name ≠ bottom.name := by
        intro same
        cases (Template.hiddenRole distinct inner).symm.trans (same ▸ bottomRole)
      rw [Template.copiedNode fits.oneBottom _ other] at ends
      exact endInner fits split inner ends

theorem connectionsCopy (renames : ∀ a b, Same u a b → rename a = b)
    (alike : Alike u rename rest d e) (earlier : ∀ id, previous = some id → id ∉ u.whole.tops)
    (ok : (u.base.connections.map (Template.copiedConnection u.base done.length)).foldlM
      (connect f weight previous u.whole.uid u.whole) d = .ok next) :
    ∃ after, u.base.connections.foldlM (connect g weight (lastMade previous done) c.uid c) e =
      .ok after ∧ Alike u rename rest next after := by
  have found {ending : Endpoint} (has : u.base.HasEnd ending) :
      Transfers u weight previous (lastMade previous done) u.whole c (Alike u rename rest)
        (Template.copiedEnd u.base done.length ending) ending := by
    intro d e r next alike ends
    obtain ⟨rfl, q, ends', same⟩ := endCopy fits split alike earlier has ends
    exact ⟨q, e, ends', alike, same⟩
  have lengths (k : Connection) : (Template.copiedConnection u.base done.length k).length = k.length :=
    rfl
  refine connectionsAlong lengths (fun _ => rfl) (u.copied _ _ (copyHere split)).color
    (fun d e length soft tail head tail' head' alike first second =>
      alike.join fits renames _ _ _ first second) ?_ alike ok
  intro k inside
  obtain ⟨hasTail, hasHead⟩ := fits.closed.ends k inside
  exact ⟨found hasTail, found hasHead⟩

end

section
variable (fits : u.Fits bottom last loop) (renames : ∀ a b, Same u a b → rename a = b)
  {weight : Float} {previous : Option Nat}
include fits renames

theorem copiesDrawn (earlier : ∀ id, previous = some id → id ∉ u.whole.tops)
    {done rest : List Stitch} (split : u.copies = done ++ rest) (alike : Alike u rename rest d e)
    (lastTop : e.lastTop = lastMade previous done)
    (ok : ((rest.zipIdx done.length).flatMap fun entry =>
      u.base.connections.map (Template.copiedConnection u.base entry.2)).foldlM
        (connect f weight previous u.whole.uid u.whole) d = .ok next) :
    ∃ after, (rest.map Stitch.entry).foldlM (drawStitch g weight) e = .ok after ∧
      Alike u rename [] next after ∧ after.lastTop = u.whole.tops.getLast?.or previous := by
  induction rest generalizing done d e with
  | nil =>
    cases pureOk ok
    refine ⟨e, rfl, alike, ?_⟩
    rw [lastTop, lastMade, ← u.tops, split, List.append_nil]
  | cons c rest ih =>
    rw [List.zipIdx_cons, List.flatMap_cons, List.foldlM_append] at ok
    obtain ⟨mid, one, more⟩ := bindOk ok
    have here := copyHere split
    have member := u.copyMember (List.mem_of_getElem? here)
    have copied := u.copied _ _ here
    obtain ⟨between, drawn, same⟩ := connectionsCopy fits split renames
      (alike.openCopy fits split) earlier one
    have stitch : drawStitch g weight e c.entry =
        .ok { between with lastTop := c.tops.getLast?.or between.lastTop } := by
      rw [stitchDrawnAs weight member, copied.template, lastTop, drawn]
      rfl
    have tops : c.tops.getLast?.or between.lastTop = lastMade previous (done ++ [c]) := by
      rw [(connectionsKeep drawn).lastTop, lastMadeAfter]
      exact congrArg _ lastTop
    have count : (done ++ [c]).length = done.length + 1 := by simp
    rw [← count] at more
    obtain ⟨after, run, final⟩ := ih (by rw [split]; simp) (same.withLast mid.lastTop _) tops more
    exact ⟨after, by rw [List.map_cons, List.foldlM_cons, stitch]; exact run, final⟩

theorem wholeDrawn (alike : Alike u rename [] d e) (lastTop : e.lastTop = d.lastTop)
    (earlier : ∀ id, d.lastTop = some id → id ∉ u.whole.tops)
    (ok : drawStitch f weight d u.whole.entry = .ok next) :
    ∃ after, (u.copies.map Stitch.entry).foldlM (drawStitch g weight) e = .ok after ∧
      Alike u rename [] next after ∧ after.lastTop = next.lastTop := by
  rw [stitchDrawnAs weight u.wholeMember] at ok
  obtain ⟨drawn, run, rfl⟩ := mapOk ok
  have keeps := (connectionsKeep run).lastTop
  rw [Template.increasedConnections fits.oneBottom fits.lastTop fits.repeatable fits.increase
    fits.closed, Fabric.Unrolled.perCopy] at run
  have split : u.copies = [] ++ u.copies := rfl
  obtain ⟨after, other, same, tops⟩ := copiesDrawn fits renames earlier split
    (alike.openWhole fits renames) lastTop run
  refine ⟨after, other, same.withLast _ after.lastTop, ?_⟩
  rw [tops, keeps]
  rfl

end

theorem lastDrawn {weight : Float} {stitches : List Stitch}
    (members : ∀ s ∈ stitches, s ∈ f.stitches)
    (ok : (stitches.map Stitch.entry).foldlM (drawStitch f weight) d = .ok e)
    (final : e.lastTop = some id) :
    d.lastTop = some id ∨ ∃ s ∈ stitches, id ∈ s.tops := by
  induction stitches generalizing d with
  | nil =>
    cases pureOk ok
    exact .inl final
  | cons s rest ih =>
    obtain ⟨mid, one, more⟩ := foldConsOk ok
    have others : ∀ t ∈ rest, t ∈ f.stitches := fun t inside =>
      members t (List.mem_cons_of_mem _ inside)
    rcases ih others more with here | ⟨t, inside, own⟩
    · rw [stitchDrawnAs weight (members s List.mem_cons_self)] at one
      obtain ⟨drawn, run, rfl⟩ := mapOk one
      rcases Option.or_eq_some_iff.mp here with own | ⟨_, old⟩
      · exact .inr ⟨s, List.mem_cons_self, List.mem_of_getLast? own⟩
      · exact .inl ((connectionsKeep run).lastTop.symm.trans old)
    · exact .inr ⟨t, List.mem_cons_of_mem _ inside, own⟩

theorem allDrawn (fits : u.Fits bottom last loop) (renames : ∀ a b, Same u a b → rename a = b)
    {weight : Float} (ok : f.stitches.zipIdx.foldlM (drawStitch f weight) {} = .ok d) :
    ∃ e, g.stitches.zipIdx.foldlM (drawStitch g weight) {} = .ok e ∧ Alike u rename [] d e := by
  have images : g.stitches = u.before.map u.image ++ (u.copies ++ u.after.map u.image) := by
    have before : u.before.map u.image = u.before := by
      conv => rhs; rw [← List.map_id u.before]
      exact List.map_congr_left fun s inside => (Fabric.Unrolled.keptBefore fits inside).2
    have after : u.after.map u.image = u.after.map (·.later (u.copies.length - 1)) :=
      List.map_congr_left fun s inside => (Fabric.Unrolled.keptAfter fits inside).2
    rw [before, after]
    exact u.apart
  have blank : Alike u rename [] {} {} :=
    ⟨rfl, .refl _, by simp, fun id node none => (by cases none), .nil⟩
  rw [countedEntries fits.counted, u.standing, List.map_append, List.foldlM_append] at ok
  obtain ⟨early, first, ok⟩ := bindOk ok
  obtain ⟨mid, one, late⟩ := foldConsOk ok
  obtain ⟨d₁, run₁, alike, lastTop⟩ := allKeptDrawn fits renames
    (fun s inside => (Fabric.Unrolled.keptBefore fits inside).1) blank rfl first
  have earlier : ∀ id, early.lastTop = some id → id ∉ u.whole.tops := by
    intro id same made
    rcases lastDrawn (fun s inside => (Fabric.Unrolled.keptBefore fits inside).1.member) first same
      with none | ⟨s, inside, own⟩
    · cases none
    · have kept := (Fabric.Unrolled.keptBefore fits inside).1
      have owner := (Fabric.Unrolled.ownerKept fits kept own).1
      rw [fits.counted.ownerOf u.wholeAt made] at owner
      exact kept.other (congrArg Stitch.uid (Option.some.inj owner)).symm
  obtain ⟨d₂, run₂, alike, lastTop⟩ := wholeDrawn fits renames alike lastTop earlier one
  obtain ⟨d₃, run₃, alike, _⟩ := allKeptDrawn fits renames
    (fun s inside => (Fabric.Unrolled.keptAfter fits inside).1) alike lastTop late
  refine ⟨d₃, ?_, alike⟩
  rw [countedEntries (Fabric.Unrolled.counted fits), images, List.map_append, List.map_append,
    List.foldlM_append, run₁]
  refine (List.foldlM_append ..).trans ?_
  rw [run₂]
  exact run₃

end

def ids (g : Graph) : Set String := { id | ∃ n ∈ g.nodes, n.id = id }

theorem Alike.bijection {f g : Fabric} {u : Fabric.Unrolled f g} {bottom : BottomNode}
    {last : TopNode} {loop : Nat} {rename : String → String} {d e : Drawing}
    (fits : u.Fits bottom last loop) (renames : ∀ a b, Same u a b → rename a = b)
    (alike : Alike u rename [] d e) : Set.BijOn rename d.graph.ids e.graph.ids := by
  have nodes := alike.nodes
  rw [List.flatMap_nil, List.append_nil] at nodes
  refine ⟨?_, ?_, ?_⟩
  · rintro _ ⟨n, member, rfl⟩
    exact ⟨n.renamed rename, nodes.subset (List.mem_map_of_mem member), rfl⟩
  · rintro _ ⟨n, member, rfl⟩ _ ⟨m, other, rfl⟩ same
    obtain ⟨a, left⟩ := alike.named n member
    obtain ⟨b, right⟩ := alike.named m other
    rw [renames _ _ left, renames _ _ right] at same
    exact (sameIff fits left right).mpr same
  · rintro _ ⟨n, member, rfl⟩
    obtain ⟨m, old, rfl⟩ := List.mem_map.mp (nodes.symm.subset member)
    exact ⟨m.id, ⟨m, old, rfl⟩, rfl⟩

/- Several stitches of a built-in kind worked into one loop are the increase of that kind. -/
theorem increaseApart {start registry : Registry} {rows : Rows} {options drawing : Options}
    {name label : String} {loop : Nat} {draft f g : Fabric} {graph : Graph} (u : f.Unrolled g)
    (ok : Registry.builtin = .ok start) (known : start.find? name = some u.base)
    (oneBottom : u.base.bottoms.length = 1) (someTop : u.base.tops ≠ [])
    (woven : Fabric.weave rows registry options = .ok draft)
    (resolved : draft.resolve = (f, .ok ()))
    (derived : u.base.derive label u.copies.length .increase = .ok u.whole.template)
    (worked : u.whole.bottoms = [.top loop])
    (noPost : ∀ s ∈ u.after, ∀ node ∈ s.bottoms, ∀ hook ∈ node.posts, hook.1 ∉ u.whole.tops)
    (drawn : ofFabric f drawing = .ok graph) :
    ∃ other, ofFabric g drawing = .ok other ∧ ∃ rename : String → String,
      Set.BijOn rename graph.ids other.ids ∧ other.edges = graph.edges.map (.renamed rename) ∧
      (graph.nodes.map (.renamed rename)).Perm other.nodes := by
  obtain ⟨counted, acyclic⟩ := resolvedCounted woven resolved
  obtain ⟨repeatable, closed⟩ := Registry.builtinRepeatable ok known
  obtain ⟨bottom, one⟩ := List.length_eq_one_iff.mp oneBottom
  obtain ⟨last, ending⟩ := Option.isSome_iff_exists.mp (List.getLast?_isSome.mpr someTop)
  have positive : 0 < u.copies.length := by
    refine Nat.pos_of_ne_zero fun none => ?_
    rw [none] at derived
    cases derived
  have increase : u.base.increase label u.copies.length = .ok u.whole.template := by
    rw [Template.derive, if_neg (by omega)] at derived
    exact derived
  have fits : u.Fits bottom last loop := {
    counted, acyclic, repeatable, closed, positive, worked, noPost
    oneBottom := one
    lastTop := ending
    increase := Template.increaseParts increase }
  obtain ⟨rename, renames⟩ := renameOf fits
  unfold ofFabric at drawn ⊢
  split at drawn
  · rename_i d run
    cases drawn
    obtain ⟨e, other, alike⟩ := allDrawn fits renames run
    have nodes := alike.nodes
    rw [List.flatMap_nil, List.append_nil] at nodes
    rw [other]
    exact ⟨e.graph, rfl, rename, alike.bijection fits renames, alike.edges, nodes⟩
  · cases drawn

def fanPiece : MappedText :=
  MappedText.ofSource "ch,ch,turn\nsc,dcbl3inc,turn\nsc@[1,0],sc@[1,2],sc@[1,1]".toList

def fanSpec : String := "&dcbl^A(dcbl):B[back]~A-B::!-1-A;B-2-A"

def fanStitches : Registry := (Registry.plain.defineSpec "dcbl" fanSpec).2

theorem increaseApartFan : ∃ start rows draft f g graph loop, ∃ u : Fabric.Unrolled f g,
    Registry.builtin = .ok start ∧ start.find? "dcbl" = some u.base ∧
    u.base.bottoms.length = 1 ∧ u.base.tops ≠ [] ∧ Row.parseRows fanPiece [] "red" = .ok rows ∧
    Fabric.weave rows fanStitches {} = .ok draft ∧ draft.resolve = (f, .ok ()) ∧
    u.copies.length = 3 ∧ u.base.derive "dcbl3inc" 3 .increase = .ok u.whole.template ∧
    u.whole.bottoms = [.top loop] ∧
    (∀ s ∈ u.after, ∀ node ∈ s.bottoms, ∀ hook ∈ node.posts, hook.1 ∉ u.whole.tops) ∧
    ofFabric f {} = .ok graph ∧ ∃ other, ofFabric g {} = .ok other ∧ ∃ rename : String → String,
      Set.BijOn rename graph.ids other.ids ∧ other.edges = graph.edges.map (.renamed rename) ∧
      (graph.nodes.map (.renamed rename)).Perm other.nodes := by
  have runs : (Row.parseRows fanPiece [] "red" >>= fun rows =>
      Fabric.weave rows fanStitches {} >>= fun f =>
      f.resolve.2.map fun _ => f.resolve.1).toOption.any (fun f =>
        (Template.parse "dcbl" fanSpec).toOption.any fun base => f.stitches[3]?.any fun x =>
          decide (base.bottoms.length = 1 ∧ base.tops.length = 1 ∧
            base.derive "dcbl3inc" 3 .increase = .ok x.template ∧ x.tops = [4, 5, 6] ∧
            x.bottoms = [.top 1]) &&
          ((f.stitches.drop 4).all fun s => s.bottoms.all (·.posts.isEmpty)) &&
          (ofFabric f {}).isOk) = true := by
    decide +kernel
  obtain ⟨f, run, facts⟩ := testOk runs
  obtain ⟨rows, parsed, run⟩ := bindOk run
  obtain ⟨draft, woven, run⟩ := bindOk run
  obtain ⟨_, done, same⟩ := mapOk run
  have resolved : draft.resolve = (f, .ok ()) := Prod.ext same done
  obtain ⟨base, read, facts⟩ := testOk facts
  obtain ⟨x, place, facts⟩ := (Option.any_eq_true _ _).mp facts
  simp only [Bool.and_eq_true, decide_eq_true_eq] at facts
  obtain ⟨⟨⟨oneBottom, oneTop, derived, tops, bottoms⟩, posts⟩, draws⟩ := facts
  obtain ⟨graph, drawn⟩ := someOk draws
  obtain ⟨start, ok⟩ := Registry.builtinMade
  have listed : stitchDictionary.reverse.lookup "dcbl" = some fanSpec := by decide +kernel
  have known : start.find? "dcbl" = some base := by
    rw [Registry.builtinFind ok, listed, Option.bind_some, read]
    rfl
  let copy (k : Nat) : Stitch :=
    { x with uid := x.uid + k, name := "dcbl", template := base, tops := [4 + k] }
  let u : Fabric.Unrolled f
      { f with stitches := f.stitches.take 3 ++ ([copy 0, copy 1, copy 2] ++
        (f.stitches.drop 4).map (·.later 2)) } := {
    base, whole := x
    before := f.stitches.take 3
    after := f.stitches.drop 4
    copies := [copy 0, copy 1, copy 2]
    standing := by
      obtain ⟨bound, rfl⟩ := List.getElem?_eq_some_iff.mp place
      rw [List.getElem_cons_drop bound, List.take_append_drop]
    apart := rfl
    firstId := rfl
    nextId := rfl
    tops := tops.symm
    copied := by
      intro k s here
      rcases k with _ | _ | _ | k
      · cases here
        exact ⟨rfl, rfl, oneTop.symm, rfl, rfl, rfl, rfl⟩
      · cases here
        exact ⟨rfl, rfl, oneTop.symm, rfl, rfl, rfl, rfl⟩
      · cases here
        exact ⟨rfl, rfl, oneTop.symm, rfl, rfl, rfl, rfl⟩
      · cases here }
  have someTop : base.tops ≠ [] := List.ne_nil_of_length_pos (by omega)
  have noPost : ∀ s ∈ u.after, ∀ node ∈ s.bottoms, ∀ hook ∈ node.posts, hook.1 ∉ u.whole.tops := by
    intro s later node worked hook inside
    have none := List.all_eq_true.mp (List.all_eq_true.mp posts s later) node worked
    rw [List.isEmpty_iff.mp none] at inside
    cases inside
  exact ⟨start, rows, draft, f, _, graph, 1, u, ok, known, oneBottom, someTop, parsed, woven,
    resolved, rfl, derived, bottoms, noPost, drawn,
    increaseApart u ok known oneBottom someTop woven resolved derived bottoms noPost drawn⟩

end Graph
end Crochet
