import Crochet.Proofs.Fabric.Hooks
import Crochet.Proofs.Graph.Steps

/-! Drawing a fabric never meets an inconsistency. Every top is drawn with its stitch, so what a
stitch is worked into, which is older, has its node by the time it is asked for. -/
namespace Crochet
namespace Fabric

structure Ready (f : Fabric) : Prop where
  counted : f.Counted
  acyclic : f.Acyclic
  hooked : f.Hooked
  deep : ∀ s ∈ f.stitches, ∀ b node, (b, node) ∈ s.template.bottoms.zip s.bottoms →
    (f.descend node b.depth).isSome = true
  pairs : f.Paired

structure Under (f : Fabric) (i : Nat) (node : NodeRef) : Prop where
  earlier : ∀ id ∈ node.ids, f.OwnedBefore id i
  hooks : f.HooksOn node
  pair : node.isPair = true

namespace Ready
variable {f : Fabric} (ready : f.Ready)
include ready

variable {node : NodeRef}
variable {i : Nat}

theorem under {s : Stitch} (found : f.stitches[i]? = some s) (bottom : node ∈ s.bottoms) :
    f.Under i node where
  earlier := ready.acyclic i s found node bottom
  hooks := ready.hooked.hooks s (List.mem_of_getElem? found) node bottom
  pair := ready.pairs s (List.mem_of_getElem? found) node bottom

theorem underBelow {next : NodeRef} (under : f.Under i node) (below : f.below node = some next) :
    f.Under i next := by
  simp only [Fabric.below, bind, Option.bind_eq_some_iff] at below
  obtain ⟨id, top, s, owner, _, _, _, _, b, _, found⟩ := below
  obtain ⟨⟨j, place⟩, made⟩ := ready.counted.ownerTop owner
  have inside : id ∈ node.ids := by
    cases node with
    | top other => cases top; exact List.mem_singleton.mpr rfl
    | post other name => cases top
    | between near far nearPull farPull => cases top
  have older := ready.counted.ownerBefore (under.earlier id inside) place made
  have lower := ready.under place (List.mem_of_getElem? found)
  exact ⟨fun id inside => (lower.earlier id inside).mono (Nat.le_of_lt older), lower.hooks, lower.pair⟩

theorem underDescend {n : Nat} {last : NodeRef} (under : f.Under i node)
    (ok : f.descendBy n node = some last) : f.Under i last := by
  induction n generalizing node with
  | zero => cases ok; exact under
  | succ n ih =>
    obtain ⟨next, below, rest⟩ := Option.bind_eq_some_iff.mp ok
    exact ih (ready.underBelow under below) rest

theorem bottomReached {s : Stitch} (found : f.stitches[i]? = some s) {b : Nat} {bottom : BottomNode}
    (inTemplate : s.template.bottoms[b]? = some bottom) :
    ∃ node last, s.bottoms[b]? = some node ∧ f.descend node bottom.depth = some last ∧
      f.Under i last := by
  have member := List.mem_of_getElem? found
  have length := ready.counted.bottoms s member
  have bound := (List.getElem?_eq_some_iff.mp inTemplate).1
  have worked : s.bottoms[b]? = some s.bottoms[b] := List.getElem?_eq_getElem (by omega)
  have pair : (bottom, s.bottoms[b]) ∈ s.template.bottoms.zip s.bottoms := by
    refine List.mem_iff_getElem?.mpr ⟨b, ?_⟩
    exact List.getElem?_zip_eq_some.mpr ⟨inTemplate, worked⟩
  obtain ⟨last, down⟩ := Option.isSome_iff_exists.mp (ready.deep s member _ _ pair)
  exact ⟨_, last, worked, down,
    ready.underDescend (ready.under found (List.mem_of_getElem? worked)) down⟩

end Ready

theorem resolvedReady {rows : Rows} {registry : Registry} {options : Options} {f g : Fabric}
    (reached : registry.Reached) (ok : weave rows registry options = .ok f)
    (resolved : f.resolve = (g, .ok ())) (pairs : g.Paired) : g.Ready := by
  have woven := weaveWoven ok
  have acyclic := resolveAcyclic woven
  rw [resolved] at acyclic
  obtain ⟨passes, _, run, checked⟩ := resolves resolved
  have reworked := runReworked f passes
  have hooked := runHooked (weaveHooked reached ok) passes
  rw [run] at reworked hooked
  exact ⟨reworked.counted woven.counted, acyclic, hooked,
    fun s member b node pair => checkedBottom checked member pair, pairs⟩

end Fabric

namespace Template

variable {t : Template} {name : String}

theorem topIndexOf (top : t.role name = some .top) :
    ∃ k n, t.topIndex? name = some k ∧ t.tops[k]? = some n := by
  unfold role at top
  split at top
  · rename_i present
    exact findIndexOf present
  split at top
  · cases top
  split at top <;> cases top

theorem bottomIndexOf (bottom : t.role name = some .bottom) :
    ∃ b n, t.bottomIndex? name = some b ∧ t.bottoms[b]? = some n := by
  obtain ⟨n, member, rfl⟩ := roleBottom bottom
  exact findIndexOf (List.any_eq_true.mpr ⟨n, member, beq_self_eq_true n.name⟩)

end Template

namespace Graph

def Drawing.Knows (d : Drawing) (id : Nat) : Prop := ∃ node, d.top id = .ok node

structure Drawing.Keeps (d e : Drawing) : Prop where
  tops : e.tops = d.tops
  lastTop : e.lastTop = d.lastTop

namespace Drawing.Keeps
variable {d e g : Drawing}

theorem refl (d : Drawing) : Keeps d d := ⟨rfl, rfl⟩

theorem trans (first : Keeps d e) (second : Keeps e g) : Keeps d g :=
  ⟨second.tops.trans first.tops, second.lastTop.trans first.lastTop⟩

theorem knows (keeps : Keeps d e) {id : Nat} (known : d.Knows id) : e.Knows id := by
  obtain ⟨node, found⟩ := known
  refine ⟨node, ?_⟩
  unfold Drawing.top at found ⊢
  rw [keeps.tops]
  exact found

end Drawing.Keeps

theorem loopSidesKeep (d : Drawing) (color : String) (tail head : End) :
    d.Keeps (loopSides d color tail head).2.2 := by
  unfold loopSides
  split <;> exact ⟨rfl, rfl⟩

theorem joinKeeps (d : Drawing) (color : String) (length : Float) (soft : Bool)
    (tail head : End) : d.Keeps (joinEnds d color length soft tail head) := by
  have sides := loopSidesKeep d color tail head
  unfold joinEnds
  split
  · exact ⟨rfl, rfl⟩
  simp only
  split
  · exact ⟨sides.tops, sides.lastTop⟩
  · exact ⟨sides.tops, sides.lastTop⟩

/- A stitch whose connections are drawn: its own tops are there, and all that is older. -/
structure InHand (f : Fabric) (i : Nat) (s : Stitch) (previous : Option Nat) (d : Drawing) :
    Prop where
  place : f.stitches[i]? = some s
  earlier : ∀ id, f.OwnedBefore id i → d.Knows id
  tops : ∀ id ∈ s.tops, d.Knows id
  previous : ∀ id, previous = some id → d.Knows id

variable {b id : Nat}

section
variable {f : Fabric} {i : Nat} {s : Stitch} {previous : Option Nat} {d e : Drawing}

theorem EndAt.keeps {weight : Float} {ending : Endpoint} {r : Option End}
    (ends : EndAt f weight previous i s d ending r e) : d.Keeps e := by
  cases ends <;> exact ⟨rfl, rfl⟩

theorem Connects.keeps {weight : Float} {c : Connection}
    (connects : Connects f weight previous i s d c e) : d.Keeps e := by
  cases connects with
  | skipped none => exact .refl d
  | loose valued first second missing => exact first.keeps.trans second.keeps
  | joined valued first second =>
    exact (first.keeps.trans second.keeps).trans (joinKeeps _ _ _ _ _ _)

theorem InHand.kept (inHand : InHand f i s previous d) (keeps : d.Keeps e) :
    InHand f i s previous e where
  place := inHand.place
  earlier := fun id owned => keeps.knows (inHand.earlier id owned)
  tops := fun id member => keeps.knows (inHand.tops id member)
  previous := fun id same => keeps.knows (inHand.previous id same)

variable (ready : f.Ready) (inHand : InHand f i s previous d)
include ready inHand

theorem anchorDrawn {node : NodeRef} (anchor : node.isAnchor = true)
    (earlier : ∀ id ∈ node.ids, f.OwnedBefore id i) (hooks : f.HooksOn node) :
    ∃ name, anchorName f d node = .ok name := by
  cases node with
  | top id => exact inHand.earlier id (earlier id (List.mem_singleton.mpr rfl))
  | post id name =>
    obtain ⟨t, member, owns, hidden⟩ := hooks (id, name) (List.mem_singleton.mpr rfl)
    have top := (ready.counted.owns member).mp owns
    obtain ⟨j, place⟩ := List.mem_iff_getElem?.mp member
    refine ⟨postName f t name, ?_⟩
    simp only [anchorName, ready.counted.ownerOf place top]
    rw [if_pos hidden]
  | between near far nearPull farPull => cases anchor

theorem bottomDrawn {bottom : BottomNode} {last : NodeRef} {name : String}
    (sits : Sits f s name b bottom last) (under : f.Under i last) (weight : Float) :
    ∃ r e, EndAt f weight previous i s d (.node name) r e := by
  cases last with
  | top id =>
    obtain ⟨node, drawn⟩ := inHand.earlier id (under.earlier id (List.mem_singleton.mpr rfl))
    exact ⟨_, d, .loop sits drawn⟩
  | post id inner =>
    obtain ⟨node, drawn⟩ := anchorDrawn ready inHand rfl under.earlier under.hooks
    exact ⟨_, d, .post sits drawn⟩
  | between near far nearPull farPull =>
    have anchors : near.isAnchor = true ∧ far.isAnchor = true := by
      simpa [NodeRef.isPair] using under.pair
    obtain ⟨left, nearDrawn⟩ := anchorDrawn ready inHand anchors.1
      (fun id inside => under.earlier id (List.mem_append_left _ inside))
      (fun hook inside => under.hooks hook (List.mem_append_left _ inside))
    obtain ⟨right, farDrawn⟩ := anchorDrawn ready inHand anchors.2
      (fun id inside => under.earlier id (List.mem_append_right _ inside))
      (fun hook inside => under.hooks hook (List.mem_append_right _ inside))
    cases met : d.splits.lookup b with
    | some node => exact ⟨_, d, .again sits met⟩
    | none => exact ⟨_, _, .split sits met nearDrawn farDrawn⟩

theorem endDrawn (weight : Float) {ending : Endpoint} (has : s.template.HasEnd ending) :
    ∃ r e, EndAt f weight previous i s d ending r e := by
  cases ending with
  | previous =>
    cases before : previous with
    | none => exact ⟨none, d, .nothing rfl⟩
    | some id =>
      obtain ⟨node, drawn⟩ := inHand.previous id before
      exact ⟨_, d, .before rfl drawn⟩
  | node name =>
    obtain ⟨role, found⟩ := Option.isSome_iff_exists.mp (Template.roleSome.mpr has)
    cases role with
    | top =>
      obtain ⟨k, n, index, inTemplate⟩ := Template.topIndexOf found
      have length := ready.counted.tops s (List.mem_of_getElem? inHand.place)
      have bound := (List.getElem?_eq_some_iff.mp inTemplate).1
      have made : s.tops[k]? = some s.tops[k] := List.getElem?_eq_getElem (by omega)
      obtain ⟨node, drawn⟩ := inHand.tops _ (List.mem_of_getElem? made)
      exact ⟨_, d, .top found (by rw [index]; exact made) drawn⟩
    | hidden => exact ⟨_, d, .inner found⟩
    | bottom =>
      obtain ⟨b, bottom, index, inTemplate⟩ := Template.bottomIndexOf found
      obtain ⟨node, last, worked, down, under⟩ := ready.bottomReached inHand.place inTemplate
      exact bottomDrawn ready inHand ⟨found, index, inTemplate, node, worked, down⟩ under weight

theorem connectDrawn (weight : Float) {c : Connection}
    (ends : s.template.HasEnd c.tail ∧ s.template.HasEnd c.head) :
    ∃ e, Connects f weight previous i s d c e := by
  cases valued : c.length.value? with
  | none => exact ⟨d, .skipped valued⟩
  | some length =>
    obtain ⟨tail, mid, first⟩ := endDrawn ready inHand weight ends.1
    obtain ⟨head, last, second⟩ := endDrawn ready (inHand.kept first.keeps) weight ends.2
    cases tail with
    | none => exact ⟨last, .loose valued first second (.inl rfl)⟩
    | some tail =>
      cases head with
      | none => exact ⟨last, .loose valued first second (.inr rfl)⟩
      | some head => exact ⟨_, .joined valued first second⟩

theorem connectionsDrawn (weight : Float) :
    ∃ e, s.template.connections.foldlM (connect f weight previous i s) d = .ok e ∧ d.Keeps e := by
  have closed := ready.hooked.closed s (List.mem_of_getElem? inHand.place)
  refine foldRuns d.Keeps ?_ (.refl d)
  intro c member mid keeps
  obtain ⟨next, drawn⟩ := connectDrawn ready (inHand.kept keeps) weight (closed.ends c member)
  exact ⟨next, drawn.ok, keeps.trans drawn.keeps⟩

end

variable {f : Fabric} {s : Stitch}

theorem knowsIff {d : Drawing} : d.Knows id ↔ ∃ entry ∈ d.tops, entry.1 = id := by
  have found : d.Knows id ↔ (d.tops.lookup id).isSome = true := by
    unfold Drawing.Knows Drawing.top
    cases d.tops.lookup id <;> simp
  rw [found, List.lookup_isSome_iff]
  constructor
  · rintro ⟨entry, member, same⟩
    exact ⟨entry, member, (beq_iff_eq.mp same).symm⟩
  · rintro ⟨entry, member, rfl⟩
    exact ⟨entry, member, beq_self_eq_true _⟩

theorem openedKnows {d : Drawing} (length : s.tops.length = s.template.tops.length)
    (known : id ∈ s.tops ∨ d.Knows id) : (d.opened f i s).Knows id := by
  rcases known with own | old
  · rw [← List.map_fst_zip (Nat.le_of_eq length)] at own
    obtain ⟨entry, member, rfl⟩ := List.mem_map.mp own
    exact knowsIff.mpr
      ⟨_, List.mem_append_left _ (List.mem_reverse.mpr (List.mem_map_of_mem member)), rfl⟩
  · obtain ⟨entry, member, same⟩ := knowsIff.mp old
    exact knowsIff.mpr ⟨entry, List.mem_append_right _ member, same⟩

structure DrawnTo (f : Fabric) (i : Nat) (d : Drawing) : Prop where
  earlier : ∀ id, f.OwnedBefore id i → d.Knows id
  last : ∀ id, d.lastTop = some id → d.Knows id

theorem stitchDrawn (ready : f.Ready) (weight : Float) {i : Nat} (place : f.stitches[i]? = some s)
    {d : Drawing} (drawn : DrawnTo f i d) :
    ∃ e, drawStitch f weight d (s, i) = .ok e ∧ DrawnTo f (i + 1) e := by
  have member := List.mem_of_getElem? place
  have length := ready.counted.tops s member
  have inHand : InHand f i s d.lastTop (d.opened f i s) := {
    place := place
    earlier := fun id owned => openedKnows length (.inr (drawn.earlier id owned))
    tops := fun id top => openedKnows length (.inl top)
    previous := fun id before => openedKnows length (.inr (drawn.last id before)) }
  obtain ⟨last, connections, keeps⟩ := connectionsDrawn ready inHand weight
  have final := inHand.kept keeps
  refine ⟨{ last with lastTop := s.tops.getLast?.or last.lastTop }, ?_, ?_, ?_⟩
  · rw [stitchDrawnAs weight member, connections]
    rfl
  · rintro id ⟨j, t, before, found, owns⟩
    rcases Nat.lt_succ_iff_lt_or_eq.mp before with older | rfl
    · exact final.earlier id ⟨j, t, older, found, owns⟩
    · cases place.symm.trans found
      exact final.tops id ((ready.counted.owns (List.mem_of_getElem? place)).mp owns)
  · intro id same
    rcases Option.or_eq_some_iff.mp same with own | ⟨_, old⟩
    · exact final.tops id (List.mem_of_getLast? own)
    · exact final.previous id (keeps.lastTop ▸ old)

theorem stitchesDrawn (ready : f.Ready) (weight : Float) (before : List Stitch) {rest : List Stitch}
    (all : f.stitches = before ++ rest) {d : Drawing} (drawn : DrawnTo f before.length d) :
    ∃ e, (rest.zipIdx before.length).foldlM (drawStitch f weight) d = .ok e := by
  induction rest generalizing before d with
  | nil => exact ⟨d, rfl⟩
  | cons s rest ih =>
    have place : f.stitches[before.length]? = some s := by
      rw [all]
      simp
    obtain ⟨next, one, further⟩ := stitchDrawn ready weight place drawn
    obtain ⟨last, more⟩ := ih (before ++ [s]) (by simpa using all) (by simpa using further)
    rw [List.length_append] at more
    refine ⟨last, ?_⟩
    rw [List.zipIdx_cons, List.foldlM_cons, one]
    exact more

theorem resolvedDrawable {rows : Rows} {registry : Registry} {options drawing : Options}
    {f g : Fabric} (reached : registry.Reached) (ok : Fabric.weave rows registry options = .ok f)
    (resolved : f.resolve = (g, .ok ())) (pairs : g.Paired) :
    ∃ graph, ofFabric g drawing = .ok graph := by
  have ready := Fabric.resolvedReady reached ok resolved pairs
  have nothing : DrawnTo g 0 {} := ⟨fun id owned => by
    obtain ⟨j, _, before, _⟩ := owned
    exact absurd before (Nat.not_lt_zero j), fun id none => by cases none⟩
  obtain ⟨d, drawn⟩ : ∃ d, g.stitches.zipIdx.foldlM (drawStitch g drawing.loopWeight) {} = .ok d :=
    stitchesDrawn ready drawing.loopWeight [] rfl nothing
  refine ⟨d.graph, ?_⟩
  unfold ofFabric
  rw [drawn]

def postPiece : MappedText :=
  MappedText.ofSource "ch.A,ch.A,turn\nsc@A,dc@A,sc@A,turn\nsc@[1,1]^,deep@[1,0]".toList

def tallStitches : Registry :=
  ((Registry.plain.defineSpec "dc" "&dc^A(dc):B~A-B:C:!-1-A;B-1-C;C-1-A").2.defineSpec
    "deep" "&deep^A(sc):2B[back]~A-B::!-1-A;B-1-A").2

theorem tallReached : tallStitches.Reached :=
  (Registry.plainReached.defineSpec _ _).defineSpec _ _

theorem resolvedDrawablePost : ∃ rows f g graph, tallStitches.Reached ∧
    Row.parseRows postPiece [] "red" = .ok rows ∧ Fabric.weave rows tallStitches {} = .ok f ∧
    f.resolve = (g, .ok ()) ∧ g.Paired ∧ ofFabric g {} = .ok graph := by
  have runs : (Row.parseRows postPiece [] "red" >>= fun rows =>
      Fabric.weave rows tallStitches {} >>= fun f =>
      f.resolve.2.map fun _ => f.resolve.1).toOption.any
        (fun g => g.stitches.all fun s => s.bottoms.all NodeRef.isPair) = true := by
    decide +kernel
  obtain ⟨g, run, shapes⟩ := testOk runs
  obtain ⟨rows, parsed, run⟩ := bindOk run
  obtain ⟨f, ok, run⟩ := bindOk run
  obtain ⟨_, done, same⟩ := mapOk run
  have resolved : f.resolve = (g, .ok ()) := Prod.ext same done
  have pairs : g.Paired := by
    simpa [Fabric.Paired] using shapes
  obtain ⟨graph, drawn⟩ := resolvedDrawable tallReached ok resolved pairs
  exact ⟨rows, f, g, graph, tallReached, parsed, ok, resolved, pairs, drawn⟩

end Graph
end Crochet
