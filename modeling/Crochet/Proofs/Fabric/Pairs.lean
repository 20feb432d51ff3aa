import Mathlib.Data.List.Nodup
import Crochet.Proofs.Fabric.Resolution

/-! When all references of a finished piece are anchors or lie between two anchors. Work around a
post takes up whatever the post leads to, and that may lie between two anchors already; a stitch
hung halfway to such a point lies between a point and an anchor. This is the only way it happens. -/
namespace Crochet
namespace Fabric

structure PostBetween (f : Fabric) (p : Pass) (first : Nat) (target : NodeRef) : Prop where
  label : ∃ l, f.label? p.key = some l ∧ l.ids.head? = some first
  reached : ∃ which s length, p.modifiers.post = some which ∧ f.owner? first = some s ∧
    s.postTarget first (which.getD (-1)) = some (target, length)
  between : target.isAnchor = false

/- With two slots the stitches take the two ends; with any other number some hang halfway. -/
structure TwiceHung (f : Fabric) (p : Pass) : Prop where
  post : ∃ first target, PostBetween f p first target
  slots : (f.slots p).length + (skipped p.modifiers.skip).1 ≠ 2

variable {l : Label} {first last k : Nat} {nodes : List NodeRef} {t : Stitch} {target : NodeRef}
  {passes rest before all : List Pass}
variable {node : NodeRef} {p : Pass}

section
variable {f : Fabric} {s : Spread}

theorem postAnchors (spreads : Spreads f p l first last nodes s) {which : Option Int}
    {yarn : Length} (around : AroundPost f p l.ids first which t target yarn)
    (same : nodes = target :: l.ids.map NodeRef.top) :
    s.anchors = [target, .top first] ∨ s.anchors = [.top first, target] := by
  obtain ⟨id, ids⟩ := List.length_eq_one_iff.mp around.single
  have head := spreads.head
  rw [ids] at head same
  cases head
  subst same
  exact spreads.laid

theorem eitherEnd {anchors : List NodeRef}
    (ends : anchors = [target, .top first] ∨ anchors = [.top first, target])
    (member : node ∈ anchors) : node = target ∨ node = .top first := by
  rcases ends with rfl | rfl
  · simpa using member
  · simpa [or_comm] using member

theorem spreadShape (ok : f.spread p = .ok s) :
    (∀ node ∈ s.anchors, node.isAnchor = true) ∨ ∃ first target, PostBetween f p first target ∧
      (s.anchors = [target, .top first] ∨ s.anchors = [.top first, target]) := by
  obtain ⟨l, first, last, nodes, spreads⟩ := spreads ok
  rcases anchorsCases spreads.anchored with ⟨_, wide, _⟩ | ⟨which, t, target, yarn, around, same, _⟩
  · refine .inl ?_
    intro node member
    have inNodes := spreads.member member
    obtain ⟨left, right, parts, sides⟩ := wide.sides
    simp only [parts, List.mem_append, List.mem_map] at inNodes sides
    rcases inNodes with (inLeft | ⟨id, _, rfl⟩) | inRight
    · obtain ⟨n, rfl, _⟩ := sides node (.inl inLeft)
      rfl
    · rfl
    · obtain ⟨n, rfl, _⟩ := sides node (.inr inRight)
      rfl
  · have ends := postAnchors spreads around same
    cases shape : target.isAnchor with
    | true =>
      refine .inl ?_
      intro node member
      rcases eitherEnd ends member with rfl | rfl
      · exact shape
      · rfl
    | false =>
      exact .inr ⟨first, target, ⟨⟨l, spreads.label, spreads.head⟩,
        ⟨which, t, yarn, around.written, around.owner, around.reached⟩, shape⟩, ends⟩

theorem betweenAnchors (ok : f.spread p = .ok s) (post : PostBetween f p first target) :
    s.anchors = [target, .top first] ∨ s.anchors = [.top first, target] := by
  obtain ⟨l, start, last, nodes, spreads⟩ := spreads ok
  obtain ⟨m, label, head⟩ := post.label
  cases spreads.label.symm.trans label
  cases spreads.head.symm.trans head
  obtain ⟨which, t, length, written, owner, reached⟩ := post.reached
  rcases anchorsCases spreads.anchored with ⟨bare, _⟩ | ⟨other, u, there, yarn, around, same, _⟩
  · cases written.symm.trans bare
  · cases written.symm.trans around.written
    cases owner.symm.trans around.owner
    have ends : (target, length) = (there, yarn) :=
      Option.some.inj (reached.symm.trans around.reached)
    obtain ⟨rfl, rfl⟩ := Prod.mk.inj ends
    exact postAnchors spreads around same

theorem postTargetPair (paired : f.Paired) (post : PostBetween f p first target) :
    target.isPair = true := by
  obtain ⟨which, t, length, _, owner, reached⟩ := post.reached
  obtain ⟨⟨j, place⟩, _⟩ := ownerAt owner
  obtain ⟨_, _, below | ⟨name, rfl, _⟩⟩ := Stitch.postTargetCases reached
  · exact paired t (List.mem_of_getElem? place) target below
  · rfl

theorem SlotAt.pair (slot : SlotAt s k node)
    (anchors : ∀ anchor ∈ s.anchors, anchor.isAnchor = true) : node.isPair = true := by
  cases slot with
  | paired _ found => exact NodeRef.anchorPair (anchors node (List.mem_of_getElem? found))
  | exact _ _ found => exact NodeRef.anchorPair (anchors node (List.mem_of_getElem? found))
  | between _ _ left right nearPull farPull =>
    have near := anchors _ (List.mem_of_getElem? left)
    have far := anchors _ (List.mem_of_getElem? right)
    simp [NodeRef.isPair, near, far]

theorem passPaired (paired : f.Paired) (once : ¬ TwiceHung f p)
    {entries : List ((Nat × Nat) × NodeRef)} (ok : f.assignments p = .ok entries) :
    (entries.foldl assign f).Paired := by
  intro t member node bottom
  obtain ⟨i, found⟩ := List.mem_iff_getElem?.mp member
  obtain ⟨b, atBottom⟩ := List.mem_iff_getElem?.mp bottom
  obtain ⟨s, assigns⟩ := assigns ok
  rcases bottomAfter found atBottom with entry | ⟨_, old, place, kept⟩
  swap
  · exact paired old (List.mem_of_getElem? place) node (List.mem_of_getElem? kept)
  obtain ⟨k, atEntry⟩ := List.mem_iff_getElem?.mp entry
  have slot := slotAt (assigns.nodes k (i, b) node atEntry)
  rcases spreadShape assigns.spread with anchors | ⟨first, target, post, ends⟩
  · exact slot.pair anchors
  · obtain ⟨l, _, _, nodes, spreads⟩ := spreads assigns.spread
    have two : s.anchors.length = s.total := by
      have total : s.total = 2 := by
        rw [spreads.total]
        by_contra other
        exact once ⟨⟨first, target, post⟩, other⟩
      rcases ends with ends | ends <;> simp [ends, total]
    cases slot with
    | paired _ found =>
      rcases eitherEnd ends (List.mem_of_getElem? found) with rfl | rfl
      · exact postTargetPair paired post
      · rfl
    | exact different => exact absurd two different
    | between different => exact absurd two different

theorem innerSlot (spreads : Spreads f p l first last nodes s) (many : s.total ≠ 2)
    (worked : 0 < (f.slots p).length) :
    ∃ k < (f.slots p).length, 1 < s.total → k + s.offset = 1 ∧ 2 < s.total := by
  obtain ⟨offset, fits, wide⟩ := spreads.margins
  by_cases single : s.total = 1
  · exact ⟨0, worked, by omega⟩
  · exact ⟨1 - s.offset, by omega, by omega⟩

theorem innerBetween {a b : NodeRef} (two : s.anchors = [a, b])
    (inner : 1 < s.total → k + s.offset = 1 ∧ 2 < s.total) (slot : SlotAt s k node) :
    ∃ nearPull farPull, node = .between a b nearPull farPull := by
  have share : (s.share k).1 = 1 ∧ 1 < (s.share k).2 := by
    unfold Spread.share
    split
    · rename_i several
      obtain ⟨second, more⟩ := inner several
      refine ⟨by simp [two, second], ?_⟩
      simp only
      omega
    · simp [two]
  have floor : (s.share k).1 / (s.share k).2 = 0 := by
    rw [share.1]
    exact Nat.div_eq_of_lt share.2
  have rest : (s.share k).1 % (s.share k).2 = 1 := by
    rw [share.1]
    exact Nat.mod_eq_of_lt share.2
  cases slot with
  | paired same =>
    simp only [two, List.length_cons, List.length_nil] at same
    omega
  | exact _ whole => omega
  | between _ _ left right nearPull farPull =>
    rw [floor, two] at left right
    cases left
    cases right
    exact ⟨nearPull, farPull, rfl⟩

theorem twiceNested (twice : TwiceHung f p) (worked : 0 < (f.slots p).length)
    {entries : List ((Nat × Nat) × NodeRef)} (ok : f.assignments p = .ok entries) :
    ∃ i b node, ((i, b), node) ∈ entries ∧ node.isPair = false := by
  obtain ⟨s, assigns⟩ := assigns ok
  obtain ⟨first, target, post⟩ := twice.post
  obtain ⟨l, _, _, nodes, spreads⟩ := spreads assigns.spread
  have many : s.total ≠ 2 := spreads.total ▸ twice.slots
  obtain ⟨k, bound, inner⟩ := innerSlot spreads many worked
  have length : entries.length = (f.slots p).length := by
    rw [← assigns.slots, List.length_map]
  have found : entries[k]? = some entries[k] := List.getElem?_eq_getElem (by omega)
  obtain ⟨⟨⟨i, b⟩, node⟩, entry⟩ : ∃ entry, entries[k]? = some entry := ⟨_, found⟩
  refine ⟨i, b, node, List.mem_of_getElem? entry, ?_⟩
  have slot := slotAt (assigns.nodes k (i, b) node entry)
  rcases betweenAnchors assigns.spread post with ends | ends
  · obtain ⟨_, _, rfl⟩ := innerBetween ends inner slot
    simp [NodeRef.isPair, post.between]
  · obtain ⟨_, _, rfl⟩ := innerBetween ends inner slot
    simp [NodeRef.isPair, post.between]

end

section
variable {f : Fabric} {entries : List ((Nat × Nat) × NodeRef)} {i b : Nat}

def HasBottom (f : Fabric) (i b : Nat) (node : NodeRef) : Prop :=
  ∃ s, f.stitches[i]? = some s ∧ s.bottoms[b]? = some node

theorem Reworked.hasBottom {g : Fabric} (reworked : Reworked f g) (bound : b < f.bottomCount i) :
    ∃ other, g.HasBottom i b other := by
  rw [← reworked.bottomCountSame] at bound
  unfold bottomCount at bound
  split at bound
  · rename_i t place
    exact ⟨_, t, place, List.getElem?_eq_getElem bound⟩
  · cases bound

theorem HasBottom.bound (has : f.HasBottom i b node) : b < f.bottomCount i := by
  obtain ⟨s, place, bottom⟩ := has
  unfold bottomCount
  rw [place]
  exact (List.getElem?_eq_some_iff.mp bottom).1

theorem Reworked.stitchSame {g : Fabric} (reworked : Reworked f g) {s : Stitch}
    (here : f.stitches[i]? = some s) (there : g.stitches[i]? = some t)
    (each : ∀ b node, s.bottoms[b]? = some node → g.HasBottom i b node) : t = s := by
  obtain ⟨s', same, outline⟩ := reworked.source there
  cases here.symm.trans same
  refine Stitch.outlineEq outline (List.ext_getElem? fun b => ?_)
  cases bottom : s.bottoms[b]? with
  | none =>
    rw [List.getElem?_eq_none_iff] at bottom ⊢
    rw [Stitch.outlineBottoms outline]
    exact bottom
  | some node =>
    obtain ⟨u, found, put⟩ := each b node bottom
    cases there.symm.trans found
    exact put

theorem entryLands (once : (entries.map Prod.fst).Nodup) (bound : b < f.bottomCount i)
    (entry : ((i, b), node) ∈ entries) : (entries.foldl assign f).HasBottom i b node := by
  obtain ⟨other, t, place, bottom⟩ := (assignReworked f entries).hasBottom bound
  rcases bottomAfter place bottom with also | ⟨never, _⟩
  · have same := List.inj_on_of_nodup_map once entry also rfl
    cases same
    exact ⟨t, place, bottom⟩
  · exact absurd (List.mem_map_of_mem entry) never

theorem entryLeaves (never : (i, b) ∉ entries.map Prod.fst) (has : f.HasBottom i b node) :
    (entries.foldl assign f).HasBottom i b node := by
  obtain ⟨other, t, place, bottom⟩ := (assignReworked f entries).hasBottom has.bound
  rcases bottomAfter place bottom with entry | ⟨_, u, before, kept⟩
  · exact absurd (List.mem_map_of_mem entry) never
  · obtain ⟨v, same, old⟩ := has
    cases before.symm.trans same
    cases kept.symm.trans old
    exact ⟨t, place, bottom⟩

def slotsOf (f : Fabric) (stitches : List Nat) : List (Nat × Nat) :=
  stitches.flatMap fun stitch => (List.range (f.bottomCount stitch)).map (stitch, ·)

theorem slotsOnce {stitches : List Nat} (once : stitches.Nodup) : (f.slotsOf stitches).Nodup := by
  refine List.nodup_flatMap.mpr ⟨fun j _ => ?_, once.imp ?_⟩
  · exact List.nodup_range.map fun x y same => (Prod.mk.inj same).2
  · intro j k apart
    simp [Function.onFun, List.disjoint_left, apart.symm]

theorem landed (ok : f.assignments p = .ok entries) (once : p.stitches.Nodup)
    (entry : ((i, b), node) ∈ entries) : (entries.foldl assign f).HasBottom i b node := by
  obtain ⟨s, assigns⟩ := assigns ok
  have slot : (i, b) ∈ f.slots p := assigns.slots ▸ List.mem_map_of_mem entry
  refine entryLands ?_ (slotMember.mp slot).2 entry
  rw [assigns.slots]
  exact slotsOnce once

theorem bottomKept (ok : f.assignments p = .ok entries) (apart : i ∉ p.stitches)
    (has : f.HasBottom i b node) : (entries.foldl assign f).HasBottom i b node := by
  obtain ⟨s, assigns⟩ := assigns ok
  refine entryLeaves ?_ has
  rw [assigns.slots, slotMember]
  exact fun inside => apart inside.1

theorem bottomRuns (apart : ∀ q ∈ passes, i ∉ q.stitches) (has : f.HasBottom i b node) :
    (f.runPasses passes).1.HasBottom i b node :=
  runKeeps (fun g => g.HasBottom i b node)
    (fun q member _ _ kept ok => bottomKept ok (apart q member) kept) has

end

section
variable {f g : Fabric}

theorem runCons (run : f.runPasses (p :: rest) = (g, .ok ())) :
    ∃ entries, f.assignments p = .ok entries ∧
      (entries.foldl assign f).runPasses rest = (g, .ok ()) := by
  unfold runPasses at run
  split at run
  · cases run
  · rename_i entries ok
    exact ⟨entries, ok, run⟩

theorem runSplit (run : f.runPasses (before ++ rest) = (g, .ok ())) :
    (f.runPasses before).1.runPasses rest = (g, .ok ()) := by
  induction before generalizing f with
  | nil => exact run
  | cons p before ih =>
    obtain ⟨entries, ok, more⟩ := runCons run
    simp only [runPasses, ok]
    exact ih more

theorem runPaired (paired : f.Paired) (run : f.runPasses passes = (g, .ok ()))
    (once : ∀ before p after, passes = before ++ p :: after →
      ¬ (f.runPasses before).1.TwiceHung p) : g.Paired := by
  induction passes generalizing f with
  | nil => cases run; exact paired
  | cons p rest ih =>
    obtain ⟨entries, ok, more⟩ := runCons run
    refine ih (passPaired paired (once [] p rest rfl) ok) more ?_
    intro before q after same
    have later := once (p :: before) q after (by rw [same]; rfl)
    simp only [runPasses, ok] at later
    exact later

theorem workedSlots (labelled : f.Labelled) (collects : Pass.Collects f.uses passes)
    (member : p ∈ passes) (reworked : Reworked f g) : 0 < (g.slots p).length := by
  obtain ⟨i, worked⟩ := List.exists_mem_of_ne_nil _ (collects.nonempty p member)
  obtain ⟨u, used, rfl, _⟩ := collects.source p member i worked
  obtain ⟨s, place, some⟩ := labelled.worked u used
  have bound : 0 < g.bottomCount u.stitch := by
    rw [reworked.bottomCountSame]
    simp only [bottomCount, place]
    exact List.length_pos_iff.mpr some
  exact List.length_pos_of_mem (slotMember.mpr ⟨worked, bound⟩)

theorem stitchesOnce (labelled : f.Labelled) (collects : Pass.Collects f.uses passes) :
    (passes.flatMap Pass.stitches).Nodup :=
  collects.perm.nodup_iff.mpr (labelled.ordered.imp Nat.ne_of_lt)

theorem passesApart (labelled : f.Labelled) {after : List Pass}
    (collects : Pass.Collects f.uses (before ++ p :: after)) :
    p.stitches.Nodup ∧ ∀ i ∈ p.stitches, ∀ q ∈ after, i ∉ q.stitches := by
  have distinct := stitchesOnce labelled collects
  rw [List.flatMap_append, List.flatMap_cons] at distinct
  have rest := (List.nodup_append.mp (List.nodup_append.mp distinct).2.1)
  refine ⟨rest.1, ?_⟩
  intro i here q member there
  exact rest.2.2 i here i (List.mem_flatMap.mpr ⟨q, member, there⟩) rfl

theorem pairedIff {rows : Rows} {registry : Registry} {options : Options}
    (ok : weave rows registry options = .ok f) (resolved : f.resolve = (g, .ok ())) :
    g.Paired ↔ ∀ before p after, f.passes = .ok (before ++ p :: after) →
      ¬ (f.runPasses before).1.TwiceHung p := by
  have woven := weaveWoven ok
  obtain ⟨passes, collected, run, _⟩ := resolves resolved
  constructor
  · intro paired before p after same twice
    cases collected.symm.trans same
    have collects := passesCollect collected
    obtain ⟨once, apart⟩ := passesApart woven.labelled collects
    obtain ⟨entries, assigned, more⟩ := runCons (runSplit run)
    have member : p ∈ before ++ p :: after := by simp
    have worked := workedSlots woven.labelled collects member (runReworked f before)
    obtain ⟨i, b, node, entry, nested⟩ := twiceNested twice worked assigned
    obtain ⟨s, assigns⟩ := assigns assigned
    have inPass : i ∈ p.stitches := by
      have slot : (i, b) ∈ (f.runPasses before).1.slots p :=
        assigns.slots ▸ List.mem_map_of_mem entry
      exact (slotMember.mp slot).1
    have kept := bottomRuns (apart i inPass) (landed assigned once entry)
    rw [more] at kept
    obtain ⟨t, place, bottom⟩ := kept
    have pair := paired t (List.mem_of_getElem? place) node (List.mem_of_getElem? bottom)
    rw [nested] at pair
    cases pair
  · intro once
    exact runPaired woven.paired run fun before p after same => once before p after (same ▸ collected)

theorem passesFound (found : f.uses.foldlM Pass.addUse [] = .ok all)
    (sorted : all.Pairwise fun a b => Pass.comesFirst f a b = true) : f.passes = .ok all := by
  simp only [Fabric.passes, found]
  exact congrArg Except.ok (List.mergeSort_of_pairwise sorted)

theorem resolveFound (found : f.uses.foldlM Pass.addUse [] = .ok all)
    (sorted : all.Pairwise fun a b => Pass.comesFirst f a b = true)
    (run : f.runPasses all = (g, .ok ())) (checked : g.checkBottoms = .ok ()) :
    f.resolve = (g, .ok ()) := by
  simp only [resolve, passesFound found sorted, run, checked]

theorem resolvePiece (text : MappedText) (test : Fabric → Bool)
    (runs : (Row.parseRows text [] "red" >>= fun rows => weave rows Registry.plain {} >>= fun f =>
      f.uses.foldlM Pass.addUse [] >>= fun all => (f.runPasses all).2 >>= fun _ =>
      (f.runPasses all).1.checkBottoms.map fun _ => (f, all)).toOption.any (fun (f, all) =>
        decide (all.Pairwise fun a b => Pass.comesFirst f a b = true) &&
          test (f.runPasses all).1) = true) :
    ∃ rows f g, Row.parseRows text [] "red" = .ok rows ∧ weave rows Registry.plain {} = .ok f ∧
      f.resolve = (g, .ok ()) ∧ test g = true := by
  obtain ⟨last, run, holds⟩ := testOk runs
  obtain ⟨rows, parsed, run⟩ := bindOk run
  obtain ⟨f, ok, run⟩ := bindOk run
  obtain ⟨all, found, run⟩ := bindOk run
  obtain ⟨_, ran, run⟩ := bindOk run
  obtain ⟨_, checked, rfl⟩ := mapOk run
  simp only [Bool.and_eq_true, decide_eq_true_eq] at holds
  exact ⟨rows, f, _, parsed, ok, resolveFound found holds.1 (Prod.ext rfl ran) checked, holds.2⟩

def nestedPiece : MappedText :=
  MappedText.ofSource "ch.A,ch.A\nsc@A,sc.B@A,sc@A\nsc@B^".toList

def pairedPiece : MappedText :=
  MappedText.ofSource "ch.A,ch.A\nsc@A,sc.B@A,sc@A\nsc@B^,sc@B^".toList

theorem pairedIffEnds : ∃ rows f g, Row.parseRows pairedPiece [] "red" = .ok rows ∧
    weave rows Registry.plain {} = .ok f ∧ f.resolve = (g, .ok ()) ∧ g.Paired ∧
    ∀ before p after, f.passes = .ok (before ++ p :: after) →
      ¬ (f.runPasses before).1.TwiceHung p := by
  obtain ⟨rows, f, g, parsed, ok, resolved, shapes⟩ := resolvePiece pairedPiece
    (fun g => g.stitches.all fun s => s.bottoms.all NodeRef.isPair) (by decide +kernel)
  have paired : g.Paired := by simpa [Paired] using shapes
  exact ⟨rows, f, g, parsed, ok, resolved, paired, (pairedIff ok resolved).mp paired⟩

theorem notPaired : ∃ rows f g, Row.parseRows nestedPiece [] "red" = .ok rows ∧
    weave rows Registry.plain {} = .ok f ∧ f.resolve = (g, .ok ()) ∧ ¬ g.Paired := by
  obtain ⟨rows, f, g, parsed, ok, resolved, nested⟩ := resolvePiece nestedPiece
    (fun g => g.stitches.any fun s => s.bottoms.any fun node => !node.isPair)
    (by decide +kernel)
  refine ⟨rows, f, g, parsed, ok, resolved, ?_⟩
  intro paired
  simp only [List.any_eq_true, Bool.not_eq_true'] at nested
  obtain ⟨s, member, node, bottom, shape⟩ := nested
  rw [paired s member node bottom] at shape
  cases shape

end

end Fabric
end Crochet
