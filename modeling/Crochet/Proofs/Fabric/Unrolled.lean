import Crochet.Proofs.Fabric.Ownership
import Crochet.Proofs.Fabric.References
import Crochet.Proofs.Template.Naming

/-! An increase taken apart: a stitch with several copies over one bottom gives way to stitches with
one copy each, worked into the same loop. Every top keeps its id, so what can be reached from a top
stays what it was. -/
namespace Crochet

theorem NodeRef.postsIds (node : NodeRef) : ∀ hook ∈ node.posts, hook.1 ∈ node.ids := by
  induction node with
  | top id => simp [posts]
  | post id name => simp [posts, ids]
  | between near far nearPull farPull left right =>
    intro hook inside
    rcases List.mem_append.mp inside with first | second
    · exact List.mem_append_left _ (left hook first)
    · exact List.mem_append_right _ (right hook second)

namespace Stitch

def later (s : Stitch) (steps : Nat) : Stitch := { s with uid := s.uid + steps }

def loops (s : Stitch) : List (Nat × TopNode) := s.tops.zip s.template.tops

variable {id : Nat} {n : TopNode}
variable {s : Stitch}

theorem topNodeIff (run : s.Run) : s.topNode? id = some n ↔ (id, n) ∈ s.loops := by
  rw [loops, List.mem_iff_getElem?]
  simp only [topNode?, bind, Option.bind_eq_some_iff, List.getElem?_zip_eq_some]
  exact exists_congr fun i => and_congr_left fun _ => run.topIndex

theorem topNamedIff (distinct : (s.template.tops.map (·.name)).Nodup) {name : String} :
    (s.template.topIndex? name).bind (s.tops[·]?) = some id ↔
      ∃ n, (id, n) ∈ s.loops ∧ n.name = name := by
  simp only [loops, List.mem_iff_getElem?, Option.bind_eq_some_iff, List.getElem?_zip_eq_some]
  constructor
  · rintro ⟨i, found, made⟩
    obtain ⟨bound, holds, _⟩ := List.findIdx?_eq_some_iff_getElem.mp found
    exact ⟨_, ⟨i, made, List.getElem?_eq_getElem bound⟩, beq_iff_eq.mp holds⟩
  · rintro ⟨n, ⟨i, made, here⟩, rfl⟩
    exact ⟨i, indexOfKey distinct here, made⟩

theorem loopIds (length : s.tops.length = s.template.tops.length) :
    s.loops.map Prod.fst = s.tops := List.map_fst_zip (Nat.le_of_eq length)

theorem lastLoop (length : s.tops.length = s.template.tops.length)
    (distinct : (s.template.tops.map (·.name)).Nodup) {last : TopNode}
    (ending : s.template.tops.getLast? = some last) (loop : (id, n) ∈ s.loops)
    (same : n.name = last.name) : s.tops.getLast? = some id := by
  obtain ⟨i, here⟩ := List.mem_iff_getElem?.mp loop
  obtain ⟨made, inTemplate⟩ := List.getElem?_zip_eq_some.mp here
  rw [List.getLast?_eq_getElem?] at ending ⊢
  have first := indexOfKey distinct inTemplate
  have second := indexOfKey distinct ending
  rw [same] at first
  rw [length, ← Option.some.inj (first.symm.trans second)]
  exact made

/- Copy number `copy` of the stitch `whole`, as a stitch of its own. -/
structure CopyOf (whole : Stitch) (base : Template) (copy : Nat) (s : Stitch) : Prop where
  uid : s.uid = whole.uid + copy
  template : s.template = base
  tops : s.tops.length = base.tops.length
  bottoms : s.bottoms = whole.bottoms
  row : s.row = whole.row
  color : s.color = whole.color
  labels : s.labels = whole.labels

end Stitch

namespace Fabric

structure Unrolled (f g : Fabric) where
  base : Template
  before : List Stitch
  whole : Stitch
  after : List Stitch
  copies : List Stitch
  standing : f.stitches = before ++ whole :: after
  apart : g.stitches = before ++ (copies ++ after.map (·.later (copies.length - 1)))
  firstId : g.firstId = f.firstId
  nextId : g.nextId = f.nextId
  tops : copies.flatMap Stitch.tops = whole.tops
  copied : ∀ k s, copies[k]? = some s → whole.CopyOf base k s

namespace Unrolled
variable {f g : Fabric} (u : Unrolled f g)

/- A stitch other than the increase, in the fabric where that one is taken apart. -/
def image (s : Stitch) : Stitch :=
  if s.uid < u.whole.uid then s else s.later (u.copies.length - 1)

structure Kept (s : Stitch) : Prop where
  member : s ∈ f.stitches
  other : s.uid ≠ u.whole.uid

section
variable (s : Stitch)

@[simp] theorem imageTemplate : (u.image s).template = s.template := by unfold image; split <;> rfl

@[simp] theorem imageTops : (u.image s).tops = s.tops := by unfold image; split <;> rfl

@[simp] theorem imageBottoms : (u.image s).bottoms = s.bottoms := by unfold image; split <;> rfl

@[simp] theorem imageRow : (u.image s).row = s.row := by unfold image; split <;> rfl

@[simp] theorem imageColor : (u.image s).color = s.color := by unfold image; split <;> rfl

@[simp] theorem imageLabels : (u.image s).labels = s.labels := by unfold image; split <;> rfl

theorem imageUid : (u.image s).uid =
    if s.uid < u.whole.uid then s.uid else s.uid + (u.copies.length - 1) := by
  unfold image
  split <;> rfl

end

structure Fits (bottom : BottomNode) (last : TopNode) (loop : Nat) : Prop where
  counted : f.Counted
  acyclic : f.Acyclic
  repeatable : u.base.Repeatable
  closed : u.base.Closed
  oneBottom : u.base.bottoms = [bottom]
  lastTop : u.base.tops.getLast? = some last
  positive : 0 < u.copies.length
  increase : Template.Increase u.base u.copies.length u.whole.template
  worked : u.whole.bottoms = [.top loop]
  noPost : ∀ s ∈ u.after, ∀ node ∈ s.bottoms, ∀ hook ∈ node.posts, hook.1 ∉ u.whole.tops

include u in
theorem allTops : g.stitches.flatMap Stitch.tops = f.stitches.flatMap Stitch.tops := by
  rw [u.apart, u.standing]
  simp only [List.flatMap_append, List.flatMap_cons, u.tops, List.flatMap_map]
  rfl

include u in
theorem rowIds (row : Nat) : g.rowIds row = f.rowIds row := by
  have copied : (u.copies.filter (·.row == row)).flatMap Stitch.tops =
      if u.whole.row == row then u.whole.tops else [] := by
    have rows : ∀ s ∈ u.copies, (s.row == row) = (u.whole.row == row) := by
      intro s inside
      obtain ⟨k, here⟩ := List.mem_iff_getElem?.mp inside
      rw [(u.copied k s here).row]
    rw [List.filter_congr rows]
    split
    · rename_i same
      simp [same, u.tops]
    · rename_i other
      simp [other]
  have later : ((u.after.map (·.later (u.copies.length - 1))).filter (·.row == row)).flatMap
      Stitch.tops = (u.after.filter (·.row == row)).flatMap Stitch.tops := by
    rw [List.filter_map, List.flatMap_map]
    rfl
  simp only [Fabric.rowIds, inRow, u.apart, u.standing, List.filter_append, List.flatMap_append,
    List.filter_cons, copied, later]
  split
  · simp
  · simp

theorem wholeAt : f.stitches[u.before.length]? = some u.whole := by
  rw [u.standing]
  simp

theorem wholeMember : u.whole ∈ f.stitches := List.mem_of_getElem? u.wholeAt

variable {c : Stitch} {id k : Nat} {node : NodeRef} {hook : Nat × String}

theorem copyMember (inside : c ∈ u.copies) : c ∈ g.stitches := by
  rw [u.apart]
  exact List.mem_append_right _ (List.mem_append_left _ inside)

theorem copyOf (inside : c ∈ u.copies) (made : id ∈ c.tops) :
    id ∈ u.whole.tops := by
  rw [← u.tops]
  exact List.mem_flatMap.mpr ⟨c, inside, made⟩

variable {s : Stitch}

section
variable {u : Unrolled f g} {bottom : BottomNode} {last : TopNode} {loop : Nat}
  (fits : u.Fits bottom last loop)
include fits

theorem wholeUid : u.whole.uid = u.before.length := fits.counted.uid _ _ u.wholeAt

theorem beforeUid (here : u.before[k]? = some s) :
    s.uid = k ∧ k < u.whole.uid := by
  have bound := (List.getElem?_eq_some_iff.mp here).1
  have place : f.stitches[k]? = some s := by
    rw [u.standing, List.getElem?_append_left bound]
    exact here
  exact ⟨fits.counted.uid k s place, by rw [wholeUid fits]; exact bound⟩

theorem afterUid (here : u.after[k]? = some s) :
    s.uid = u.whole.uid + 1 + k := by
  have place : f.stitches[u.before.length + 1 + k]? = some s := by
    rw [u.standing, List.getElem?_append_right (by omega)]
    rw [show u.before.length + 1 + k - u.before.length = k + 1 by omega]
    exact here
  rw [fits.counted.uid _ s place, wholeUid fits]

theorem keptBefore (inside : s ∈ u.before) : u.Kept s ∧ u.image s = s := by
  obtain ⟨k, here⟩ := List.mem_iff_getElem?.mp inside
  obtain ⟨uid, earlier⟩ := beforeUid fits here
  refine ⟨⟨?_, by omega⟩, if_pos (by omega)⟩
  rw [u.standing]
  exact List.mem_append_left _ inside

theorem keptAfter (inside : s ∈ u.after) :
    u.Kept s ∧ u.image s = s.later (u.copies.length - 1) := by
  obtain ⟨k, here⟩ := List.mem_iff_getElem?.mp inside
  have uid := afterUid fits here
  refine ⟨⟨?_, by omega⟩, if_neg (by omega)⟩
  rw [u.standing]
  exact List.mem_append_right _ (List.mem_cons_of_mem _ inside)

omit fits in
theorem keptCases (kept : u.Kept s) : s ∈ u.before ∨ s ∈ u.after := by
  have member := kept.member
  rw [u.standing] at member
  rcases List.mem_append.mp member with early | rest
  · exact .inl early
  rcases List.mem_cons.mp rest with rfl | late
  · exact absurd rfl kept.other
  · exact .inr late

theorem imageMember (kept : u.Kept s) : u.image s ∈ g.stitches := by
  rw [u.apart]
  rcases keptCases kept with early | late
  · rw [(keptBefore fits early).2]
    exact List.mem_append_left _ early
  · rw [(keptAfter fits late).2]
    exact List.mem_append_right _ (List.mem_append_right _ (List.mem_map_of_mem late))

theorem otherWhole (member : s ∈ f.stitches) : s = u.whole ∨ u.Kept s := by
  by_cases same : s.uid = u.whole.uid
  · exact .inl (fits.counted.sameUid member u.wholeMember same)
  · exact .inr ⟨member, same⟩

theorem counted : g.Counted where
  uid := by
    intro i s place
    rw [u.apart] at place
    by_cases early : i < u.before.length
    · rw [List.getElem?_append_left early] at place
      exact (beforeUid fits place).1
    rw [List.getElem?_append_right (by omega)] at place
    have whole := wholeUid fits
    by_cases within : i - u.before.length < u.copies.length
    · rw [List.getElem?_append_left within] at place
      rw [(u.copied _ s place).uid]
      omega
    rw [List.getElem?_append_right (by omega), List.getElem?_map, Option.map_eq_some_iff] at place
    obtain ⟨t, here, rfl⟩ := place
    have uid := afterUid fits here
    have positive := fits.positive
    simp only [Stitch.later]
    omega
  firstLeNext := by
    rw [u.firstId, u.nextId]
    exact fits.counted.firstLeNext
  ids := by
    rw [allTops u, u.firstId, u.nextId]
    exact fits.counted.ids
  tops := by
    intro s member
    rw [u.apart] at member
    rcases List.mem_append.mp member with early | rest
    · exact fits.counted.tops s (keptBefore fits early).1.member
    rcases List.mem_append.mp rest with copy | late
    · obtain ⟨k, here⟩ := List.mem_iff_getElem?.mp copy
      have copied := u.copied k s here
      rw [copied.tops, copied.template]
    · obtain ⟨t, inside, rfl⟩ := List.mem_map.mp late
      exact fits.counted.tops t (keptAfter fits inside).1.member
  bottoms := by
    intro s member
    rw [u.apart] at member
    rcases List.mem_append.mp member with early | rest
    · exact fits.counted.bottoms s (keptBefore fits early).1.member
    rcases List.mem_append.mp rest with copy | late
    · obtain ⟨k, here⟩ := List.mem_iff_getElem?.mp copy
      have copied := u.copied k s here
      rw [copied.bottoms, copied.template, fits.worked, fits.oneBottom]
      rfl
    · obtain ⟨t, inside, rfl⟩ := List.mem_map.mp late
      exact fits.counted.bottoms t (keptAfter fits inside).1.member

omit fits in
theorem perCopy (make : Nat → List α) : Template.copies u.copies.length make =
    u.copies.zipIdx.flatMap fun entry => make entry.2 := by
  rw [Template.copies, List.range_eq_range', ← List.zipIdx_map_snd 0 u.copies, List.flatMap_map]

theorem wholeLoops : u.whole.loops = u.copies.zipIdx.flatMap fun entry =>
    (entry.1.tops.zip u.base.tops).map fun loop =>
      (loop.1, { loop.2 with name := Template.suffixed loop.2.name entry.2 }) := by
  have tops : u.whole.tops = u.copies.zipIdx.flatMap fun entry => entry.1.tops := by
    rw [← u.tops]
    conv => lhs; rw [← List.zipIdx_map_fst 0 u.copies]
    rw [List.flatMap_map]
  have nodes : u.whole.template.tops = u.copies.zipIdx.flatMap fun entry =>
      u.base.tops.map fun n => { n with name := Template.suffixed n.name entry.2 } := by
    rw [fits.increase.tops, perCopy]
  rw [Stitch.loops, tops, nodes, zipFlatMap]
  · simp only [List.zip_map_right]
    rfl
  · rintro ⟨c, k⟩ inside
    have copied := u.copied k c (List.mem_zipIdx_iff_getElem?.mp inside)
    simp [copied.tops]

theorem wholeLoop (here : u.copies[k]? = some c) {n : TopNode} (loop : (id, n) ∈ c.loops) :
    (id, { n with name := Template.suffixed n.name k }) ∈ u.whole.loops := by
  rw [wholeLoops fits]
  refine List.mem_flatMap.mpr ⟨(c, k), List.mem_zipIdx_iff_getElem?.mpr here, ?_⟩
  rw [Stitch.loops, (u.copied k c here).template] at loop
  exact List.mem_map.mpr ⟨(id, n), loop, rfl⟩

theorem wholeLoopFrom {m : TopNode} (loop : (id, m) ∈ u.whole.loops) :
    ∃ (k : Nat) (c : Stitch) (n : TopNode), u.copies[k]? = some c ∧ (id, n) ∈ c.loops ∧
      m = { n with name := Template.suffixed n.name k } := by
  rw [wholeLoops fits] at loop
  obtain ⟨⟨c, k⟩, inside, here⟩ := List.mem_flatMap.mp loop
  obtain ⟨⟨made, n⟩, zipped, same⟩ := List.mem_map.mp here
  obtain ⟨rfl, rfl⟩ := Prod.mk.inj same
  have place := List.mem_zipIdx_iff_getElem?.mp inside
  refine ⟨k, c, n, place, ?_, rfl⟩
  rw [Stitch.loops, (u.copied k c place).template]
  exact zipped

theorem ownerKept (kept : u.Kept s) (made : id ∈ s.tops) :
    f.owner? id = some s ∧ g.owner? id = some (u.image s) := by
  obtain ⟨i, place⟩ := List.mem_iff_getElem?.mp kept.member
  obtain ⟨j, image⟩ := List.mem_iff_getElem?.mp (imageMember fits kept)
  exact ⟨fits.counted.ownerOf place made, (counted fits).ownerOf image (by simpa using made)⟩

theorem ownerCopy (inside : c ∈ u.copies) (made : id ∈ c.tops) :
    f.owner? id = some u.whole ∧ g.owner? id = some c := by
  obtain ⟨j, place⟩ := List.mem_iff_getElem?.mp (u.copyMember inside)
  exact ⟨fits.counted.ownerOf u.wholeAt (u.copyOf inside made), (counted fits).ownerOf place made⟩

theorem ownerNone (absent : f.owner? id = none) : g.owner? id = none := by
  cases found : g.owner? id with
  | none => rfl
  | some s =>
    obtain ⟨⟨j, place⟩, made⟩ := (counted fits).ownerTop found
    have inside : id ∈ f.stitches.flatMap Stitch.tops := by
      rw [← allTops u]
      exact List.mem_flatMap.mpr ⟨s, List.mem_of_getElem? place, made⟩
    obtain ⟨t, member, owns⟩ := List.mem_flatMap.mp inside
    obtain ⟨i, here⟩ := List.mem_iff_getElem?.mp member
    rw [fits.counted.ownerOf here owns] at absent
    cases absent

theorem copyTopNode (here : u.copies[k]? = some c) (made : id ∈ c.tops) :
    ∃ n, c.topNode? id = some n ∧
      u.whole.topNode? id = some { n with name := Template.suffixed n.name k } := by
  have member := u.copyMember (List.mem_of_getElem? here)
  obtain ⟨i, bound, rfl⟩ := List.mem_iff_getElem.mp made
  have length := (counted fits).tops c member
  have loop : (c.tops[i], c.template.tops[i]) ∈ c.loops :=
    List.mem_iff_getElem?.mpr ⟨i, List.getElem?_zip_eq_some.mpr
      ⟨List.getElem?_eq_getElem bound, List.getElem?_eq_getElem (by omega)⟩⟩
  exact ⟨_, (Stitch.topNodeIff ((counted fits).run member)).mpr loop,
    (Stitch.topNodeIff (fits.counted.run u.wholeMember)).mpr (wholeLoop fits here loop)⟩

theorem below (node : NodeRef) : g.below node = f.below node := by
  cases node with
  | post id name => rfl
  | between near far nearPull farPull => rfl
  | top id =>
    simp only [Fabric.below, NodeRef.top?, bind, Option.bind_some]
    cases owner : f.owner? id with
    | none => rw [ownerNone fits owner]
    | some s =>
      obtain ⟨⟨i, place⟩, made⟩ := fits.counted.ownerTop owner
      rcases otherWhole fits (List.mem_of_getElem? place) with rfl | kept
      · rw [← u.tops] at made
        obtain ⟨c, inside, own⟩ := List.mem_flatMap.mp made
        obtain ⟨k, here⟩ := List.mem_iff_getElem?.mp inside
        have copied := u.copied k c here
        obtain ⟨n, inCopy, inWhole⟩ := copyTopNode fits here own
        rw [(ownerCopy fits inside own).2]
        simp only [Option.bind_some, inCopy, inWhole, Template.bottomIndex?, copied.template,
          fits.increase.bottoms, copied.bottoms]
      · rw [(ownerKept fits kept made).2]
        simp only [Option.bind_some, Stitch.topNode?, Stitch.topIndex?, imageTemplate, imageTops,
          imageBottoms]

theorem descend (node : NodeRef) (depth : Nat) : g.descend node depth = f.descend node depth := by
  unfold Fabric.descend
  induction depth - 1 generalizing node with
  | zero => rfl
  | succ n ih =>
    simp only [descendBy, below fits]
    exact Option.bind_congr fun next _ => ih next

theorem loopElsewhere : loop ∉ u.whole.tops := by
  intro made
  have worked : NodeRef.top loop ∈ u.whole.bottoms := by simp [fits.worked]
  have older := fits.acyclic _ _ u.wholeAt _ worked loop (by simp [NodeRef.ids])
  exact Nat.lt_irrefl _ (fits.counted.ownerBefore older u.wholeAt made)

theorem hooksElsewhere (member : s ∈ f.stitches) (worked : node ∈ s.bottoms)
    (inside : hook ∈ node.posts) :
    hook.1 ∉ u.whole.tops := by
  rw [u.standing] at member
  rcases List.mem_append.mp member with early | rest
  · intro made
    obtain ⟨i, place⟩ := List.mem_iff_getElem?.mp (keptBefore fits early).1.member
    have older := fits.acyclic i s place node worked hook.1 (node.postsIds hook inside)
    have later := fits.counted.ownerBefore older u.wholeAt made
    obtain ⟨k, here⟩ := List.mem_iff_getElem?.mp early
    obtain ⟨uid, earlier⟩ := beforeUid fits here
    rw [fits.counted.uid i s place] at uid
    rw [wholeUid fits] at earlier
    omega
  rcases List.mem_cons.mp rest with rfl | late
  · rw [fits.worked] at worked
    rw [List.mem_singleton.mp worked] at inside
    cases inside
  · exact fits.noPost s late node worked hook inside

theorem descendElsewhere (member : s ∈ f.stitches) {last : NodeRef} (worked : node ∈ s.bottoms)
    {depth : Nat} (down : f.descend node depth = some last) (inside : hook ∈ last.posts) :
    hook.1 ∉ u.whole.tops := by
  unfold Fabric.descend at down
  generalize depth - 1 = steps at down
  induction steps generalizing s node with
  | zero =>
    cases down
    exact hooksElsewhere fits member worked inside
  | succ n ih =>
    obtain ⟨next, step, rest⟩ := Option.bind_eq_some_iff.mp down
    simp only [Fabric.below, bind, Option.bind_eq_some_iff] at step
    obtain ⟨_, _, t, owner, _, _, _, _, b, _, found⟩ := step
    obtain ⟨⟨j, place⟩, _⟩ := ownerAt owner
    exact ih (List.mem_of_getElem? place) (List.mem_of_getElem? found) rest

end
end Unrolled
end Fabric
end Crochet
