import Crochet.Proofs.Fabric.Unrolled
import Crochet.Proofs.Graph.Census

/-! What a node is called before and after an increase is taken apart. Later stitches get other
numbers, and what the increase called a node of copy two is a node of the second stitch. No two
nodes come to share a name that way, and none that shared one are told apart. -/
namespace Crochet

/- A stitch with its number, which is its place in the fabric. -/
abbrev Stitch.entry (s : Stitch) : Stitch × Nat := (s, s.uid)

namespace Graph

abbrev innerText (f : Fabric) (s : Stitch) (node : String) : String := hiddenName f s.uid s node

theorem countedEntries {f : Fabric} (counted : f.Counted) :
    f.stitches.zipIdx = f.stitches.map Stitch.entry := by
  refine List.ext_getElem? fun i => ?_
  rw [List.getElem?_zipIdx, List.getElem?_map, Nat.zero_add]
  cases place : f.stitches[i]? with
  | none => rfl
  | some s => rw [Option.map_some, Option.map_some, Stitch.entry, counted.uid i s place]

section
variable {f g : Fabric} (u : Fabric.Unrolled f g)

inductive SameTop : String → String → Prop where
  | kept {s : Stitch} (kept : u.Kept s) {id : Nat} (made : id ∈ s.tops) :
      SameTop (topText f s id) (topText g (u.image s) id)
  | copy {k : Nat} {c : Stitch} (here : u.copies[k]? = some c) {id : Nat} (made : id ∈ c.tops) :
      SameTop (topText f u.whole id) (topText g c id)

inductive SameInner : String → String → Prop where
  | kept {s : Stitch} (kept : u.Kept s) (name : String) :
      SameInner (innerText f s name) (innerText g (u.image s) name)
  | copy {k : Nat} {c : Stitch} (here : u.copies[k]? = some c) {h : HiddenNode}
      (inner : h ∈ u.base.hidden) :
      SameInner (innerText f u.whole (Template.suffixed h.name k)) (innerText g c h.name)

def SameNode (a b : String) : Prop := SameTop u a b ∨ SameInner u a b

inductive Same : String → String → Prop where
  | node {a b : String} (same : SameNode u a b) : Same a b
  | side {a b c d : String} (loop : SameTop u a b) (other : SameNode u c d) (pull : Float) :
      Same (sideText a c pull) (sideText b d pull)

end

variable {text words : List Char} {uid k : Nat} {s x : Stitch}

theorem Tagged.unique {a b : String} (left : Tagged a text uid) (right : Tagged b text uid) :
    a = b := String.toList_inj.mp (left.trans right.symm)

theorem topClean (f : Fabric) (s : Stitch) (id : Nat) : 'a' ∉ (topText f s id).toList := by
  rw [show (topText f s id).toList = _ from topTagged f s id]
  simp only [placeChars, List.mem_append, List.mem_cons]
  rintro ((row | comma | position) | bar | uid)
  · exact digitsClean (by decide) _ row
  · cases comma
  · exact digitsClean (by decide) _ position
  · cases bar
  · exact digitsClean (by decide) _ uid

theorem sideInj {a b c d : String} {number : Nat} {pull weight : Float} (left : 'a' ∉ a.toList)
    (right : 'a' ∉ b.toList) (first : Tagged c text uid) (second : Tagged d words number) :
    sideText a c pull = sideText b d weight ↔
      a = b ∧ c = d ∧ Decimal.plain pull = Decimal.plain weight := by
  constructor
  · intro same
    have chars := congrArg String.toList same
    rw [sideChars first, sideChars second, List.append_assoc, List.append_assoc, List.cons_append,
      List.cons_append] at chars
    obtain ⟨loops, rest⟩ := firstSplit left right chars
    obtain ⟨texts, ends⟩ := lastSplit (lengthClean uid pull) (lengthClean number weight) rest
    obtain ⟨digits, lengths⟩ := firstSplit (digitsClean (by decide) uid)
      (digitsClean (by decide) number) ends
    refine ⟨String.toList_inj.mp loops, ?_, String.toList_inj.mp (List.append_cancel_left lengths)⟩
    rw [texts, digitsInj digits] at first
    exact first.unique second
  · rintro ⟨rfl, rfl, lengths⟩
    rw [sideText, sideText, lengths]

theorem basePlaceOwn {f : Fabric} (member : s ∈ f.stitches) {id : Nat}
    (first : s.tops.head? = some id) : basePlace f s.uid s = (s.row, id - rowFirst f s) := by
  simp [basePlace, firstPlaceOwn member first, rowFirst]

section
variable {f g : Fabric} {u : Fabric.Unrolled f g} {bottom : BottomNode} {last : TopNode}
  {loop : Nat} {a b c d : String}

theorem SameTop.clean (same : SameTop u a b) : 'a' ∉ a.toList ∧ 'a' ∉ b.toList := by
  cases same with
  | kept kept made => exact ⟨topClean _ _ _, topClean _ _ _⟩
  | copy here made => exact ⟨topClean _ _ _, topClean _ _ _⟩

theorem SameNode.tagged (same : SameNode u a b) :
    (∃ text uid, Tagged a text uid) ∧ ∃ text uid, Tagged b text uid := by
  rcases same with top | inner
  · cases top with
    | kept kept made => exact ⟨⟨_, _, topTagged ..⟩, _, _, topTagged ..⟩
    | copy here made => exact ⟨⟨_, _, topTagged ..⟩, _, _, topTagged ..⟩
  · cases inner with
    | kept kept name => exact ⟨⟨_, _, hiddenTagged ..⟩, _, _, hiddenTagged ..⟩
    | copy here made => exact ⟨⟨_, _, hiddenTagged ..⟩, _, _, hiddenTagged ..⟩

/- A stitch without tops names its inner nodes after a place that may be another one now. -/
def lead (f : Fabric) (s : Stitch) : List Char :=
  if s.tops = [] then placeChars (basePlace f s.uid s) else []

structure KeptNode (u : Fabric.Unrolled f g) (a b : String) (s : Stitch) (text : List Char) :
    Prop where
  kept : u.Kept s
  old : Tagged a (lead f s ++ text) s.uid
  new : Tagged b (lead g (u.image s) ++ text) (u.image s).uid

inductive CopyNode (u : Fabric.Unrolled f g) (k : Nat) (c : Stitch) : String → String → Prop where
  | top {id : Nat} (made : id ∈ c.tops) : CopyNode u k c (topText f u.whole id) (topText g c id)
  | inner {h : HiddenNode} (inner : h ∈ u.base.hidden) :
      CopyNode u k c (innerText f u.whole (Template.suffixed h.name k)) (innerText g c h.name)

variable (fits : u.Fits bottom last loop)
include fits

omit fits in
theorem rowFirstImage (s : Stitch) : rowFirst g (u.image s) = rowFirst f s := by
  rw [rowFirst, rowFirst, Fabric.Unrolled.rowIds u, u.imageRow]

theorem keptNode (kept : u.Kept s) :
    (∀ id ∈ s.tops, ∃ text, KeptNode u (topText f s id) (topText g (u.image s) id) s text) ∧
      ∀ name, ∃ text, KeptNode u (innerText f s name) (innerText g (u.image s) name) s text := by
  constructor
  · intro id made
    have some : s.tops ≠ [] := List.ne_nil_of_mem made
    have old := topTagged f s id
    have new := topTagged g (u.image s) id
    rw [rowFirstImage, u.imageRow] at new
    exact ⟨_, kept, by simpa [lead, some] using old, by simpa [lead, some] using new⟩
  · intro name
    have old := hiddenTagged f s s.uid name
    have new := hiddenTagged g (u.image s) (u.image s).uid name
    cases tops : s.tops with
    | nil => exact ⟨name.toList, kept, by simpa [lead, tops] using old, by simpa [lead, tops] using new⟩
    | cons id rest =>
      have first : s.tops.head? = some id := by rw [tops]; rfl
      have here := basePlaceOwn kept.member first
      have there := basePlaceOwn (Fabric.Unrolled.imageMember fits kept) (by simpa using first)
      rw [rowFirstImage, u.imageRow, ← here] at there
      rw [there] at new
      exact ⟨_, kept, by simpa [lead, tops] using old, by simpa [lead, tops] using new⟩

theorem SameNode.cases (same : SameNode u a b) :
    (∃ s text, KeptNode u a b s text) ∨
      ∃ (k : Nat) (c : Stitch), u.copies[k]? = some c ∧ CopyNode u k c a b := by
  rcases same with top | inner
  · cases top with
    | kept kept made => exact .inl ⟨_, (keptNode fits kept).1 _ made⟩
    | copy here made => exact .inr ⟨_, _, here, .top made⟩
  · cases inner with
    | kept kept name => exact .inl ⟨_, (keptNode fits kept).2 name⟩
    | copy here inner => exact .inr ⟨_, _, here, .inner inner⟩

omit fits in
theorem CopyNode.tagged (copy : CopyNode u k x a b) :
    (∃ text, Tagged a text u.whole.uid) ∧ ∃ text, Tagged b text x.uid := by
  cases copy with
  | top made => exact ⟨⟨_, topTagged ..⟩, _, topTagged ..⟩
  | inner inner => exact ⟨⟨_, hiddenTagged ..⟩, _, hiddenTagged ..⟩

theorem keptIff {t : Stitch} (left : KeptNode u a b s text) (right : KeptNode u c d t words) :
    a = c ↔ b = d := by
  have member := left.kept.member
  have other := right.kept.member
  constructor
  · rintro rfl
    obtain ⟨texts, uids⟩ := left.old.same right.old
    obtain rfl := fits.counted.sameUid member other uids
    obtain rfl := List.append_cancel_left texts
    exact left.new.unique right.new
  · rintro rfl
    obtain ⟨texts, uids⟩ := left.new.same right.new
    have first := u.imageUid s
    have second := u.imageUid t
    obtain rfl := fits.counted.sameUid member other (by grind)
    obtain rfl := List.append_cancel_left texts
    exact left.old.unique right.old

omit fits in
theorem keptNotCopy (left : KeptNode u a b s text) (here : u.copies[k]? = some x)
    (right : CopyNode u k x c d) : a ≠ c ∧ b ≠ d := by
  obtain ⟨⟨_, old⟩, _, new⟩ := right.tagged
  have bound := (List.getElem?_eq_some_iff.mp here).1
  have apart := left.kept.other
  constructor
  · rintro rfl
    exact apart (left.old.same old).2
  · rintro rfl
    have uids := (left.new.same new).2
    rw [u.imageUid, (u.copied k x here).uid] at uids
    grind

theorem copyIff {j : Nat} {y : Stitch} (here : u.copies[k]? = some x)
    (there : u.copies[j]? = some y) (left : CopyNode u k x a b) (right : CopyNode u j y c d) :
    a = c ↔ b = d := by
  have counted := Fabric.Unrolled.counted fits
  have member := u.copyMember (List.mem_of_getElem? here)
  have listed {h : HiddenNode} (inner : h ∈ u.base.hidden) : h.name ∈ u.base.nodeNames :=
    Template.namesListed.mp (.inr (.inr ⟨h, inner, rfl⟩))
  have letter {h : HiddenNode} (inner : h ∈ u.base.hidden) :
      ∃ c ∈ h.name.toList, c.isDigit = false :=
    Template.nameHead (fits.repeatable.named.2 _ (listed inner))
  have clean {h : HiddenNode} (inner : h ∈ u.base.hidden) :
      h.name.toList.any Char.isDigit = false := fits.repeatable.unnumbered _ (listed inner)
  have numbered {h : HiddenNode} (inner : h ∈ u.base.hidden) (number : Nat) :
      ∃ c ∈ (Template.suffixed h.name number).toList, c.isDigit = false := by
    obtain ⟨c, inside, other⟩ := letter inner
    exact ⟨c, by simp [Template.suffixed, String.toList_append, inside], other⟩
  -- names after the change tell the copy by the number of its stitch
  have sameCopy (same : b = d) : k = j ∧ x = y := by
    obtain ⟨_, _, new⟩ := left.tagged
    obtain ⟨_, _, other⟩ := right.tagged
    have uids := (new.same (same ▸ other)).2
    rw [(u.copied k x here).uid, (u.copied j y there).uid] at uids
    obtain rfl : k = j := by omega
    exact ⟨rfl, Option.some.inj (here.symm.trans there)⟩
  constructor
  · intro same
    cases left with
    | @top id made =>
      cases right with
      | @top other owned =>
        have inCopies := List.mem_of_getElem? here
        have amongCopies := List.mem_of_getElem? there
        obtain rfl := topTextInj fits.counted u.wholeMember (u.copyOf inCopies made)
          (u.copyOf amongCopies owned) same
        have first := (Fabric.Unrolled.ownerCopy fits inCopies made).2
        have second := (Fabric.Unrolled.ownerCopy fits amongCopies owned).2
        rw [Option.some.inj (first.symm.trans second)]
      | inner inner => exact absurd same (topNotInner (numbered inner j))
    | inner inner =>
      cases right with
      | top owned => exact absurd same.symm (topNotInner (numbered inner k))
      | inner other =>
        obtain ⟨names, rfl⟩ := Template.suffixedInj (clean inner) (clean other) (hiddenNameInj same)
        rw [names, Option.some.inj (here.symm.trans there)]
  · intro same
    obtain ⟨rfl, rfl⟩ := sameCopy same
    cases left with
    | top made =>
      cases right with
      | top owned => rw [topTextInj counted member made owned same]
      | inner inner => exact absurd same (topNotInner (letter inner))
    | inner inner =>
      cases right with
      | top owned => exact absurd same.symm (topNotInner (letter inner))
      | inner other => rw [hiddenNameInj same]

theorem nodeIff (left : SameNode u a b) (right : SameNode u c d) : a = c ↔ b = d := by
  rcases left.cases fits with ⟨s, text, kept⟩ | ⟨k, x, here, copy⟩
  · rcases right.cases fits with ⟨t, words, other⟩ | ⟨j, y, there, other⟩
    · exact keptIff fits kept other
    · obtain ⟨old, new⟩ := keptNotCopy kept there other
      exact iff_of_false old new
  · rcases right.cases fits with ⟨t, words, other⟩ | ⟨j, y, there, other⟩
    · obtain ⟨old, new⟩ := keptNotCopy other here copy
      exact iff_of_false old.symm new.symm
    · exact copyIff fits here there copy other

theorem sameIff (left : Same u a b) (right : Same u c d) : a = c ↔ b = d := by
  have apart {a b c d e h : String} (node : SameNode u a b) (other : SameNode u c d) (pull : Float) :
      a ≠ sideText e c pull ∧ b ≠ sideText h d pull := by
    obtain ⟨⟨text, uid, old⟩, words, number, new⟩ := node.tagged
    obtain ⟨⟨_, _, first⟩, _, _, second⟩ := other.tagged
    constructor
    · rintro rfl
      exact sideUntagged first e pull old
    · rintro rfl
      exact sideUntagged second h pull new
  cases left with
  | node same =>
    cases right with
    | node other => exact nodeIff fits same other
    | side loop other pull =>
      obtain ⟨old, new⟩ := apart same other pull
      exact iff_of_false old new
  | side top ending pull =>
    cases right with
    | node other =>
      obtain ⟨old, new⟩ := apart other ending pull
      exact iff_of_false old.symm new.symm
    | side loop other weight =>
      obtain ⟨⟨_, _, old⟩, _, _, new⟩ := ending.tagged
      obtain ⟨⟨_, _, old'⟩, _, _, new'⟩ := other.tagged
      rw [sideInj top.clean.1 loop.clean.1 old old', sideInj top.clean.2 loop.clean.2 new new',
        nodeIff fits (.inl top) (.inl loop), nodeIff fits ending other]

theorem renameOf : ∃ rename : String → String, ∀ a b, Same u a b → rename a = b := by
  classical
  refine ⟨fun a => if known : ∃ b, Same u a b then known.choose else a, ?_⟩
  intro a b same
  have known : ∃ b, Same u a b := ⟨b, same⟩
  simp only [dif_pos known]
  exact (sameIff fits known.choose_spec same).mp rfl

end
end Graph
end Crochet
