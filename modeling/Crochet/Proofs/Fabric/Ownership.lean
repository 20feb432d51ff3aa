import Crochet.Fabric.Basic

/-! Who makes which top. Ids are handed out in the order of work and never twice, so a top has one
owner, and the ids in use are those from the first to the next. -/
namespace Crochet
namespace Stitch
variable {s : Stitch} {id : Nat}

def Run (s : Stitch) : Prop := ∃ first, s.tops = List.range' first s.tops.length

theorem Run.topIndex (run : s.Run) {i : Nat} : s.topIndex? id = some i ↔ s.tops[i]? = some id := by
  obtain ⟨first, same⟩ := run
  unfold topIndex?
  rw [same, List.head?_range', List.getLast?_range']
  by_cases none : s.tops.length = 0
  · simp [none]
  simp only [none, if_false, Option.ite_none_right_eq_some, Option.some.injEq]
  by_cases inside : i < s.tops.length
  · rw [List.getElem?_range' inside]
    simp only [Option.some.injEq]
    omega
  · rw [List.getElem?_eq_none (by simpa using inside)]
    simp only [reduceCtorEq, iff_false]
    omega

theorem Run.owns (run : s.Run) : s.owns id = true ↔ id ∈ s.tops := by
  rw [Stitch.owns, Option.isSome_iff_exists, List.mem_iff_getElem?]
  exact exists_congr fun i => run.topIndex

end Stitch

namespace Fabric

def OwnedBefore (f : Fabric) (id limit : Nat) : Prop :=
  ∃ (j : Nat) (s : Stitch), j < limit ∧ f.stitches[j]? = some s ∧ s.owns id = true

/- Bottoms are references to tops; in an acyclic fabric all of them point back. -/
def Acyclic (f : Fabric) : Prop :=
  ∀ (i : Nat) (s : Stitch), f.stitches[i]? = some s →
    ∀ node ∈ s.bottoms, ∀ id ∈ node.ids, f.OwnedBefore id i

structure Counted (f : Fabric) : Prop where
  uid : ∀ (i : Nat) (s : Stitch), f.stitches[i]? = some s → s.uid = i
  firstLeNext : f.firstId ≤ f.nextId
  ids : f.stitches.flatMap Stitch.tops = List.range' f.firstId (f.nextId - f.firstId)
  tops : ∀ s ∈ f.stitches, s.tops.length = s.template.tops.length
  bottoms : ∀ s ∈ f.stitches, s.bottoms.length = s.template.bottoms.length

variable {f : Fabric} {s : Stitch} {id : Nat}

theorem producedBeforeIff {limit : Nat} :
    f.producedBefore id limit = true ↔ f.OwnedBefore id limit := by
  simp only [producedBefore, List.any_eq_true, OwnedBefore]
  constructor
  · rintro ⟨s, member, owns⟩
    obtain ⟨j, found⟩ := List.mem_iff_getElem?.mp member
    rw [List.getElem?_take] at found
    split at found
    · rename_i before
      exact ⟨j, s, before, found, owns⟩
    · cases found
  · rintro ⟨j, s, before, found, owns⟩
    refine ⟨s, List.mem_iff_getElem?.mpr ⟨j, ?_⟩, owns⟩
    rw [List.getElem?_take, if_pos before]
    exact found

theorem OwnedBefore.mono {i k : Nat} (owned : f.OwnedBefore id i) (le : i ≤ k) :
    f.OwnedBefore id k := by
  obtain ⟨j, s, before, found, owns⟩ := owned
  exact ⟨j, s, Nat.lt_of_lt_of_le before le, found, owns⟩

theorem ownerAt (found : f.owner? id = some s) :
    (∃ j : Nat, f.stitches[j]? = some s) ∧ s.owns id = true := by
  unfold owner? at found
  have member := List.mem_reverse.mp (List.mem_of_find?_eq_some found)
  have owns := List.find?_some found
  exact ⟨List.mem_iff_getElem?.mp member, owns⟩

namespace Counted
variable (counted : Counted f)
include counted

variable {i j : Nat} {t : Stitch}

theorem run (member : s ∈ f.stitches) : s.Run := by
  obtain ⟨before, after, split⟩ := List.append_of_mem member
  have ids := counted.ids
  rw [split, List.flatMap_append, List.flatMap_cons] at ids
  obtain ⟨k, _, _, rest⟩ := List.range'_eq_append_iff.mp ids.symm
  obtain ⟨n, _, own, _⟩ := List.range'_eq_append_iff.mp rest.symm
  exact ⟨f.firstId + k * 1, by rw [own, List.length_range']⟩

theorem owns (member : s ∈ f.stitches) : s.owns id = true ↔ id ∈ s.tops :=
  (counted.run member).owns

theorem ownerTop (found : f.owner? id = some s) :
    (∃ j : Nat, f.stitches[j]? = some s) ∧ id ∈ s.tops := by
  obtain ⟨⟨j, place⟩, owns⟩ := ownerAt found
  exact ⟨⟨j, place⟩, (counted.owns (List.mem_of_getElem? place)).mp owns⟩

theorem ownedAtEnd :
    f.OwnedBefore id f.stitches.length ↔ id ∈ f.stitches.flatMap Stitch.tops := by
  rw [List.mem_flatMap]
  constructor
  · rintro ⟨j, s, _, found, owns⟩
    have member := List.mem_of_getElem? found
    exact ⟨s, member, (counted.owns member).mp owns⟩
  · rintro ⟨s, member, top⟩
    obtain ⟨j, found⟩ := List.mem_iff_getElem?.mp member
    have before := (List.getElem?_eq_some_iff.mp found).1
    exact ⟨j, s, before, found, (counted.owns member).mpr top⟩

theorem ownedIff :
    f.OwnedBefore id f.stitches.length ↔ f.firstId ≤ id ∧ id < f.nextId := by
  have le := counted.firstLeNext
  rw [counted.ownedAtEnd, counted.ids, List.mem_range'_1]
  omega

theorem topsAscend :
    f.stitches.Pairwise fun s t => ∀ x ∈ s.tops, ∀ y ∈ t.tops, x < y := by
  have ascending := List.pairwise_lt_range' (s := f.firstId) (n := f.nextId - f.firstId)
  rw [← counted.ids, List.pairwise_flatMap] at ascending
  exact ascending.2

theorem topsOnce (member : s ∈ f.stitches) : s.tops.Nodup := by
  have ascending := List.pairwise_lt_range' (s := f.firstId) (n := f.nextId - f.firstId)
  rw [← counted.ids, List.pairwise_flatMap] at ascending
  exact (ascending.1 s member).imp Nat.ne_of_lt

theorem sameUid (left : s ∈ f.stitches) (right : t ∈ f.stitches) (same : s.uid = t.uid) :
    s = t := by
  obtain ⟨i, first⟩ := List.mem_iff_getElem?.mp left
  obtain ⟨j, second⟩ := List.mem_iff_getElem?.mp right
  rw [counted.uid i s first, counted.uid j t second] at same
  rw [same] at first
  exact Option.some.inj (first.symm.trans second)

theorem topsBefore (before : i < j) (left : f.stitches[i]? = some s)
    (right : f.stitches[j]? = some t) {x y : Nat} (below : x ∈ s.tops) (above : y ∈ t.tops) :
    x < y := by
  obtain ⟨inLeft, rfl⟩ := List.getElem?_eq_some_iff.mp left
  obtain ⟨inRight, rfl⟩ := List.getElem?_eq_some_iff.mp right
  exact List.pairwise_iff_getElem.mp counted.topsAscend i j inLeft inRight before x below y above

theorem oneOwner (left : f.stitches[i]? = some s) (right : f.stitches[j]? = some t)
    (inLeft : id ∈ s.tops) (inRight : id ∈ t.tops) : i = j := by
  rcases Nat.lt_trichotomy i j with before | same | after
  · exact absurd (counted.topsBefore before left right inLeft inRight) (Nat.lt_irrefl id)
  · exact same
  · exact absurd (counted.topsBefore after right left inRight inLeft) (Nat.lt_irrefl id)

theorem ownerOf (found : f.stitches[j]? = some s) (top : id ∈ s.tops) : f.owner? id = some s := by
  have member : s ∈ f.stitches.reverse :=
    List.mem_reverse.mpr (List.mem_iff_getElem?.mpr ⟨j, found⟩)
  have present : (f.owner? id).isSome = true :=
    List.find?_isSome.mpr ⟨s, member, (counted.owns (List.mem_of_getElem? found)).mpr top⟩
  obtain ⟨t, owner⟩ := Option.isSome_iff_exists.mp present
  obtain ⟨⟨k, place⟩, inOwner⟩ := counted.ownerTop owner
  have same := counted.oneOwner found place top inOwner
  subst same
  exact owner.trans (place.symm.trans found)

theorem ownerBefore (owned : f.OwnedBefore id i) (found : f.stitches[j]? = some s)
    (top : id ∈ s.tops) : j < i := by
  obtain ⟨k, t, before, place, owns⟩ := owned
  have made := (counted.owns (List.mem_of_getElem? place)).mp owns
  exact counted.oneOwner place found made top ▸ before

end Counted
end Fabric
end Crochet
