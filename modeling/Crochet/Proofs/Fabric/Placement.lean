import Mathlib.Algebra.Group.Int.Defs
import Mathlib.Algebra.Group.Nat.Defs
import Crochet.Proofs.Fabric.Labels

/-! What placing one item does, taken apart step by step. A place is looked up without touching the
stitches; a stitch that is placed goes to the end of the fabric with fresh ids for its tops. -/
namespace Crochet

section
variable {id : Nat} {word : Int64}

theorem signedAdd (id k : Nat) : signedId (id + k) = signedId id + signedId k :=
  Int64.ofNat_add id k

theorem signedSmall (small : id < 2 ^ 63) : (signedId id).toInt = id :=
  Int64.toInt_ofNat_of_lt small

theorem wordIs : word.toInt = id ↔ id < 2 ^ 63 ∧ word = signedId id := by
  constructor
  · intro same
    have high := word.toInt_lt
    refine ⟨by omega, ?_⟩
    rw [← Int64.ofInt_toInt word, same]
    exact Int64.ofInt_eq_ofNat
  · rintro ⟨small, rfl⟩
    exact signedSmall small

theorem signedOnce {other : Nat} (left : id < 2 ^ 64) (right : other < 2 ^ 64)
    (same : signedId id = signedId other) : id = other := by
  have words : id % 2 ^ 64 = other % 2 ^ 64 := by
    simpa [signedId] using congrArg (fun word : Int64 => word.toUInt64.toNat) same
  rwa [Nat.mod_eq_of_lt left, Nat.mod_eq_of_lt right] at words

theorem wordId (least : 0 ≤ word.toInt) : word.toUInt64.toNat = word.toInt.toNat :=
  Int64.toNat_toUInt64_of_le (Int64.le_iff_toInt_le.mpr least)

theorem wordAdd (word : Int64) {k : Nat} (small : k < 2 ^ 63) :
    (word + signedId k).toInt = word.toInt + k ∨
      2 ^ 63 ≤ word.toInt + k ∧ (word + signedId k).toInt = word.toInt + k - 2 ^ 64 := by
  have low := word.le_toInt
  have high := word.toInt_lt
  rw [Int64.toInt_add, signedSmall small, Int.bmod_def]
  omega

theorem wordAddSmall {k : Nat} (least : 0 ≤ word.toInt) (small : word.toInt + k < 2 ^ 63) :
    (word + signedId k).toInt = word.toInt + k := by
  have sum := wordAdd word (k := k) (by omega)
  omega

end

namespace Work

def wantedAt (v : Work) (first : Int64) (template : Template) : List Int64 :=
  (List.range template.bottoms.length).map fun k => first + Int64.ofNat k * v.bottomStep first

def freshTops (v : Work) (template : Template) : List Nat :=
  (List.range template.tops.length).map (v.fabric.nextId + ·)

def waiting (v : Work) (spot : Spot) (template : Template) : Option Pending :=
  if (v.wantedAt spot.first template).isEmpty then none else spot.pending

def newStitch (v : Work) (name : String) (item : Row.Item) (template : Template)
    (bottoms : List NodeRef) : Stitch where
  uid := v.fabric.stitches.length
  name := name
  template := template
  tops := v.freshTops template
  bottoms := bottoms
  row := item.row
  color := item.color
  labels := item.labels.map Row.LabelDef.key
  attachment := item.attached.raw
  source := item.span

def newUses (v : Work) (item : Row.Item) : Option Pending → List LabelUse
  | some p => [⟨v.fabric.stitches.length, p.key, p.group, p.reversed, p.modifiers, item.span⟩]
  | none => []

variable {v w after : Work} {item : Row.Item} {spot : Spot} {name : String} {template : Template}

theorem newUseOf {waits : Option Pending} {u : LabelUse} (member : u ∈ v.newUses item waits) :
    ∃ p, waits = some p ∧ u.stitch = v.fabric.stitches.length ∧ u.key = p.key := by
  cases waits with
  | none => cases member
  | some p =>
    rw [List.mem_singleton.mp member]
    exact ⟨p, rfl, rfl, rfl⟩

structure Located (w : Work) (spot : Spot) (v : Work) : Prop where
  registry : v.registry = w.registry
  fabric : v.fabric = { w.fabric with labels := v.fabric.labels }
  labels : Label.Marks w.fabric.labels v.fabric.labels
  pending : ∀ p, spot.pending = some p →
    ∃ l, v.fabric.label? p.key = some l ∧ l.referenced = true ∧ l.ids ≠ []

structure Placed (w : Work) (name : String) (item : Row.Item) (template : Template) (spot : Spot)
    (v : Work) (plain bottoms : List NodeRef) (labels : List Label) (after : Work) : Prop where
  resolved : w.registry.resolve name = (.ok template, v.registry)
  located : Located { w with registry := v.registry } spot v
  worked : (v.wantedAt spot.first template).mapM
    (bottomAt v.fabric name (v.waiting spot template).isSome item.span) = .ok plain
  around : aroundPost v.fabric item.attached.attachment.post (v.wantedAt spot.first template)
    item.span plain = .ok bottoms
  labelled : item.labels.foldlM (defineLabel (v.freshTops template)) v.fabric.labels = .ok labels
  registry : after.registry = v.registry
  fabric : after.fabric = { v.fabric with
    stitches := v.fabric.stitches ++ [v.newStitch name item template bottoms]
    labels := labels
    uses := v.fabric.uses ++ v.newUses item (v.waiting spot template)
    nextId := v.fabric.nextId + template.tops.length }

theorem locatedHere (row : Option Nat) (first : Int64) :
    Located w ⟨first, none⟩ { w with row := row } where
  registry := rfl
  fabric := rfl
  labels := Label.marksRefl _
  pending := fun _ found => by cases found

variable {kind : Option String} {span : Span} {f : Fabric}

theorem locatedAbsolute {current : Nat} {row position : String}
    (ok : w.locateAbsolute current row position kind span = .ok (spot, v)) : Located w spot v := by
  unfold locateAbsolute at ok
  obtain ⟨x, _, ok⟩ := bindOk ok
  obtain ⟨y, _, ok⟩ := bindOk ok
  simp only at ok
  split at ok
  · cases ok
  · obtain ⟨id, _, ok⟩ := bindOk ok
    obtain ⟨rfl, rfl⟩ := Prod.mk.inj (pureOk ok)
    exact locatedHere _ _

theorem locatedRelative {offset : Int} (ok : w.locateRelative kind offset span = .ok (spot, v)) :
    Located w spot v := by
  unfold locateRelative at ok
  split at ok
  · cases ok
  · obtain ⟨id, _, ok⟩ := bindOk ok
    obtain ⟨rfl, rfl⟩ := Prod.mk.inj (pureOk ok)
    exact locatedHere _ _

theorem locatedLabel {ref : Row.LabelRef} (ok : w.locateLabel ref span = .ok (spot, v)) :
    Located w spot v := by
  unfold locateLabel at ok
  split at ok
  · cases ok
  split at ok
  · cases ok
  rename_i key index _ _ l found
  split at ok
  · cases ok
  rename_i lastId last
  split at ok
  · cases ok
  rename_i s _
  have nonempty : l.ids ≠ [] := by
    intro empty
    rw [empty] at last
    cases last
  have frozen := Label.referNamed found
  simp only at ok
  split at ok
  · cases ok
    exact ⟨rfl, rfl, Label.referMarks w key, fun _ found => by cases found⟩
  · cases ok
    refine ⟨rfl, rfl, Label.referMarks w key, ?_⟩
    intro p waits
    simp only at waits
    split at waits
    · cases waits
      exact ⟨_, frozen, rfl, nonempty⟩
    · cases waits

theorem locates (ok : w.locate item = .ok (spot, v)) : Located w spot v := by
  unfold locate at ok
  split at ok
  · cases ok
    exact locatedHere _ _
  · exact locatedLabel ok
  · exact locatedAbsolute ok
  · exact locatedRelative ok

theorem resolvedTemplate (ok : w.resolve name span = .ok (template, v)) :
    w.registry.resolve name = (.ok template, v.registry) ∧
      v = { w with registry := v.registry } := by
  unfold resolve at ok
  split at ok
  · cases ok
  · rename_i found
    cases ok
    exact ⟨found, rfl⟩

theorem placesAt {u : Work} (read : w.resolve name item.span = .ok (template, u))
    (found : u.locate item = .ok (spot, v)) (ok : w.place name item = .ok after) :
    ∃ plain bottoms labels, Placed w name item template spot v plain bottoms labels after := by
  unfold place at ok
  simp only [read] at ok
  obtain ⟨_, same, ok⟩ := bindOk ok
  cases same
  obtain ⟨_, same, ok⟩ := bindOk ok
  cases found.symm.trans same
  obtain ⟨plain, worked, ok⟩ := bindOk ok
  obtain ⟨bottoms, around, ok⟩ := bindOk ok
  obtain ⟨labels, labelled, ok⟩ := bindOk ok
  obtain ⟨resolved, same⟩ := resolvedTemplate read
  have located := locates found
  have registry := located.registry
  refine ⟨plain, bottoms, labels, ?_⟩
  cases pureOk ok
  refine ⟨?_, ?_, worked, around, labelled, rfl, ?_⟩
  · rw [registry]; exact resolved
  · rw [registry, ← same]; exact located
  · simp only [List.length_map, List.length_range]
    rfl

theorem places (ok : w.place name item = .ok after) : ∃ template spot v plain bottoms labels,
      Placed w name item template spot v plain bottoms labels after := by
  have run := ok
  unfold place at run
  obtain ⟨⟨template, u⟩, read, run⟩ := bindOk run
  obtain ⟨⟨spot, v⟩, found, _⟩ := bindOk run
  exact ⟨template, spot, v, placesAt read found ok⟩

theorem seeks (ok : w.seek item = .ok after) :
    ∃ spot v, Located w spot v ∧ after = { v with position := spot.first } := by
  unfold seek at ok
  simp only at ok
  split at ok
  all_goals
    split at ok
    · cases ok
    · obtain ⟨⟨spot, v⟩, found, ok⟩ := bindOk ok
      exact ⟨spot, v, locates found, (pureOk ok).symm⟩

/- A step does nothing, moves the place of work or adds a stitch. -/
theorem putItemCases (ok : w.putItem item = .ok after) :
    after = w ∨
    (∃ spot v, Located w spot v ∧ after = { v with position := spot.first }) ∨
    (∃ name template spot v plain bottoms labels,
      Placed w name item template spot v plain bottoms labels after) := by
  unfold putItem at ok
  split at ok
  · cases ok
    exact .inl rfl
  · exact .inr (.inl (seeks ok))
  · rename_i name _
    exact .inr (.inr ⟨name, places ok⟩)

inductive BottomSource (f : Fabric) (stands : Bool) : NodeRef → Prop where
  | made {id : Nat} (first : f.firstId ≤ id) (next : id < f.nextId) : BottomSource f stands (.top id)
  | standIn (waits : stands = true) : BottomSource f stands (.top f.firstId)
  | post {id : Nat} {which : Int} {s : Stitch} {target : NodeRef} {length : Length}
      (owner : f.owner? id = some s) (reached : s.postTarget id which = some (target, length)) :
      BottomSource f stands target

theorem bottomAtSource {stands : Bool} {id : Int64} {node : NodeRef}
    (ok : bottomAt f name stands span id = .ok node) :
    BottomSource f stands node := by
  unfold bottomAt at ok
  simp only at ok
  split at ok
  · rename_i inside
    cases ok
    exact .made inside.2.1 inside.2.2
  split at ok
  · rename_i waits
    cases ok
    exact .standIn waits
  · cases ok

theorem aroundPostSource {post : Option (Option Int)} {wanted : List Int64}
    {plain bottoms : List NodeRef} (ok : aroundPost f post wanted span plain = .ok bottoms) :
    bottoms.length = plain.length ∧ ∀ node ∈ bottoms, node ∈ plain ∨
      ∃ id which s length, f.owner? id = some s ∧ s.postTarget id which = some (node, length) := by
  unfold aroundPost at ok
  split at ok
  · simp only at ok
    split at ok
    · rename_i target length reached
      cases ok
      refine ⟨List.length_set, ?_⟩
      intro node member
      rcases List.mem_or_eq_of_mem_set member with old | rfl
      · exact .inl old
      · obtain ⟨s, owner, found⟩ := Option.bind_eq_some_iff.mp reached
        exact .inr ⟨_, _, s, length, owner, found⟩
    · cases ok
  · cases ok
    exact ⟨rfl, fun node member => .inl member⟩

namespace Placed
variable {plain bottoms : List NodeRef} {labels : List Label}
  (placed : Placed w name item template spot v plain bottoms labels after)
include placed

theorem added : after.fabric.stitches =
    v.fabric.stitches ++ [v.newStitch name item template bottoms] := by
  rw [placed.fabric]

theorem bottomsLength : bottoms.length = template.bottoms.length := by
  rw [(aroundPostSource placed.around).1, mapMLength placed.worked]
  simp [wantedAt]

theorem bottomSource {node : NodeRef} (member : node ∈ bottoms) :
    BottomSource v.fabric (v.waiting spot template).isSome node := by
  rcases (aroundPostSource placed.around).2 node member with old | ⟨id, which, s, length, owner, reached⟩
  · obtain ⟨id, _, made⟩ := mapMFrom placed.worked old
    exact bottomAtSource made
  · exact .post owner reached

end Placed

theorem waitingSpot {p : Pending} (waits : v.waiting spot template = some p) :
    spot.pending = some p ∧ template.bottoms.length ≠ 0 := by
  unfold waiting at waits
  split at waits
  · cases waits
  · rename_i some
    refine ⟨waits, ?_⟩
    intro none
    simp [wantedAt, none] at some

end Work
end Crochet
