import Crochet.Proofs.Origin.Placing

/-! A stitch at a settled place, one that waits for no label and goes around no post. It is placed
exactly where all tops it goes into exist and its labels are accepted, and then it goes into these
tops. -/
namespace Crochet
namespace Fabric

def HasTop (f : Fabric) (id : Int) : Prop :=
  0 ≤ id ∧ f.firstId ≤ id.toNat ∧ id.toNat < f.nextId

theorem Counted.hasOwner {f : Fabric} (counted : f.Counted) {id : Nat} :
    f.HasTop id ↔ ∃ s, f.owner? id = some s := by
  have range : f.HasTop id ↔ f.OwnedBefore id f.stitches.length := by
    rw [counted.ownedIff]
    simp [HasTop]
  rw [range]
  constructor
  · rintro ⟨j, s, _, place, owns⟩
    exact ⟨s, counted.ownerOf place ((counted.owns (List.mem_of_getElem? place)).mp owns)⟩
  · rintro ⟨s, owner⟩
    obtain ⟨⟨j, place⟩, owns⟩ := ownerAt owner
    exact ⟨j, s, (List.getElem?_eq_some_iff.mp place).1, place, owns⟩

end Fabric

theorem idOfNat (id : Nat) : idOf? id = some id := by
  unfold idOf?
  rw [if_neg (by omega), Int.toNat_natCast]

namespace Work

def topAt (id : Int64) : NodeRef := .top id.toInt.toNat

variable {f : Fabric} {name : String} {span : Span} {v : Work} {item : Row.Item}
  {template : Template} {first : Int64} {rows : Rows}

theorem bottomAtTop {id : Int64} {node : NodeRef} :
    bottomAt f name false span id = .ok node ↔ f.HasTop id.toInt ∧ node = topAt id := by
  unfold bottomAt Fabric.HasTop topAt
  dsimp only
  split
  · rename_i inside
    simp only [inside, true_and, Except.ok.injEq, and_self, eq_comm]
  · rename_i outside
    simp only [outside, faultAt, false_and, if_false, reduceCtorEq, Bool.false_eq_true]

theorem bottomsAtTops {ids : List Int64} {nodes : List NodeRef} :
    ids.mapM (bottomAt f name false span) = .ok nodes ↔
      (∀ id ∈ ids, f.HasTop id.toInt) ∧ nodes = ids.map topAt := by
  induction ids generalizing nodes with
  | nil => simp [List.mapM_nil, pure, Except.pure, eq_comm]
  | cons id rest ih =>
    constructor
    · intro ok
      obtain ⟨node, more, one, others, rfl⟩ := mapMConsOk ok
      obtain ⟨top, rfl⟩ := bottomAtTop.mp one
      obtain ⟨tops, rfl⟩ := ih.mp others
      exact ⟨List.forall_mem_cons.mpr ⟨top, tops⟩, rfl⟩
    · rintro ⟨tops, rfl⟩
      obtain ⟨top, tops⟩ := List.forall_mem_cons.mp tops
      rw [List.mapM_cons, bottomAtTop.mpr ⟨top, rfl⟩, ih.mpr ⟨tops, rfl⟩]
      rfl

theorem putAtSettled {after : Work} (plain : item.attached.attachment.post = none) :
    v.putAt name item template ⟨first, none⟩ = .ok after ↔
      (∀ id ∈ v.wantedAt first template, v.fabric.HasTop id.toInt) ∧
      ∃ labels, item.labels.foldlM (defineLabel (v.freshTops template)) v.fabric.labels = .ok labels ∧
        after = v.withStitch name item template ⟨first, none⟩
          ((v.wantedAt first template).map topAt) labels := by
  have settled : (v.waiting ⟨first, none⟩ template).isSome = false := by simp [waiting]
  unfold putAt
  simp only [settled, plain]
  constructor
  · intro ok
    obtain ⟨nodes, worked, ok⟩ := bindOk ok
    obtain ⟨tops, rfl⟩ := bottomsAtTops.mp worked
    obtain ⟨bottoms, around, ok⟩ := bindOk ok
    cases around
    obtain ⟨labels, labelled, ok⟩ := bindOk ok
    exact ⟨tops, labels, labelled, (pureOk ok).symm⟩
  · rintro ⟨tops, labels, labelled, rfl⟩
    rw [bottomsAtTops.mpr ⟨tops, rfl⟩]
    simp only [aroundPost, okBind, labelled]
    rfl

theorem wantedHead (v : Work) (first : Int64) (some : template.bottoms ≠ []) :
    (v.wantedAt first template).head? = .some first := by
  obtain ⟨more, count⟩ := Nat.exists_eq_add_one_of_ne_zero
    (n := template.bottoms.length) (by simpa using some)
  simp [wantedAt, count, List.range_succ_eq_map]

theorem settledBottom {labels : List Label} (some : template.bottoms ≠ []) :
    (v.withStitch name item template ⟨first, none⟩ ((v.wantedAt first template).map topAt)
      labels).fabric.firstBottom? v.fabric.stitches.length = .some (topAt first) := by
  simp [Fabric.firstBottom?, withStitch, newStitch, v.wantedHead first some]

def lastItem? (rows : Rows) : Option (Rows × List Row.Item × Row.Item) :=
  match rows.reverse with
  | [] => none
  | row :: before => match row.reverse with
    | [] => none
    | item :: done => some (before.reverse, done.reverse, item)

theorem lastItemOk {before : Rows} {done : List Row.Item}
    (found : lastItem? rows = some (before, done, item)) :
    rows = before ++ [done ++ [item]] := by
  unfold lastItem? at found
  split at found
  · cases found
  · rename_i row more shape
    split at found
    · cases found
    · rename_i final items inside
      cases found
      rw [← List.reverse_reverse rows, shape, ← List.reverse_reverse row, inside]
      simp

def upLast? (rows : Rows) (registry : Registry) (options : Options) : Option (Row.Item × Work) := do
  let (before, done, item) ← lastItem? rows
  let u ← (before.foldlM putRow (start registry options)).toOption
  let w ← (done.foldlM putItem u.startRow).toOption
  return (item, w)

theorem toOptionOk {m : Except ε α} {value : α} (ok : m.toOption = some value) : m = .ok value := by
  cases m with
  | error fault => cases ok
  | ok x => cases ok; rfl

theorem upLastComes {registry : Registry} {options : Options} {w : Work}
    (found : upLast? rows registry options = some (item, w)) :
    ComesUp rows registry options item w := by
  simp only [upLast?, bind, Option.bind_eq_some_iff] at found
  obtain ⟨⟨before, done, item⟩, shape, u, earlier, v, here, same⟩ := found
  cases same
  exact ⟨before, done, [], [], u, lastItemOk shape, toOptionOk earlier, toOptionOk here⟩

theorem lastRuns (text : MappedText) (registry : Registry) (options : Options)
    (test : Row.Item × Work → Bool)
    (runs : (Row.parseRows text [] "red").toOption.any (fun rows =>
      (upLast? rows registry options).any test) = true) :
    ∃ rows item w, Row.parseRows text [] "red" = .ok rows ∧ ComesUp rows registry options item w ∧
      test (item, w) = true := by
  obtain ⟨rows, parsed, found⟩ := testOk runs
  obtain ⟨⟨item, w⟩, up, holds⟩ := (Option.any_eq_true _ _).mp found
  exact ⟨rows, item, w, parsed, upLastComes up, holds⟩

end Work
end Crochet
