import Crochet.Proofs.Fabric.Posts
import Crochet.Proofs.Origin.InStep
import Crochet.Proofs.Origin.Moved
import Crochet.Proofs.Row.Attachment

/-! Placing stitches in a moved fabric. As long as all ids are signed words the place of work moves
along with them, also where it stands on no stitch or has wrapped round. -/
namespace Crochet

def Spot.moved (k : Nat) (spot : Spot) : Spot := { spot with first := spot.first + signedId k }

def Work.moved (k : Nat) (w : Work) : Work :=
  { w with fabric := w.fabric.moved k, position := w.position + signedId k }

def Fabric.Fits (k : Nat) (f : Fabric) : Prop := f.nextId + k < 2 ^ 63

section
variable {k : Nat}

namespace Fabric
variable {f : Fabric} {id row : Nat}

theorem Counted.ownerBelow (counted : f.Counted) {s : Stitch} (owner : f.owner? id = some s) :
    id < f.nextId := by
  obtain ⟨⟨j, place⟩, owns⟩ := ownerAt owner
  have before := (List.getElem?_eq_some_iff.mp place).1
  exact (counted.ownedIff.mp ⟨j, s, before, place, owns⟩).2

theorem chosenMember {ids : List Nat} {index : Int} {fault : Fault}
    (found : (if index < 0 then .error fault else match ids[index.toNat]? with
      | some id => Except.ok id
      | none => .error fault) = .ok id) : id ∈ ids := by
  split at found
  · cases found
  · split at found
    · rename_i there
      cases found
      exact List.mem_of_getElem? there
    · cases found

variable {position direction : Int} {relative : Option Nat} {tag : Option String}

theorem foundTagged (found : f.findByPosition row position relative direction tag = .ok id) :
    id ∈ f.taggedIds row tag := by
  simp only [findByPosition] at found
  generalize same : (if direction < 0 then (f.taggedIds row tag).reverse
    else f.taggedIds row tag) = ids at found
  split at found
  · cases found
  have member := chosenMember found
  rw [← same] at member
  split at member
  · exact List.mem_reverse.mp member
  · exact member

end Fabric

namespace Work
variable (w : Work)

theorem startMoved (registry : Registry) (options : Options) :
    start registry { options with firstId := options.firstId + k } =
      (start registry options).moved k := by
  have place : signedId (options.firstId + k) - 1 = signedId options.firstId - 1 + signedId k := by
    rw [signedAdd]
    grind
  unfold start moved
  rw [place]
  rfl

theorem labelKeyMoved (ref : Row.LabelRef) : (w.moved k).labelKey? ref = w.labelKey? ref := by
  have known (key : String) :
      ((w.moved k).fabric.label? key).isSome = (w.fabric.label? key).isSome := by
    rw [show (w.moved k).fabric = w.fabric.moved k from rfl, Fabric.movedLabel, Option.isSome_map]
  simp only [labelKey?, known]

theorem referMoved (key : String) : (w.moved k).refer key = (w.refer key).moved k := by
  simp only [refer, moved, Fabric.moved, List.map_map]
  congr 2
  refine List.map_congr_left ?_
  intro l _
  simp only [Function.comp]
  rw [apply_ite (Label.moved k)]
  rfl

theorem startRowMoved : (w.moved k).startRow = w.startRow.moved k := by
  unfold startRow
  rw [show (w.moved k).fabric.turns = w.fabric.turns from rfl]
  split
  · rfl
  · rename_i previous _
    simp only [show (w.moved k).fabric = w.fabric.moved k from rfl, Fabric.movedRowIds,
      List.head?_map, List.getLast?_map]
    cases (w.fabric.rowIds previous).head? with
    | none => rfl
    | some first =>
      cases (w.fabric.rowIds previous).getLast? with
      | none => rfl
      | some last =>
        have place (turned : Bool) : (if turned then signedId (last + k) + 1
            else signedId (first + k) - 1) =
              (if turned then signedId last + 1 else signedId first - 1) + signedId k := by
          rw [signedAdd, signedAdd]
          split <;> grind
        exact congrArg (fun position => { w.moved k with position, row := some previous }) (place _)

theorem resolveMoved (name : String) (span : Span) : InStep Fault.Like (Prod.map id (Work.moved k))
    (w.resolve name span) ((w.moved k).resolve name span) := by
  unfold resolve
  rw [show (w.moved k).registry = w.registry from rfl]
  split
  · exact .error ⟨rfl, rfl⟩
  · exact .ok _

variable {first : Int64}

theorem spotMoved {other : Int64} {pending : Option Pending} (same : other = first + signedId k) :
    (⟨other, pending⟩ : Spot) = Spot.moved k ⟨first, pending⟩ := by
  subst same
  rfl

theorem eitherMoved {condition : Prop} [Decidable condition] {last first' last' : Int64}
    (left : first' = first + signedId k) (right : last' = last + signedId k) :
    (if condition then first' else last') = (if condition then first else last) + signedId k := by
  split
  · exact left
  · exact right

theorem foundMoved (row : Nat) (position : Int) (relative : Option Nat) (direction : Int)
    (kind : Option String) (span : Span) :
    InStep Fault.Like (Prod.map (Spot.moved k) (Work.moved k))
      ((w.fabric.findByPosition row position relative direction kind).mapError (·.orAt span) >>=
        fun id => pure (⟨signedId id, none⟩, { w with row := some row }))
      (((w.fabric.moved k).findByPosition row position (relative.map (· + k)) direction
        kind).mapError (·.orAt span) >>=
        fun id => pure (⟨signedId id, none⟩, { w.moved k with row := some row })) := by
  rw [Fabric.movedFind]
  cases w.fabric.findByPosition row position relative direction kind with
  | error fault => exact .error (.refl _)
  | ok id => exact .okAs (Prod.ext (spotMoved (signedAdd id k)) rfl)

theorem locateLabelMoved (ref : Row.LabelRef) (span : Span) :
    InStep Fault.Like (Prod.map (Spot.moved k) (Work.moved k)) (w.locateLabel ref span)
      ((w.moved k).locateLabel ref span) := by
  unfold locateLabel
  rw [labelKeyMoved]
  cases w.labelKey? ref with
  | none => exact inStepFault span rfl
  | some found =>
    obtain ⟨key, index⟩ := found
    simp only [show (w.moved k).fabric = w.fabric.moved k from rfl, Fabric.movedLabel]
    cases w.fabric.label? key with
    | none => exact inStepFault span rfl
    | some l =>
      simp only [Option.map_some, Label.moved, List.getLast?_map, List.length_map]
      cases l.ids.getLast? with
      | none => exact inStepFault span rfl
      | some lastId =>
        simp only [Option.map_some, Fabric.movedOwner]
        cases w.fabric.owner? lastId with
        | none => exact inStepFault span rfl
        | some s =>
          have work : { (w.moved k).refer key with row := some s.row } =
              ({ w.refer key with row := some s.row } : Work).moved k := by
            rw [referMoved]
            rfl
          simp only [Option.map_some, signedAdd]
          cases index with
          | some i => exact .okAs (Prod.ext (spotMoved (eitherMoved (by grind) (by grind))) work)
          | none => exact .okAs (Prod.ext (spotMoved (eitherMoved rfl (by grind))) work)

theorem locateAbsoluteMoved (current : Nat) (row position : String) (kind : Option String)
    (span : Span) : InStep Fault.Like (Prod.map (Spot.moved k) (Work.moved k))
      (w.locateAbsolute current row position kind span)
      ((w.moved k).locateAbsolute current row position kind span) := by
  unfold locateAbsolute
  simp only [show (w.moved k).fabric = w.fabric.moved k from rfl, Fabric.movedRowIds,
    List.length_map]
  cases indexOf row current span with
  | error fault => exact .error (.refl fault)
  | ok x =>
    simp only [bind, Except.bind]
    cases indexOf position (w.fabric.rowIds current).length span with
    | error fault => exact .error (.refl fault)
    | ok y =>
      simp only
      cases idOf? (if x < 0 then x + current else x) with
      | none => exact inStepFault span rfl
      | some row =>
        exact w.foundMoved row y none _ kind span

section
variable {w} (counted : w.fabric.Counted) (fits : w.fabric.Fits k)
include counted fits

theorem ownerMoved (id : Int64) :
    (w.moved k).owner? (id + signedId k) = (w.owner? id).map (Stitch.moved k) := by
  unfold Fabric.Fits at fits
  unfold owner? idOf?
  rcases wordAdd id (k := k) (by omega) with same | ⟨past, wrapped⟩
  · rw [same]
    by_cases negative : id.toInt < 0
    · rw [if_pos negative]
      split
      · rfl
      · exact w.fabric.movedOwnerBelow (by omega)
    · rw [if_neg negative, if_neg (by omega)]
      have sum : (id.toInt + k).toNat = id.toInt.toNat + k := by omega
      rw [sum]
      exact w.fabric.movedOwner id.toInt.toNat
  · have high := id.toInt_lt
    rw [if_pos (by omega), if_neg (by omega)]
    cases owner : w.fabric.owner? id.toInt.toNat with
    | none => rw [Option.bind_some, owner]; rfl
    | some s =>
      have below := counted.ownerBelow owner
      omega

theorem bottomStepMoved (first : Int64) :
    (w.moved k).bottomStep (first + signedId k) = w.bottomStep first := by
  unfold bottomStep
  rw [ownerMoved counted fits]
  cases w.owner? first <;> rfl

theorem locateRelativeMoved (kind : Option String) (offset : Int) (span : Span) :
    InStep Fault.Like (Prod.map (Spot.moved k) (Work.moved k)) (w.locateRelative kind offset span)
      ((w.moved k).locateRelative kind offset span) := by
  unfold locateRelative
  rw [show (w.moved k).position = w.position + signedId k from rfl, ownerMoved counted fits]
  cases owner : w.owner? w.position with
  | none => exact inStepFault span (by simp only [Cause.kind, PlaceCause.kind])
  | some s =>
    have here : idOf? (w.position + signedId k).toInt = (idOf? w.position.toInt).map (· + k) := by
      obtain ⟨id, inside, owner⟩ := Option.bind_eq_some_iff.mp owner
      have below := counted.ownerBelow owner
      unfold Fabric.Fits at fits
      unfold idOf? at inside ⊢
      split at inside
      · cases inside
      · cases inside
        have sum : (w.position.toInt + k).toNat = w.position.toInt.toNat + k := by omega
        rw [wordAddSmall (by omega) (by omega), if_neg (by omega), if_neg (by omega), sum]
        rfl
    simp only [Option.map_some, here]
    exact w.foundMoved s.row offset _ _ kind span

theorem locateMoved (item : Row.Item) :
    InStep Fault.Like (Prod.map (Spot.moved k) (Work.moved k)) (w.locate item)
      ((w.moved k).locate item) := by
  unfold locate
  split
  · refine .okAs (Prod.ext (spotMoved ?_) rfl)
    change w.position + signedId k + w.step = w.position + w.step + signedId k
    grind
  · exact w.locateLabelMoved _ _
  · exact w.locateAbsoluteMoved _ _ _ _ _
  · exact locateRelativeMoved counted fits _ _ _

end

section
variable {f : Fabric} (fits : f.Fits k)
include fits

theorem bottomAtMoved (name : String) (pending : Bool) (span : Span) (id : Int64) :
    InStep Fault.Like (NodeRef.moved k) (bottomAt f name pending span id)
      (bottomAt (f.moved k) name pending span (id + signedId k)) := by
  unfold Fabric.Fits at fits
  have sum := wordAdd id (k := k) (by omega)
  have inside : (0 ≤ (id + signedId k).toInt ∧ f.firstId + k ≤ (id + signedId k).toInt.toNat ∧
      (id + signedId k).toInt.toNat < f.nextId + k) ↔
      0 ≤ id.toInt ∧ f.firstId ≤ id.toInt.toNat ∧ id.toInt.toNat < f.nextId := by
    have high := id.toInt_lt
    omega
  unfold bottomAt
  simp only [show (f.moved k).firstId = f.firstId + k from rfl,
    show (f.moved k).nextId = f.nextId + k from rfl, inside]
  split
  · rename_i known
    have same : (id + signedId k).toInt.toNat = id.toInt.toNat + k := by omega
    rw [same]
    exact .ok _
  · split
    · exact .ok _
    · exact inStepFault span (by simp only [Cause.kind, PlaceCause.kind])

theorem aroundPostMoved (post : Option (Option Int)) (wanted : List Int64) (span : Span)
    (bottoms : List NodeRef)
    (known : post.isSome → ∀ first ∈ wanted.head?, 0 ≤ first.toInt ∧ first.toInt < f.nextId) :
    InStep Fault.Like (List.map (NodeRef.moved k)) (aroundPost f post wanted span bottoms)
      (aroundPost (f.moved k) post (wanted.map (· + signedId k)) span
        (bottoms.map (NodeRef.moved k))) := by
  cases post with
  | none => exact .ok bottoms
  | some which =>
    cases wanted with
    | nil => exact .ok bottoms
    | cons first rest =>
      obtain ⟨least, below⟩ := known rfl first rfl
      unfold Fabric.Fits at fits
      have sum : (first + signedId k).toInt = first.toInt + k := wordAddSmall least (by omega)
      have same : (first + signedId k).toUInt64.toNat = first.toUInt64.toNat + k := by
        rw [wordId (by omega), wordId least, sum]
        omega
      simp only [aroundPost, List.map_cons, same, Fabric.movedPost]
      cases (f.owner? first.toUInt64.toNat).bind
          (·.postTarget first.toUInt64.toNat (which.getD (-1))) with
      | none => exact inStepFault span rfl
      | some found => exact .okAs List.map_set.symm

end

end Work

theorem Label.growMoved (l : Label) (d : Row.LabelDef) (ids : List Nat) :
    InStep Fault.Like (Label.moved k) (l.grow d ids) ((l.moved k).grow d (ids.map (· + k))) := by
  unfold grow
  rw [show (l.moved k).modifiers = l.modifiers from rfl,
    show (l.moved k).referenced = l.referenced from rfl, List.isEmpty_map]
  split
  · exact inStepFault d.span rfl
  · split
    · exact inStepFault d.span rfl
    · refine .okAs ?_
      simp [moved]

theorem defineLabelMoved (ids : List Nat) (labels : List Label) (d : Row.LabelDef) :
    InStep Fault.Like (List.map (Label.moved k)) (defineLabel ids labels d)
      (defineLabel (ids.map (· + k)) (labels.map (Label.moved k)) d) := by
  induction labels with
  | nil => exact .ok _
  | cons l rest ih =>
    simp only [defineLabel, List.map_cons]
    rw [show (l.moved k).key = l.key from rfl]
    split
    · exact (l.growMoved d ids).map fun _ _ => rfl
    · exact ih.map fun _ _ => rfl

namespace Work

def landing (v : Work) (item : Row.Item) (template : Template) (spot : Spot) : Int64 :=
  match (v.wantedAt spot.first template).getLast? with
  | some last => last
  | none => if item.attached.attachment.target = .advance then v.position else spot.first

def withStitch (v : Work) (name : String) (item : Row.Item) (template : Template) (spot : Spot)
    (bottoms : List NodeRef) (labels : List Label) : Work :=
  let fabric := { v.fabric with
    stitches := v.fabric.stitches ++ [v.newStitch name item template bottoms]
    labels := labels
    uses := v.fabric.uses ++ v.newUses item (v.waiting spot template)
    nextId := v.fabric.nextId + (v.freshTops template).length }
  { v with fabric, position := v.landing item template spot }

def putAt (v : Work) (name : String) (item : Row.Item) (template : Template) (spot : Spot) :
    Outcome Work := do
  let wanted := v.wantedAt spot.first template
  let plain ← wanted.mapM (bottomAt v.fabric name (v.waiting spot template).isSome item.span)
  let bottoms ← aroundPost v.fabric item.attached.attachment.post wanted item.span plain
  let labels ← item.labels.foldlM (defineLabel (v.freshTops template)) v.fabric.labels
  return v.withStitch name item template spot bottoms labels

theorem placeParts (w : Work) (name : String) (item : Row.Item) : w.place name item =
    (w.resolve name item.span >>= fun (template, u) => u.locate item >>= fun (spot, v) =>
      v.putAt name item template spot) := rfl

variable {name : String}

section
variable (v : Work) (item : Row.Item) (template : Template) (spot : Spot)

theorem waitingMoved : (v.moved k).waiting (spot.moved k) template = v.waiting spot template := by
  simp only [waiting, wantedAt, List.isEmpty_map]
  rfl

theorem freshMoved : (v.moved k).freshTops template = (v.freshTops template).map (· + k) := by
  simp only [freshTops, List.map_map]
  refine List.map_congr_left ?_
  intro j _
  simp only [Function.comp, moved, Fabric.moved]
  omega

theorem bottomAtKnown {f : Fabric} {span : Span} {id : Int64} {node : NodeRef}
    (ok : bottomAt f name false span id = .ok node) : 0 ≤ id.toInt ∧ id.toInt < f.nextId := by
  unfold bottomAt at ok
  dsimp only at ok
  split at ok
  · rename_i inside
    omega
  · cases ok

theorem wantedKnown {item : Row.Item} {template : Template} {spot : Spot} {plain : List NodeRef}
    (settled : spot.pending = none) (ok : (v.wantedAt spot.first template).mapM
      (bottomAt v.fabric name (v.waiting spot template).isSome item.span) = .ok plain) :
    ∀ first ∈ (v.wantedAt spot.first template).head?,
      0 ≤ first.toInt ∧ first.toInt < v.fabric.nextId := by
  have waits : (v.waiting spot template).isSome = false := by
    unfold waiting
    rw [settled]
    split <;> rfl
  rw [waits] at ok
  intro first head
  obtain ⟨node, _, made⟩ := (mapMAt ok 0).1 first (by rw [← List.head?_eq_getElem?]; exact head)
  exact bottomAtKnown made

variable {v} (counted : v.fabric.Counted) (fits : v.fabric.Fits k)
include counted fits

theorem wantedMoved (first : Int64) : (v.moved k).wantedAt (first + signedId k) template =
    (v.wantedAt first template).map (· + signedId k) := by
  simp only [wantedAt, bottomStepMoved counted fits, List.map_map]
  refine List.map_congr_left ?_
  intro j _
  simp only [Function.comp]
  grind

theorem landingMoved : (v.moved k).landing item template (spot.moved k) =
    v.landing item template spot + signedId k := by
  unfold landing
  rw [show (spot.moved k).first = spot.first + signedId k from rfl,
    wantedMoved template counted fits, List.getLast?_map]
  cases (v.wantedAt spot.first template).getLast? with
  | some last => rfl
  | none => exact eitherMoved rfl rfl

theorem withStitchMoved (name : String) (bottoms : List NodeRef) (labels : List Label) :
    (v.moved k).withStitch name item template (spot.moved k) (bottoms.map (NodeRef.moved k))
      (labels.map (Label.moved k)) =
      (v.withStitch name item template spot bottoms labels).moved k := by
  have uses : (v.moved k).newUses item (v.waiting spot template) =
      v.newUses item (v.waiting spot template) := by
    cases v.waiting spot template with
    | none => rfl
    | some p => simp [newUses, moved, Fabric.moved]
  have stitch : (v.moved k).newStitch name item template (bottoms.map (NodeRef.moved k)) =
      (v.newStitch name item template bottoms).moved k := by
    simp [newStitch, Stitch.moved, moved, Fabric.moved, ← freshMoved]
  simp only [withStitch, landingMoved item template spot counted fits, waitingMoved, freshMoved,
    List.length_map, uses, stitch]
  simp [moved, Fabric.moved, Nat.add_right_comm]

theorem putAtMoved (name : String)
    (settled : item.attached.attachment.post.isSome → spot.pending = none) :
    InStep Fault.Like (Work.moved k) (v.putAt name item template spot)
      ((v.moved k).putAt name item template (spot.moved k)) := by
  unfold putAt
  simp only [show (spot.moved k).first = spot.first + signedId k from rfl,
    wantedMoved template counted fits, waitingMoved, freshMoved]
  refine InStep.bind (show InStep _ (List.map (NodeRef.moved k)) _ _ from ?_) ?_
  · rw [List.mapM_map]
    exact InStep.mapM fun id _ => bottomAtMoved fits name _ item.span id
  intro plain worked _
  refine (aroundPostMoved fits _ _ item.span plain ?_).bind ?_
  · intro post
    exact v.wantedKnown (settled post) worked
  intro bottoms _ _
  refine (InStep.foldAll (fun d labels => defineLabelMoved (v.freshTops template) labels d)
    item.labels v.fabric.labels).bind ?_
  intro labels _ _
  exact .okAs (withStitchMoved item template spot counted fits name bottoms labels)

end

variable {w : Work} (counted : w.fabric.Counted) (fits : w.fabric.Fits k)
include counted fits

theorem placeMoved (name : String) (item : Row.Item) (apart : item.PostApart) :
    InStep Fault.Like (Work.moved k) (w.place name item) ((w.moved k).place name item) := by
  rw [placeParts, placeParts]
  refine (w.resolveMoved name item.span).bind ?_
  rintro ⟨template, u⟩ resolved _
  have keeps : u.fabric = w.fabric := by rw [(resolvedTemplate resolved).2]
  refine (locateMoved (w := u) (keeps ▸ counted) (keeps ▸ fits) item).bind ?_
  rintro ⟨spot, v⟩ located _
  have same : v.fabric = { w.fabric with labels := v.fabric.labels } :=
    keeps ▸ (locates located).fabric
  refine putAtMoved item template spot (v := v) ?_ ?_ name ?_
  · rw [same]
    exact ⟨counted.uid, counted.firstLeNext, counted.ids, counted.tops, counted.bottoms⟩
  · rw [same]
    exact fits
  intro post
  cases target : item.attached.attachment.target with
  | advance =>
    unfold locate at located
    rw [target] at located
    cases located
    rfl
  | label ref =>
    rw [apart ref target] at post
    cases post
  | absolute row position kind =>
    exact Fabric.bracketedSettled (by rw [target]; rfl) located
  | relative kind offset =>
    exact Fabric.bracketedSettled (by rw [target]; rfl) located

theorem seekMoved (item : Row.Item) :
    InStep Fault.Like (Work.moved k) (w.seek item) ((w.moved k).seek item) := by
  unfold seek
  refine .either (inStepFault item.span rfl) ?_
  refine (locateMoved counted fits item).bind ?_
  rintro ⟨spot, v⟩ _ _
  exact .ok _

theorem putItemMoved (item : Row.Item) (apart : item.PostApart) :
    InStep Fault.Like (Work.moved k) (w.putItem item) ((w.moved k).putItem item) := by
  unfold putItem
  split
  · exact .ok w
  · exact seekMoved counted fits item
  · exact placeMoved counted fits _ item apart

end Work
end
end Crochet
