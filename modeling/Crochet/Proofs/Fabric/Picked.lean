import Crochet.Proofs.Fabric.Settled

/-! One top of a label, picked by its number. The place is counted back from the last top of the label,
so it is the top with that number exactly where the last top is as far behind it in the fabric as in
the label, and where the place is no negative word. -/
namespace Crochet

def Label.InLine (l : Label) (last number id : Nat) : Prop :=
  id < 2 ^ 63 ∧ last = id + (l.ids.length - 1 - number)

namespace Work

/- The top that the index `i` of a label stands for. Indices count along the row of the last top, in
the direction in which that row is worked. -/
structure Picks (w : Work) (l : Label) (i last number id : Nat) : Prop where
  final : l.ids.getLast? = some last
  numbered : ∃ s, w.fabric.owner? last = some s ∧
    number = if 0 < w.fabric.direction s.row then i else l.ids.length - 1 - i
  there : l.ids[number]? = some id

variable {w : Work} {key : String} {l : Label} {i : Nat}

theorem labelTop (woven : w.fabric.Woven) {id : Nat} (label : w.fabric.label? key = some l)
    (member : id ∈ l.ids) : w.fabric.HasTop id := by
  have range := woven.labelled.owned key l label id member
  exact ⟨Int.natCast_nonneg id, range.1, range.2⟩

theorem picksOne (woven : w.fabric.Woven) (label : w.fabric.label? key = some l)
    (inside : i < l.ids.length) :
    ∃ last number id, w.Picks l i last number id := by
  obtain ⟨last, final⟩ : ∃ last, l.ids.getLast? = some last := by
    refine Option.ne_none_iff_exists'.mp ?_
    rw [ne_eq, List.getLast?_eq_none_iff]
    rintro none
    simp [none] at inside
  obtain ⟨s, owner⟩ := woven.counted.hasOwner.mp
    (labelTop woven label (List.mem_of_getLast? final))
  have bound : (if 0 < w.fabric.direction s.row then i else l.ids.length - 1 - i) <
      l.ids.length := by
    split <;> omega
  exact ⟨last, _, _, final, ⟨s, owner, rfl⟩, List.getElem?_eq_getElem bound⟩

theorem locatesIndex {ref : Row.LabelRef} {last number id : Nat} (span : Span)
    (named : w.labelKey? ref = some (key, some (i : Int))) (label : w.fabric.label? key = some l)
    (inside : i < l.ids.length) (picks : w.Picks l i last number id) :
    ∃ row, w.locateLabel ref span =
      .ok (⟨signedId last - signedId (l.ids.length - 1 - number), none⟩,
        { w.refer key with row := some row }) := by
  obtain ⟨s, owner, same⟩ := picks.numbered
  have aim : (if 0 < w.fabric.direction s.row then
      signedId last + Int64.ofInt i - Int64.ofNat l.ids.length + 1
      else signedId last - Int64.ofInt i) = signedId last - signedId (l.ids.length - 1 - number) := by
    have count : Int64.ofNat l.ids.length = signedId (l.ids.length - 1 - i) + signedId i + 1 := by
      have sum := Int64.ofNat_add (l.ids.length - 1 - i + i) 1
      rw [show l.ids.length - 1 - i + i + 1 = l.ids.length by omega, Int64.ofNat_add _ i] at sum
      exact sum
    have index : Int64.ofInt i = signedId i := Int64.ofInt_eq_ofNat
    rw [same, index]
    split
    · rw [count]
      grind
    · rw [show l.ids.length - 1 - (l.ids.length - 1 - i) = i by omega]
  refine ⟨s.row, ?_⟩
  simp only [locateLabel, named, label, picks.final, owner, aim]

variable {name : String} {template : Template} {u : Work}

theorem pickedIff {last number id : Nat} (woven : w.fabric.Woven) (words : w.fabric.nextId ≤ 2 ^ 64)
    (label : w.fabric.label? key = some l) (short : l.ids.length < 2 ^ 60)
    (picks : w.Picks l i last number id) :
    (signedId last - signedId (l.ids.length - 1 - number)).toInt = id ↔ l.InLine last number id := by
  have below := (woven.labelled.owned key l label last (List.mem_of_getLast? picks.final)).2
  rw [wordIs, Label.InLine]
  refine and_congr_right fun small => ⟨?_, ?_⟩
  · intro same
    refine signedOnce (by omega) (by omega) ?_
    rw [signedAdd, ← same]
    grind
  · rintro rfl
    rw [signedAdd]
    grind

section
variable {item : Row.Item} {ref : Row.LabelRef} {last number id : Nat}
  (written : item.attached.attachment = ⟨.label ref, none⟩)
  (named : w.labelKey? ref = some (key, some (i : Int))) (label : w.fabric.label? key = some l)
  (inside : i < l.ids.length) (picks : w.Picks l i last number id)
include written named label inside picks

theorem seeksIndex (woven : w.fabric.Woven) (words : w.fabric.nextId ≤ 2 ^ 64)
    (short : l.ids.length < 2 ^ 60) (kind : item.kind = .seek) (plain : ref.modifiers.post = none) :
    ∃ after, w.putItem item = .ok after ∧
      (after.position.toInt = id ↔ l.InLine last number id) := by
  obtain ⟨row, located⟩ := locatesIndex item.span named label inside picks
  refine ⟨{ w.refer key with
    row := some row
    position := signedId last - signedId (l.ids.length - 1 - number) }, ?_, ?_⟩
  · simp only [putItem, kind, seek, written, plain, locate, located]
    rfl
  · exact pickedIff woven words label short picks

theorem placesIndex (kind : item.kind = .stitch name)
    (read : w.resolve name item.span = .ok (template, u)) :
    ∃ v : Work, v.fabric = (w.refer key).fabric ∧ w.putItem item = v.putAt name item template
      ⟨signedId last - signedId (l.ids.length - 1 - number), none⟩ := by
  obtain ⟨_, same⟩ := resolvedTemplate read
  have picks' : u.Picks l i last number id := by
    rw [same]
    exact ⟨picks.final, picks.numbered, picks.there⟩
  have named' : u.labelKey? ref = some (key, some (i : Int)) := by
    rw [same]
    exact named
  have label' : u.fabric.label? key = some l := by
    rw [same]
    exact label
  obtain ⟨row, located⟩ := locatesIndex item.span named' label' inside picks'
  refine ⟨{ u.refer key with row := some row }, ?_, ?_⟩
  · rw [same]
    rfl
  · simp only [putItem, kind, placeParts, read, okBind, locate, written, located]

theorem bottomPicked {after : Work} (woven : w.fabric.Woven) (words : w.fabric.nextId ≤ 2 ^ 64)
    (short : l.ids.length < 2 ^ 60) (kind : item.kind = .stitch name)
    (read : w.resolve name item.span = .ok (template, u)) (some : template.bottoms ≠ [])
    (ok : w.putItem item = .ok after) :
    after.fabric.firstBottom? w.fabric.stitches.length = .some (.top id) ↔
      l.InLine last number id := by
  obtain ⟨v, fabric, same⟩ := placesIndex written named label inside picks kind read
  have plain : item.attached.attachment.post = none := by rw [written]
  obtain ⟨tops, labels, _, rfl⟩ := (putAtSettled plain).mp (same.symm.trans ok)
  have least := (tops _ (List.mem_of_head? (v.wantedHead _ some))).1
  have stitches : w.fabric.stitches = v.fabric.stitches := by
    rw [fabric]
    rfl
  rw [stitches, settledBottom some, ← pickedIff woven words label short picks]
  simp only [topAt, Option.some.injEq, NodeRef.top.injEq]
  omega

theorem indexPlaced (woven : w.fabric.Woven) (kind : item.kind = .stitch name)
    (read : w.resolve name item.span = .ok (template, u)) (line : l.InLine last number id)
    (others : ∀ x ∈ w.wantedAt (signedId id) template, x.toInt ≠ id → w.fabric.HasTop x.toInt)
    (accepted : (item.labels.foldlM (defineLabel (w.freshTops template))
      (w.refer key).fabric.labels).isOk = true) :
    ∃ after, w.putItem item = .ok after := by
  obtain ⟨v, fabric, same⟩ := placesIndex written named label inside picks kind read
  have plain : item.attached.attachment.post = none := by rw [written]
  have first : signedId last - signedId (l.ids.length - 1 - number) = signedId id := by
    rw [line.2, signedAdd]
    grind
  have wanted : v.wantedAt (signedId id) template = w.wantedAt (signedId id) template := by
    simp only [wantedAt, bottomStep, owner?, fabric]
    rfl
  have tops : ∀ x ∈ v.wantedAt (signedId id) template, w.fabric.HasTop x.toInt := by
    intro x member
    rw [wanted] at member
    by_cases here : x.toInt = id
    · rw [here]
      exact labelTop woven label (List.mem_of_getElem? picks.there)
    · exact others x member here
  obtain ⟨labels, labelled⟩ := someOk accepted
  rw [same, first]
  refine ⟨_, (putAtSettled plain).mpr ⟨?_, labels, ?_, rfl⟩⟩
  · unfold Fabric.HasTop at tops ⊢
    rw [fabric]
    exact tops
  · rw [freshTops, fabric]
    exact labelled

end

theorem runInLine {last number id first : Nat} (picks : w.Picks l i last number id)
    (run : l.ids = List.range' first l.ids.length) (small : id < 2 ^ 63) :
    l.InLine last number id := by
  have bound := (List.getElem?_eq_some_iff.mp picks.there).1
  have final : first + l.ids.length - 1 = last := by
    have found := picks.final
    rw [run, List.getLast?_range', if_neg (by omega)] at found
    exact Option.some.inj found
  have there : first + number = id := by
    have found := picks.there
    rw [run, List.getElem?_range' bound] at found
    simpa using found
  exact ⟨small, by omega⟩

theorem indexPicksIff {rows : Rows} {registry : Registry} {options : Options} {item : Row.Item}
    {w : Work} {ref : Row.LabelRef} {key : String} {i : Nat} {l : Label}
    (comes : ComesUp rows registry options item w)
    (written : item.attached.attachment = ⟨.label ref, none⟩)
    (named : w.labelKey? ref = some (key, some (i : Int)))
    (label : w.fabric.label? key = some l) (inside : i < l.ids.length)
    (words : w.fabric.nextId ≤ 2 ^ 64) (short : l.ids.length < 2 ^ 60) :
    ∃ last number id, w.Picks l i last number id ∧
      (item.kind = .seek → ref.modifiers.post = none → ∃ after, w.putItem item = .ok after ∧
        (after.position.toInt = id ↔ l.InLine last number id)) ∧
      (∀ name template u, item.kind = .stitch name →
        w.resolve name item.span = .ok (template, u) →
        (∀ after, w.putItem item = .ok after → template.bottoms ≠ [] →
          (after.fabric.firstBottom? w.fabric.stitches.length = some (.top id) ↔
            l.InLine last number id)) ∧
        (l.InLine last number id →
          (∀ x ∈ w.wantedAt (signedId id) template, x.toInt ≠ id → w.fabric.HasTop x.toInt) →
          (item.labels.foldlM (defineLabel (w.freshTops template))
            (w.refer key).fabric.labels).isOk = true → ∃ after, w.putItem item = .ok after)) ∧
      ((∃ first, l.ids = List.range' first l.ids.length) → id < 2 ^ 63 →
        l.InLine last number id) := by
  have woven := Fabric.comesUpMade comes
  obtain ⟨last, number, id, picks⟩ := picksOne woven label inside
  refine ⟨last, number, id, picks, ?_, ?_, ?_⟩
  · intro kind plain
    exact seeksIndex written named label inside picks woven words short kind plain
  · intro name template u kind read
    constructor
    · intro after ok some
      exact bottomPicked written named label inside picks woven words short kind read some ok
    · intro line others accepted
      exact indexPlaced written named label inside picks woven kind read line others accepted
  · rintro ⟨first, run⟩ small
    exact runInLine picks run small

def indexed? (item : Row.Item) (w : Work) : Option (Row.LabelRef × String × Nat × Label) :=
  match item.attached.attachment with
  | ⟨.label ref, none⟩ => match w.labelKey? ref with
    | some (key, some (.ofNat i)) => match w.fabric.label? key with
      | some l => if i < l.ids.length then some (ref, key, i, l) else none
      | none => none
    | _ => none
  | _ => none

theorem indexedOk {item : Row.Item} {ref : Row.LabelRef}
    (found : indexed? item w = some (ref, key, i, l)) :
    item.attached.attachment = ⟨.label ref, none⟩ ∧
      w.labelKey? ref = some (key, some (i : Int)) ∧ w.fabric.label? key = some l ∧
      i < l.ids.length := by
  unfold indexed? at found
  split at found
  · rename_i written
    split at found
    · rename_i named
      split at found
      · rename_i label
        split at found
        · rename_i inside
          cases found
          exact ⟨written, named, label, inside⟩
        · cases found
      · cases found
    · cases found
  · cases found

def goesInto (ids : List Nat) (i id : Nat) (up : Row.Item × Work) : Bool :=
  (indexed? up.1 up.2).any fun (_, _, j, l) => j == i && l.ids == ids &&
    decide (up.2.fabric.nextId ≤ 2 ^ 64) && up.1.kind.name?.any fun name =>
    (up.2.resolve name up.1.span).toOption.any fun (template, _) =>
      !template.bottoms.isEmpty && (up.2.putItem up.1).toOption.any fun after =>
        after.fabric.firstBottom? up.2.fabric.stitches.length == some (.top id)

theorem goesIntoOk {ids : List Nat} {id : Nat} {item : Row.Item}
    (goes : goesInto ids i id (item, w) = true) : ∃ ref key l,
      item.attached.attachment = ⟨.label ref, none⟩ ∧
      w.labelKey? ref = some (key, some (i : Int)) ∧ w.fabric.label? key = some l ∧
      i < l.ids.length ∧ l.ids = ids ∧ w.fabric.nextId ≤ 2 ^ 64 ∧
      ∃ name template u after, item.kind = .stitch name ∧
        w.resolve name item.span = .ok (template, u) ∧ template.bottoms ≠ [] ∧
        w.putItem item = .ok after ∧
        after.fabric.firstBottom? w.fabric.stitches.length = some (.top id) := by
  obtain ⟨⟨ref, key, j, l⟩, found, holds⟩ := (Option.any_eq_true _ _).mp goes
  obtain ⟨same, stitched⟩ := Bool.and_eq_true_iff.mp holds
  obtain ⟨same, words⟩ := Bool.and_eq_true_iff.mp same
  obtain ⟨index, tops⟩ := Bool.and_eq_true_iff.mp same
  obtain ⟨written, named, label, inside⟩ := indexedOk found
  rw [eq_of_beq index] at named inside
  obtain ⟨name, kind, resolved⟩ := (Option.any_eq_true _ _).mp stitched
  obtain ⟨⟨template, u⟩, read, placed⟩ := testOk resolved
  obtain ⟨some, worked⟩ := Bool.and_eq_true_iff.mp placed
  obtain ⟨after, ok, bottom⟩ := testOk worked
  have stitch : item.kind = .stitch name := by
    simp only [Row.Kind.name?] at kind
    split at kind
    · rename_i shape
      cases kind
      exact shape
    · cases kind
  exact ⟨ref, key, l, written, named, label, inside, eq_of_beq tops, of_decide_eq_true words, name,
    template, u, after, stitch, read, by simpa using some, ok, eq_of_beq bottom⟩

def wholeLabel : MappedText :=
  MappedText.ofSource "[ch,ch,ch,ch].A,turn\nsc@A[1]".toList

def gappedLabel : MappedText :=
  MappedText.ofSource "ch.A,ch,ch.A\nsc@A[0]".toList

theorem indexPicksWhole : ∃ rows item w ref key l,
    Row.parseRows wholeLabel [] "red" = .ok rows ∧ ComesUp rows Registry.plain {} item w ∧
    item.attached.attachment = ⟨.label ref, none⟩ ∧
    w.labelKey? ref = some (key, some ((1 : Nat) : Int)) ∧ w.fabric.label? key = some l ∧
    1 < l.ids.length ∧ l.ids = [1, 2, 3, 4] ∧ w.fabric.nextId ≤ 2 ^ 64 ∧
    ∃ last number after, w.Picks l 1 last number 3 ∧ l.InLine last number 3 ∧ w.putItem item = .ok after ∧
      after.fabric.firstBottom? w.fabric.stitches.length = some (.top 3) := by
  obtain ⟨rows, item, w, parsed, comes, goes⟩ := lastRuns wholeLabel Registry.plain {}
    (goesInto [1, 2, 3, 4] 1 3) (by decide +kernel)
  obtain ⟨ref, key, l, written, named, label, inside, tops, words, name, template, u, after, kind,
    read, some, ok, bottom⟩ := goesIntoOk goes
  obtain ⟨last, number, id, picks, _, stitch, run⟩ :=
    indexPicksIff comes written named label inside words (by simp [tops])
  have small : id < 2 ^ 63 := by
    have member := List.mem_of_getElem? picks.there
    simp only [tops, List.mem_cons, List.not_mem_nil, or_false] at member
    omega
  have line := run ⟨1, by rw [tops]; rfl⟩ small
  have picked := ((stitch name template u kind read).1 after ok some).mpr line
  rw [bottom] at picked
  cases picked
  exact ⟨rows, item, w, ref, key, l, parsed, comes, written, named, label, inside, tops, words, last,
    number, after, picks, line, ok, bottom⟩

theorem indexMissesGapped : ∃ rows item w ref key l,
    Row.parseRows gappedLabel [] "red" = .ok rows ∧ ComesUp rows Registry.plain {} item w ∧
    item.attached.attachment = ⟨.label ref, none⟩ ∧
    w.labelKey? ref = some (key, some ((0 : Nat) : Int)) ∧ w.fabric.label? key = some l ∧
    0 < l.ids.length ∧ l.ids = [1, 3] ∧ ∃ last number id after, w.Picks l 0 last number id ∧
      w.putItem item = .ok after ∧
      after.fabric.firstBottom? w.fabric.stitches.length = some (.top 2) ∧ id ≠ 2 := by
  obtain ⟨rows, item, w, parsed, comes, goes⟩ := lastRuns gappedLabel Registry.plain {}
    (goesInto [1, 3] 0 2) (by decide +kernel)
  obtain ⟨ref, key, l, written, named, label, inside, tops, _, _, _, _, after, _, _, _, ok, bottom⟩ :=
    goesIntoOk goes
  obtain ⟨last, number, id, picks⟩ := picksOne (Fabric.comesUpMade comes) label inside
  have member := List.mem_of_getElem? picks.there
  refine ⟨rows, item, w, ref, key, l, parsed, comes, written, named, label, inside, tops, last,
    number, id, after, picks, ok, bottom, ?_⟩
  rintro rfl
  rw [tops] at member
  simp at member

end Work
end Crochet
