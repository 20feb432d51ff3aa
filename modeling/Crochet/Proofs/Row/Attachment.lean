import Crochet.Proofs.Row.ReadBack

/-! Where the `^` of an item stands. Behind a bracketed address it belongs to the attachment; behind
a label it belongs to the reference to the label, and the attachment has none. -/
namespace Crochet.Row

def Item.PostApart (item : Item) : Prop :=
  ∀ ref, item.attached.attachment.target = .label ref → item.attached.attachment.post = none

variable {span : Span} {target : Target} {ref : LabelRef} {f : Flat} {colors : List (Nat × String)}

theorem cursorAddress {kind : Option String} {offset : List Char}
    (ok : cursorTarget kind offset span = .ok target) (ref : LabelRef) : target ≠ .label ref := by
  unfold cursorTarget at ok
  split at ok
  · cases ok
    simp
  · split at ok
    · cases ok
    · split at ok
      · cases ok
        simp
      · cases ok

theorem addressApart {inner : List Char} (ok : addressOf inner span = .ok target) (ref : LabelRef) :
    target ≠ .label ref := by
  unfold addressOf at ok
  obtain ⟨⟨kind, rest⟩, _, ok⟩ := bindOk ok
  simp only at ok
  split at ok
  · exact cursorAddress ok ref
  · split at ok
    · split at ok
      · cases ok
      · cases pureOk ok
        simp
    · cases ok

theorem attachmentApart {place : Span → Span} {mark : Token} {c after : Cursor}
    {attachment : Attachment} (ok : attachmentAt place mark c = .ok (attachment, after))
    (label : attachment.target = .label ref) : attachment.post = none := by
  unfold attachmentAt at ok
  split at ok
  · cases ok
  split at ok
  · unfold addressed at ok
    obtain ⟨⟨inner, closing, c'⟩, _, ok⟩ := bindOk ok
    obtain ⟨target, address, ok⟩ := bindOk ok
    obtain ⟨⟨marks, c''⟩, _, ok⟩ := bindOk ok
    simp only at ok
    split at ok
    · cases ok
    · cases pureOk ok
      exact absurd label (addressApart address ref)
  · obtain ⟨_, _, same⟩ := mapOk ok
    cases same
    rfl
  · cases ok
  · cases ok

theorem Attached.ReadsBack.postApart {a : Attached} (back : a.ReadsBack)
    (label : a.attachment.target = .label ref) : a.attachment.post = none := by
  have ends : Heads isEnd [] := fun c none => by cases none
  -- the text of the attachment, read once more by itself
  obtain ⟨after, read, _⟩ :=
    back.reads id ⟨.address, [], [], 0⟩ ⟨0, Token.scan 0 [] (a.raw.toList ++ [])⟩ [] ends ⟨0, rfl⟩
  obtain ⟨⟨attachment, c⟩, read, same⟩ := mapOk read
  have same : attachment = a.attachment := congrArg (·.1.attachment) same
  subst same
  exact attachmentApart read label

theorem Item.Writable.postApart {item : Item} (writable : item.Writable) : item.PostApart := by
  intro ref label
  obtain ⟨kind, labels, attached, row, color, span⟩ := item
  cases writable with
  | turn => cases label
  | seek back => exact back.postApart label
  | @stitch _ _ _ worn _ hangs same =>
    subst same
    cases worn with
    | none => cases label
    | some a => exact (hangs.attached a rfl).postApart label

structure Flat.Legible (f : Flat) : Prop where
  done : ∀ row ∈ f.done, ∀ item ∈ row, item.Writable
  current : ∀ item ∈ f.current, item.Writable

theorem Flat.Legible.endLine (legible : f.Legible) : f.endLine.Legible := by
  unfold Flat.endLine
  split
  · exact legible
  · refine ⟨?_, by simp⟩
    intro row member
    rcases List.mem_append.mp member with old | new
    · exact legible.done row old
    · rw [List.mem_singleton.mp new]
      exact legible.current

theorem legibleStep {g : Flat} {step : Step} (legible : f.Legible) (sound : step.Writable)
    (ok : f.step colors step = .ok g) : g.Legible := by
  cases step with
  | item kind labels attached span =>
    cases ok
    refine ⟨legible.done, ?_⟩
    intro item member
    rcases List.mem_append.mp member with old | new
    · exact legible.current item old
    · rw [List.mem_singleton.mp new]
      exact sound kind labels attached span rfl
  | color key span =>
    simp only [Flat.step] at ok
    split at ok
    · cases ok
      exact ⟨legible.done, legible.current⟩
    · cases ok
  | endLine =>
    cases ok
    exact legible.endLine

theorem parsedApart {t : MappedText} {color : String} {rows : Rows}
    (ok : parseRows t colors color = .ok rows) : ∀ row ∈ rows, ∀ item ∈ row, item.PostApart := by
  obtain ⟨lines, flat, parsed, run, rfl, _⟩ := parseRowsIff.mp ok
  have legible : flat.Legible := foldKeeps Flat.Legible (fun step member f next kept one =>
    legibleStep kept (parsedWritable parsed step member) one) ⟨by simp, by simp⟩ run
  intro row member item inside
  exact (legible.endLine.done row member item inside).postApart

end Crochet.Row
