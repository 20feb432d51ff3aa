import Crochet.Proofs.Repeat.Zones

/-! Ropes of items. Text that is written out is a rope of items, each of which is a marker or is read
as known events; passages of a rope are read as the events of their items. -/
namespace Crochet.Repeat
open MappedText
open Row (Reads Step Surround readsNil readsComma readsNewline)

def bareLabel (key : String) : Row.LabelDef := ⟨key, {}, ⟨0, 0⟩⟩

def Event.step (s : Surround) : Event → Step
  | .stitch name labels =>
    .item (.stitch name) (s.labels ++ labels.map bareLabel) (s.attached.getD {}) ⟨0, 0⟩
  | .line => .endLine

structure Meant (text : List Char) (events : List Event) : Prop where
  even : Even text
  reads : Reads text fun s => events.map (Event.step s)
  quiet : text = [] → events = []

section
variable {text more : List Char} {events later : List Event}

theorem meantNil : Meant [] [] := ⟨.nil, readsNil, fun _ => rfl⟩

theorem meantComma (first : Meant text events) (second : Meant more later) :
    Meant (text ++ ',' :: more) (events ++ later) where
  even := .append first.even (.append (.char (c := ',') rfl rfl) second.even)
  reads := by
    simp only [List.map_append]
    exact readsComma first.reads second.reads
  quiet := by simp

theorem meantLine (first : Meant text events) (second : Meant more later) :
    Meant (text ++ '\n' :: more) (events ++ .line :: later) where
  even := .append first.even (.append (.char (c := '\n') rfl rfl) second.even)
  reads := by
    simp only [List.map_append]
    exact readsNewline first.reads second.reads
  quiet := by simp

theorem meantCommas {commas : MappedText} (all : ∀ g ∈ commas, g.char = ',')
    (meant : Meant text events) : Meant (text ++ chars commas) events := by
  induction commas generalizing text with
  | nil => simpa [chars] using meant
  | cons g commas ih =>
    have longer : Meant (text ++ [',']) events := by
      simpa using meantComma meant meantNil
    have rest := ih (fun h member => all h (List.mem_cons_of_mem _ member)) longer
    simpa [chars, all g (List.mem_cons_self ..)] using rest

end

variable {t : MappedText} {item : Item} {separator : Option Glyph}

theorem meantUntrimmed {events : List Event} (meant : Meant (chars (trimCommas t)) events) :
    Meant (chars t) events := by
  obtain ⟨commas, same, all⟩ := trimParts t
  have whole := meantCommas all meant
  rw [chars, chars, ← List.map_append, ← same] at whole
  exact whole

def endEvents : Option Glyph → List Event
  | some g => if g.char = '\n' then [.line] else []
  | none => []

structure Plain (text : MappedText) (events : List Event) : Prop where
  solid : Solid (chars text)
  meant : Meant (chars text) events
  unmarked : isMarker text = false

theorem plainText {c : Char} {cs : List Char} {events : List Event} (shown : chars t = c :: cs)
    (no : ∀ m : Marker, c ≠ m.char) (solid : Solid (c :: cs))
    (reads : Reads (c :: cs) fun s => events.map (Event.step s)) : Plain t events where
  solid := shown ▸ solid
  meant := shown ▸ ⟨balancedEven solid, reads, fun empty => by cases empty⟩
  unmarked := unmarkedText shown no

inductive Means : Item → Part → Prop where
  | marker (m : Marker) {text : MappedText} {separator : Option Glyph}
      (shown : chars text = [m.char]) : Means ⟨text, separator⟩ ⟨some m, endEvents separator⟩
  | plain {text : MappedText} {separator : Option Glyph} {events : List Event}
      (plain : Plain text events) : Means ⟨text, separator⟩ ⟨none, events ++ endEvents separator⟩

variable {part : Part}

theorem meansSolid (means : Means item part) : Solid (chars item.text) := by
  cases means with
  | marker m shown =>
    rw [shown]
    cases m <;> exact .char rfl rfl
  | plain plain => exact plain.solid

theorem meansIs (means : Means item part) (m : Marker) :
    m.isText item.text = part.is m := by
  cases means with
  | marker other shown =>
    simp only [Marker.isText, shown, Part.is]
    cases m <;> cases other <;> decide
  | plain plain =>
    have unmarked := plain.unmarked
    simp only [isMarker, Bool.or_eq_false_iff] at unmarked
    cases m
    · exact unmarked.1
    · exact unmarked.2

theorem meansMarker (means : Means item part) :
    isMarker item.text = part.marker.isSome := by
  cases means with
  | marker m shown => cases m <;> simp [isMarker, Marker.isText, shown, Marker.char]
  | plain plain => exact plain.unmarked

inductive Roped : List Item → List Part → Prop where
  | last {text : MappedText} {part : Part} (means : Means ⟨text, none⟩ part) :
      Roped [⟨text, none⟩] [part]
  | link {text : MappedText} {g : Glyph} {part : Part} {rope : List Item} {parts : List Part}
      (separates : isSeparator g.char = true) (means : Means ⟨text, some g⟩ part)
      (rest : Roped rope parts) : Roped (⟨text, some g⟩ :: rope) (part :: parts)

def ropeText (rope : List Item) : MappedText :=
  rope.flatMap fun item => item.text ++ item.separator.toList

inductive Strand : List Item → List Part → Prop where
  | nil : Strand [] []
  | last {text : MappedText} {part : Part} (means : Means ⟨text, none⟩ part) :
      Strand [⟨text, none⟩] [part]
  | link {text : MappedText} {g : Glyph} {part : Part} {rope : List Item} {parts : List Part}
      (separates : isSeparator g.char = true) (means : Means ⟨text, some g⟩ part)
      (rest : Strand rope parts) : Strand (⟨text, some g⟩ :: rope) (part :: parts)

section
variable {rope : List Item} {parts : List Part}

theorem ropedItems (roped : Roped rope parts) : items (ropeText rope) = rope := by
  induction roped with
  | last means =>
    have cut := itemsLast (meansSolid means)
    simpa [ropeText] using cut
  | @link text g part rope parts separates means _ ih =>
    have cut := itemsLink (meansSolid means) separates (ropeText rope)
    rw [ih] at cut
    simpa [ropeText] using cut

theorem ropedStrand (roped : Roped rope parts) : Strand rope parts := by
  induction roped with
  | last means => exact .last means
  | link separates means _ ih => exact .link separates means ih

theorem strandMeans (strand : Strand rope parts) : List.Forall₂ Means rope parts := by
  induction strand with
  | nil => exact .nil
  | last means => exact .cons means .nil
  | link _ means _ ih => exact .cons means ih

theorem strandTake (strand : Strand rope parts) (n : Nat) : Strand (rope.take n) (parts.take n) := by
  induction strand generalizing n with
  | nil => simpa using Strand.nil
  | last means =>
    cases n with
    | zero => exact .nil
    | succ n => simpa using Strand.last means
  | link separates means _ ih =>
    cases n with
    | zero => exact .nil
    | succ n => exact .link separates means (ih n)

theorem strandDrop (strand : Strand rope parts) (n : Nat) : Strand (rope.drop n) (parts.drop n) := by
  induction strand generalizing n with
  | nil => simpa using Strand.nil
  | last means =>
    cases n with
    | zero => exact .last means
    | succ n => simpa using Strand.nil
  | link separates means rest ih =>
    cases n with
    | zero => exact .link separates means rest
    | succ n => exact ih n

end

theorem separatorCases {g : Glyph} (separates : isSeparator g.char = true) :
    g.char = ',' ∧ endEvents (some g) = [] ∨ g.char = '\n' ∧ endEvents (some g) = [.line] := by
  rcases Bool.or_eq_true_iff.mp separates with comma | line
  · rw [beq_iff_eq] at comma
    exact .inl ⟨comma, by simp [endEvents, comma]⟩
  · rw [beq_iff_eq] at line
    exact .inr ⟨line, by simp [endEvents, line]⟩

section
variable {text : MappedText} {g : Glyph}

theorem copiedMarker {m : Marker} (shown : chars text = [m.char]) :
    (Item.mk text separator).copied = separator.toList.filter (·.char == '\n') := by
  have marks : isMarker text = true := by
    cases m <;> simp [isMarker, Marker.isText, shown, Marker.char]
  rw [Item.copied, if_pos marks, Option.toList_filter]

theorem copiedPlain (unmarked : isMarker text = false) :
    (Item.mk text separator).copied = text ++ separator.toList := by
  simp [Item.copied, unmarked]

theorem copiedFront (separates : isSeparator g.char = true) (means : Means ⟨text, some g⟩ part)
    {more : List Char} {later : List Event} (rest : Meant more later) :
    Meant (chars (Item.mk text (some g)).copied ++ more) (part.events ++ later) := by
  rcases separatorCases separates with ⟨comma, none⟩ | ⟨line, one⟩
  · cases means with
    | marker m shown =>
      rw [copiedMarker shown, none]
      simpa [comma, chars] using rest
    | plain plain =>
      rw [copiedPlain plain.unmarked, none]
      simpa [comma, chars] using meantComma plain.meant rest
  · cases means with
    | marker m shown =>
      rw [copiedMarker shown, one]
      simpa [line, chars] using meantLine meantNil rest
    | plain plain =>
      rw [copiedPlain plain.unmarked, one]
      simpa [line, chars] using meantLine plain.meant rest

theorem copiedAlone (separates : isSeparator g.char = true) (means : Means ⟨text, some g⟩ part) :
    Meant (chars (trimCommas (Item.mk text (some g)).copied)) part.events := by
  rcases separatorCases separates with ⟨comma, none⟩ | ⟨line, one⟩
  · have trimmed : trimCommas [g] = [] := by simp [trimCommas, comma]
    cases means with
    | marker m shown =>
      rw [copiedMarker shown, none]
      simpa [comma, trimCommas, chars] using meantNil
    | plain plain =>
      rw [copiedPlain plain.unmarked, none, Option.toList_some, trimAppend, if_pos trimmed,
        trimSolid plain.solid]
      simpa using plain.meant
  · have kept : trimCommas (Item.mk text (some g)).copied = (Item.mk text (some g)).copied := by
      have trimmed : trimCommas [g] = [g] := by simp [trimCommas, line]
      cases means with
      | marker m shown =>
        rw [copiedMarker shown]
        simpa [line] using trimmed
      | plain plain =>
        rw [copiedPlain plain.unmarked, Option.toList_some, trimAppend, trimmed, if_neg (by simp)]
    have front := copiedFront separates means meantNil
    rw [kept]
    simpa using front

end

theorem strandMeant {rope : List Item} {parts : List Part} (strand : Strand rope parts) :
    Meant (chars (trimCommas (rope.flatMap Item.copied))) (parts.flatMap Part.events) := by
  induction strand with
  | nil => exact meantNil
  | last means =>
    cases means with
    | marker m shown =>
      simpa [copiedMarker shown, endEvents, trimCommas, chars] using meantNil
    | plain plain =>
      simpa [copiedPlain plain.unmarked, endEvents, trimSolid plain.solid] using plain.meant
  | link separates means _ ih =>
    rw [List.flatMap_cons, List.flatMap_cons, trimAppend]
    -- the comma of an item stays only if something is left of the items behind it
    split
    · rename_i nothing
      have none := ih.quiet (by rw [nothing]; rfl)
      rw [none, List.append_nil]
      exact copiedAlone separates means
    · rw [chars, List.map_append]
      exact copiedFront separates means ih

end Crochet.Repeat
