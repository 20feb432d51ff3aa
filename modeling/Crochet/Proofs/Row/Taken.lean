import Crochet.Proofs.Row.Reread

/-! What a reader does to its place. It takes tokens one after another and stands where the last one it
took ends; what stops it is a fault of the notation, at a place of the text it reads. -/
namespace Crochet.Row

inductive Taken : Cursor → Cursor → Prop where
  | none {c : Cursor} : Taken c c
  | next {last : Nat} {t : Token} {rest : List Token} {after : Cursor}
      (more : Taken ⟨t.stop, rest⟩ after) : Taken ⟨last, t :: rest⟩ after

variable {c : Cursor}

theorem Taken.trans {a b : Cursor} (first : Taken a b) (second : Taken b c) : Taken a c := by
  induction first with
  | none => exact second
  | next _ ih => exact .next (ih second)

/- A value as wanted, or a fault that is none of the program's own and has a place in the text. -/
def Regular (place : Span → Span) (Q : α → Prop) : Outcome α → Prop
  | .ok value => Q value
  | .error fault =>
    fault.kind ≠ .internalInconsistency ∧ ∃ range, fault.span = some (place range)

variable {cause : RowCause} {after : Cursor} {t : Token} {depth : Nat} {ts : List Token}

section
variable {α β : Type} {place : Span → Span} {P : α → Prop} {Q : β → Prop} {m : Outcome α}

theorem regularFault (range : Span) (plain : (cause.kind != .internalInconsistency) = true) :
    Regular place P (faultAt (.row cause) (place range)) := ⟨bne_iff_ne.mp plain, range, rfl⟩

theorem Regular.bind {k : α → Outcome β} (first : Regular place P m)
    (second : ∀ x, P x → Regular place Q (k x)) : Regular place Q (m >>= k) := by
  cases m with
  | error fault => exact first
  | ok x => exact second x first

theorem Regular.map {f : α → β} (first : Regular place P m) (gives : ∀ x, P x → Q (f x)) :
    Regular place Q (m.map f) := by
  cases m with
  | error fault => exact first
  | ok x => exact gives x first

theorem Regular.mono {R : α → Prop} (first : Regular place P m) (gives : ∀ x, P x → R x) :
    Regular place R m := by
  cases m with
  | error fault => exact first
  | ok x => exact gives x first

theorem Regular.value {x : α} (regular : Regular place P m) (ok : m = .ok x) : P x := by
  rw [ok] at regular
  exact regular

theorem Regular.fault {fault : Fault} (regular : Regular place P m) (failed : m = .error fault) :
    fault.kind ≠ .internalInconsistency ∧ ∃ range, fault.span = some (place range) := by
  rw [failed] at regular
  exact regular

end

theorem acceptNext {kind : Token.Kind} (found : c.accept? kind = some (t, after)) :
    Taken c after := by
  obtain ⟨last, rest⟩ := c
  unfold Cursor.accept? at found
  split at found
  · cases found
  rename_i same
  cases same
  split at found
  · cases found
    exact .next .none
  · cases found

theorem numberNext {x : Float} (found : c.number? = some (x, t, after)) :
    Taken c after := by
  obtain ⟨last, rest⟩ := c
  unfold Cursor.number? at found
  split at found
  · cases found
  rename_i same
  cases same
  split at found
  · cases found
    exact .next .none
  · cases found

theorem bracketEndTaken {after : List Token} {inner : List Char} {closing : Token}
    (ok : bracketEnd depth ts = .ok (inner, closing, after)) (last : Nat) :
    Taken ⟨last, ts⟩ ⟨closing.stop, after⟩ := by
  induction ts generalizing depth inner last with
  | nil => cases ok
  | cons t rest ih =>
    have more : ∀ {next : Nat}, (bracketEnd next rest).map (fun r => (t.padded ++ r.1, r.2)) =
        .ok (inner, closing, after) → Taken ⟨last, t :: rest⟩ ⟨closing.stop, after⟩ := by
      intro next found
      obtain ⟨⟨text, end', behind⟩, part, same⟩ := mapOk found
      cases same
      exact .next (ih part _)
    simp only [bracketEnd] at ok
    repeat' split at ok
    all_goals first
      | exact more ok
      | cases ok
    exact .next .none

theorem bracketEndFault (failed : bracketEnd depth ts = .error cause) :
    (cause.kind != .internalInconsistency) = true := by
  induction ts generalizing depth with
  | nil =>
    cases failed
    rfl
  | cons t rest ih =>
    have more : ∀ {next : Nat} {f : List Char × Token × List Token → List Char × Token × List Token},
        (bracketEnd next rest).map f = .error cause →
        (cause.kind != .internalInconsistency) = true := by
      intro next f found
      cases part : bracketEnd next rest with
      | error other =>
        rw [part] at found
        cases found
        exact ih part
      | ok value =>
        rw [part] at found
        cases found
    simp only [bracketEnd] at failed
    repeat' split at failed
    all_goals first
      | exact more failed
      | cases failed
    rfl

section
variable (place : Span → Span) (c : Cursor)

theorem bracketRegular (opening : Token) :
    Regular place (fun r => Taken c r.2.2) (bracketText place opening c) := by
  unfold bracketText
  split
  · rename_i failed
    exact regularFault _ (bracketEndFault failed)
  · rename_i found
    exact bracketEndTaken found c.last

theorem edgeDigitRegular (mark : Token) : Regular place (fun r => Taken c r.2) (edgeDigit place mark c) := by
  unfold edgeDigit
  split
  · exact Taken.none
  · rename_i found
    have taken := numberNext found
    split
    · exact taken
    split
    · exact taken
    · exact regularFault _ rfl

theorem postNumberRegular (caret : Token) :
    Regular place (fun r => Taken c r.2) (postNumber place caret c) := by
  unfold postNumber
  split
  · split
    · exact Taken.none
    · rename_i found
      split
      · exact numberNext found
      · exact regularFault _ rfl
  · rename_i signed
    split
    · exact regularFault _ rfl
    · rename_i found
      split
      · exact (acceptNext signed).trans (numberNext found)
      · exact regularFault _ rfl

theorem markStepRegular (m : Marks) :
    Regular place (fun r => ∀ next ∈ r, Taken c next.2) (markStep place m c) := by
  obtain ⟨last, rest⟩ := c
  cases rest with
  | nil => exact fun _ none => by cases none
  | cons t rest =>
    have twice : Regular place (fun r : Option (Marks × Cursor) => ∀ next ∈ r, Taken ⟨last, t :: rest⟩ next.2)
        (faultAt (.row (.secondMark t.symbol)) (place t.span)) := regularFault _ rfl
    have behind : ∀ {α : Type} {f : α → Marks} {value : Outcome (α × Cursor)},
        Regular place (fun r => Taken ⟨t.stop, rest⟩ r.2) value →
        Regular place (fun r : Option (Marks × Cursor) => ∀ next ∈ r, Taken ⟨last, t :: rest⟩ next.2)
          (value.map fun r => some (f r.1, r.2)) := by
      intro α f value regular
      refine regular.map fun x taken next member => ?_
      cases Option.some.inj member
      exact .next taken
    simp only [markStep]
    split
    · split
      · exact twice
      · intro next member
        cases Option.some.inj member
        exact .next .none
    · split
      · exact twice
      · exact behind (edgeDigitRegular place _ t)
    · split
      · exact twice
      · exact behind (edgeDigitRegular place _ t)
    · split
      · exact twice
      · exact behind (postNumberRegular place _ t)
    · exact fun _ none => by cases none

theorem marksRegular (m : Marks) : Regular place (fun r => Taken c r.2) (marksFrom place m c) := by
  fun_induction marksFrom place m c with
  | case1 m c fault failed => exact (markStepRegular place c m).fault failed
  | case2 => exact Taken.none
  | case3 m c next middle step ih =>
    have first := (markStepRegular place c m).value step _ rfl
    exact ih.mono fun _ second => first.trans second

theorem labelNameRegular (mark : Char) : Regular place (fun r => Taken c r.2) (labelName place mark c) := by
  obtain ⟨last, rest⟩ := c
  cases rest with
  | nil => exact regularFault _ rfl
  | cons t rest =>
    simp only [labelName]
    split
    · exact Taken.next .none
    · exact regularFault _ rfl

theorem selectorRegular : Regular place (fun r => Taken c r.2) (selector? place c) := by
  unfold selector?
  split
  · exact Taken.none
  · rename_i opened
    exact (bracketRegular place _ _).map fun _ inner => (acceptNext opened).trans inner

theorem indexRegular : Regular place (fun r => Taken c r.2) (indexOf place c) := by
  refine (selectorRegular place c).bind fun x taken => ?_
  split
  · exact taken
  · split
    · exact taken
    · exact regularFault _ rfl

theorem passRegular (inner : List Char) (closing : Token) :
    Regular place (fun _ => True) (passOf place inner closing) := by
  unfold passOf
  split
  · trivial
  · split
    · trivial
    · exact regularFault _ rfl

theorem selectionRegular (name : String) : Regular place (fun r => Taken c r.2) (selection place name c) := by
  refine (selectorRegular place c).bind fun x taken => ?_
  split
  · exact taken
  · refine (passRegular place _ _).bind fun _ _ => ?_
    exact (indexRegular place _).bind fun _ more => taken.trans more

theorem trailingPassRegular (ref : LabelRef) :
    Regular place (fun r => Taken c r.2) (trailingPass place ref c) := by
  unfold trailingPass
  split
  · exact Taken.none
  · rename_i opened
    split
    · exact regularFault _ rfl
    · rename_i found
      split
      · exact (acceptNext opened).trans (numberNext found)
      · exact regularFault _ rfl

theorem labelRefRegular : Regular place (fun r => Taken c r.2) (labelRef place c) := by
  refine (labelNameRegular place c '@').bind fun _ first => ?_
  refine (selectionRegular place _ _).bind fun _ second => ?_
  refine (trailingPassRegular place _ _).bind fun _ third => ?_
  exact (marksRegular place _ _).bind fun _ last =>
    ((first.trans second).trans third).trans last

theorem kindRegular (inner : List Char) (range : Span) :
    Regular place (fun _ => True) (addressKind inner (place range)) := by
  unfold addressKind
  split
  · trivial
  · simp only
    split
    · exact regularFault _ rfl
    · trivial

theorem cursorRegular (kind : Option String) (offset : List Char) (range : Span) :
    Regular place (fun _ => True) (cursorTarget kind offset (place range)) := by
  unfold cursorTarget
  split
  · trivial
  split
  · exact regularFault _ rfl
  split
  · trivial
  · exact regularFault _ rfl

theorem addressRegular (inner : List Char) (range : Span) :
    Regular place (fun _ => True) (addressOf inner (place range)) := by
  refine (kindRegular place inner range).bind fun x _ => ?_
  obtain ⟨kind, rest⟩ := x
  simp only
  split
  · exact cursorRegular place kind _ range
  split
  · split
    · exact regularFault _ rfl
    · trivial
  · exact regularFault _ rfl

theorem addressedRegular (mark opening : Token) :
    Regular place (fun r => Taken c r.2) (addressed place mark opening c) := by
  refine (bracketRegular place c opening).bind fun _ first => ?_
  refine (addressRegular place _ _).bind fun _ _ => ?_
  refine (marksRegular place _ _).bind fun _ second => ?_
  simp only
  split
  · exact regularFault _ rfl
  · exact first.trans second

theorem attachedRegular (mark : Token) : Regular place (fun r => Taken c r.2) (attached place mark c) := by
  have attachment : Regular place (fun r => Taken c r.2) (attachmentAt place mark c) := by
    obtain ⟨last, rest⟩ := c
    cases rest with
    | nil => exact regularFault _ rfl
    | cons t rest =>
      simp only [attachmentAt]
      split
      · exact (addressedRegular place _ mark t).mono fun _ taken => .next taken
      · exact (labelRefRegular place _).map fun _ taken => taken
      · exact regularFault _ rfl
      · exact regularFault _ rfl
  exact attachment.map fun _ taken => taken

theorem labelDefRegular (dot : Token) :
    Regular place (fun r => Taken c r.2 ∧ r.1.span = place ⟨dot.start, r.2.last⟩)
      (labelDef place dot c) := by
  refine (labelNameRegular place c '.').bind fun _ first => ?_
  refine (selectorRegular place _).bind fun _ second => ?_
  refine (marksRegular place _ _).bind fun _ third => ?_
  simp only
  split
  · exact regularFault _ rfl
  · exact ⟨(first.trans second).trans third, rfl⟩

end
end Crochet.Row
