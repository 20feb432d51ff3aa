import Crochet.Proofs.Row.Taken
import Crochet.Proofs.Text.Pieces

/-! What the tokens of a text say about the items read from them. Tokens follow one another, so an item
or a label covers some of the text; and a colour switch has the key of its token. -/
namespace Crochet

def Span.Inside (n : Nat) (s : Span) : Prop := s.start < s.stop ∧ s.stop ≤ n

namespace Row
open Text Token

/- Tokens one behind another, none of them empty, from `last` on. -/
def Ordered (n : Nat) : Nat → List Token → Prop
  | last, [] => last ≤ n
  | last, t :: rest => last ≤ t.start ∧ t.start < t.stop ∧ Ordered n t.stop rest

variable {last : Nat} {t : Token} {rest : List Token} {c after : Cursor} {level : Level}
  {node : Node} {s : Surround} {step : Step} {lines : List (List Node)}

theorem Ordered.within {n : Nat} {ts : List Token} (ordered : Ordered n last ts) : last ≤ n := by
  induction ts generalizing last with
  | nil => exact ordered
  | cons t rest ih =>
    obtain ⟨before, some, more⟩ := ordered
    have behind := ih more
    omega

theorem scanOrdered {offset : Nat} (lead cs : List Char) (before : last ≤ offset) :
    Ordered (offset + byteLength cs) last (scan offset lead cs) := by
  fun_induction scan offset lead cs generalizing last with
  | case1 offset lead => exact before
  | case2 offset lead c cs skipped ih =>
    have whole : offset + byteLength (c :: cs) = offset + c.utf8Size + byteLength cs :=
      (Nat.add_assoc _ _ _).symm
    rw [whole]
    exact ih (Nat.le_trans before (Nat.le_add_right _ _))
  | case3 offset lead c cs visible kind n found lexeme =>
    rename_i ih
    have some : 0 < byteLength lexeme := Nat.lt_of_lt_of_le c.utf8Size_pos (Nat.le_add_right _ _)
    have parts : byteLength (c :: cs) = byteLength lexeme + byteLength (cs.drop n) := by
      rw [← byteLengthAppend]
      simp [lexeme]
    rw [parts, ← Nat.add_assoc]
    exact ⟨before, Nat.lt_add_of_pos_right some, ih (Nat.le_refl _)⟩

structure Cursor.Fits (n : Nat) (known : Nat → Prop) (c : Cursor) : Prop where
  ordered : Ordered n c.last c.rest
  keys : ∀ t ∈ c.rest, ∀ key, t.kind = .color key → known key

section
variable {n : Nat} {known : Nat → Prop}

theorem Cursor.Fits.tail (fits : Cursor.Fits n known ⟨last, t :: rest⟩) :
    Cursor.Fits n known ⟨t.stop, rest⟩ :=
  ⟨fits.ordered.2.2, fun u member => fits.keys u (List.mem_cons_of_mem _ member)⟩

theorem Taken.fits (taken : Taken c after) (fits : c.Fits n known) :
    after.Fits n known ∧ c.last ≤ after.last := by
  induction taken with
  | none => exact ⟨fits, Nat.le_refl _⟩
  | next _ ih =>
    obtain ⟨later, further⟩ := ih fits.tail
    obtain ⟨before, some, _⟩ := fits.ordered
    exact ⟨later, Nat.le_trans before (Nat.le_trans (Nat.le_of_lt some) further)⟩

theorem tokenInside (fits : Cursor.Fits n known ⟨last, t :: rest⟩) : t.span.Inside n :=
  ⟨fits.ordered.2.1, fits.tail.ordered.within⟩

theorem reachInside (fits : Cursor.Fits n known ⟨last, t :: rest⟩)
    (taken : Taken ⟨t.stop, rest⟩ after) :
    Span.Inside n ⟨t.start, after.last⟩ := by
  obtain ⟨later, further⟩ := taken.fits fits.tail
  exact ⟨Nat.lt_of_lt_of_le fits.ordered.2.1 further, later.ordered.within⟩

end

def Placed (place : Span → Span) (n : Nat) (span : Span) : Prop :=
  ∃ range : Span, range.Inside n ∧ place range = span

inductive NodeFine (good : Span → Prop) (known : Nat → Prop) : Node → Prop where
  | stitch {name : String} {labels : List LabelDef} {attached : Option Attached} {span : Span}
      (dots : ∀ l ∈ labels, good l.span) (own : good span) :
      NodeFine good known (.stitch name labels attached span)
  | group {lines : List (List Node)} {labels : List LabelDef} {attached : Option Attached} {span : Span}
      (inner : ∀ line ∈ lines, ∀ node ∈ line, NodeFine good known node)
      (dots : ∀ l ∈ labels, good l.span) : NodeFine good known (.group lines labels attached span)
  | turn {span : Span} (own : good span) : NodeFine good known (.turn span)
  | seek {attached : Attached} {span : Span} (own : good span) :
      NodeFine good known (.seek attached span)
  | color {key : Nat} {span : Span} (named : known key) (own : good span) :
      NodeFine good known (.color key span)

def LinesFine (good : Span → Prop) (known : Nat → Prop) (lines : List (List Node)) : Prop :=
  ∀ line ∈ lines, ∀ node ∈ line, NodeFine good known node

section
variable {good : Span → Prop} {known : Nat → Prop}

theorem emptyFine : LinesFine good known ({} : Level).done := by
  intro line member node inside
  rw [List.mem_singleton.mp member] at inside
  cases inside

theorem putFine (here : LinesFine good known level.done) (new : NodeFine good known node) :
    LinesFine good known (level.put node).done := by
  intro line member other inside
  rcases List.mem_append.mp member with old | last
  · exact here line (List.mem_append_left _ old) other inside
  · rw [List.mem_singleton.mp last] at inside
    rcases List.mem_append.mp inside with old | same
    · exact here level.line (List.mem_append_right _ List.mem_cons_self) other old
    · rw [List.mem_singleton.mp same]
      exact new

theorem endLineFine (here : LinesFine good known level.done) :
    LinesFine good known level.endLine.done := by
  intro line member node inside
  rcases List.mem_append.mp member with old | last
  · exact here line old node inside
  · rw [List.mem_singleton.mp last] at inside
    cases inside

end

section
variable {place : Span → Span} {n : Nat} {known : Nat → Prop}

theorem suffixStepFine {s : Suffixes} (fits : c.Fits n known)
    (dots : ∀ l ∈ s.labels, Placed place n l.span) :
    Regular place (fun r => ∀ next ∈ r, (∀ l ∈ next.1.labels, Placed place n l.span) ∧ Taken c next.2)
      (suffixStep place s c) := by
  obtain ⟨last, rest⟩ := c
  cases rest with
  | nil => exact fun _ none => by cases none
  | cons t rest =>
    simp only [suffixStep]
    split
    · refine (labelDefRegular place _ t).map fun x read next member => ?_
      cases Option.some.inj member
      obtain ⟨taken, span⟩ := read
      refine ⟨?_, .next taken⟩
      intro l inside
      rcases List.mem_append.mp inside with old | new
      · exact dots l old
      · rw [List.mem_singleton.mp new, span]
        exact ⟨_, reachInside fits taken, rfl⟩
    · split
      · exact regularFault _ rfl
      · refine (attachedRegular place _ t).map fun x taken next member => ?_
        cases Option.some.inj member
        exact ⟨dots, .next taken⟩
    · exact fun _ none => by cases none

theorem suffixesFine {s : Suffixes} (fits : c.Fits n known)
    (dots : ∀ l ∈ s.labels, Placed place n l.span) :
    Regular place (fun r => (∀ l ∈ r.1.labels, Placed place n l.span) ∧ Taken c r.2)
      (suffixesFrom place s c) := by
  fun_induction suffixesFrom place s c with
  | case1 s c fault failed => exact (suffixStepFine fits dots).fault failed
  | case2 => exact ⟨dots, .none⟩
  | case3 s c next middle step ih =>
    obtain ⟨more, first⟩ := (suffixStepFine fits dots).value step _ rfl
    exact (ih (first.fits fits).1 more).mono fun _ read => ⟨read.1, first.trans read.2⟩

theorem itemFine {first : Token} (fits : Cursor.Fits n known ⟨last, first :: rest⟩) :
    Regular place (fun r => NodeFine (Placed place n) known r.1 ∧ Taken ⟨first.stop, rest⟩ r.2)
      (itemFrom place first ⟨first.stop, rest⟩) := by
  have own : Placed place n (place first.span) := ⟨_, tokenInside fits, rfl⟩
  simp only [itemFrom]
  split
  · exact (suffixesFine (s := {}) fits.tail (by simp)).map fun _ read => ⟨.stitch read.1 own, read.2⟩
  · split
    · split
      · exact regularFault _ rfl
      · exact ⟨.turn own, .none⟩
    · exact ⟨.turn own, .none⟩
  · rename_i key kind
    exact ⟨.color (fits.keys first List.mem_cons_self key kind) own, .none⟩
  · refine (attachedRegular place _ first).bind fun r taken => ?_
    split
    · exact regularFault _ rfl
    · exact ⟨.seek ⟨_, reachInside fits taken, rfl⟩, taken⟩
  all_goals exact regularFault _ rfl

theorem separatedRegular (c : Cursor) : Regular place (fun _ => True) (separated place c) := by
  unfold separated
  split
  · trivial
  · split
    · trivial
    · exact regularFault _ rfl

theorem linesFine {outer : List Waiting} (fits : c.Fits n known)
    (waiting : ∀ w ∈ outer, LinesFine (Placed place n) known w.level.done)
    (here : LinesFine (Placed place n) known level.done) :
    Regular place (LinesFine (Placed place n) known) (linesFrom place outer level c) := by
  fun_induction linesFrom place outer level c with
  | case1 => exact here
  | case2 => exact regularFault _ rfl
  | case3 outer level last t rest comma ih => exact ih fits.tail waiting here
  | case4 outer level last t rest newline ih => exact ih fits.tail waiting (endLineFine here)
  | case5 outer level last t rest bracket opens ih =>
    exact ih fits.tail (List.forall_mem_cons.mpr ⟨here, waiting⟩) emptyFine
  | case6 => exact regularFault _ rfl
  | case7 level last t rest w outer fault failed =>
    exact (suffixesFine (s := {}) fits.tail (by simp)).fault failed
  | case8 level last t rest w outer s after read node closes ih =>
    obtain ⟨dots, taken⟩ := (suffixesFine (s := {}) fits.tail (by simp)).value read
    obtain ⟨first, more⟩ := List.forall_mem_cons.mp waiting
    refine (separatedRegular after).bind fun _ _ => ?_
    exact ih (taken.fits fits.tail).1 more (putFine first (.group here dots))
  | case9 => exact regularFault _ rfl
  | case10 outer level last t rest fault failed => exact (itemFine fits).fault failed
  | case11 outer level last t rest node after read _ _ _ _ ih =>
    obtain ⟨fine, taken⟩ := (itemFine fits).value read
    refine (separatedRegular after).bind fun _ _ => ?_
    exact ih (taken.fits fits.tail).1 waiting (putFine here fine)

end

def Step.Fine (good : Span → Prop) (known : Nat → Prop) : Step → Prop
  | .item _ labels _ span => good span ∧ ∀ l ∈ labels, good l.span
  | .color key span => known key ∧ good span
  | .endLine => True

theorem lineStepsFrom {line : List Node} (member : step ∈ lineSteps s line) :
    ∃ node ∈ line, step ∈ nodeSteps s node := by
  induction line with
  | nil => cases member
  | cons node rest ih =>
    rw [lineSteps] at member
    rcases List.mem_append.mp member with here | there
    · exact ⟨node, List.mem_cons_self, here⟩
    · obtain ⟨other, inside, own⟩ := ih there
      exact ⟨other, List.mem_cons_of_mem _ inside, own⟩

theorem moreStepsFrom (member : step ∈ moreSteps s lines) :
    step = .endLine ∨ ∃ line ∈ lines, step ∈ lineSteps s line := by
  induction lines with
  | nil => cases member
  | cons line rest ih =>
    rw [moreSteps, List.cons_append] at member
    rcases List.mem_cons.mp member with newline | member
    · exact .inl newline
    rcases List.mem_append.mp member with here | there
    · exact .inr ⟨line, List.mem_cons_self, here⟩
    · rcases ih there with newline | ⟨other, inside, own⟩
      · exact .inl newline
      · exact .inr ⟨other, List.mem_cons_of_mem _ inside, own⟩

theorem linesStepsFrom (member : step ∈ linesSteps s lines) :
    step = .endLine ∨ ∃ line ∈ lines, ∃ node ∈ line, step ∈ nodeSteps s node := by
  cases lines with
  | nil => cases member
  | cons line rest =>
    rw [linesSteps] at member
    rcases List.mem_append.mp member with here | there
    · exact .inr ⟨line, List.mem_cons_self, lineStepsFrom here⟩
    · rcases moreStepsFrom there with newline | ⟨other, inside, own⟩
      · exact .inl newline
      · exact .inr ⟨other, List.mem_cons_of_mem _ inside, lineStepsFrom own⟩

section
variable {good : Span → Prop} {known : Nat → Prop}

theorem NodeFine.steps (fine : NodeFine good known node) (around : ∀ l ∈ s.labels, good l.span) :
    ∀ step ∈ nodeSteps s node, step.Fine good known := by
  have together : ∀ {s : Surround} {labels : List LabelDef} {attached : Option Attached},
      (∀ l ∈ s.labels, good l.span) → (∀ l ∈ labels, good l.span) →
      ∀ l ∈ (s.add labels attached).labels, good l.span := by
    intro s labels attached around own l member
    rcases List.mem_append.mp member with old | new
    · exact around l old
    · exact own l new
  induction fine generalizing s with
  | stitch dots own =>
    intro step member
    rw [nodeSteps] at member
    rw [List.mem_singleton.mp member]
    exact ⟨own, together around dots⟩
  | group _ dots ih =>
    intro step member
    rw [nodeSteps] at member
    rcases linesStepsFrom member with rfl | ⟨line, inside, node, own, step⟩
    · trivial
    · exact ih line inside node own (together around dots) _ step
  | turn own =>
    intro step member
    rw [nodeSteps] at member
    rw [List.mem_singleton.mp member]
    exact ⟨own, by simp⟩
  | seek own =>
    intro step member
    rw [nodeSteps] at member
    rw [List.mem_singleton.mp member]
    exact ⟨own, by simp⟩
  | color named own =>
    intro step member
    rw [nodeSteps] at member
    rw [List.mem_singleton.mp member]
    exact ⟨named, own⟩

theorem parsedFine {t : MappedText}
    (keys : ∀ token ∈ tokens (MappedText.chars t), ∀ key, token.kind = .color key → known key) :
    let place := MappedText.spanIn (MappedText.origins t)
    Regular place (fun lines => ∀ step ∈ linesSteps {} lines,
        step.Fine (Placed place (byteLength (MappedText.chars t))) known)
      (parseLines t) := by
  have ordered := scanOrdered [] (MappedText.chars t) (Nat.le_refl 0)
  rw [Nat.zero_add] at ordered
  refine (linesFine ⟨ordered, keys⟩ (by simp) emptyFine).mono fun lines fine step member => ?_
  rcases linesStepsFrom member with rfl | ⟨line, inside, node, own, step⟩
  · trivial
  · exact (fine line inside node own).steps (by simp) _ step

end
end Row
end Crochet
