import Crochet.Proofs.Repeat.Kept
import Crochet.Proofs.Source.Nested

/-! Text in which brackets and variable blocks close properly: a block is closed, and the brackets
in it are closed there. Groups of such text end where its brackets say, and its items are such text. -/
namespace Crochet.Repeat
open MappedText

/- What is open at a place: brackets outside all blocks and, in a block, the brackets opened in it. -/
structure Opened where
  outside : Nat
  block : Option Nat
  deriving DecidableEq, Repr

namespace Opened

def clear : Opened := ⟨0, none⟩

/- What is open behind one more character. If the text has to be `one` item, a separator outside all
brackets and blocks is refused. -/
def step (one : Bool) (o : Opened) (c : Char) : Option Opened :=
  match o.block with
  | none =>
    if c = '$' then some ⟨o.outside, some 0⟩
    else if isOpening c then some ⟨o.outside + 1, none⟩
    else if isClosing c then if o.outside = 0 then none else some ⟨o.outside - 1, none⟩
    else if one && isSeparator c && o.outside == 0 then none
    else some o
  | some depth =>
    if c = '$' then if depth = 0 then some ⟨o.outside, none⟩ else none
    else if isOpening c then some ⟨o.outside, some (depth + 1)⟩
    else if isClosing c then if depth = 0 then none else some ⟨o.outside, some (depth - 1)⟩
    else some o

def run (one : Bool) : Opened → List Char → Option Opened
  | o, [] => some o
  | o, c :: cs => (step one o c).bind fun e => run one e cs

inductive Step (one : Bool) : Opened → Char → Opened → Prop where
  | enter {k : Nat} : Step one ⟨k, none⟩ '$' ⟨k, some 0⟩
  | leave {k : Nat} : Step one ⟨k, some 0⟩ '$' ⟨k, none⟩
  | opening {k : Nat} {c : Char} (opens : isOpening c = true) : Step one ⟨k, none⟩ c ⟨k + 1, none⟩
  | closing {k : Nat} {c : Char} (closes : isClosing c = true) : Step one ⟨k + 1, none⟩ c ⟨k, none⟩
  | plain {k : Nat} {c : Char} (plain : isPlain c = true)
      (inside : (one && isSeparator c && k == 0) = false) : Step one ⟨k, none⟩ c ⟨k, none⟩
  | openingIn {k n : Nat} {c : Char} (opens : isOpening c = true) :
      Step one ⟨k, some n⟩ c ⟨k, some (n + 1)⟩
  | closingIn {k n : Nat} {c : Char} (closes : isClosing c = true) :
      Step one ⟨k, some (n + 1)⟩ c ⟨k, some n⟩
  | plainIn {k n : Nat} {c : Char} (plain : isPlain c = true) : Step one ⟨k, some n⟩ c ⟨k, some n⟩

end Opened

open Opened

def Tidy (cs : List Char) : Prop := run false clear cs = some clear

def Single (cs : List Char) : Prop := run true clear cs = some clear

instance (cs : List Char) : Decidable (Tidy cs) := inferInstanceAs (Decidable (_ = _))

variable {c : Char} {one : Bool} {o e : Opened}

theorem openingCases (opens : isOpening c = true) : ∃ b : Bracket, c = b.opening := by
  obtain ⟨b, found⟩ := Option.isSome_iff_exists.mp opens
  exact ⟨b, Bracket.openedIff.mp found⟩

theorem openingSole (opens : isOpening c = true) : c ≠ '$' ∧ isClosing c = false := by
  obtain ⟨b, rfl⟩ := openingCases opens
  exact (openingBracket b).2

theorem closingSole (closes : isClosing c = true) : c ≠ '$' ∧ isOpening c = false := by
  obtain ⟨b, found⟩ := Option.isSome_iff_exists.mp closes
  rw [Bracket.closedIff.mp found]
  exact (closingBracket b).2

variable {cs ds a r : List Char} {inside : Bool} {k d : Nat} {b : Option Nat} {g : Glyph}
  {t : MappedText}

theorem stepIff : step one o c = some e ↔ Step one o c e := by
  constructor
  · intro taken
    obtain ⟨k, block⟩ := o
    cases block with
    | none =>
      simp only [step] at taken
      split at taken
      · cases taken
        subst c
        exact .enter
      rename_i block
      split at taken
      · cases taken
        exact .opening ‹_›
      rename_i opening
      split at taken
      · rename_i closes
        cases k with
        | zero => cases taken
        | succ k => cases taken; exact .closing closes
      rename_i closing
      split at taken
      · cases taken
      · rename_i inside
        cases taken
        exact .plain (plainIff.mpr ⟨block, by simpa using opening, by simpa using closing⟩)
          (by simpa using inside)
    | some n =>
      simp only [step] at taken
      split at taken
      · subst c
        cases n with
        | zero => cases taken; exact .leave
        | succ n => cases taken
      rename_i block
      split at taken
      · cases taken
        exact .openingIn ‹_›
      rename_i opening
      split at taken
      · rename_i closes
        cases n with
        | zero => cases taken
        | succ n => cases taken; exact .closingIn closes
      · rename_i closing
        cases taken
        exact .plainIn (plainIff.mpr ⟨block, by simpa using opening, by simpa using closing⟩)
  · intro taken
    cases taken with
    | enter => rfl
    | leave => rfl
    | opening opens => simp [step, opens, openingSole opens]
    | closing closes => simp [step, closes, closingSole closes]
    | plain plain inside =>
      obtain ⟨block, opening, closing⟩ := plainIff.mp plain
      simp only [step, block, opening, closing, inside, if_false, Bool.false_eq_true]
    | openingIn opens => simp [step, opens, openingSole opens]
    | closingIn closes => simp [step, closes, closingSole closes]
    | plainIn plain =>
      obtain ⟨block, opening, closing⟩ := plainIff.mp plain
      simp [step, block, opening, closing]

theorem runCons :
    run one o (c :: cs) = some e ↔ ∃ m, Step one o c m ∧ run one m cs = some e := by
  simp only [run, Option.bind_eq_some_iff, stepIff]

theorem runAppend (one : Bool) (o : Opened) (cs ds : List Char) :
    run one o (cs ++ ds) = (run one o cs).bind fun m => run one m ds := by
  induction cs generalizing o with
  | nil => rfl
  | cons c cs ih =>
    simp only [List.cons_append, run, Option.bind_assoc]
    congr 1
    exact funext ih

theorem runParts :
    run one o (cs ++ ds) = some e ↔ ∃ m, run one o cs = some m ∧ run one m ds = some e := by
  rw [runAppend, Option.bind_eq_some_iff]

theorem stepPlain (plain : isPlain c = true) (inside : isSeparator c = false) (one : Bool)
    (o : Opened) : step one o c = some o := by
  obtain ⟨k, block⟩ := o
  rw [stepIff]
  cases block with
  | none => exact .plain plain (by simp [inside])
  | some n => exact .plainIn plain

theorem runPlain (plain : ∀ c ∈ cs, isPlain c = true ∧ isSeparator c = false) (one : Bool)
    (o : Opened) (ds : List Char) : run one o (cs ++ ds) = run one o ds := by
  induction cs with
  | nil => rfl
  | cons c cs ih =>
    obtain ⟨here, inside⟩ := plain c List.mem_cons_self
    rw [List.cons_append, run, stepPlain here inside]
    exact ih fun d among => plain d (List.mem_cons_of_mem _ among)

theorem stepDeeper {m : Nat} {b' : Option Nat} (within : inside = true → 0 < d)
    (taken : Step one ⟨k, b⟩ c ⟨m, b'⟩) :
    Step inside ⟨k + d, b⟩ c ⟨m + d, b'⟩ := by
  cases taken with
  | enter => exact .enter
  | leave => exact .leave
  | opening opens =>
    rw [Nat.add_right_comm]
    exact .opening opens
  | closing closes =>
    rw [Nat.add_right_comm]
    exact .closing closes
  | plain plain _ =>
    refine .plain plain ?_
    cases inside with
    | false => rfl
    | true =>
      have deep := within rfl
      have nonzero : (k + d == 0) = false := by
        rw [beq_eq_false_iff_ne]
        omega
      rw [nonzero, Bool.and_false]
  | openingIn opens => exact .openingIn opens
  | closingIn closes => exact .closingIn closes
  | plainIn plain => exact .plainIn plain

theorem runDeeper (within : inside = true → 0 < d) (ok : run one o cs = some e) :
    run inside ⟨o.outside + d, o.block⟩ cs = some ⟨e.outside + d, e.block⟩ := by
  induction cs generalizing o with
  | nil =>
    cases ok
    rfl
  | cons c cs ih =>
    obtain ⟨m, taken, more⟩ := runCons.mp ok
    exact runCons.mpr ⟨_, stepDeeper within taken, ih more⟩

theorem singleTidy (single : Single cs) : Tidy cs :=
  runDeeper (d := 0) (by simp) single

theorem tidyAppend (first : Tidy cs) (second : Tidy ds) : Tidy (cs ++ ds) :=
  runParts.mpr ⟨clear, first, second⟩

theorem stepItem (taken : Step false o c e) :
    Step true o c e ∨ isSeparator c = true ∧ o = clear ∧ e = clear := by
  cases taken with
  | enter => exact .inl .enter
  | leave => exact .inl .leave
  | opening opens => exact .inl (.opening opens)
  | closing closes => exact .inl (.closing closes)
  | @plain k c plain _ =>
    cases separates : isSeparator c && k == 0 with
    | false => exact .inl (.plain plain (by simpa using separates))
    | true =>
      obtain ⟨mark, zero⟩ := Bool.and_eq_true_iff.mp separates
      cases beq_iff_eq.mp zero
      exact .inr ⟨mark, rfl, rfl⟩
  | openingIn opens => exact .inl (.openingIn opens)
  | closingIn closes => exact .inl (.closingIn closes)
  | plainIn plain => exact .inl (.plainIn plain)

theorem itemsStep {rest : MappedText} (taken : Step true o g.char e) :
    itemsFrom o.outside o.block.isSome (g :: rest) =
      growFirst g (itemsFrom e.outside e.block.isSome rest) := by
  obtain ⟨c, source⟩ := g
  cases taken with
  | enter => rfl
  | leave => rfl
  | opening opens => simp [itemsFrom, opens, openingSole opens]
  | closing closes => simp [itemsFrom, closes, closingSole closes]
  | plain plain inside => exact itemsPlain plain (by simpa using inside)
  | openingIn opens => simp [itemsFrom, openingSole opens]
  | closingIn closes => simp [itemsFrom, closingSole closes]
  | plainIn plain => simp [itemsFrom, (plainIff.mp plain).1]

theorem itemsRun (ok : run true o (chars t) = some e) (rest : MappedText) :
    itemsFrom o.outside o.block.isSome (t ++ rest) =
      grown t (itemsFrom e.outside e.block.isSome rest) := by
  induction t generalizing o with
  | nil =>
    cases ok
    rfl
  | cons g t ih =>
    obtain ⟨m, taken, more⟩ := runCons.mp ok
    rw [List.cons_append, itemsStep taken, ih more]
    rfl

inductive Chained (P : MappedText → Prop) : List Item → Prop where
  | last {text : MappedText} (holds : P text) : Chained P [⟨text, none⟩]
  | link {text : MappedText} {g : Glyph} {rope : List Item} (separates : isSeparator g.char = true)
      (holds : P text) (rest : Chained P rope) : Chained P (⟨text, some g⟩ :: rope)

section
variable {P Q : MappedText → Prop} {rope : List Item}

theorem Chained.each (chained : Chained P rope) : ∀ item ∈ rope, P item.text := by
  induction chained with
  | last holds => simpa using holds
  | link _ holds _ ih => simpa using ⟨holds, ih⟩

theorem Chained.of (chained : Chained P rope) (each : ∀ item ∈ rope, Q item.text) :
    Chained Q rope := by
  induction chained with
  | last _ => exact .last (each _ List.mem_cons_self)
  | link separates _ _ ih =>
    exact .link separates (each _ List.mem_cons_self)
      (ih fun item among => each item (List.mem_cons_of_mem _ among))

theorem Chained.mono (chained : Chained P rope) (wider : ∀ t, P t → Q t) : Chained Q rope :=
  chained.of fun item among => wider item.text (chained.each item among)

theorem chainedTidy (chained : Chained (Single ∘ chars) rope) : Tidy (chars (ropeText rope)) := by
  induction chained with
  | last single => simpa [ropeText] using singleTidy single
  | @link text g rope separates single _ ih =>
    have mark : Tidy [g.char] := runCons.mpr ⟨_, .plain (separatorPlain separates) rfl, rfl⟩
    have whole := tidyAppend (singleTidy single) (tidyAppend mark ih)
    simpa [ropeText, chars] using whole

theorem chainedItems (chained : Chained (Single ∘ chars) rope) : items (ropeText rope) = rope := by
  induction chained with
  | @last text single =>
    have cut : items (text ++ []) = grown text (items []) := itemsRun single []
    have whole : ropeText [⟨text, none⟩] = text ++ [] := by simp [ropeText]
    rw [whole, cut, items, itemsFrom, grownCons, List.append_nil]
  | @link text g rope separates single _ ih =>
    have cut : items (text ++ g :: ropeText rope) = grown text (items (g :: ropeText rope)) :=
      itemsRun single _
    have mark : items (g :: ropeText rope) = ⟨[], some g⟩ :: items (ropeText rope) :=
      itemsSeparator separates
    have whole : ropeText (⟨text, some g⟩ :: rope) = text ++ g :: ropeText rope := by
      simp [ropeText]
    rw [whole, cut, mark, ih, grownCons, List.append_nil]

end

theorem itemsFromChained (tidy : run false o (chars t) = some clear) :
    ∃ text separator more, itemsFrom o.outside o.block.isSome t = ⟨text, separator⟩ :: more ∧
      run true o (chars text) = some clear ∧
        ∀ front, Single (chars (front ++ text)) →
          Chained (Single ∘ chars) (⟨front ++ text, separator⟩ :: more) := by
  induction t generalizing o with
  | nil =>
    cases tidy
    exact ⟨[], none, [], rfl, rfl, fun front single => .last single⟩
  | cons g t ih =>
    obtain ⟨m, taken, more⟩ := runCons.mp tidy
    obtain ⟨text, separator, others, cut, ends, chain⟩ := ih more
    rcases stepItem taken with onward | ⟨separates, rfl, rfl⟩
    · refine ⟨g :: text, separator, others, ?_, runCons.mpr ⟨m, onward, ends⟩, ?_⟩
      · rw [itemsStep onward, cut]
        rfl
      · intro front single
        have moved : front ++ g :: text = (front ++ [g]) ++ text := by simp
        rw [moved] at single ⊢
        exact chain _ single
    · refine ⟨[], some g, ⟨text, separator⟩ :: others, ?_, rfl, ?_⟩
      · rw [← cut]
        exact itemsSeparator separates
      · intro front single
        exact .link separates single (chain [] ends)

theorem itemsChained (tidy : Tidy (chars t)) :
    Chained (Single ∘ chars) (items t) := by
  obtain ⟨text, separator, more, cut, ends, chain⟩ := itemsFromChained tidy
  have same : items t = ⟨text, separator⟩ :: more := cut
  rw [same]
  exact chain [] ends

theorem itemsWhole (t : MappedText) : ropeText (items t) = t := (itemsFromLaid 0 false t).2

theorem singleTrim (single : Single (chars t)) : trimCommas t = t := by
  obtain ⟨commas, parts, all⟩ := trimParts t
  rcases List.eq_nil_or_concat commas with rfl | ⟨front, g, rfl⟩
  · rw [List.append_nil] at parts
    exact parts.symm
  · have comma : g.char = ',' := all g (by simp)
    have ending : chars t = chars (trimCommas t ++ front) ++ [','] := by
      rw [← comma]
      conv_lhs => rw [parts]
      simp [chars]
    rw [Single, ending, runParts] at single
    obtain ⟨m, _, last⟩ := single
    obtain ⟨e, taken, done⟩ := runCons.mp last
    cases done
    cases taken with
    | closing closes => cases closes
    | plain _ inside => cases inside

def Opened.depth (o : Opened) : Nat := o.outside + o.block.getD 0

theorem groupEndStep (taken : Step false o g.char e) (rest : MappedText) :
    groupEnd o.depth (g :: rest) = (groupEnd e.depth rest).map fun (inner, closing, after) =>
      (g :: inner, closing, after) := by
  obtain ⟨c, source⟩ := g
  cases taken with
  | enter => rfl
  | leave => rfl
  | opening opens => simp [groupEnd, opens, Opened.depth]
  | closing closes => simp [groupEnd, closes, closingSole closes, Opened.depth]
  | plain plain _ => simp [groupEnd, plainIff.mp plain, Opened.depth]
  | openingIn opens => simp [groupEnd, opens, Opened.depth, Nat.add_assoc]
  | @closingIn k n _ closes =>
    simp [groupEnd, closes, closingSole closes, Opened.depth, ← Nat.add_assoc]
  | plainIn plain => simp [groupEnd, plainIff.mp plain, Opened.depth]

/- One bracket less is open until that bracket is closed. -/
theorem stepShallower (taken : Step one ⟨k + 1, b⟩ c e) :
    (∃ m, e = ⟨m.outside + 1, m.block⟩ ∧ Step false ⟨k, b⟩ c m) ∨
      isClosing c = true ∧ k = 0 ∧ b = none ∧ e = clear := by
  cases taken with
  | enter => exact .inl ⟨⟨k, some 0⟩, rfl, .enter⟩
  | leave => exact .inl ⟨⟨k, none⟩, rfl, .leave⟩
  | opening opens => exact .inl ⟨⟨k + 1, none⟩, rfl, .opening opens⟩
  | closing closes =>
    cases k with
    | zero => exact .inr ⟨closes, rfl, rfl, rfl⟩
    | succ k => exact .inl ⟨⟨k, none⟩, rfl, .closing closes⟩
  | plain plain _ => exact .inl ⟨⟨k, none⟩, rfl, .plain plain rfl⟩
  | @openingIn _ n _ opens => exact .inl ⟨⟨k, some (n + 1)⟩, rfl, .openingIn opens⟩
  | @closingIn _ n _ closes => exact .inl ⟨⟨k, some n⟩, rfl, .closingIn closes⟩
  | @plainIn _ n _ plain => exact .inl ⟨⟨k, some n⟩, rfl, .plainIn plain⟩

theorem groupEndTidy {inner after : MappedText} {closing : Glyph}
    (found : groupEnd o.depth t = some (inner, closing, after))
    (ok : run one ⟨o.outside + 1, o.block⟩ (chars t) = some e) :
    run false o (chars inner) = some clear ∧ run one clear (chars after) = some e := by
  induction t generalizing o inner with
  | nil => cases found
  | cons g t ih =>
    obtain ⟨m, taken, more⟩ := runCons.mp ok
    rcases stepShallower taken with ⟨n, rfl, within⟩ | ⟨closes, zero, out, rfl⟩
    · rw [groupEndStep within] at found
      obtain ⟨⟨i, c, a⟩, part, same⟩ := Option.map_eq_some_iff.mp found
      cases same
      obtain ⟨inside, behind⟩ := ih part more
      exact ⟨runCons.mpr ⟨n, within, inside⟩, behind⟩
    · obtain ⟨outside, block⟩ := o
      cases zero
      cases out
      have ends : groupEnd 0 (g :: t) = some ([], g, t) := by
        simp [groupEnd, closes, closingSole closes]
      cases found.symm.trans ends
      exact ⟨rfl, more⟩

theorem groupEndAgain {closing : Glyph} (tidy : run false o (chars t) = some clear)
    (closes : isClosing closing.char = true) (after : MappedText) :
    groupEnd o.depth (t ++ closing :: after) = some (t, closing, after) := by
  induction t generalizing o with
  | nil =>
    cases tidy
    simp [Opened.depth, clear, groupEnd, closes, closingSole closes]
  | cons g t ih =>
    obtain ⟨m, taken, more⟩ := runCons.mp tidy
    rw [List.cons_append, groupEndStep taken, ih more]
    rfl

theorem tidyClosed (tidy : Tidy a) (closes : isClosing c = true) :
    ¬ Tidy (a ++ c :: r) := by
  intro longer
  obtain ⟨m, here, more⟩ := runParts.mp longer
  cases tidy.symm.trans here
  obtain ⟨e, taken, _⟩ := runCons.mp more
  cases taken with
  | enter => cases closes
  | opening opens =>
    rw [(openingSole opens).2] at closes
    cases closes
  | plain plain _ =>
    rw [(plainIff.mp plain).2.2] at closes
    cases closes

theorem tidyFront {b s : List Char} {d : Char} (first : Tidy a) (second : Tidy b)
    (closes : isClosing c = true) (closes' : isClosing d = true) (same : a ++ c :: r = b ++ d :: s) :
    a = b := by
  rcases List.append_eq_append_iff.mp same with ⟨more, rfl, behind⟩ | ⟨more, rfl, behind⟩
  · cases more with
    | nil => simp
    | cons x more =>
      cases behind
      exact absurd second (tidyClosed first closes)
  · cases more with
    | nil => simp
    | cons x more =>
      cases behind
      exact absurd first (tidyClosed second closes')

end Crochet.Repeat
