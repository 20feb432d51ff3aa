import Crochet.Proofs.Decimal.Whole
import Crochet.Proofs.Text.Boundary
import Crochet.Proofs.Token.Rescan
import Crochet.Token.Stream

/-! Tokens tile their text: they stand in it one behind another, each as long as it can be, and only
blanks are left between them. Taking them one by one gives the same tokens, however often the next one
is looked at. -/
namespace Crochet.Token
open Text

def markChars : List Char := "[]()\x7b\x7d,\n.@:;+-!^~%*/".toList

inductive IsLexeme : List Char → Prop where
  | number {ds : List Char} (digits : ∀ d ∈ ds, d.isDigit = true) (some : ds ≠ []) : IsLexeme ds
  | fraction {ds fs : List Char} (digits : ∀ d ∈ ds, d.isDigit = true) (some : ds ≠ [])
      (fraction : ∀ d ∈ fs, d.isDigit = true) (more : fs ≠ []) : IsLexeme (ds ++ '.' :: fs)
  | name {c : Char} {cs : List Char} (start : isNameStart c = true)
      (chars : ∀ d ∈ cs, isNameChar d = true) : IsLexeme (c :: cs)
  | color {key : List Char} (digits : ∀ d ∈ key, d.isDigit = true) (some : key ≠ []) :
      IsLexeme ("COLOR:".toList ++ key)
  | mark {c : Char} (known : c ∈ markChars) : IsLexeme [c]

/- Tokens one behind another in a text that starts at byte `offset`. -/
inductive Tiled : Nat → List Char → List Token → Prop where
  | blanks {offset : Nat} {blanks : List Char} (all : ∀ c ∈ blanks, isSkipped c = true) :
      Tiled offset blanks []
  | token {offset : Nat} {blanks more : List Char} {t : Token} {ts : List Token}
      (all : ∀ c ∈ blanks, isSkipped c = true) (start : t.start = offset + byteLength blanks)
      (lexed : Lexed t.lexeme t.kind more) (rest : Tiled t.stop more ts) :
      Tiled offset (blanks ++ (t.lexeme ++ more)) (t :: ts)

variable {c : Char}

theorem Tiled.skip {offset : Nat} {cs : List Char} {ts : List Token} (blank : isSkipped c = true)
    (tiled : Tiled (offset + c.utf8Size) cs ts) :
    Tiled offset (c :: cs) ts := by
  cases tiled with
  | blanks all => exact .blanks (List.forall_mem_cons.mpr ⟨blank, all⟩)
  | token all start lexed rest =>
    exact .token (List.forall_mem_cons.mpr ⟨blank, all⟩) (start.trans (Nat.add_assoc _ _ _)) lexed rest

theorem scanTiled (offset : Nat) (lead cs : List Char) : Tiled offset cs (scan offset lead cs) := by
  fun_induction scan offset lead cs with
  | case1 offset lead => exact .blanks (by simp)
  | case2 offset lead c cs skipped ih => exact ih.skip skipped
  | case3 offset lead c cs visible kind n found lexeme ih =>
    obtain ⟨tail, rest, kind', rfl, lexed⟩ := lexedAt c cs
    obtain ⟨rfl, rfl⟩ := Prod.mk.inj ((recognises lexed).symm.trans found)
    have taken : lexeme = c :: tail := by simp [lexeme]
    rw [List.drop_left, taken] at ih ⊢
    exact @Tiled.token offset [] rest ⟨kind', lead, c :: tail, offset⟩ _ (by simp) rfl lexed ih

section
variable {cs : List Char} (lexeme : IsLexeme (c :: cs))
include lexeme

theorem lexemeDigit (digit : c.isDigit = true) : (∀ d ∈ cs, d.isDigit = true) ∨
    ∃ ds fs, cs = ds ++ '.' :: fs ∧ (∀ d ∈ ds, d.isDigit = true) ∧ (∀ d ∈ fs, d.isDigit = true) ∧
      fs ≠ [] := by
  generalize whole : c :: cs = word at lexeme
  cases lexeme with
  | number digits some =>
    subst whole
    exact .inl fun d member => digits d (List.mem_cons_of_mem _ member)
  | @fraction ds fs digits some fraction more =>
    cases ds with
    | nil => exact absurd rfl some
    | cons e ds =>
      cases whole
      exact .inr ⟨ds, fs, rfl, fun d member => digits d (List.mem_cons_of_mem _ member), fraction, more⟩
  | name start chars =>
    cases whole
    rw [startNoDigit start] at digit
    cases digit
  | color digits some =>
    cases (List.cons.inj whole).1
    cases digit
  | mark known =>
    cases whole
    exact .inl (by simp)

theorem lexemeNoDigit (noDigit : c.isDigit = false) :
    (isNameStart c = true ∧ ∀ d ∈ cs, isNameChar d = true) ∨
    (∃ key, c :: cs = "COLOR".toList ++ ':' :: key ∧ (∀ d ∈ key, d.isDigit = true) ∧ key ≠ []) ∨
    cs = [] ∧ c ∈ markChars := by
  generalize whole : c :: cs = word at lexeme
  cases lexeme with
  | number digits some =>
    subst whole
    rw [digits c List.mem_cons_self] at noDigit
    cases noDigit
  | @fraction ds fs digits some fraction more =>
    cases ds with
    | nil => exact absurd rfl some
    | cons e ds =>
      cases whole
      rw [digits c List.mem_cons_self] at noDigit
      cases noDigit
  | name start chars =>
    cases whole
    exact .inl ⟨start, chars⟩
  | @color key digits some => exact .inr (.inl ⟨key, rfl, digits, some⟩)
  | mark known =>
    cases whole
    exact .inr (.inr ⟨rfl, known⟩)

theorem lexemeStart (start : isNameStart c = true) : (∀ d ∈ cs, isNameChar d = true) ∨
    ∃ key, c :: cs = "COLOR".toList ++ ':' :: key ∧ (∀ d ∈ key, d.isDigit = true) ∧ key ≠ [] := by
  rcases lexemeNoDigit lexeme (startNoDigit start) with ⟨_, chars⟩ | color | ⟨rfl, _⟩
  · exact .inl chars
  · exact .inr color
  · exact .inl (by simp)

theorem lexemeMark (noDigit : c.isDigit = false) (noStart : isNameStart c = false) :
    cs = [] ∧ c ∈ markChars := by
  rcases lexemeNoDigit lexeme noDigit with ⟨start, _⟩ | ⟨key, color, _⟩ | mark
  · rw [start] at noStart
    cases noStart
  · cases (List.cons.inj color).1
    cases noStart
  · exact mark

end

theorem runEnd {p : Char → Bool} {xs ys as bs : List Char} {x y : Char} (first : ∀ c ∈ xs, p c = true)
    (second : ∀ c ∈ ys, p c = true) (stop : p x = false) (stop' : p y = false)
    (same : xs ++ x :: as = ys ++ y :: bs) : xs = ys ∧ x = y ∧ as = bs := by
  have stops {c : Char} {cs : List Char} (stop : p c = false) : Stops p (c :: cs) := by
    rintro _ ⟨⟩
    exact stop
  have runs := (takeRun first (stops stop)).symm.trans
    ((congrArg (runOf p) same).trans (takeRun second (stops stop')))
  obtain ⟨rfl, rest⟩ := Prod.mk.inj runs
  exact ⟨rfl, List.cons.inj rest⟩

variable {w rest : List Char} {kind : Kind}

theorem lexedLongest (lexed : Lexed w kind rest) {more tail : List Char}
    (goes : rest = c :: (more ++ tail)) : ¬ IsLexeme (w ++ c :: more) := by
  subst goes
  intro lexeme
  cases lexed with
  | number first digits stops =>
    have stop := stops.digit c rfl
    rcases lexemeDigit lexeme first with all | ⟨ds, fs, same, front, fraction, some⟩
    · rw [all c (by simp)] at stop
      cases stop
    · obtain ⟨rfl, rfl, rfl⟩ := runEnd digits front stop rfl same
      cases more with
      | nil => exact some rfl
      | cons d more =>
        have behind := stops.point _ rfl d rfl
        rw [fraction d List.mem_cons_self] at behind
        cases behind
  | fraction first digits fraction _ stops =>
    have stop := stops c rfl
    rcases lexemeDigit lexeme first with all | ⟨ds, fs, same, front, behind, _⟩
    · have point := all '.' (by simp)
      cases point
    · obtain ⟨rfl, _, rfl⟩ := runEnd digits front rfl rfl (by simpa using same)
      rw [behind c (by simp)] at stop
      cases stop
  | @word first cs _ start chars stops bare =>
    have stop := stops c rfl
    rcases lexemeStart lexeme start with all | ⟨key, same, digits, some⟩
    · rw [all c (by simp)] at stop
      cases stop
    · have letters : ∀ d ∈ "COLOR".toList, isNameChar d = true := List.all_eq_true.mp rfl
      have names : ∀ d ∈ first :: cs, isNameChar d = true :=
        List.forall_mem_cons.mpr ⟨startNameChar start, chars⟩
      obtain ⟨word, rfl, rfl⟩ := runEnd names letters stop rfl same
      cases more with
      | nil => exact some rfl
      | cons d more =>
        have behind := bare word _ rfl d rfl
        rw [digits d List.mem_cons_self] at behind
        cases behind
  | @color key _ _ _ stops =>
    have stop := stops c rfl
    rcases lexemeStart lexeme rfl with all | ⟨key', same, digits, _⟩
    · have colon := all ':' (by simp)
      cases colon
    · have same : "COLOR:".toList ++ (key ++ c :: more) = "COLOR:".toList ++ key' := same
      rw [← List.append_cancel_left same] at digits
      rw [digits c (by simp)] at stop
      cases stop
  | mark noDigit noStart =>
    have alone := (lexemeMark lexeme noDigit noStart).1
    cases alone

theorem markKnown (c : Char) : markKind c = .invalid ↔ c ∉ markChars := by
  have listed : markChars = ['[', ']', '(', ')', '\x7b', '\x7d', ',', '\n', '.', '@', ':', ';', '+',
    '-', '!', '^', '~', '%', '*', '/'] := rfl
  simp only [listed, List.mem_cons, List.not_mem_nil, or_false]
  constructor
  · intro invalid known
    rcases known with rfl | rfl | rfl | rfl | rfl | rfl | rfl | rfl | rfl | rfl | rfl | rfl | rfl |
      rfl | rfl | rfl | rfl | rfl | rfl | rfl <;> cases invalid
  · intro unknown
    simp only [not_or] at unknown
    simp [markKind, Bracket.opened?, Bracket.closed?, unknown]

theorem numberValid {literal : List Char} {x : Float} (reads : Decimal.realOf literal = .ok x) :
    numberKind literal ≠ .invalid := by
  rw [numberKind, reads]
  rintro ⟨⟩

theorem realFraction {ds fs : List Char} (first : c.isDigit = true)
    (digits : ∀ d ∈ ds, d.isDigit = true) (fraction : ∀ d ∈ fs, d.isDigit = true) :
    ∃ x, Decimal.realOf (c :: (ds ++ '.' :: fs)) = .ok x := by
  have whole : runOf Char.isDigit (c :: (ds ++ '.' :: fs)) = (c :: ds, '.' :: fs) := by
    have front : ∀ d ∈ c :: ds, d.isDigit = true := List.forall_mem_cons.mpr ⟨first, digits⟩
    exact takeRun front (by rintro _ ⟨⟩; rfl)
  have behind : runOf Char.isDigit fs = (fs, []) := by
    have ends : Stops Char.isDigit [] := by rintro _ ⟨⟩
    have run := takeRun fraction ends
    rwa [List.append_nil] at run
  have plain : Decimal.unsigned? (c :: (ds ++ '.' :: fs)) =
      some (Decimal.scaled (c :: ds ++ fs) (0 - fs.length)) := by
    simp [Decimal.unsigned?, whole, behind, Decimal.exponent?]
  exact ⟨_, Decimal.realLead first plain⟩

theorem lexedLexeme (lexed : Lexed w kind rest) :
    IsLexeme w ∨ kind = .invalid := by
  cases lexed with
  | number first digits stops =>
    exact .inl (.number (List.forall_mem_cons.mpr ⟨first, digits⟩) (by simp))
  | fraction first digits fraction some stops =>
    exact .inl (.fraction (List.forall_mem_cons.mpr ⟨first, digits⟩) (by simp) fraction some)
  | word start chars stops bare => exact .inl (.name start chars)
  | color digits some stops => exact .inl (.color digits some)
  | @mark c _ noDigit noStart =>
    by_cases known : c ∈ markChars
    · exact .inl (.mark known)
    · exact .inr ((markKnown c).mpr known)

def Strange (w : List Char) : Prop := ∃ c, w = [c] ∧ ∀ word, IsLexeme word → word.head? ≠ some c

def Oversized (w : List Char) : Prop := ∃ key, w = "COLOR:".toList ++ key ∧ key ≠ [] ∧
  (∀ d ∈ key, d.isDigit = true) ∧ 2 ^ 64 ≤ Decimal.digitsValue key

theorem lexemeFamiliar (lexeme : IsLexeme w) : ¬ Strange w := by
  rintro ⟨c, rfl, none⟩
  exact none [c] lexeme rfl

theorem oversizedStart {cs : List Char} (oversized : Oversized (c :: cs)) :
    c = 'C' ∧ ':' ∈ cs := by
  obtain ⟨key, same, _⟩ := oversized
  have same : c :: cs = 'C' :: ("OLOR:".toList ++ key) := same
  cases same
  simp

theorem colorInvalid {key : List Char} :
    colorKind key = .invalid ↔ 2 ^ 64 ≤ Decimal.digitsValue key := by
  change _ ↔ Decimal.wordLimit ≤ Decimal.digitsValue key
  rw [← Nat.not_lt]
  by_cases fits : Decimal.digitsValue key < Decimal.wordLimit <;>
    simp [colorKind, Decimal.below?, fits]

theorem lexedInvalid (lexed : Lexed w kind rest) :
    kind = .invalid ↔ Strange w ∨ Oversized w := by
  have valid {w : List Char} {kind : Kind} (right : kind ≠ .invalid) (lexeme : IsLexeme w)
      (fits : ¬ Oversized w) : kind = .invalid ↔ Strange w ∨ Oversized w :=
    ⟨fun invalid => absurd invalid right, fun either =>
      (either.elim (lexemeFamiliar lexeme) fits).elim⟩
  cases lexed with
  | @number c ds _ first digits stops =>
    have all : ∀ d ∈ c :: ds, d.isDigit = true := List.forall_mem_cons.mpr ⟨first, digits⟩
    refine valid (numberValid (Decimal.realDigits all (by simp))) (.number all (by simp)) fun big => ?_
    cases (oversizedStart big).1
    cases first
  | @fraction c ds _ _ first digits fraction some stops =>
    obtain ⟨x, reads⟩ := realFraction first digits fraction
    have front : ∀ d ∈ c :: ds, d.isDigit = true := List.forall_mem_cons.mpr ⟨first, digits⟩
    refine valid (numberValid reads) (.fraction front (by simp) fraction some) fun big => ?_
    cases (oversizedStart big).1
    cases first
  | word start chars stops bare =>
    refine valid (by split <;> rintro ⟨⟩) (.name start chars) fun big => ?_
    have colon := chars ':' (oversizedStart big).2
    cases colon
  | @color key _ digits some stops =>
    have same : Oversized ("COLOR:".toList ++ key) ↔ 2 ^ 64 ≤ Decimal.digitsValue key := by
      refine ⟨?_, fun big => ⟨key, rfl, some, digits, big⟩⟩
      rintro ⟨key', same, _, _, big⟩
      rwa [List.append_cancel_left same]
    have familiar : ¬ Strange ("COLOR:".toList ++ key) := lexemeFamiliar (.color digits some)
    exact colorInvalid.trans (same.symm.trans (or_iff_right familiar).symm)
  | @mark c _ noDigit noStart =>
    have fits : ¬ Oversized [c] := fun big => by cases (oversizedStart big).2
    rw [markKnown, or_iff_left fits]
    constructor
    · intro unknown
      refine ⟨c, rfl, fun word lexeme first => unknown ?_⟩
      obtain ⟨rest, rfl⟩ := List.head?_eq_some_iff.mp first
      exact (lexemeMark lexeme noDigit noStart).2
    · intro strange known
      exact lexemeFamiliar (.mark known) strange

theorem blankAt {blanks : List Char} (all : ∀ c ∈ blanks, isSkipped c = true) {i : Nat}
    (inside : i < byteLength blanks) : ∃ c, BeginsAt blanks c i ∧ isSkipped c = true := by
  induction blanks generalizing i with
  | nil => exact absurd inside (Nat.not_lt_zero _)
  | cons b blanks ih =>
    obtain ⟨blank, later⟩ := List.forall_mem_cons.mp all
    have narrow : b.utf8Size = 1 := by
      simp only [isSkipped, Bool.or_eq_true, beq_iff_eq] at blank
      rcases blank with (rfl | rfl) | rfl <;> rfl
    cases i with
    | zero => exact ⟨b, ⟨[], blanks, rfl, rfl⟩, blank⟩
    | succ i =>
      rw [byteLengthCons, narrow] at inside
      obtain ⟨c, ⟨before, after, rfl, size⟩, skipped⟩ := ih later (by omega : i < byteLength blanks)
      refine ⟨c, ⟨b :: before, after, rfl, ?_⟩, skipped⟩
      rw [byteLengthCons, narrow, size, Nat.add_comm]

structure Stands (offset : Nat) (text : List Char) (t : Token) (before after : List Char) : Prop where
  parts : text = before ++ (t.lexeme ++ after)
  start : t.start = offset + byteLength before
  lexed : Lexed t.lexeme t.kind after

namespace Tiled
variable {offset : Nat} {text : List Char} {ts : List Token}

theorem placed (tiled : Tiled offset text ts) : ∀ t ∈ ts, ∃ before after,
    Stands offset text t before after := by
  induction tiled with
  | blanks all => simp
  | @token offset blanks more t ts all start lexed rest ih =>
    refine List.forall_mem_cons.mpr ⟨⟨blanks, more, rfl, start, lexed⟩, ?_⟩
    intro u member
    obtain ⟨before, after, rfl, start', lexed'⟩ := ih u member
    refine ⟨blanks ++ (t.lexeme ++ before), after, by simp, ?_, lexed'⟩
    rw [start', stop, start, byteLengthAppend, byteLengthAppend]
    omega

theorem apart (tiled : Tiled offset text ts) : ts.Pairwise fun a b => a.stop ≤ b.start := by
  induction tiled with
  | blanks all => exact .nil
  | token all start lexed rest ih =>
    refine .cons (fun u member => ?_) ih
    obtain ⟨before, after, stands⟩ := rest.placed u member
    rw [stands.start]
    exact Nat.le_add_right _ _

theorem gaps (tiled : Tiled offset text ts) {i : Nat} (inside : i < byteLength text)
    (bare : ∀ t ∈ ts, offset + i < t.start ∨ t.stop ≤ offset + i) :
    ∃ c, BeginsAt text c i ∧ isSkipped c = true := by
  induction tiled generalizing i with
  | blanks all => exact blankAt all inside
  | @token offset blanks more t ts all start lexed rest ih =>
    obtain ⟨here, later⟩ := List.forall_mem_cons.mp bare
    rcases here with before | behind
    · obtain ⟨c, ⟨front, after, rfl, size⟩, blank⟩ := blankAt all (i := i) (by omega)
      exact ⟨c, ⟨front, after ++ (t.lexeme ++ more), by simp, size⟩, blank⟩
    · have wide : t.stop = offset + byteLength (blanks ++ t.lexeme) := by
        rw [stop, start, byteLengthAppend, Nat.add_assoc]
      rw [← List.append_assoc, byteLengthAppend] at inside
      obtain ⟨c, ⟨front, after, rfl, size⟩, blank⟩ := ih (i := i - byteLength (blanks ++ t.lexeme))
        (by omega) fun u member => by have := later u member; omega
      refine ⟨c, ⟨blanks ++ t.lexeme ++ front, after, by simp, ?_⟩, blank⟩
      rw [byteLengthAppend, size]
      omega

end Tiled

/- Tokens of a text: none is empty, they do not overlap, each is as long as a lexeme can be where it
stands, and what is left over is blank. -/
structure Tiling (text : List Char) (ts : List Token) : Prop where
  filled : ∀ t ∈ ts, t.start < t.stop
  apart : ts.Pairwise fun a b => a.stop ≤ b.start
  boundaries : ∀ t ∈ ts, Boundary text t.start ∧ Boundary text t.stop
  longest : ∀ t ∈ ts, ∃ before after, text = before ++ (t.lexeme ++ after) ∧
    byteLength before = t.start ∧ (IsLexeme t.lexeme ∨ t.kind = .invalid) ∧
    ∀ word, IsLexeme word → word <+: t.lexeme ++ after → word.length ≤ t.lexeme.length
  gaps : ∀ i, i < byteLength text → (∀ t ∈ ts, i < t.start ∨ t.stop ≤ i) →
    BeginsAt text ' ' i ∨ BeginsAt text '\t' i ∨ BeginsAt text '\r' i
  invalid : ∀ t ∈ ts, t.kind = .invalid ↔ Strange t.lexeme ∨ Oversized t.lexeme

theorem lexedSome (lexed : Lexed w kind rest) : w ≠ [] := by
  cases lexed <;> simp

theorem lexedWhole {word : List Char} (lexed : Lexed w kind rest) (lexeme : IsLexeme word)
    (starts : word <+: w ++ rest) : word.length ≤ w.length := by
  obtain ⟨tail, same⟩ := starts
  rcases List.append_eq_append_iff.mp same with ⟨part, rfl, _⟩ | ⟨part, rfl, behind⟩
  · simp
  · cases part with
    | nil => simp
    | cons c more => exact absurd lexeme (lexedLongest lexed behind)

theorem tokensTiling (text : List Char) : Tiling text (tokens text) := by
  have tiled : Tiled 0 text (tokens text) := scanTiled 0 [] text
  have wide {t : Token} {before after : List Char} (stands : Stands 0 text t before after) :
      t.stop = byteLength (before ++ t.lexeme) := by
    rw [stop, stands.start, byteLengthAppend, Nat.zero_add]
  refine ⟨fun t member => ?_, tiled.apart, fun t member => ?_, fun t member => ?_,
    fun i inside bare => ?_, fun t member => ?_⟩
  · obtain ⟨before, after, stands⟩ := tiled.placed t member
    have some : byteLength t.lexeme ≠ 0 := fun none => lexedSome stands.lexed (noBytes none)
    rw [stop]
    omega
  · obtain ⟨before, after, stands⟩ := tiled.placed t member
    refine ⟨⟨before, _, stands.parts, ?_⟩, ⟨before ++ t.lexeme, after, ?_, (wide stands).symm⟩⟩
    · rw [stands.start, Nat.zero_add]
    · rw [stands.parts, List.append_assoc]
  · obtain ⟨before, after, stands⟩ := tiled.placed t member
    refine ⟨before, after, stands.parts, ?_, lexedLexeme stands.lexed, fun word lexeme starts => ?_⟩
    · rw [stands.start, Nat.zero_add]
    · exact lexedWhole stands.lexed lexeme starts
  · obtain ⟨c, begins, blank⟩ := tiled.gaps inside (by simpa using bare)
    simp only [isSkipped, Bool.or_eq_true, beq_iff_eq] at blank
    rcases blank with (rfl | rfl) | rfl
    · exact .inl begins
    · exact .inr (.inl begins)
    · exact .inr (.inr begins)
  · obtain ⟨before, after, stands⟩ := tiled.placed t member
    exact lexedInvalid stands.lexed

namespace Stream

inductive Call where
  | next
  | peek
  deriving DecidableEq, Repr

def answer (s : Stream) : Call → Option Token × Stream
  | .next => s.next
  | .peek => s.peek

def after (s : Stream) (calls : List Call) : Stream :=
  calls.foldl (fun s call => (s.answer call).2) s

inductive Holds : Stream → List Token → Prop where
  | fresh (offset : Nat) (rest : List Char) : Holds ⟨offset, rest, none⟩ (scan offset [] rest)
  | ahead (offset : Nat) (rest : List Char) (t : Token) :
      Holds ⟨offset, rest, some (some t)⟩ (t :: scan offset [] rest)
  | ended (offset : Nat) : Holds ⟨offset, [], some none⟩ []

def Takes (ts : List Token) (answer : Option Token × Stream) : Prop :=
  ∃ offset rest, answer = (ts.head?, ⟨offset, rest, none⟩) ∧ ts.tail = scan offset [] rest ∧
    (ts = [] → rest = [])

theorem takesNone (offset : Nat) : Takes [] (none, ⟨offset, [], none⟩) :=
  ⟨offset, [], rfl, by rw [scan]; rfl, fun _ => rfl⟩

theorem pullTakes (offset : Nat) (lead cs : List Char) :
    Takes (scan offset lead cs) (pull offset lead cs) := by
  induction cs generalizing offset lead with
  | nil =>
    rw [scan]
    exact takesNone offset
  | cons c cs ih =>
    rw [pull, scan]
    split
    · exact ih _ _
    · exact ⟨_, _, rfl, rfl, fun none => by cases none⟩

section
variable {s : Stream} {ts : List Token}

theorem nextTakes (holds : Holds s ts) : Takes ts s.next := by
  cases holds with
  | fresh offset rest => exact pullTakes offset [] rest
  | ahead offset rest t => exact ⟨offset, rest, rfl, rfl, fun none => by cases none⟩
  | ended offset => exact takesNone offset

theorem peekHolds (holds : Holds s ts) : s.peek.1 = ts.head? ∧ Holds s.peek.2 ts := by
  obtain ⟨offset, rest, taken, later, none⟩ := nextTakes holds
  rw [peek, taken]
  refine ⟨rfl, ?_⟩
  cases ts with
  | nil =>
    cases none rfl
    exact .ended offset
  | cons t ts =>
    cases later
    exact .ahead offset rest t

theorem nextHolds (holds : Holds s ts) : s.next.1 = ts.head? ∧ Holds s.next.2 ts.tail := by
  obtain ⟨offset, rest, taken, later, _⟩ := nextTakes holds
  rw [taken, later]
  exact ⟨rfl, .fresh offset rest⟩

theorem afterHolds (holds : Holds s ts) (calls : List Call) :
    Holds (s.after calls) (ts.drop (calls.count .next)) := by
  induction calls generalizing s ts with
  | nil => exact holds
  | cons call calls ih =>
    cases call with
    | next =>
      have later := ih (nextHolds holds).2
      rwa [← List.drop_one, List.drop_drop, Nat.add_comm, ← List.count_cons_self] at later
    | peek =>
      rw [List.count_cons_of_ne (by decide)]
      exact ih (peekHolds holds).2

theorem answerHolds (holds : Holds s ts) (call : Call) : (s.answer call).1 = ts.head? := by
  cases call with
  | next => exact (nextHolds holds).1
  | peek => exact (peekHolds holds).1

end
end Stream

/- The tokens of a text tile it; and after any calls the next token, taken or looked at, is the one
behind as many as have been taken. -/
theorem tokensTile (text : List Char) : Tiling text (tokens text) ∧
    ∀ calls call, (((Stream.ofText text).after calls).answer call).1 =
      (tokens text)[calls.count .next]? := by
  refine ⟨tokensTiling text, fun calls call => ?_⟩
  have holds := Stream.afterHolds (Stream.Holds.fresh 0 text) calls
  rw [← List.head?_drop]
  exact Stream.answerHolds holds call

end Crochet.Token
