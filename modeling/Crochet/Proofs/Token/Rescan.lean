import Mathlib.Data.List.TakeWhile
import Mathlib.Tactic.ByContra
import Crochet.Proofs.Text.Pieces
import Crochet.Token

/-! Scanning a part of a text again, in another place. A token is as long as it can be, so what
follows it matters; but a text that follows and cannot join any token leaves the tokens before it as
they are. -/
namespace Crochet.Token
open Text

def Stops (p : α → Bool) (cs : List α) : Prop := ∀ c, cs.head? = some c → p c = false

section
variable {p : α → Bool} {cs ds : List α}

theorem takeStopped (stops : Stops p cs) : cs.takeWhile p = [] := by
  cases cs with
  | nil => rfl
  | cons c rest => simp [stops c rfl]

theorem stopsAfter (p : α → Bool) (cs : List α) : Stops p (cs.dropWhile p) := by
  intro c first
  have fails := List.head?_dropWhile_not p cs
  rw [first] at fails
  simpa using fails

theorem stopsIff : Stops p cs ↔ cs.takeWhile p = [] := by
  refine ⟨takeStopped, ?_⟩
  intro none c first
  obtain ⟨rest, rfl⟩ := List.head?_eq_some_iff.mp first
  cases holds : p c with
  | false => rfl
  | true => simp [holds] at none

theorem takeRun (all : ∀ c ∈ ds, p c = true) (stops : Stops p cs) :
    runOf p (ds ++ cs) = (ds, cs) := by
  unfold runOf
  rw [List.takeWhile_append_of_pos all, List.dropWhile_append_of_pos all, takeStopped stops]
  cases cs with
  | nil => simp
  | cons c rest => simp [stops c rfl]

end

/- A number ends where no digit follows, nor a point with a digit behind it. -/
structure NumberStops (rest : List Char) : Prop where
  digit : Stops Char.isDigit rest
  point : ∀ more, rest = '.' :: more → Stops Char.isDigit more

inductive Lexed : List Char → Kind → List Char → Prop where
  | number {c : Char} {ds rest : List Char} (first : c.isDigit = true)
      (digits : ∀ d ∈ ds, d.isDigit = true) (stops : NumberStops rest) :
      Lexed (c :: ds) (numberKind (c :: ds)) rest
  | fraction {c : Char} {ds fs rest : List Char} (first : c.isDigit = true)
      (digits : ∀ d ∈ ds, d.isDigit = true) (fraction : ∀ d ∈ fs, d.isDigit = true) (some : fs ≠ [])
      (stops : Stops Char.isDigit rest) :
      Lexed (c :: (ds ++ '.' :: fs)) (numberKind (c :: (ds ++ '.' :: fs))) rest
  | word {c : Char} {cs rest : List Char} (start : isNameStart c = true)
      (chars : ∀ d ∈ cs, isNameChar d = true) (stops : Stops isNameChar rest)
      (bare : c :: cs = "COLOR".toList → ∀ more, rest = ':' :: more → Stops Char.isDigit more) :
      Lexed (c :: cs) (if c :: cs = "turn".toList then .turn else .name) rest
  | color {key rest : List Char} (digits : ∀ d ∈ key, d.isDigit = true) (some : key ≠ [])
      (stops : Stops Char.isDigit rest) : Lexed ('C' :: ("OLOR".toList ++ ':' :: key)) (colorKind key) rest
  | mark {c : Char} {rest : List Char} (noDigit : c.isDigit = false) (noStart : isNameStart c = false) :
      Lexed [c] (markKind c) rest

variable {c : Char} {tail : List Char} {kind : Kind} {offset : Nat} {used : List Token}

theorem startNoDigit (start : isNameStart c = true) : c.isDigit = false := by
  rw [Bool.eq_false_iff]
  intro digit
  have range := digitRange digit
  rcases Bool.or_eq_true_iff.mp start with alpha | line
  · have letters := alphaRange alpha
    omega
  · rw [beq_iff_eq.mp line] at range
    simp at range

theorem numberLength {ds rest : List Char} (digits : ∀ d ∈ ds, d.isDigit = true)
    (stops : NumberStops rest) : numberTail (ds ++ rest) = ds.length := by
  unfold numberTail
  simp only [takeRun digits stops.digit]
  split
  · simp [takeStopped (stops.point _ rfl)]
  · rfl

theorem fractionLength {ds fs rest : List Char} (digits : ∀ d ∈ ds, d.isDigit = true)
    (fraction : ∀ d ∈ fs, d.isDigit = true) (some : fs ≠ []) (stops : Stops Char.isDigit rest) :
    numberTail (ds ++ '.' :: fs ++ rest) = (ds ++ '.' :: fs).length := by
  have point : Stops Char.isDigit ('.' :: (fs ++ rest)) := by
    intro d found
    cases found
    rfl
  have run : (fs ++ rest).takeWhile Char.isDigit = fs := congrArg Prod.fst (takeRun fraction stops)
  unfold numberTail
  rw [List.append_assoc, List.cons_append]
  simp only [takeRun digits point, run, List.isEmpty_iff, some, if_false, List.length_append,
    List.length_cons]
  omega

theorem recognises {rest : List Char} (lexed : Lexed (c :: tail) kind rest) :
    recognise c (tail ++ rest) = (kind, tail.length) := by
  cases lexed with
  | number first digits stops => simp [recognise, first, numberLength digits stops]
  | fraction first digits fraction some stops =>
    simp only [recognise, first, if_true, fractionLength digits fraction some stops,
      List.take_left]
  | word start chars stops bare =>
    simp only [recognise, startNoDigit start, start, takeRun chars stops, Bool.false_eq_true,
      if_false, if_true]
    split
    · rfl
    split
    · rename_i word
      split
      · simp [takeStopped (bare word _ rfl)]
      · rfl
    · rfl
  | @color key _ digits some stops =>
    have colon : Stops isNameChar (':' :: (key ++ rest)) := by
      intro d found
      cases found
      rfl
    have letters : ∀ d ∈ "OLOR".toList, isNameChar d = true := List.all_eq_true.mp rfl
    have run : (key ++ rest).takeWhile Char.isDigit = key := congrArg Prod.fst (takeRun digits stops)
    rw [List.append_assoc, List.cons_append]
    simp only [recognise, takeRun letters colon, run, List.isEmpty_iff, some, if_false]
    simp [isNameStart]
    omega
  | mark noDigit noStart => simp [recognise, noDigit, noStart]

theorem lexedAt (c : Char) (cs : List Char) :
    ∃ tail rest kind, cs = tail ++ rest ∧ Lexed (c :: tail) kind rest := by
  cases first : c.isDigit with
  | true =>
    have parts := (List.takeWhile_append_dropWhile (p := Char.isDigit) (l := cs)).symm
    have digits : ∀ d ∈ cs.takeWhile Char.isDigit, d.isDigit = true := fun d => List.mem_takeWhile_imp
    by_cases point : ∃ more, cs.dropWhile Char.isDigit = '.' :: more ∧ ¬ Stops Char.isDigit more
    · obtain ⟨more, rest, digit⟩ := point
      refine ⟨cs.takeWhile Char.isDigit ++ '.' :: more.takeWhile Char.isDigit,
        more.dropWhile Char.isDigit, _, ?_, .fraction first digits (fun d => List.mem_takeWhile_imp) ?_
          (stopsAfter _ more)⟩
      · rw [List.append_assoc, List.cons_append, List.takeWhile_append_dropWhile, ← rest]
        exact parts
      · rwa [stopsIff] at digit
    · refine ⟨_, _, _, parts, .number first digits ⟨stopsAfter _ cs, ?_⟩⟩
      intro more rest
      by_contra digit
      exact point ⟨more, rest, digit⟩
  | false =>
    cases start : isNameStart c with
    | false => exact ⟨[], cs, _, rfl, .mark first start⟩
    | true =>
      have parts := (List.takeWhile_append_dropWhile (p := isNameChar) (l := cs)).symm
      have chars : ∀ d ∈ cs.takeWhile isNameChar, isNameChar d = true := fun d => List.mem_takeWhile_imp
      by_cases colored : c :: cs.takeWhile isNameChar = "COLOR".toList ∧
          ∃ more, cs.dropWhile isNameChar = ':' :: more ∧ ¬ Stops Char.isDigit more
      · obtain ⟨word, more, rest, digit⟩ := colored
        have letters : "COLOR".toList = 'C' :: "OLOR".toList := by decide
        obtain ⟨rfl, tail⟩ := List.cons.inj (word.trans letters)
        refine ⟨"OLOR".toList ++ ':' :: more.takeWhile Char.isDigit, more.dropWhile Char.isDigit, _, ?_,
          .color (fun d => List.mem_takeWhile_imp) ?_ (stopsAfter _ more)⟩
        · rw [List.append_assoc, List.cons_append, List.takeWhile_append_dropWhile, ← rest, ← tail]
          exact parts
        · rwa [stopsIff] at digit
      · refine ⟨_, _, _, parts, .word start chars (stopsAfter _ cs) ?_⟩
        intro word more rest
        by_contra digit
        exact colored ⟨word, more, rest, digit⟩

def isNeutral (c : Char) : Bool := !isNameChar c && c != '.' && c != ':'

def Neutral (more : List Char) : Prop := ∀ c, more.head? = some c → isNeutral c = true

/- A text that goes on as another one does, up to a place where it turns neutral. -/
def GoesOn (before now : List Char) : Prop :=
  ∃ common x y, before = common ++ x ∧ now = common ++ y ∧ Neutral y

section
variable {before now : List Char} (goes : GoesOn before now)
include goes

theorem goesOnHead {rest : List Char} (first : now = c :: rest) :
    isNeutral c = true ∨ ∃ older, before = c :: older ∧ GoesOn older rest := by
  obtain ⟨common, x, y, rfl, rfl, neutral⟩ := goes
  cases common with
  | nil => exact .inl (neutral c (by simp [show y = c :: rest from first]))
  | cons d common =>
    cases first
    exact .inr ⟨common ++ x, rfl, common, x, y, rfl, rfl, neutral⟩

theorem goesOnStops {p : Char → Bool} (joins : ∀ c, p c = true → isNeutral c = false)
    (stops : Stops p before) : Stops p now := by
  intro c first
  obtain ⟨rest, same⟩ := List.head?_eq_some_iff.mp first
  rcases goesOnHead goes same with neutral | ⟨older, older', _⟩
  · cases holds : p c with
    | false => rfl
    | true => rw [joins c holds] at neutral; cases neutral
  · exact stops c (by simp [older'])

end

theorem digitJoins (c : Char) (digit : c.isDigit = true) : isNeutral c = false := by
  simp [isNeutral, isNameChar, Char.isAlphanum, digit]

theorem nameJoins (c : Char) (name : isNameChar c = true) : isNeutral c = false := by
  simp [isNeutral, name]

theorem goesOnMarked {before now : List Char} (goes : GoesOn before now) {mark : Char}
    (joins : isNeutral mark = false)
    (stops : ∀ more, before = mark :: more → Stops Char.isDigit more) :
    ∀ more, now = mark :: more → Stops Char.isDigit more := by
  intro more same
  rcases goesOnHead goes same with neutral | ⟨older, older', goes⟩
  · rw [joins] at neutral; cases neutral
  · exact goesOnStops goes digitJoins (stops older older')

theorem Lexed.goesOn {word before now : List Char} (lexed : Lexed word kind before)
    (goes : GoesOn before now) : Lexed word kind now := by
  cases lexed with
  | number first digits stops =>
    exact .number first digits ⟨goesOnStops goes digitJoins stops.digit, goesOnMarked goes rfl stops.point⟩
  | fraction first digits fraction some stops =>
    exact .fraction first digits fraction some (goesOnStops goes digitJoins stops)
  | word start chars stops bare =>
    exact .word start chars (goesOnStops goes nameJoins stops)
      fun word => goesOnMarked goes rfl (bare word)
  | color digits some stops => exact .color digits some (goesOnStops goes digitJoins stops)
  | mark noDigit noStart => exact .mark noDigit noStart

def shape (t : Token) : Kind × List Char × List Char := (t.kind, t.lead, t.lexeme)

def Alike (ts us : List Token) : Prop := ts.map shape = us.map shape

theorem scanBlanks {blanks : List Char} (blank : ∀ c ∈ blanks, isSkipped c = true) (offset : Nat)
    (lead cs : List Char) :
    ∃ after, scan offset lead (blanks ++ cs) = scan after (lead ++ blanks) cs := by
  induction blanks generalizing offset lead with
  | nil => exact ⟨offset, by simp⟩
  | cons c blanks ih =>
    obtain ⟨after, same⟩ := ih (fun d member => blank d (List.mem_cons_of_mem _ member))
      (offset + c.utf8Size) (lead ++ [c])
    refine ⟨after, ?_⟩
    rw [List.cons_append, scan, if_pos (blank c List.mem_cons_self), same]
    simp

variable {cs : List Char}

theorem scanLexed (visible : isSkipped c = false) (lexed : Lexed (c :: tail) kind cs) (offset : Nat)
    (lead : List Char) : ∃ after,
      scan offset lead (c :: tail ++ cs) = ⟨kind, lead, c :: tail, offset⟩ :: scan after [] cs := by
  refine ⟨offset + byteLength (c :: tail), ?_⟩
  rw [List.cons_append, scan, if_neg (by simp [visible]), recognises lexed]
  simp

theorem scanParts {lead : List Char} {t : Token} {rest : List Token}
    (found : scan offset lead cs = t :: rest) :
    ∃ blanks c tail more after, cs = blanks ++ (c :: tail ++ more) ∧
      (∀ b ∈ blanks, isSkipped b = true) ∧ t.lead = lead ++ blanks ∧ isSkipped c = false ∧
      t.lexeme = c :: tail ∧ Lexed (c :: tail) t.kind more ∧ rest = scan after [] more := by
  induction cs generalizing offset lead with
  | nil => rw [scan] at found; cases found
  | cons c cs ih =>
    cases blank : isSkipped c with
    | true =>
      rw [scan, if_pos blank] at found
      obtain ⟨blanks, d, tail, more, after, rfl, all, lead', visible, lexeme, lexed, rest'⟩ := ih found
      refine ⟨c :: blanks, d, tail, more, after, rfl, ?_, by simp [lead'], visible, lexeme, lexed, rest'⟩
      simpa using ⟨blank, all⟩
    | false =>
      obtain ⟨tail, more, kind, rfl, lexed⟩ := lexedAt c cs
      obtain ⟨after, token⟩ := scanLexed blank lexed offset lead
      obtain ⟨rfl, rfl⟩ := List.cons.inj (token.symm.trans found)
      exact ⟨[], c, tail, more, after, rfl, by simp, by simp, blank, rfl, lexed, rfl⟩

def Scanned (ts : List Token) : Prop := ∃ offset cs, ts = scan offset [] cs

theorem Scanned.rest {rest : List Token} (scanned : Scanned (used ++ rest)) : Scanned rest := by
  induction used with
  | nil => exact scanned
  | cons t used ih =>
    obtain ⟨offset, cs, same⟩ := scanned
    obtain ⟨_, _, _, more, after, _, _, _, _, _, _, rest'⟩ := scanParts same.symm
    exact ih ⟨after, more, rest'⟩

theorem scanText {rest : List Token} (found : scan offset [] cs = used ++ rest) :
    ∃ more, cs = used.flatMap padded ++ more := by
  induction used generalizing offset cs with
  | nil => exact ⟨cs, rfl⟩
  | cons t used ih =>
    obtain ⟨blanks, c, tail, more, after, rfl, _, lead, _, lexeme, _, rest'⟩ := scanParts found
    obtain ⟨last, rfl⟩ := ih rest'.symm
    exact ⟨last, by simp [padded, lead, lexeme]⟩

theorem rescan {rest : List Token} (scanned : Scanned (used ++ rest)) {more : List Char}
    (neutral : Neutral more) (offset : Nat) : ∃ again after, Alike used again ∧
      scan offset [] (used.flatMap padded ++ more) = again ++ scan after [] more := by
  induction used generalizing offset with
  | nil => exact ⟨[], offset, rfl, rfl⟩
  | cons t used ih =>
    obtain ⟨start, cs, same⟩ := scanned
    obtain ⟨blanks, c, tail, text, next, rfl, blank, lead, visible, lexeme, lexed, rest'⟩ :=
      scanParts same.symm
    obtain ⟨last, rfl⟩ := scanText rest'.symm
    have goes : GoesOn (used.flatMap padded ++ last) (used.flatMap padded ++ more) :=
      ⟨_, _, _, rfl, rfl, neutral⟩
    obtain ⟨skipped, blanks'⟩ :=
      scanBlanks blank offset [] (c :: tail ++ (used.flatMap padded ++ more))
    obtain ⟨behind, token⟩ := scanLexed visible (lexed.goesOn goes) skipped blanks
    obtain ⟨again, after, alike, scanned⟩ := ih ⟨next, _, rest'⟩ behind
    refine ⟨⟨t.kind, blanks, c :: tail, skipped⟩ :: again, after, ?_, ?_⟩
    · rw [Alike, List.map_cons, List.map_cons, alike]
      simp [shape, lead, lexeme]
    · have text : (t :: used).flatMap padded ++ more =
          blanks ++ (c :: tail ++ (used.flatMap padded ++ more)) := by
        simp [padded, lead, lexeme]
      rw [text, blanks', List.nil_append, token, scanned, List.cons_append]

end Crochet.Token
