import Crochet.Proofs.Row.Spelling
import Crochet.Proofs.Text.Boundary

/-! Brackets put into a text. In front of a token and behind one they are tokens of their own and join
no other, so the tokens before, between and behind them are scanned as they were; only the blanks that
stood before the first of them belong to a bracket now. -/
namespace Crochet.Token
open Text

variable {offset : Nat} {cs : List Char} {t : Token} {rest : List Token}

theorem scanFirst {lead : List Char} (found : scan offset lead cs = t :: rest) :
    ∃ blanks more, cs = blanks ++ (t.lexeme ++ more) ∧
      (∀ b ∈ blanks, isSkipped b = true) ∧ t.lead = lead ++ blanks ∧
      t.start = offset + byteLength blanks ∧ rest = scan t.stop [] more ∧
      scan t.start [] (t.lexeme ++ more) = { t with lead := [] } :: rest := by
  induction cs generalizing offset lead with
  | nil => rw [scan] at found; cases found
  | cons c cs ih =>
    cases blank : isSkipped c with
    | true =>
      rw [scan, if_pos blank] at found
      obtain ⟨blanks, more, rfl, all, front, start, behind⟩ := ih found
      refine ⟨c :: blanks, more, rfl, List.forall_mem_cons.mpr ⟨blank, all⟩, by simp [front], ?_, behind⟩
      rw [start, byteLengthCons, Nat.add_assoc]
    | false =>
      obtain ⟨⟨kind, n⟩, read⟩ : ∃ found, recognise c cs = found := ⟨_, rfl⟩
      have token (start : Nat) (front : List Char) : scan start front (c :: cs) =
          ⟨kind, front, c :: cs.take n, start⟩ ::
            scan (start + byteLength (c :: cs.take n)) [] (cs.drop n) := by
        rw [scan, if_neg (by simp [blank]), read]
      obtain ⟨rfl, rfl⟩ := List.cons.inj ((token offset lead).symm.trans found)
      refine ⟨[], cs.drop n, by simp, by simp, by simp, rfl, rfl, ?_⟩
      rw [List.cons_append, List.take_append_drop]
      exact token offset []

theorem scanFront {used : List Token} (found : scan offset [] cs = used ++ rest) :
    ∃ more, cs = used.flatMap padded ++ more ∧
      rest = scan (offset + byteLength (used.flatMap padded)) [] more ∧
      ∀ t, used.getLast? = some t → t.stop = offset + byteLength (used.flatMap padded) := by
  induction used generalizing offset cs with
  | nil => exact ⟨cs, rfl, found.symm, by simp⟩
  | cons t used ih =>
    obtain ⟨blanks, more, rfl, _, lead, start, rest', _⟩ := scanFirst found
    obtain ⟨last, rfl, behind, final⟩ := ih rest'.symm
    have size : t.stop + byteLength (used.flatMap padded) =
        offset + byteLength ((t :: used).flatMap padded) := by
      rw [stop, start, List.flatMap_cons, padded, lead, byteLengthAppend, byteLengthAppend]
      simp only [List.nil_append]
      omega
    refine ⟨last, ?_, size ▸ behind, ?_⟩
    · simp [padded, lead]
    · intro u here
      rw [← size]
      cases used with
      | nil => cases here; rfl
      | cons v used => exact final u here

theorem scanAlike (offset start : Nat) (lead cs : List Char) :
    Alike (scan offset lead cs) (scan start lead cs) := by
  fun_induction scan offset lead cs generalizing start with
  | case1 => rw [scan]; rfl
  | case2 offset lead c cs skipped ih =>
    rw [scan, if_pos skipped]
    exact ih _
  | case3 offset lead c cs visible kind n found lexeme ih =>
    rw [scan, if_neg visible, found]
    exact congrArg ((kind, lead, lexeme) :: ·) (ih _)

theorem openingMark (b : Bracket) : isNeutral b.opening = true ∧ isSkipped b.opening = false ∧
    ∀ rest, Lexed [b.opening] (.opens b) rest := by
  cases b <;> exact ⟨rfl, rfl, fun _ => .mark rfl rfl⟩

theorem closingMark (b : Bracket) : isNeutral b.closing = true ∧ isSkipped b.closing = false ∧
    ∀ rest, Lexed [b.closing] (.closes b) rest := by
  cases b <;> exact ⟨rfl, rfl, fun _ => .mark rfl rfl⟩

theorem neutralCons {c : Char} (neutral : isNeutral c = true) (cs : List Char) : Neutral (c :: cs) := by
  rintro _ ⟨⟩
  exact neutral

theorem neutralBlanks {blanks more : List Char} (blank : ∀ b ∈ blanks, isSkipped b = true)
    (neutral : Neutral more) : Neutral (blanks ++ more) := by
  cases blanks with
  | nil => exact neutral
  | cons c blanks =>
    refine neutralCons ?_ _
    by_contra joins
    have visible := Row.joinsVisible (Bool.eq_false_iff.mpr joins)
    rw [blank c List.mem_cons_self] at visible
    cases visible

theorem sameCut {a b x y : List Char} (whole : a ++ x = b ++ y) (size : byteLength a = byteLength b) :
    a = b ∧ x = y := by
  obtain ⟨part, rfl, rfl⟩ := boundaryFront whole (Nat.le_of_eq size)
  have none : part = [] := noBytes (by rw [byteLengthAppend] at size; omega)
  simp [none]

theorem enclosedTokens {pre mid post : List Char} {front tail back : List Token} {u : Token}
    (b : Bracket) (scanned : tokens (pre ++ mid ++ post) = front ++ (t :: tail ++ back))
    (start : t.start = byteLength pre) (last : (t :: tail).getLast? = some u)
    (stop : u.stop = byteLength (pre ++ mid)) : ∃ front' middle back' opening closing,
      tokens (pre ++ b.opening :: (mid ++ b.closing :: post)) =
        front' ++ opening :: (middle ++ closing :: back') ∧ Alike front front' ∧
      Alike ({ t with lead := [] } :: tail) middle ∧ Alike back back' ∧ opening.kind = .opens b ∧
      closing.kind = .closes b := by
  obtain ⟨opens, visible, opening⟩ := openingMark b
  obtain ⟨closes, visible', closing⟩ := closingMark b
  obtain ⟨more, whole, rest, _⟩ := scanFront scanned
  obtain ⟨blanks, later, rfl, blank, lead, place, _, bare⟩ := scanFirst rest.symm
  obtain ⟨rfl, behind⟩ : pre = front.flatMap padded ++ blanks ∧ mid ++ post = t.lexeme ++ later := by
    refine sameCut (by simpa using whole) ?_
    rw [byteLengthAppend]
    omega
  have bare : scan t.start [] (t.lexeme ++ later) = ({ t with lead := [] } :: tail) ++ back := bare
  obtain ⟨more, split, rest, final⟩ := scanFront bare
  have size : u.stop = t.start + byteLength (({ t with lead := [] } :: tail).flatMap padded) := by
    cases tail with
    | nil =>
      cases last
      exact final { t with lead := [] } rfl
    | cons v tail => exact final u last
  obtain ⟨inner, rfl⟩ : mid = ({ t with lead := [] } :: tail).flatMap padded ∧ post = more := by
    refine sameCut (behind.trans split) ?_
    rw [byteLengthAppend] at stop
    omega
  -- The blanks before the first item now stand before the bracket.
  obtain ⟨front', after, fronts, first⟩ := rescan ⟨0, _, scanned.symm⟩
    (neutralBlanks blank (neutralCons opens (mid ++ b.closing :: post))) 0
  obtain ⟨skipped, second⟩ := scanBlanks blank after [] (b.opening :: (mid ++ b.closing :: post))
  obtain ⟨inside, third⟩ := scanLexed visible (opening (mid ++ b.closing :: post)) skipped blanks
  obtain ⟨middle, after', middles, fourth⟩ := rescan ⟨t.start, _, bare.symm⟩ (neutralCons closes post) inside
  obtain ⟨behind, fifth⟩ := scanLexed visible' (closing post) after' []
  refine ⟨front', middle, scan behind [] post, ⟨.opens b, blanks, [b.opening], skipped⟩,
    ⟨.closes b, [], [b.closing], after'⟩, ?_, fronts, middles, rest ▸ scanAlike _ _ _ _, rfl, rfl⟩
  rw [List.singleton_append] at third fifth
  rw [List.append_assoc, tokens, first, second, List.nil_append, third, inner, fourth, fifth]

end Crochet.Token
