import Crochet.Proofs.Index.Worked

/-! Indices that are worked out stay so. No block is left in the text, and without variables nothing
is replaced; a number put in for an expression holds no operator, so no component is folded twice. -/
namespace Crochet.Index
open MappedText Text

def isNumeral (c : Char) : Bool := c == '-' || c.isDigit

theorem numberNumeral (origin : Nat) (value : Int) :
    ∀ g ∈ numberText origin value, isNumeral g.char = true := by
  intro g member
  obtain ⟨c, inside, rfl⟩ := List.mem_map.mp member
  obtain ⟨sign, either, text⟩ := numberChars value
  rw [text, List.mem_append] at inside
  show isNumeral c = true
  rcases inside with signed | digit
  · rcases either with rfl | rfl
    · cases signed
    · rw [List.mem_singleton.mp signed]
      rfl
  · simp [isNumeral, Nat.isDigit_of_mem_toDigits (by decide) (by decide) digit]

theorem numberWithout {x : Char} (other : isNumeral x = false) (origin : Nat) (value : Int) :
    ∀ g ∈ numberText origin value, g.char ≠ x := by
  rintro g member rfl
  rw [numberNumeral origin value g member] at other
  cases other

theorem numberPlain (origin : Nat) (value : Int) :
    Arith.hasOperator (chars (numberText origin value)) = false := by
  have shown : chars (numberText origin value) = (toString value).toList := by
    simp [chars, numberText, madeText, made, Function.comp_def]
  obtain ⟨sign, either, text⟩ := numberChars value
  have digits : ∀ c ∈ Nat.toDigits 10 value.natAbs, c.isDigit = true := fun c inside =>
    Nat.isDigit_of_mem_toDigits (by decide) (by decide) inside
  have signs : ∀ c ∈ sign, (c == '+' || c == '-') = true := by
    rcases either with rfl | rfl <;> simp
  rw [shown, text, Arith.hasOperator, List.dropWhile_append_of_pos signs, List.any_eq_false]
  intro c member operator
  have digit := digits c ((List.dropWhile_sublist _).subset member)
  simp only [Bool.or_eq_true, beq_iff_eq] at operator
  rcases operator with (((rfl | rfl) | rfl) | rfl) | rfl <;> cases digit

structure Around (piece lead tail : MappedText) : Prop where
  front : lead ⊆ piece
  back : tail ⊆ piece
  before : ∀ g ∈ lead, g.char ≠ ';'
  colon : ∀ g ∈ lead.getLast?, g.char = ':'
  after : ∀ g ∈ tail.head?, g.char = ';'

theorem leadTaken (p : α → Bool) (xs : List α) :
    xs.take (xs.length - (xs.reverse.takeWhile p).reverse.length) = (xs.reverse.dropWhile p).reverse := by
  have whole : (xs.reverse.dropWhile p).reverse ++ (xs.reverse.takeWhile p).reverse = xs := by
    rw [← List.reverse_append, List.takeWhile_append_dropWhile, List.reverse_reverse]
  generalize (xs.reverse.dropWhile p).reverse = lead, (xs.reverse.takeWhile p).reverse = last at whole ⊢
  rw [← whole, List.length_append, Nat.add_sub_cancel, List.take_left]

theorem componentFolds (piece : MappedText) : foldComponent piece = piece ∨
    ∃ lead origin value tail, foldComponent piece = lead ++ (numberText origin value ++ tail) ∧
      Around piece lead tail := by
  unfold foldComponent
  simp only
  split
  · split
    · rw [leadTaken]
      generalize main : piece.takeWhile (·.char != ';') = text
      have inside : (text.reverse.dropWhile (·.char != ':')).reverse ⊆ text := fun g member =>
        List.mem_reverse.mp ((List.dropWhile_sublist _).subset (List.mem_reverse.mp member))
      refine .inr ⟨_, _, _, _, List.append_assoc _ _ _, ?_, (List.dropWhile_sublist _).subset, ?_, ?_, ?_⟩
      · exact fun g member => (List.takeWhile_sublist _).subset (main ▸ inside member)
      · intro g member
        have among : g ∈ piece.takeWhile (·.char != ';') := main ▸ inside member
        simpa using List.mem_takeWhile_imp among
      · intro g member
        rw [List.getLast?_reverse] at member
        have stops := List.head?_dropWhile_not (fun g : Glyph => g.char != ':') text.reverse
        rw [Option.mem_def.mp member] at stops
        simpa using stops
      · intro g member
        have stops := List.head?_dropWhile_not (fun g : Glyph => g.char != ';') piece
        rw [Option.mem_def.mp member] at stops
        simpa using stops
    · exact .inl rfl
  · exact .inl rfl

variable {piece t : MappedText}

theorem numberKept {lead tail : MappedText} (around : Around piece lead tail) (origin : Nat)
    (value : Int) : foldComponent (lead ++ (numberText origin value ++ tail)) =
      lead ++ (numberText origin value ++ tail) := by
  have number := numberWithout (x := ';') rfl origin value
  have front : ∀ g ∈ lead ++ numberText origin value, (g.char != ';') = true := by
    intro g member
    rw [bne_iff_ne]
    rcases List.mem_append.mp member with inside | inside
    · exact around.before g inside
    · exact number g inside
  have back : tail.takeWhile (·.char != ';') = [] := by
    cases tail with
    | nil => rfl
    | cons g rest => simp [around.after g rfl]
  have main : (lead ++ (numberText origin value ++ tail)).takeWhile (·.char != ';') =
      lead ++ numberText origin value := by
    rw [← List.append_assoc, List.takeWhile_append_of_pos front, back, List.append_nil]
  have expression : (lead ++ numberText origin value).reverse.takeWhile (·.char != ':') =
      (numberText origin value).reverse := by
    have free : ∀ g ∈ (numberText origin value).reverse, (g.char != ':') = true := fun g member =>
      bne_iff_ne.mpr (numberWithout rfl origin value g (List.mem_reverse.mp member))
    have stop : lead.reverse.takeWhile (·.char != ':') = [] := by
      cases turned : lead.reverse with
      | nil => rfl
      | cons g rest =>
        have last : lead.getLast? = some g := by rw [List.getLast?_eq_head?_reverse, turned]; rfl
        simp [around.colon g last]
    rw [List.reverse_append, List.takeWhile_append_of_pos free, stop, List.append_nil]
  unfold foldComponent
  simp only [main, expression, List.reverse_reverse, numberPlain, Bool.false_and, Bool.false_eq_true,
    if_false]

theorem componentSettled (piece : MappedText) :
    foldComponent (foldComponent piece) = foldComponent piece := by
  rcases componentFolds piece with same | ⟨lead, origin, value, tail, folded, around⟩
  · rw [same, same]
  · rw [folded]
    exact numberKept around origin value

section
variable {x : Char} (other : isNumeral x = false)
include other

theorem componentWithout (free : ∀ g ∈ piece, g.char ≠ x) :
    ∀ g ∈ foldComponent piece, g.char ≠ x := by
  rcases componentFolds piece with same | ⟨lead, origin, value, tail, folded, around⟩
  · rwa [same]
  · rw [folded]
    intro g member
    rcases List.mem_append.mp member with inside | member
    · exact free g (around.front inside)
    rcases List.mem_append.mp member with inside | inside
    · exact numberWithout other origin value g inside
    · exact free g (around.back inside)

theorem piecesWithout (free : ∀ g ∈ t, g.char ≠ x) :
    ∀ g ∈ mapPieces (·.char == ',') foldComponent t, g.char ≠ x := by
  induction t using cutInduction (fun g : Glyph => g.char == ',') with
  | whole t clean =>
    rw [mapPiecesWhole clean]
    exact componentWithout other free
  | cut piece comma rest clean hit ih =>
    rw [mapPiecesCut clean hit]
    intro g member
    rcases List.mem_append.mp member with inside | member
    · exact componentWithout other (fun h among => free h (List.mem_append_left _ among)) g inside
    rcases List.mem_cons.mp member with rfl | inside
    · exact free g (by simp)
    · exact ih (fun h among => free h (by simp [among])) g inside

theorem foldWithout (free : ∀ g ∈ t, g.char ≠ x) :
    ∀ g ∈ foldBrackets t, g.char ≠ x := by
  fun_induction foldBrackets t with
  | case1 => exact free
  | case2 g rest opens inner =>
    rename_i ih
    have later : ∀ h ∈ rest, h.char ≠ x := fun h among => free h (List.mem_cons_of_mem _ among)
    have within : ∀ h ∈ inner, h.char ≠ x := fun h among =>
      later h ((List.takeWhile_sublist _).subset among)
    intro h member
    rcases List.mem_append.mp member with member | behind
    · rcases List.mem_cons.mp member with rfl | inside
      · exact free h List.mem_cons_self
      · split at inside
        · exact piecesWithout other within h inside
        · exact within h inside
    · exact ih (fun k among => later k ((List.dropWhile_sublist _).subset among)) h behind
  | case3 g rest _ ih =>
    intro h member
    rcases List.mem_cons.mp member with rfl | inside
    · exact free h List.mem_cons_self
    · exact ih (fun k among => free k (List.mem_cons_of_mem _ among)) h inside

end

theorem piecesSettled (t : MappedText) : mapPieces (·.char == ',') foldComponent
    (mapPieces (·.char == ',') foldComponent t) = mapPieces (·.char == ',') foldComponent t := by
  have clean {piece : MappedText} (free : ∀ g ∈ piece, (g.char == ',') = false) :
      ∀ g ∈ foldComponent piece, (g.char == ',') = false := by
    simp only [beq_eq_false_iff_ne] at free ⊢
    exact componentWithout rfl free
  induction t using cutInduction (fun g : Glyph => g.char == ',') with
  | whole t free => rw [mapPiecesWhole free, mapPiecesWhole (clean free), componentSettled]
  | cut piece comma rest free hit ih =>
    rw [mapPiecesCut free hit, mapPiecesCut (clean free) hit, componentSettled, ih]

theorem foldHead (t : MappedText) : (foldBrackets t).head? = t.head? := by
  cases t with
  | nil => simp [foldBrackets]
  | cons g rest =>
    unfold foldBrackets
    split <;> rfl

theorem foldSettled (t : MappedText) : foldBrackets (foldBrackets t) = foldBrackets t := by
  fun_induction foldBrackets t with
  | case1 => rw [foldBrackets]
  | case2 g rest opens inner closed =>
    rename_i ih
    have within : ∀ h ∈ inner, isInside h = true := fun h => List.mem_takeWhile_imp
    generalize made :
      (if closed = true then mapPieces (·.char == ',') foldComponent inner else inner) = out
    -- what is put in has no bracket, so the same brackets are innermost again
    have inside : ∀ h ∈ out, isInside h = true := by
      rw [← made]
      intro h member
      split at member
      · simp only [isInside, Bool.and_eq_true, bne_iff_ne] at within ⊢
        exact ⟨piecesWithout rfl (fun k among => (within k among).1) h member,
          piecesWithout rfl (fun k among => (within k among).2) h member⟩
      · exact within h member
    have stop : (foldBrackets (rest.dropWhile isInside)).takeWhile isInside = [] ∧
        (foldBrackets (rest.dropWhile isInside)).dropWhile isInside =
          foldBrackets (rest.dropWhile isInside) := by
      have first := List.head?_dropWhile_not isInside rest
      rw [← foldHead] at first
      generalize foldBrackets (rest.dropWhile isInside) = behind at first ⊢
      cases behind with
      | nil => exact ⟨rfl, rfl⟩
      | cons h more =>
        have outside : ¬ isInside h = true := by simpa using first
        exact ⟨List.takeWhile_cons_of_neg outside, List.dropWhile_cons_of_neg outside⟩
    have again : (if closed = true then mapPieces (·.char == ',') foldComponent out else out) = out := by
      rw [← made]
      cases closed
      · rfl
      · exact piecesSettled inner
    rw [List.cons_append, foldBrackets, if_pos opens]
    simp only [List.takeWhile_append_of_pos inside, List.dropWhile_append_of_pos inside, stop,
      List.append_nil, foldHead, ih, List.cons_append]
    exact congrArg (fun text => g :: (text ++ foldBrackets (rest.dropWhile isInside))) again
  | case3 g rest other ih => rw [foldBrackets, if_neg other, ih]

theorem substituteUnset (before : Option Char) (t : MappedText) :
    substitute [] before t = .ok (t, []) := by
  generalize none : ([] : Variables) = vars
  fun_induction substitute vars before t with
  | case1 => rfl
  | case2 vars before g rest use found =>
    subst none
    unfold useAt? at found
    simp only [Variables.knows, Variables.get?, List.lookup_nil, Option.isSome_none, Bool.and_false,
      Bool.false_eq_true, if_false] at found
    repeat' split at found
    all_goals cases found
  | case3 vars before g rest unused word kept ih =>
    have front : rest.take word.length = word := keptWord g rest
    have whole : kept ++ rest.drop word.length = g :: rest := by
      have parts := List.take_append_drop word.length rest
      rw [front] at parts
      exact congrArg (g :: ·) parts
    simp only [ih none, bind, Except.bind, pure, Except.pure, whole]

theorem Worked.closed {last : Option Char} {out : MappedText} (worked : Worked last t out) :
    ∀ g ∈ out, g.char ≠ '$' := by
  induction worked with
  | done => simp
  | keep plain _ ih => exact List.forall_mem_cons.mpr ⟨plain, ih⟩
  | number _ _ _ _ _ ih =>
    intro g member
    rcases List.mem_append.mp member with inside | inside
    · exact numberWithout rfl _ _ g inside
    · exact ih g inside
  | block _ _ _ _ ih => exact ih
  | comma _ _ _ ih => exact ih

theorem indicesSettled {registry : Registry} {t u : MappedText} (ok : evaluate registry t = .ok u) :
    (∀ g ∈ u, g.char ≠ '$') ∧ ∀ other : Registry, evaluate other u = .ok u := by
  obtain ⟨text, worked, rfl⟩ := mapOk ok
  have named : Named [] := by simp [Named]
  have closed := foldWithout rfl (evaluateWorked named worked).closed
  refine ⟨closed, fun other => ?_⟩
  have uncut : cutFirst isDollar (foldBrackets text) = none :=
    cutFirstNone fun g member => beq_eq_false_iff_ne.mpr (closed g member)
  have again : evaluateFrom other [] none (foldBrackets text) = .ok (foldBrackets text) := by
    unfold evaluateFrom
    split
    · rw [substituteUnset]
      rfl
    · rename_i cut
      cases uncut.symm.trans cut
  rw [evaluate, again]
  exact congrArg Except.ok (foldSettled text)

theorem indicesSettledStepped :
    ∃ u, evaluate {} (ofSource "$m=1;k=m+2$,sc.C[m-2,2*k;k],dc@[sc:k++-m],ch@[%,-k]".toList) = .ok u ∧
      chars u = "sc.C[-1,6;3],dc@[sc:2],ch@[%,-4]".toList ∧ (∀ g ∈ u, g.char ≠ '$') ∧
      ∀ other : Registry, evaluate other u = .ok u := by
  have runs : (evaluate {} (ofSource
      "$m=1;k=m+2$,sc.C[m-2,2*k;k],dc@[sc:k++-m],ch@[%,-k]".toList)).toOption.any
        (chars · == "sc.C[-1,6;3],dc@[sc:2],ch@[%,-4]".toList) = true := by
    decide +kernel
  obtain ⟨u, ok, shown⟩ := testOk runs
  exact ⟨u, ok, beq_iff_eq.mp shown, indicesSettled ok⟩

end Crochet.Index
