import Crochet.Proofs.Decimal.Whole
import Crochet.Proofs.Row.Reading

/-! Texts and the tokens they spell. A word, a number or a mark in front of something that cannot join
it is that token again, wherever the text stands; so modifiers that are written are read as they
were. -/
namespace Crochet.Row
open Token Text

def Spells (ts : List Token) (text : List Char) : Prop := ∃ offset, ts = scan offset [] text

def isPunct (c : Char) : Bool := !isSkipped c && !c.isDigit && !isNameStart c

def isApart (c : Char) : Bool := isPunct c && c != '.' && c != ':'

def isEnd (c : Char) : Bool := c == ',' || c == '\n' || isClosing c

def isBehind (c : Char) : Bool := isEnd c || c == '@'

def Heads (p : Char → Bool) (text : List Char) : Prop := ∀ c, text.head? = some c → p c = true

theorem headsMono {p q : Char → Bool} (imp : ∀ c, p c = true → q c = true) {text : List Char}
    (heads : Heads p text) : Heads q text := fun c first => imp c (heads c first)

theorem headsAppend {p : Char → Bool} {text more : List Char} (first : Heads p text)
    (second : Heads p more) : Heads p (text ++ more) := by
  cases text with
  | nil => exact second
  | cons c text => exact first

variable {c mark : Char} {kind : Token.Kind} {t : Token} {w : List Char}

theorem headsCons {p : Char → Bool} (holds : p c = true) (text : List Char) :
    Heads p (c :: text) := by
  intro d first
  cases first
  exact holds

theorem closingOf (closing : isClosing c = true) : ∃ b : Bracket, c = b.closing := by
  unfold isClosing Bracket.closed? at closing
  split at closing
  · exact ⟨.square, by assumption⟩
  split at closing
  · exact ⟨.round, by assumption⟩
  split at closing
  · exact ⟨.curly, by assumption⟩
  · cases closing

theorem endCases (ends : isEnd c = true) :
    c = ',' ∨ c = '\n' ∨ ∃ b : Bracket, c = b.closing := by
  rcases Bool.or_eq_true_iff.mp ends with separates | closes
  · rcases Bool.or_eq_true_iff.mp separates with comma | newline
    · exact .inl (beq_iff_eq.mp comma)
    · exact .inr (.inl (beq_iff_eq.mp newline))
  · exact .inr (.inr (closingOf closes))

theorem endKind (ends : isEnd c = true) :
    ((markKind c).isSeparator || (markKind c).isClose) = true := by
  rcases endCases ends with rfl | rfl | ⟨b, rfl⟩
  · rfl
  · rfl
  · cases b <;> rfl

theorem endApart (ends : isEnd c = true) : isApart c = true := by
  rcases endCases ends with rfl | rfl | ⟨b, rfl⟩
  · rfl
  · rfl
  · cases b <;> rfl

theorem behindApart (behind : isBehind c = true) : isApart c = true := by
  rcases Bool.or_eq_true_iff.mp behind with ends | mark
  · exact endApart ends
  · rw [beq_iff_eq.mp mark]
    rfl

def isTail (c : Char) : Bool := isBehind c || c == '+' || c == '!' || c == '^'

theorem behindTail (behind : isBehind c = true) : isTail c = true := by
  simp [isTail, behind]

theorem tailApart (tail : isTail c = true) : isApart c = true := by
  simp only [isTail, Bool.or_eq_true, beq_iff_eq] at tail
  rcases tail with ((behind | rfl) | rfl) | rfl
  · exact behindApart behind
  · rfl
  · rfl
  · rfl

theorem tailOpens (tail : isTail c = true) : markKind c ≠ .opens .square := by
  simp only [isTail, isBehind, Bool.or_eq_true, beq_iff_eq] at tail
  rcases tail with (((ends | rfl) | rfl) | rfl) | rfl
  · intro opens
    have kind := endKind ends
    rw [opens] at kind
    cases kind
  all_goals exact fun opens => by cases opens

theorem apartNeutral (apart : isApart c = true) : isNeutral c = true := by
  simp only [isApart, isPunct, isNameStart, Bool.and_eq_true, Bool.not_eq_true',
    Bool.or_eq_false_iff] at apart
  simp [isNeutral, isNameChar, Char.isAlphanum, apart]

theorem neutralOf {text : List Char} (apart : Heads isApart text) : Neutral text :=
  headsMono (fun _ => apartNeutral) apart

section
variable {ts : List Token} {text : List Char}

theorem spellsNil (spells : Spells ts []) : ts = [] := by
  obtain ⟨offset, rfl⟩ := spells
  rw [scan]

theorem spellsLexed {tail : List Char} (visible : isSkipped c = false)
    (lexed : Lexed (c :: tail) kind text) (spells : Spells ts (c :: tail ++ text)) :
    ∃ t rest, ts = t :: rest ∧ t.kind = kind ∧ t.lexeme = c :: tail ∧ Spells rest text := by
  obtain ⟨offset, rfl⟩ := spells
  obtain ⟨after, scanned⟩ := scanLexed visible lexed offset []
  exact ⟨_, _, scanned, rfl, rfl, after, rfl⟩

theorem spellsMark (punct : isPunct mark = true) (spells : Spells ts (mark :: text)) :
    ∃ t rest, ts = t :: rest ∧ t.kind = markKind mark ∧ Spells rest text := by
  simp only [isPunct, Bool.and_eq_true, Bool.not_eq_true'] at punct
  have lexed : Lexed [mark] (markKind mark) text := .mark punct.1.2 punct.2
  obtain ⟨t, rest, same, kind, _, more⟩ := spellsLexed punct.1.1 lexed spells
  exact ⟨t, rest, same, kind, more⟩

theorem spellsHead (apart : Heads isApart text) (spells : Spells ts text)
    (first : ts.head? = some t) : ∃ c, text.head? = some c ∧ t.kind = markKind c := by
  cases text with
  | nil => rw [spellsNil spells] at first; cases first
  | cons c text =>
    have punct : isPunct c = true := by
      have := apart c rfl
      simp only [isApart, Bool.and_eq_true] at this
      exact this.1.1
    obtain ⟨u, rest, rfl, kind, _⟩ := spellsMark punct spells
    cases first
    exact ⟨c, rfl, kind⟩

theorem spellsEnds (ends : Heads isEnd text) (spells : Spells ts text) : Ends ts := by
  intro t first
  obtain ⟨c, head, kind⟩ := spellsHead (headsMono (fun _ => endApart) ends) spells first
  rw [kind]
  exact endKind (ends c head)

end

theorem joinsVisible (joins : isNeutral c = false) : isSkipped c = false := by
  cases blank : isSkipped c with
  | false => rfl
  | true =>
    simp only [isSkipped, Bool.or_eq_true, beq_iff_eq] at blank
    rcases blank with (rfl | rfl) | rfl <;> cases joins

def isWordEnd (c : Char) : Bool := !isNameChar c && c != ':'

theorem neutralWordEnd (neutral : isNeutral c = true) : isWordEnd c = true := by
  simp only [isNeutral, Bool.and_eq_true] at neutral
  simp only [isWordEnd, Bool.and_eq_true]
  exact ⟨neutral.1.1, neutral.2⟩

theorem endWordEnd (ends : isEnd c = true) : isWordEnd c = true :=
  neutralWordEnd (apartNeutral (endApart ends))

theorem behindWordEnd (behind : isBehind c = true) : isWordEnd c = true :=
  neutralWordEnd (apartNeutral (behindApart behind))

theorem spellsWord {ts : List Token} {text : List Char} (name : isName w = true)
    (ends : Heads isWordEnd text) (spells : Spells ts (w ++ text)) :
    ∃ t rest, ts = t :: rest ∧ t.kind = (if w = "turn".toList then .turn else .name) ∧ t.lexeme = w ∧
      Spells rest text := by
  cases w with
  | nil => cases name
  | cons c cs =>
    simp only [isName, Bool.and_eq_true, List.all_eq_true] at name
    have stops : Stops isNameChar text := by
      intro d first
      have ended := ends d first
      simp only [isWordEnd, Bool.and_eq_true, Bool.not_eq_true'] at ended
      exact ended.1
    have bare (more : List Char) (colon : text = ':' :: more) : Stops Char.isDigit more := by
      have ended := ends ':' (by rw [colon]; rfl)
      cases ended
    refine spellsLexed (joinsVisible (nameJoins c ?_)) (.word name.1 name.2 stops fun _ => bare) spells
    have start := name.1
    simp only [isNameStart, Bool.or_eq_true] at start
    simp only [isNameChar, Char.isAlphanum, Bool.or_eq_true]
    exact start.imp_left .inl

def NameWord (w : List Char) : Prop := isName w = true ∧ w ≠ "turn".toList

theorem spellsName {ts : List Token} {text : List Char} (word : NameWord w)
    (ends : Heads isWordEnd text) (spells : Spells ts (w ++ text)) :
    ∃ t rest, ts = t :: rest ∧ t.kind = .name ∧ t.lexeme = w ∧ Spells rest text := by
  obtain ⟨t, rest, same, kind, more⟩ := spellsWord word.1 ends spells
  exact ⟨t, rest, same, kind.trans (if_neg word.2), more⟩

theorem spellsDigits {ts : List Token} {digits text : List Char} (all : ∀ d ∈ digits, d.isDigit = true)
    (some : digits ≠ []) (neutral : Neutral text) (spells : Spells ts (digits ++ text)) :
    ∃ t rest, ts = t :: rest ∧ t.kind = .number (Decimal.scaled digits 0) ∧ Spells rest text := by
  have value : numberKind digits = .number (Decimal.scaled digits 0) := by
    rw [numberKind, Decimal.realDigits all some]
  cases digits with
  | nil => exact absurd rfl some
  | cons c cs =>
    obtain ⟨digit, more⟩ := List.forall_mem_cons.mp all
    have goes : GoesOn [] text := ⟨[], [], text, rfl, rfl, neutral⟩
    have stops : NumberStops text :=
      ⟨goesOnStops goes digitJoins (fun _ none => by cases none),
        goesOnMarked goes rfl (fun _ none => by cases none)⟩
    obtain ⟨t, rest, same, kind, _, spells⟩ :=
      spellsLexed (joinsVisible (digitJoins c digit)) (.number digit more stops) spells
    exact ⟨t, rest, same, kind.trans value, spells⟩

def isWordKind : Token.Kind → Bool
  | .number _ | .name | .color _ | .turn => true
  | _ => false

theorem markNoWord (c : Char) : isWordKind (markKind c) = false := by
  unfold markKind
  split
  · rfl
  · rfl
  · simp only [apply_ite isWordKind]
    simp only [isWordKind, ite_self]

theorem numberNone {c : Cursor} {text : List Char} (apart : Heads isApart text)
    (spells : Spells c.rest text) : c.number? = none := by
  rw [numberTakes, takeNone]
  intro t first
  obtain ⟨d, _, kind⟩ := spellsHead apart spells first
  have plain := markNoWord d
  rw [← kind] at plain
  cases same : t.kind <;> first | rfl | (rw [same] at plain; cases plain)

theorem acceptNone {c : Cursor} (other : ∀ t, c.rest.head? = some t → t.kind ≠ kind) :
    c.accept? kind = none := by
  unfold Cursor.accept?
  split
  · rfl
  · rename_i t rest same
    exact if_neg (other t (by rw [same]; rfl))

theorem behindKind {ts : List Token} {text : List Char} (behind : Heads isBehind text)
    (spells : Spells ts text) (first : ts.head? = some t) :
    (t.kind.isSeparator || t.kind.isClose) = true ∨ t.kind = .address := by
  obtain ⟨c, head, kind⟩ := spellsHead (headsMono (fun _ => behindApart) behind) spells first
  rw [kind]
  rcases Bool.or_eq_true_iff.mp (behind c head) with ends | mark
  · exact .inl (endKind ends)
  · rw [beq_iff_eq.mp mark]
    exact .inr rfl

section
variable (place : Span → Span)

def edgeText : Option Bool → List Char
  | none => []
  | some false => ['0']
  | some true => ['1']

theorem edgeReads (digit : Option Bool) (mark : Token) {c : Cursor} {text : List Char}
    (apart : Heads isApart text) (spells : Spells c.rest (edgeText digit ++ text)) :
    ∃ after, edgeDigit place mark c = .ok (digit, after) ∧ Spells after.rest text := by
  match digit with
  | none => exact ⟨c, by rw [edgeDigit, numberNone apart spells], spells⟩
  | some false =>
    obtain ⟨t, rest, same, kind, more⟩ :=
      @spellsDigits _ ['0'] _ (List.all_eq_true.mp rfl) (by decide) (neutralOf apart) spells
    refine ⟨⟨t.stop, rest⟩, ?_, more⟩
    simp only [edgeDigit, Cursor.number?, same, kind]
    rw [if_pos (by decide +kernel)]
  | some true =>
    obtain ⟨t, rest, same, kind, more⟩ :=
      @spellsDigits _ ['1'] _ (List.all_eq_true.mp rfl) (by decide) (neutralOf apart) spells
    refine ⟨⟨t.stop, rest⟩, ?_, more⟩
    simp only [edgeDigit, Cursor.number?, same, kind]
    rw [if_neg (by decide +kernel), if_pos (by decide +kernel)]

def postText : Option Int → List Char
  | none => []
  | some n => (toString n).toList

def PostRereads (which : Option Int) : Prop := ∀ n, which = some n → Decimal.Rereads n.natAbs

theorem naturalReads {n : Nat} (rereads : Decimal.Rereads n) {c : Cursor} {text : List Char}
    (apart : Heads isApart text) (spells : Spells c.rest (Nat.toDigits 10 n ++ text)) :
    ∃ x t after, c.number? = some (x, t, after) ∧ c.accept? .minus = none ∧
      Decimal.wholeWord? x = some (n : Int) ∧ Spells after.rest text := by
  obtain ⟨t, rest, same, kind, more⟩ := spellsDigits
    (fun d member => Nat.isDigit_of_mem_toDigits (by decide) (by decide) member)
    Nat.toDigits_ne_nil (neutralOf apart) spells
  refine ⟨_, t, ⟨t.stop, rest⟩, by simp only [Cursor.number?, same, kind], ?_, rereads, more⟩
  refine acceptNone fun u first minus => ?_
  rw [same] at first
  cases first
  cases kind.symm.trans minus

theorem postReads {which : Option Int} (rereads : PostRereads which) (caret : Token) {c : Cursor}
    {text : List Char} (behind : Heads isBehind text) (spells : Spells c.rest (postText which ++ text)) :
    ∃ after, postNumber place caret c = .ok (which, after) ∧ Spells after.rest text := by
  have apart := headsMono (fun _ => behindApart) behind
  match which with
  | none =>
    have bare : c.accept? .minus = none := by
      refine acceptNone fun t first minus => ?_
      rcases behindKind behind spells first with ends | address
      · rw [minus] at ends; cases ends
      · rw [minus] at address; cases address
    exact ⟨c, by simp only [postNumber, bare, numberNone apart spells], spells⟩
  | some (.ofNat n) =>
    have digits : postText (some (Int.ofNat n)) = Nat.toDigits 10 n := Nat.toList_repr
    rw [digits] at spells
    obtain ⟨x, t, after, number, bare, value, more⟩ := naturalReads (rereads _ rfl) apart spells
    exact ⟨after, by simp only [postNumber, bare, number, value]; rfl, more⟩
  | some (.negSucc n) =>
    have digits : postText (some (Int.negSucc n)) = '-' :: Nat.toDigits 10 (n + 1) := by
      show ("-" ++ Nat.repr (n + 1)).toList = _
      rw [String.toList_append, Nat.toList_repr]
      rfl
    rw [digits] at spells
    obtain ⟨minus, rest, same, kind, spells⟩ := spellsMark rfl spells
    obtain ⟨x, t, after, number, _, value, more⟩ :=
      naturalReads (c := ⟨minus.stop, rest⟩) (rereads _ rfl) apart spells
    refine ⟨after, ?_, more⟩
    have signed : c.accept? .minus = some (minus, ⟨minus.stop, rest⟩) := by
      simp only [Cursor.accept?, same]
      exact if_pos kind
    simp only [postNumber, signed, number]
    rw [show (Int.negSucc n).natAbs = n + 1 from rfl] at value
    simp only [value]
    rfl

theorem markReads {m next : Marks} {value text : List Char} {c : Cursor}
    (punct : isPunct mark = true) (marks : isMark (markKind mark) = true)
    (read : ∀ t rest, t.kind = markKind mark → Spells rest (value ++ text) → ∃ after,
      markValue place m t ⟨t.stop, rest⟩ = .ok (next, after) ∧ Spells after.rest text)
    (spells : Spells c.rest (mark :: value ++ text)) :
    ∃ after, marksFrom place m c = marksFrom place next after ∧ Spells after.rest text := by
  obtain ⟨last, ts⟩ := c
  obtain ⟨t, rest, same, kind, more⟩ := spellsMark punct spells
  obtain ⟨after, one, spells⟩ := read t rest kind more
  refine ⟨after, ?_, spells⟩
  rw [show ts = t :: rest from same]
  exact marksMore place last (by rw [kind]; exact marks) one

theorem edgeMarkReads {m : Marks} {c : Cursor} {text : List Char} (mark : Char)
    (next : Option Bool → Marks) (punct : isPunct mark = true) (marks : isMark (markKind mark) = true)
    (value : ∀ t c, t.kind = markKind mark →
      markValue place m t c = (edgeDigit place t c).map (Prod.map next id))
    (apart : Heads isApart text) (digit : Option Bool)
    (spells : Spells c.rest (mark :: edgeText digit ++ text)) :
    ∃ after, marksFrom place m c = marksFrom place (next digit) after ∧ Spells after.rest text := by
  refine markReads place punct marks (fun t rest kind spells => ?_) spells
  obtain ⟨after, read, more⟩ := edgeReads place digit t (c := ⟨t.stop, rest⟩) apart spells
  exact ⟨after, by rw [value t _ kind, read]; rfl, more⟩

theorem extendReads (e : Option Extend) {c : Cursor} {text : List Char} (apart : Heads isApart text)
    (spells : Spells c.rest (((e.map Extend.display).getD "").toList ++ text)) :
    ∃ after, marksFrom place {} c = marksFrom place ⟨{ extend := e }, false⟩ after ∧
      Spells after.rest text := by
  have mark := edgeMarkReads (m := {}) (c := c) place '+' (Marks.extended {}) rfl rfl
    (fun t c kind => by simp only [markValue, kind]; rfl) apart
  cases e with
  | none => exact ⟨c, rfl, spells⟩
  | some e =>
    cases e with
    | both => exact mark none spells
    | left => exact mark (some false) spells
    | right => exact mark (some true) spells

theorem skipReads (e : Option Extend) (k : Option Skip) {c : Cursor} {text : List Char}
    (apart : Heads isApart text)
    (spells : Spells c.rest (((k.map Skip.display).getD "").toList ++ text)) :
    ∃ after, marksFrom place ⟨{ extend := e }, false⟩ c =
      marksFrom place ⟨{ extend := e, skip := k }, false⟩ after ∧ Spells after.rest text := by
  have mark := edgeMarkReads (m := ⟨{ extend := e }, false⟩) (c := c) place '!' (Marks.skipping _) rfl rfl
    (fun t c kind => by simp only [markValue, kind]; rfl) apart
  cases k with
  | none => exact ⟨c, rfl, spells⟩
  | some k =>
    cases k with
    | both => exact mark none spells
    | first => exact mark (some false) spells
    | last => exact mark (some true) spells

theorem displayParts (m : Modifiers) : m.display.toList = ((m.extend.map Extend.display).getD "").toList ++
    (((m.skip.map Skip.display).getD "").toList ++ ((m.post.map displayPost).getD "").toList) := by
  simp only [Modifiers.display, String.toList_append, List.append_assoc]

theorem extendTail (e : Option Extend) : Heads isTail ((e.map Extend.display).getD "").toList := by
  rintro c first
  match e with
  | none => cases first
  | some .both | some .left | some .right => cases first; rfl

theorem skipTail (k : Option Skip) : Heads isTail ((k.map Skip.display).getD "").toList := by
  rintro c first
  match k with
  | none => cases first
  | some .both | some .first | some .last => cases first; rfl

theorem postShown (which : Option Int) : (displayPost which).toList = '^' :: postText which := by
  cases which with
  | none => rfl
  | some n =>
    rw [displayPost, String.toList_append]
    rfl

theorem postTail (which : Option (Option Int)) :
    Heads isTail ((which.map displayPost).getD "").toList := by
  rintro c first
  match which with
  | none => cases first
  | some which =>
    rw [show ((some which).map displayPost).getD "" = displayPost which from rfl, postShown] at first
    cases first
    rfl

theorem displayTail (m : Modifiers) : Heads isTail m.display.toList := by
  rw [displayParts]
  exact headsAppend (extendTail _) (headsAppend (skipTail _) (postTail _))

def ModifiersReread (m : Modifiers) : Prop := ∀ which, m.post = some which → PostRereads which

theorem modifiersRead {m : Modifiers} (rereads : ModifiersReread m)
    {c : Cursor} {text : List Char} (behind : Heads isBehind text)
    (spells : Spells c.rest (m.display.toList ++ text)) :
    ∃ after, marksFrom place {} c = .ok (⟨m, false⟩, after) ∧ Spells after.rest text := by
  obtain ⟨e, k, which⟩ := m
  have rest : Heads isTail (((which.map displayPost).getD "").toList ++ text) :=
    headsAppend (postTail which) (headsMono (fun _ => behindTail) behind)
  have quiet {d : Cursor} (spells : Spells d.rest text) (m : Marks) : marksFrom place m d = .ok (m, d) := by
    refine marksEnd place m fun t first => ?_
    rcases behindKind behind spells first with ends | address
    · revert ends
      cases t.kind <;> simp [isMark, Token.Kind.isSeparator, Token.Kind.isClose]
    · rw [address]; rfl
  rw [displayParts, List.append_assoc, List.append_assoc] at spells
  obtain ⟨c₁, first, spells⟩ :=
    extendReads place e (headsMono (fun _ => tailApart) (headsAppend (skipTail k) rest)) spells
  obtain ⟨c₂, second, spells⟩ := skipReads place e k (headsMono (fun _ => tailApart) rest) spells
  rw [first, second]
  cases which with
  | none => exact ⟨c₂, quiet spells _, spells⟩
  | some which =>
    rw [show ((some which).map displayPost).getD "" = displayPost which from rfl, postShown] at spells
    obtain ⟨after, read, spells⟩ : ∃ after, marksFrom place ⟨{ extend := e, skip := k }, false⟩ c₂ =
        marksFrom place ⟨⟨e, k, some which⟩, false⟩ after ∧ Spells after.rest text := by
      refine markReads place rfl rfl (fun t rest kind spells => ?_) spells
      obtain ⟨after, read, more⟩ :=
        postReads place (rereads which rfl) t (c := ⟨t.stop, rest⟩) behind spells
      refine ⟨after, ?_, more⟩
      simp only [markValue, kind]
      simp only [markKind, read]
      rfl
    exact ⟨after, by rw [read]; exact quiet spells _, spells⟩

end

end Crochet.Row
