import Crochet.Proofs.Outcome
import Crochet.Proofs.Token.Rescan

/-! What an index expression means. The grammar is given by its derivations, each with the text that
it derives and the value of that text. An expression is worked out from left to right without a tree;
it is worked out to a value exactly where it has a derivation in which no divisor is zero, and to the
value of that derivation. -/
namespace Crochet.Arith
open Text
open Token (Stops)

def AddOp.sign : AddOp → Char
  | plus => '+'
  | minus => '-'

def MulOp.sign : MulOp → Char
  | times => '*'
  | divided => '/'

inductive Rank where
  | sum
  | product
  | unary
  | atom
  deriving DecidableEq, Repr

/- A number stands beside signs and parentheses only, so its run of digits and points is maximal. -/
inductive Derivation : Rank → Type where
  | number (literal : List Char) (x : Float) (numeric : ∀ c ∈ literal, isNumeric c = true)
      (reads : Decimal.realOf literal = .ok x) : Derivation .atom
  | parens (s : Derivation .sum) : Derivation .atom
  | atom (a : Derivation .atom) : Derivation .unary
  | signed (op : AddOp) (u : Derivation .unary) : Derivation .unary
  | unary (u : Derivation .unary) : Derivation .product
  | multiplied (p : Derivation .product) (op : MulOp) (u : Derivation .unary) : Derivation .product
  | product (p : Derivation .product) : Derivation .sum
  | added (s : Derivation .sum) (op : AddOp) (p : Derivation .product) : Derivation .sum

namespace Derivation

def text : Derivation r → List Char
  | number literal .. => literal
  | parens s => '(' :: (s.text ++ [')'])
  | atom a => a.text
  | signed op u => op.sign :: u.text
  | unary u => u.text
  | multiplied p op u => p.text ++ op.sign :: u.text
  | product p => p.text
  | added s op p => s.text ++ op.sign :: p.text

def value : Derivation r → Float
  | number _ x .. => x
  | parens s => s.value
  | atom a => a.value
  | signed .plus u => u.value
  | signed .minus u => -u.value
  | unary u => u.value
  | multiplied p .times u => p.value * u.value
  | multiplied p .divided u => p.value / u.value
  | product p => p.value
  | added s .plus p => s.value + p.value
  | added s .minus p => s.value - p.value

def divides : Derivation r → Bool
  | number .. => true
  | parens s => s.divides
  | atom a => a.divides
  | signed _ u => u.divides
  | unary u => u.divides
  | multiplied p .times u => p.divides && u.divides
  | multiplied p .divided u => p.divides && u.divides && !(u.value == 0.0)
  | product p => p.divides
  | added s _ p => s.divides && p.divides

def outcome (e : Derivation r) : Except Fault Float :=
  if e.divides then .ok e.value else .error .divisionByZero

theorem outcomeOk {e : Derivation r} {v : Float} :
    e.outcome = .ok v ↔ e.divides = true ∧ e.value = v := by
  unfold outcome
  split <;> simp_all

theorem outcomeMinus (u : Derivation .unary) : (signed .minus u).outcome = u.outcome.map (-·) := by
  cases defined : u.divides <;> simp [outcome, divides, value, defined, Except.map]

theorem outcomeMultiplied (p : Derivation .product) (op : MulOp) (u : Derivation .unary) :
    (multiplied p op u).outcome = p.outcome >>= fun a => u.outcome >>= op.apply a := by
  cases op with
  | times =>
    cases left : p.divides <;> cases right : u.divides <;>
      simp [outcome, divides, value, left, right, bind, Except.bind, MulOp.apply]
  | divided =>
    cases left : p.divides <;> cases right : u.divides <;> cases zero : u.value == 0.0 <;>
      simp [outcome, divides, value, left, right, zero, bind, Except.bind, MulOp.apply]

theorem outcomeAdded (s : Derivation .sum) (op : AddOp) (p : Derivation .product) :
    (added s op p).outcome = s.outcome >>= fun a => p.outcome.map (op.apply a) := by
  cases op <;> cases left : s.divides <;> cases right : p.divides <;>
    simp [outcome, divides, value, left, right, bind, Except.bind, Except.map, AddOp.apply]

end Derivation

theorem scanMark {c : Char} (mark : isNumeric c = false) (cs : List Char) :
    scan (c :: cs) = .mark c :: scan cs := by
  simp [scan, mark]

variable {literal : List Char}

theorem scanStops {cs : List Char} (stops : Stops isNumeric cs) {rest : List Piece} :
    scan cs ≠ .number literal :: rest := by
  intro found
  cases cs with
  | nil => cases found
  | cons c cs =>
    rw [scanMark (stops c rfl)] at found
    cases found

theorem scanNumber {rest : List Char} (some : literal ≠ [])
    (numeric : ∀ c ∈ literal, isNumeric c = true) (stops : Stops isNumeric rest) :
    scan (literal ++ rest) = .number literal :: scan rest := by
  induction literal with
  | nil => exact absurd rfl some
  | cons c literal ih =>
    rw [List.cons_append, scan, if_pos (numeric c List.mem_cons_self)]
    cases literal with
    | nil =>
      split
      · rename_i found
        exact absurd found (scanStops stops)
      · rfl
    | cons d literal =>
      rw [ih (by simp) fun e member => numeric e (List.mem_cons_of_mem _ member)]

theorem negateMinus (n : Nat) (x : Float) : negate n (-x) = negate (n + 1) x := by
  induction n with
  | zero => rfl
  | succ n ih => exact congrArg (-·) ih

def Pending.signed (p : Pending) : AddOp → Pending
  | .plus => p
  | .minus => { p with minuses := p.minuses + 1 }

theorem takeMinus (p : Pending) (x : Float) : (p.signed .minus).take x = p.take (-x) := by
  simp only [Pending.take, Pending.signed, negateMinus]

theorem signStops (op : AddOp) (cs : List Char) : Stops isNumeric (op.sign :: cs) := by
  rintro _ ⟨⟩
  cases op <;> rfl

theorem factorStops (op : MulOp) (cs : List Char) : Stops isNumeric (op.sign :: cs) := by
  rintro _ ⟨⟩
  cases op <;> rfl

theorem closeStops (cs : List Char) : Stops isNumeric (')' :: cs) := by
  rintro _ ⟨⟩
  rfl

section
variable (outer : List Pending) (p : Pending) (r : Running) (cs : List Char)

theorem operandNumber {x : Float} (numeric : ∀ c ∈ literal, isNumeric c = true)
    (reads : Decimal.realOf literal = .ok x) (stops : Stops isNumeric cs) :
    operand outer p (scan (literal ++ cs)) = p.take x >>= fun r => operator outer r (scan cs) := by
  have some : literal ≠ [] := by
    rintro rfl
    cases reads
  rw [scanNumber some numeric stops, operand]
  simp only [reads]
  cases p.take x <;> rfl

theorem operandSign (op : AddOp) :
    operand outer p (scan (op.sign :: cs)) = operand outer (p.signed op) (scan cs) := by
  cases op <;> rw [scanMark (by rfl)] <;> rfl

theorem operandOpens : operand outer p (scan ('(' :: cs)) = operand (p :: outer) {} (scan cs) := by
  rw [scanMark (by rfl)]
  rfl

theorem operatorAdds (op : AddOp) : operator outer r (scan (op.sign :: cs)) =
    operand outer { sum := some (r.total, op) } (scan cs) := by
  cases op <;> rw [scanMark (by rfl)] <;> rfl

theorem operatorMultiplies (op : MulOp) : operator outer r (scan (op.sign :: cs)) =
    operand outer { sum := r.sum, product := some (r.product, op) } (scan cs) := by
  cases op <;> rw [scanMark (by rfl)] <;> rfl

theorem operatorCloses : operator (p :: outer) r (scan (')' :: cs)) =
    p.take r.total >>= fun r => operator outer r (scan cs) := by
  rw [scanMark (by rfl)]
  cases taken : p.take r.total <;> simp [operator, taken, bind, Except.bind]

end

/- What the reader makes of an expression, wherever it stands, before a text that cannot lengthen its
last number: a unary goes into what is pending, a product into the sum, and a sum is complete. -/
def Evaluates : (rank : Rank) → Derivation rank → Prop
  | .sum, e => ∀ outer rest, Stops isNumeric rest → ∃ r : Running, r.total = e.value ∧
      operand outer {} (scan (e.text ++ rest)) = e.outcome >>= fun _ => operator outer r (scan rest)
  | .product, e => ∀ outer sum rest, Stops isNumeric rest →
      operand outer { sum } (scan (e.text ++ rest)) =
        e.outcome >>= fun x => operator outer ⟨sum, x⟩ (scan rest)
  | .unary, e | .atom, e => ∀ outer p rest, Stops isNumeric rest →
      operand outer p (scan (e.text ++ rest)) =
        e.outcome >>= fun x => p.take x >>= fun r => operator outer r (scan rest)

theorem evaluates (e : Derivation rank) : Evaluates rank e := by
  induction e with
  | number literal x numeric reads =>
    intro outer p rest stops
    exact operandNumber outer p rest numeric reads stops
  | parens s ih =>
    intro outer p rest stops
    obtain ⟨r, total, run⟩ := ih (p :: outer) (')' :: rest) (closeStops rest)
    have inner : (Derivation.parens s).text ++ rest = '(' :: (s.text ++ ')' :: rest) := by
      simp [Derivation.text]
    rw [inner, operandOpens, run, operatorCloses, total]
    show _ = s.outcome >>= _
    unfold Derivation.outcome
    split <;> rfl
  | atom a ih => exact ih
  | signed op u ih =>
    intro outer p rest stops
    rw [Derivation.text, List.cons_append, operandSign, ih outer (p.signed op) rest stops]
    cases op with
    | plus => rfl
    | minus =>
      rw [Derivation.outcomeMinus]
      cases u.outcome with
      | error fault => rfl
      | ok x =>
        simp only [okBind, takeMinus]
        rfl
  | unary u ih =>
    intro outer sum rest stops
    exact ih outer { sum } rest stops
  | multiplied p op u left right =>
    intro outer sum rest stops
    rw [Derivation.text, List.append_assoc, List.cons_append, left outer sum _ (factorStops op _),
      Derivation.outcomeMultiplied]
    cases p.outcome with
    | error fault => rfl
    | ok a =>
      simp only [okBind]
      rw [operatorMultiplies, right outer _ rest stops]
      cases u.outcome with
      | error fault => rfl
      | ok b =>
        simp only [okBind, Pending.take, negate]
        cases op.apply a b <;> rfl
  | product p ih =>
    intro outer rest stops
    refine ⟨⟨none, p.value⟩, rfl, ?_⟩
    have run := ih outer none rest stops
    rw [Derivation.text, run]
    show p.outcome >>= _ = p.outcome >>= _
    unfold Derivation.outcome
    split <;> rfl
  | added s op p left right =>
    intro outer rest stops
    obtain ⟨r, total, run⟩ := left outer (op.sign :: (p.text ++ rest)) (signStops op _)
    refine ⟨⟨some (s.value, op), p.value⟩, by cases op <;> rfl, ?_⟩
    rw [Derivation.text, List.append_assoc, List.cons_append, run, Derivation.outcomeAdded]
    cases s.outcome with
    | error fault => rfl
    | ok a =>
      simp only [okBind]
      rw [operatorAdds, right outer _ rest stops, total]
      unfold Derivation.outcome
      split <;> rfl

inductive SumRead : Option (Float × AddOp) → List Char → Prop where
  | none : SumRead none []
  | some (s : Derivation .sum) (op : AddOp) (divides : s.divides = true) :
      SumRead (some (s.value, op)) (s.text ++ [op.sign])

inductive ProductRead : Option (Float × MulOp) → List Char → Prop where
  | none : ProductRead none []
  | some (p : Derivation .product) (op : MulOp) (divides : p.divides = true) :
      ProductRead (some (p.value, op)) (p.text ++ [op.sign])

inductive SignsRead : Nat → List Char → Prop where
  | nil : SignsRead 0 []
  | plus {n : Nat} {w : List Char} (signs : SignsRead n w) : SignsRead n (w ++ ['+'])
  | minus {n : Nat} {w : List Char} (signs : SignsRead n w) : SignsRead (n + 1) (w ++ ['-'])

structure Pending.Read (p : Pending) (a b c : List Char) : Prop where
  sum : SumRead p.sum a
  product : ProductRead p.product b
  signs : SignsRead p.minuses c

inductive Running.Read : Running → List Char → Prop where
  | intro {sum : Option (Float × AddOp)} {a : List Char} (before : SumRead sum a)
      (p : Derivation .product) (divides : p.divides = true) : Read ⟨sum, p.value⟩ (a ++ p.text)

inductive OuterRead : List Pending → List Char → Prop where
  | nil : OuterRead [] []
  | cons {p : Pending} {outer : List Pending} {w a b c : List Char} (around : OuterRead outer w)
      (here : p.Read a b c) : OuterRead (p :: outer) (w ++ (a ++ b ++ c) ++ ['('])

theorem pendingFresh : Pending.Read {} [] [] [] := ⟨.none, .none, .nil⟩

theorem SignsRead.unary {n : Nat} {w : List Char} (signs : SignsRead n w) (u : Derivation .unary) :
    ∃ v : Derivation .unary, v.text = w ++ u.text ∧ v.value = negate n u.value ∧
      v.divides = u.divides := by
  induction signs generalizing u with
  | nil => exact ⟨u, rfl, rfl, rfl⟩
  | plus signs ih =>
    obtain ⟨v, text, value, divides⟩ := ih (.signed .plus u)
    exact ⟨v, by simp [text, Derivation.text, AddOp.sign], value, divides⟩
  | minus signs ih =>
    obtain ⟨v, text, value, divides⟩ := ih (.signed .minus u)
    exact ⟨v, by simp [text, Derivation.text, AddOp.sign], value.trans (negateMinus _ _), divides⟩

theorem multipliedDivides {p : Derivation .product} {op : MulOp} {u : Derivation .unary} {x : Float}
    (left : p.divides = true) (right : u.divides = true) (ok : op.apply p.value u.value = .ok x) :
    (Derivation.multiplied p op u).divides = true ∧ (Derivation.multiplied p op u).value = x := by
  have outcome := Derivation.outcomeMultiplied p op u
  rw [Derivation.outcomeOk.mpr ⟨left, rfl⟩, Derivation.outcomeOk.mpr ⟨right, rfl⟩] at outcome
  exact Derivation.outcomeOk.mp (outcome.trans ok)

theorem Pending.Read.take {p : Pending} {a b c : List Char} (read : p.Read a b c)
    {e : Derivation .atom} (divides : e.divides = true) {r : Running}
    (ok : p.take e.value = .ok r) : r.Read (a ++ b ++ c ++ e.text) := by
  obtain ⟨sum, product, signs⟩ := read
  obtain ⟨u, text, value, same⟩ := signs.unary (.atom e)
  have defined : u.divides = true := same.trans divides
  have value : u.value = negate p.minuses e.value := value
  have text : u.text = c ++ e.text := text
  simp only [Pending.take, ← value] at ok
  generalize p.product = pending at product ok
  cases product with
  | none =>
    cases ok
    have whole := Running.Read.intro sum (.unary u) defined
    simpa [Derivation.text, Derivation.value, text] using whole
  | some q op divided =>
    obtain ⟨x, applied, rfl⟩ := mapOk ok
    obtain ⟨multiplied, rfl⟩ := multipliedDivides divided defined applied
    have whole := Running.Read.intro sum (.multiplied q op u) multiplied
    simpa [Derivation.text, text] using whole

theorem Running.Read.whole {r : Running} {w : List Char} (read : r.Read w) :
    ∃ s : Derivation .sum, s.divides = true ∧ s.text = w ∧ s.value = r.total := by
  obtain ⟨before, p, divides⟩ := read
  cases before with
  | none => exact ⟨.product p, divides, rfl, rfl⟩
  | some s op defined =>
    refine ⟨.added s op p, ?_, by simp [Derivation.text], by cases op <;> rfl⟩
    simp [Derivation.divides, defined, divides]

def Piece.text : Piece → List Char
  | number literal => literal
  | mark c => [c]

theorem scanText (cs : List Char) : (scan cs).flatMap Piece.text = cs := by
  fun_induction scan cs with
  | case1 => rfl
  | case2 c cs numeric literal rest found ih => simp_all [Piece.text]
  | case3 c cs numeric other ih => simp_all [Piece.text]
  | case4 c cs mark ih => simp_all [Piece.text]

def Piece.Plain : Piece → Prop
  | number literal => ∀ c ∈ literal, isNumeric c = true
  | mark _ => True

theorem scanPlain (cs : List Char) : ∀ piece ∈ scan cs, piece.Plain := by
  fun_induction scan cs with
  | case1 => simp
  | case2 c cs numeric literal rest found ih =>
    simp_all [Piece.Plain]
  | case3 c cs numeric other ih => simp_all [Piece.Plain]
  | case4 c cs mark ih => simp_all [Piece.Plain]

def Derives (text : List Char) (v : Float) : Prop :=
  ∃ s : Derivation .sum, s.text = text ∧ s.divides = true ∧ s.value = v

/- Where the reader comes to a value, what it has read and what it still has to read make up a sum of
that value. -/
structure ReadsOn (ps : List Piece) (v : Float) : Prop where
  operand {outer : List Pending} {w : List Char} (around : OuterRead outer w) {p : Pending}
    {a b c : List Char} (read : p.Read a b c) (ok : operand outer p ps = .ok v) :
    Derives (w ++ (a ++ b ++ c) ++ ps.flatMap Piece.text) v
  operator {outer : List Pending} {w : List Char} (around : OuterRead outer w) {r : Running}
    {a : List Char} (read : r.Read a) (ok : operator outer r ps = .ok v) :
    Derives (w ++ a ++ ps.flatMap Piece.text) v

section
variable {ps : List Piece} {v : Float} {outer : List Pending} {w : List Char}

theorem operandReads (next : ReadsOn ps v) {piece : Piece} (plain : piece.Plain)
    (around : OuterRead outer w) {p : Pending} {a b c : List Char} (read : p.Read a b c)
    (ok : operand outer p (piece :: ps) = .ok v) :
    Derives (w ++ (a ++ b ++ c) ++ (piece :: ps).flatMap Piece.text) v := by
  cases piece with
  | number literal =>
    rw [operand] at ok
    split at ok
    · cases ok
    rename_i x reads
    split at ok
    · cases ok
    rename_i r taken
    have run := next.operator around (read.take (e := .number literal x plain reads) rfl taken) ok
    simpa [Piece.text, Derivation.text] using run
  | mark mark =>
    rw [operand] at ok
    split at ok
    · subst mark
      have signed : (p.signed .minus).Read a b (c ++ ['-']) :=
        ⟨read.sum, read.product, read.signs.minus⟩
      simpa [Piece.text] using next.operand around signed ok
    split at ok
    · subst mark
      have signed : p.Read a b (c ++ ['+']) := ⟨read.sum, read.product, read.signs.plus⟩
      simpa [Piece.text] using next.operand around signed ok
    split at ok
    · subst mark
      simpa [Piece.text] using next.operand (around.cons read) pendingFresh ok
    · cases ok

theorem operatorReads (next : ReadsOn ps v) {piece : Piece} (around : OuterRead outer w)
    {r : Running} {a : List Char} (read : r.Read a) (ok : operator outer r (piece :: ps) = .ok v) :
    Derives (w ++ a ++ (piece :: ps).flatMap Piece.text) v := by
  have sums (op : AddOp) : ∃ s : Derivation .sum, s.text = a ∧
      Pending.Read { sum := some (r.total, op) } (s.text ++ [op.sign]) [] [] := by
    obtain ⟨s, divides, text, value⟩ := read.whole
    exact ⟨s, text, value ▸ .some s op divides, .none, .nil⟩
  have products (op : MulOp) : ∃ b c, a = b ++ c ∧
      Pending.Read { sum := r.sum, product := some (r.product, op) } b (c ++ [op.sign]) [] := by
    obtain ⟨before, p, divides⟩ := read
    exact ⟨_, _, rfl, before, .some p op divides, .nil⟩
  cases piece with
  | number literal => simp [operator] at ok
  | mark mark =>
    simp only [operator] at ok
    split at ok
    · subst mark
      obtain ⟨s, rfl, pending⟩ := sums .plus
      simpa [Piece.text, AddOp.sign] using next.operand around pending ok
    split at ok
    · subst mark
      obtain ⟨s, rfl, pending⟩ := sums .minus
      simpa [Piece.text, AddOp.sign] using next.operand around pending ok
    split at ok
    · subst mark
      obtain ⟨b, c, rfl, pending⟩ := products .times
      simpa [Piece.text, MulOp.sign] using next.operand around pending ok
    split at ok
    · subst mark
      obtain ⟨b, c, rfl, pending⟩ := products .divided
      simpa [Piece.text, MulOp.sign] using next.operand around pending ok
    split at ok
    · subst mark
      cases around with
      | nil => cases ok
      | cons around here =>
        simp only at ok
        split at ok
        · cases ok
        rename_i taken
        obtain ⟨s, divides, rfl, value⟩ := read.whole
        rw [← value] at taken
        have run := next.operator around (here.take (e := .parens s) divides taken) ok
        simpa [Piece.text, Derivation.text] using run
    · cases ok

theorem readsOn (plain : ∀ piece ∈ ps, piece.Plain) : ReadsOn ps v := by
  induction ps with
  | nil =>
    constructor
    · intro outer w around p a b c read ok
      cases ok
    · intro outer w around r a read ok
      cases around with
      | nil =>
        cases ok
        obtain ⟨s, divides, rfl, value⟩ := read.whole
        exact ⟨s, by simp, divides, value⟩
      | cons around here => cases ok
  | cons piece ps ih =>
    have next := ih fun other member => plain other (List.mem_cons_of_mem _ member)
    exact ⟨operandReads next (plain piece List.mem_cons_self), operatorReads next⟩

end

/- An expression has a value exactly where it is derived without a zero divisor, and that is its
value; any derivation with a zero divisor makes it fail as a division by zero. -/
theorem evalDerives (input : List Char) (v : Float) :
    (eval input = .ok v ↔ ∃ e : Derivation .sum, e.text = input.filter (!isBlank ·) ∧
      e.divides = true ∧ e.value = v) ∧
    ∀ e : Derivation .sum, e.text = input.filter (!isBlank ·) → e.divides = false →
      eval input = .error .divisionByZero := by
  have derived (e : Derivation .sum) (text : e.text = input.filter (!isBlank ·)) :
      eval input = e.outcome := by
    obtain ⟨r, total, run⟩ := evaluates e [] [] (by rintro _ ⟨⟩)
    rw [List.append_nil, text] at run
    rw [eval, run]
    unfold Derivation.outcome
    split
    · exact congrArg Except.ok total
    · rfl
  refine ⟨⟨fun ok => ?_, ?_⟩, fun e text zero => ?_⟩
  · have derives := (readsOn (scanPlain _)).operand .nil pendingFresh ok
    rw [scanText] at derives
    exact derives
  · rintro ⟨e, text, divides, rfl⟩
    rw [derived e text, Derivation.outcomeOk]
    exact ⟨divides, rfl⟩
  · rw [derived e text, Derivation.outcome, zero]
    rfl

def numeral (literal : List Char) (numeric : literal.all isNumeric = true)
    (reads : (Decimal.realOf literal).isOk = true) : Derivation .unary :=
  .atom (.number literal ((Decimal.realOf literal).toOption.getD 0)
    (List.all_eq_true.mp numeric) (by
      obtain ⟨x, same⟩ := someOk reads
      rw [same]
      rfl))

def zeroDivisor : Derivation .sum :=
  .product (.multiplied (.unary (numeral ['1'] rfl (by decide +kernel))) .divided (.atom (.parens
    (.product (.unary (.signed .minus (numeral ['0'] rfl (by decide +kernel))))))))

theorem zeroDivisorFails : zeroDivisor.text = "1/(-0)".toList ∧ zeroDivisor.divides = false ∧
    eval "1 / (-0)".toList = .error .divisionByZero := by
  have zero : zeroDivisor.divides = false := by decide +kernel
  exact ⟨rfl, zero, (evalDerives "1 / (-0)".toList 0).2 zeroDivisor (by decide) zero⟩

example : eval "2 + 3 * -+4".toList = .ok (-10.0) := by decide +kernel

end Crochet.Arith
