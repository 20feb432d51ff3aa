import Crochet.Text.Blank
import Crochet.Decimal.Read

/-! Arithmetic of index expressions:

    sum     = product (("+" | "-") product)*
    product = unary (("*" | "/") unary)*
    unary   = ("+" | "-") unary | atom
    atom    = number | "(" sum ")"

Blanks count for nothing, also inside a number. The expression is worked out from left to right
with one level for each open parenthesis, so that a fault is reported where it is met: a division
by zero comes before a stray character further on. -/
namespace Crochet.Arith
open Text

inductive Fault where
  | unexpected (c : Char)
  | unexpectedEnd
  | divisionByZero
  | badNumber (literal : String)
  deriving DecidableEq, Repr

def Fault.message : Fault → String
  | unexpected c => s!"unexpected '{c}' in expression"
  | unexpectedEnd => "expression ends early"
  | divisionByZero => "division by zero"
  | badNumber literal => s!"bad number '{literal}'"

inductive Piece where
  | number (literal : List Char)
  | mark (c : Char)
  deriving DecidableEq, Repr

def isNumeric (c : Char) : Bool := c.isDigit || c == '.'

def scan : List Char → List Piece
  | [] => []
  | c :: cs =>
    if isNumeric c then match scan cs with
      | .number literal :: rest => .number (c :: literal) :: rest
      | rest => .number [c] :: rest
    else .mark c :: scan cs

inductive AddOp where
  | plus
  | minus
  deriving DecidableEq, Repr

inductive MulOp where
  | times
  | divided
  deriving DecidableEq, Repr

def AddOp.apply : AddOp → Float → Float → Float
  | plus, a, b => a + b
  | minus, a, b => a - b

def MulOp.apply : MulOp → Float → Float → Except Fault Float
  | times, a, b => .ok (a * b)
  | divided, a, b => if b == 0.0 then .error .divisionByZero else .ok (a / b)

/-- What stands before the operand wanted next: a sum, a product and minus signs. -/
structure Pending where
  sum : Option (Float × AddOp) := none
  product : Option (Float × MulOp) := none
  minuses : Nat := 0
  deriving DecidableEq, Repr

structure Running where
  sum : Option (Float × AddOp)
  product : Float
  deriving DecidableEq, Repr

def negate : Nat → Float → Float
  | 0, x => x
  | n + 1, x => -negate n x

def Pending.take (p : Pending) (x : Float) : Except Fault Running :=
  let operand := negate p.minuses x
  match p.product with
  | none => .ok ⟨p.sum, operand⟩
  | some (a, op) => (op.apply a operand).map fun product => ⟨p.sum, product⟩

def Running.total (r : Running) : Float :=
  match r.sum with
  | none => r.product
  | some (a, op) => op.apply a r.product

mutual

/-- Reads on where an operand is wanted; `outer` holds the levels around the open parentheses. -/
def operand (outer : List Pending) (p : Pending) : List Piece → Except Fault Float
  | [] => .error .unexpectedEnd
  | .number literal :: rest =>
    match Decimal.realOf literal with
    | .error _ => .error (.badNumber (String.ofList literal))
    | .ok x => match p.take x with
      | .error fault => .error fault
      | .ok r => operator outer r rest
  | .mark c :: rest =>
    if c = '-' then operand outer { p with minuses := p.minuses + 1 } rest
    else if c = '+' then operand outer p rest
    else if c = '(' then operand (p :: outer) {} rest
    else .error (.unexpected c)

def operator (outer : List Pending) (r : Running) : List Piece → Except Fault Float
  | [] => if outer.isEmpty then .ok r.total else .error .unexpectedEnd
  | .number literal :: _ => .error (.unexpected (literal.headD '.'))
  | .mark c :: rest =>
    if c = '+' then operand outer { sum := some (r.total, .plus) } rest
    else if c = '-' then operand outer { sum := some (r.total, .minus) } rest
    else if c = '*' then operand outer { sum := r.sum, product := some (r.product, .times) } rest
    else if c = '/' then operand outer { sum := r.sum, product := some (r.product, .divided) } rest
    else if c = ')' then match outer with
      | [] => .error (.unexpected c)
      | p :: outer => match p.take r.total with
        | .error fault => .error fault
        | .ok r => operator outer r rest
    else .error (.unexpected c)

end

def eval (input : List Char) : Except Fault Float :=
  operand [] {} (scan (input.filter (!isBlank ·)))

def evalWhole (input : List Char) : Except Fault (Option Int) :=
  (eval input).map Decimal.wholeWord?

def whole? (input : List Char) : Option Int := (evalWhole input).toOption.bind id

def hasOperator (input : List Char) : Bool :=
  (input.dropWhile fun c => c == '+' || c == '-').any fun c =>
    c == '+' || c == '-' || c == '*' || c == '/' || c == '('

end Crochet.Arith
