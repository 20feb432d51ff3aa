import Crochet.Decimal.Text

/-! JSON values and their indented text. -/
namespace Crochet

inductive Json where
  | null
  | bool (value : Bool)
  | integer (value : Int)
  | real (value : Float)
  | string (text : String)
  | array (items : List Json)
  | object (fields : List (String × Json))
  deriving Repr

namespace Json

def strings (texts : List String) : Json := .array (texts.map .string)

def option (f : α → Json) : Option α → Json
  | none => .null
  | some x => f x

/-- The shortest digits, positional for powers of ten from -5 up to 15, at least one digit after the
point; infinities and NaN have no JSON form. -/
def realLayout : Decimal.Layout where
  tie := .even
  finite s :=
    if -5 ≤ s.power ∧ s.power < 16 then
      let (whole, fraction) := s.positional
      whole ++ '.' :: (if fraction.isEmpty then ['0'] else fraction)
    else
      let tail := s.digits.drop 1
      let power := (if s.power < 0 then '-' else '+') :: Nat.toDigits 10 s.power.natAbs
      s.digits.take 1 ++ (if tail.isEmpty then [] else '.' :: tail) ++ 'e' :: power
  zero := "0.0".toList
  infinity := "null".toList
  nan := "null".toList
  signed := false

def hexDigits (n : Nat) : List Char := [Nat.digitChar (n / 16), Nat.digitChar (n % 16)]

def escaped (c : Char) : List Char :=
  if c = '"' then ['\\', '"']
  else if c = '\\' then ['\\', '\\']
  else if c = '\n' then ['\\', 'n']
  else if c = '\t' then ['\\', 't']
  else if c = '\r' then ['\\', 'r']
  else if c.toNat = 8 then ['\\', 'b']
  else if c.toNat = 12 then ['\\', 'f']
  else if c.toNat < 32 then ['\\', 'u', '0', '0'] ++ hexDigits c.toNat
  else [c]

def quoted (text : String) : List Char := '"' :: text.toList.flatMap escaped ++ ['"']

def lineStart (depth : Nat) : List Char := '\n' :: List.replicate (2 * depth) ' '

def block (opening closing : Char) (depth : Nat) : List (List Char) → List Char
  | [] => [opening, closing]
  | first :: rest =>
    opening :: lineStart (depth + 1) ++ first
      ++ rest.flatMap (fun entry => ',' :: lineStart (depth + 1) ++ entry)
      ++ lineStart depth ++ [closing]

mutual

def chars (depth : Nat) : Json → List Char
  | .null => "null".toList
  | .bool value => (if value then "true" else "false").toList
  | .integer value => (toString value).toList
  | .real value => realLayout.chars value
  | .string text => quoted text
  | .array items => block '[' ']' depth (itemChars (depth + 1) items)
  | .object fields => block '\x7b' '\x7d' depth (fieldChars (depth + 1) fields)

def itemChars (depth : Nat) : List Json → List (List Char)
  | [] => []
  | item :: rest => chars depth item :: itemChars depth rest

def fieldChars (depth : Nat) : List (String × Json) → List (List Char)
  | [] => []
  | (name, value) :: rest =>
    (quoted name ++ ':' :: ' ' :: chars depth value) :: fieldChars depth rest

end

def pretty (value : Json) : String := String.ofList (value.chars 0)

end Json
end Crochet
