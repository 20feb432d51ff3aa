import Crochet.Text.Printable

/-! Outlines: values laid out over lines, each level four spaces in. -/
namespace Crochet

inductive Outline where
  | word (text : String)
  | quoted (text : String)
  | call (name : String) (argument : Outline)
  | list (items : List Outline)
  | record (name : String) (fields : List (String × Outline))
  deriving Repr

namespace Outline

def integer (n : Int) : Outline := .word (toString n)

def bool (b : Bool) : Outline := .word (if b then "true" else "false")

def option (f : α → Outline) : Option α → Outline
  | none => .word "None"
  | some x => .call "Some" (f x)

def escaped (c : Char) : List Char :=
  if c = '"' then ['\\', '"']
  else if c = '\\' then ['\\', '\\']
  else if c = '\n' then ['\\', 'n']
  else if c = '\t' then ['\\', 't']
  else if c = '\r' then ['\\', 'r']
  else if c.toNat = 0 then ['\\', '0']
  else if Text.isHidden c then ['\\', 'u', '\x7b'] ++ Nat.toDigits 16 c.toNat ++ ['\x7d']
  else [c]

def lineStart (depth : Nat) : List Char := '\n' :: List.replicate (4 * depth) ' '

def block (opening closing : Char) (depth : Nat) (entries : List (List Char)) : List Char :=
  opening :: entries.flatMap (fun entry => lineStart (depth + 1) ++ entry ++ [','])
    ++ lineStart depth ++ [closing]

mutual

def chars (depth : Nat) : Outline → List Char
  | .word text => text.toList
  | .quoted text => '"' :: text.toList.flatMap escaped ++ ['"']
  | .call name argument => name.toList ++ block '(' ')' depth [chars (depth + 1) argument]
  | .list [] => ['[', ']']
  | .list (first :: rest) => block '[' ']' depth (itemChars (depth + 1) (first :: rest))
  | .record name fields =>
    name.toList ++ ' ' :: block '\x7b' '\x7d' depth (fieldChars (depth + 1) fields)

def itemChars (depth : Nat) : List Outline → List (List Char)
  | [] => []
  | item :: rest => chars depth item :: itemChars depth rest

def fieldChars (depth : Nat) : List (String × Outline) → List (List Char)
  | [] => []
  | (name, value) :: rest =>
    (name.toList ++ ':' :: ' ' :: chars depth value) :: fieldChars depth rest

end

def text (o : Outline) : String := String.ofList (o.chars 0)

end Outline
end Crochet
