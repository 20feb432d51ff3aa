import Crochet.Source.Replace
import Crochet.Text.Split

/-! Text macros and the words `next` and `prev`.

With a macro `P`, the word `P` becomes `(body)` and `3P` becomes `(3(body))`. Where the body is a
name, variants such as `3P2tog` are renamed too. -/
namespace Crochet.Source
open Text

def countLengths (rest : List Char) : List Nat :=
  (List.range ((rest.takeWhile isDecimalDigit).length + 1)).reverse

def parenthesised (body : List Char) : List Char := '(' :: body ++ [')']

def unfolded (count body : List Char) : List Char :=
  if count.isEmpty then parenthesised body else parenthesised (count ++ parenthesised body)

def macroRule (name body : List Char) : Rule := fun before rest =>
  if isEdge before rest.head? then
    (countLengths rest).findSome? fun n =>
      match after? name (rest.drop n) with
      | none => none
      | some tail =>
        let size := n + name.length
        if isEdge ((rest.take size).getLast?.or before) tail.head? then
          some (size, unfolded (rest.take n) body)
        else none
  else none

def variantSuffix? (tail : List Char) : Option (List Char) :=
  let (digits, kind) := runOf isDecimalDigit tail
  let ending := (after? "tog".toList kind).or (after? "inc".toList kind)
  match ending with
  | none => none
  | some rest =>
    if digits.isEmpty || isWordAt rest.head? then none else some (tail.take (digits.length + 3))

def variantRule (name body : List Char) : Rule := fun before rest =>
  if isEdge before rest.head? then
    (countLengths rest).findSome? fun n =>
      match (after? name (rest.drop n)).bind variantSuffix? with
      | none => none
      | some suffix => some (n + name.length + suffix.length, rest.take n ++ body ++ suffix)
  else none

def substitute (name body : List Char) (t : MappedText) : MappedText :=
  let t := replaceAll (macroRule name body) t
  if isName body then replaceAll (variantRule name body) t else t

def stepWord? (word sign rest : List Char) : Option (Nat × List Char) :=
  match after? word rest with
  | none => none
  | some tail =>
    let (blanks, name) := runOf isBlank tail
    match name with
    | [] => none
    | c :: cs =>
      if blanks.isEmpty || !isNameStart c then none
      else
        let name := c :: cs.takeWhile isWord
        some (word.length + blanks.length + name.length, sign ++ name)

def stepRule : Rule := fun before rest =>
  if isEdge before rest.head? then
    (stepWord? "next".toList "++".toList rest).or (stepWord? "prev".toList "--".toList rest)
  else none

end Crochet.Source
