import Crochet.Json.Document
import Crochet.Options

/-! Options written as JSON: an object, or an array that gives the fields in order. -/
namespace Crochet.Options
open Json (Document)

structure Settings where
  firstId : Option Nat := none
  color : Option String := none
  loopWeight : Option Float := none
  deriving DecidableEq, Repr

namespace Settings

def options (s : Settings) : Options where
  firstId := s.firstId.getD 1
  color := s.color.getD "#969696"
  loopWeight := s.loopWeight.getD 0.2

def add (s : Settings) (name : String) (value : Document) : Option Settings :=
  match name with
  | "first_id" => if s.firstId.isSome then none else do
      let n ← value.natural?
      return { s with firstId := some n }
  | "default_color" => if s.color.isSome then none else do
      let text ← value.text?
      return { s with color := some text }
  | "default_loop_weight" => if s.loopWeight.isSome then none else do
      let x ← value.real?
      return { s with loopWeight := some x }
  | _ => some s

end Settings

def names : List String := ["first_id", "default_color", "default_loop_weight"]

def ofDocument? : Document → Option Options
  | .object fields => do
    let s ← fields.foldlM (fun (s : Settings) (key, value) => do
      s.add (String.ofList (← Json.spelled key)) value) {}
    return s.options
  | .array values =>
    if names.length < values.length then none
    else do
      let s ← (names.zip values).foldlM (fun (s : Settings) (name, value) => s.add name value) {}
      return s.options
  | _ => none

end Crochet.Options
