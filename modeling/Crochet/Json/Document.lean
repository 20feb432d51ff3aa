import Crochet.Json.Numeral

/-! JSON documents as read: numbers keep their digits and texts keep their escapes. -/
namespace Crochet.Json
open Crochet.Text

inductive Piece where
  | char (c : Char)
  | code (n : Nat)
  deriving DecidableEq, Repr

inductive Document where
  | null
  | bool (value : Bool)
  | number (n : Numeral)
  | text (pieces : List Piece)
  | array (items : List Document)
  | object (fields : List (List Piece × Document))
  deriving Repr

/-- The text that pieces spell. Characters past 16 bits are two escapes, a high and a low half;
a half on its own spells nothing. -/
def spelled : List Piece → Option (List Char)
  | [] => some []
  | .char c :: rest => (spelled rest).map (c :: ·)
  | .code n :: rest =>
    if 0xD800 ≤ n && n < 0xDC00 then
      match rest with
      | .code low :: rest =>
        if 0xDC00 ≤ low && low < 0xE000 then
          let c := Char.ofNat (0x10000 + (n - 0xD800) * 0x400 + (low - 0xDC00))
          (spelled rest).map (c :: ·)
        else none
      | _ => none
    else if 0xDC00 ≤ n && n < 0xE000 then none
    else (spelled rest).map (Char.ofNat n :: ·)

inductive Token where
  | mark (c : Char)
  | scalar (value : Document)
  deriving Repr

def hexValue? (c : Char) : Option Nat :=
  if c.isDigit then some (c.toNat - 48)
  else if 'a' ≤ c && c ≤ 'f' then some (c.toNat - 87)
  else if 'A' ≤ c && c ≤ 'F' then some (c.toNat - 55)
  else none

def escapes : List (Char × Char) :=
  [('"', '"'), ('\\', '\\'), ('/', '/'), ('b', '\x08'), ('f', '\x0c'), ('n', '\n'), ('r', '\r'),
    ('t', '\t')]

def text? : List Char → Option (List Piece × List Char)
  | [] => none
  | '"' :: rest => some ([], rest)
  | '\\' :: 'u' :: a :: b :: c :: d :: rest => do
    let digits ← [a, b, c, d].mapM hexValue?
    let (pieces, rest) ← text? rest
    return (.code (digits.foldl (16 * · + ·) 0) :: pieces, rest)
  | '\\' :: mark :: rest => do
    let c ← escapes.lookup mark
    let (pieces, rest) ← text? rest
    return (.char c :: pieces, rest)
  | c :: rest =>
    if c == '\\' || c.toNat < 32 then none
    else do
      let (pieces, rest) ← text? rest
      return (.char c :: pieces, rest)

theorem lengthText {cs rest : List Char} {pieces : List Piece}
    (h : text? cs = some (pieces, rest)) : rest.length < cs.length := by
  fun_induction text? cs generalizing pieces rest with
  | case1 => cases h
  | case2 rest => cases Option.some.inj h; simp
  | case3 a b c d more ih =>
    simp only [bind, Option.bind_eq_some_iff] at h
    obtain ⟨_, _, ⟨ps, r⟩, read, same⟩ := h
    cases Option.some.inj same
    have := ih read
    simp
    omega
  | case4 mark more _ ih =>
    simp only [bind, Option.bind_eq_some_iff] at h
    obtain ⟨_, _, ⟨ps, r⟩, read, same⟩ := h
    cases Option.some.inj same
    have := ih read
    simp
    omega
  | case5 => cases h
  | case6 c more _ _ _ _ ih =>
    simp only [bind, Option.bind_eq_some_iff] at h
    obtain ⟨⟨ps, r⟩, read, same⟩ := h
    cases Option.some.inj same
    have := ih read
    simp
    omega

def words : List (List Char × Document) :=
  [("null".toList, .null), ("true".toList, .bool true), ("false".toList, .bool false)]

def isMark (c : Char) : Bool := "[]\x7b\x7d,:".toList.contains c

def isSpace (c : Char) : Bool := " \n\t\r".toList.contains c

def token? (c : Char) (rest : List Char) : Option (Token × List Char) :=
  if isMark c then some (.mark c, rest)
  else if c == '"' then (text? rest).map fun (pieces, rest) => (.scalar (.text pieces), rest)
  else if c == '-' || c.isDigit then
    (Numeral.read? (c :: rest)).map fun (n, rest) => (.scalar (.number n), rest)
  else words.findSome? fun (word, value) =>
    if c == word.headD ' ' then (after? (word.drop 1) rest).map (Token.scalar value, ·) else none

theorem lengthAfter [BEq α] {start list rest : List α} (h : after? start list = some rest) :
    rest.length ≤ list.length := by
  fun_induction after? start list with
  | case1 => cases Option.some.inj h; exact Nat.le_refl _
  | case2 => cases h
  | case3 s start x xs _ ih =>
    have := ih h
    simp
    omega
  | case4 => cases h

theorem lengthToken {c : Char} {cs rest : List Char} {t : Token}
    (h : token? c cs = some (t, rest)) : rest.length ≤ cs.length := by
  unfold token? at h
  split at h
  · cases Option.some.inj h
    exact Nat.le_refl _
  · split at h
    · obtain ⟨⟨pieces, r⟩, read, same⟩ := Option.map_eq_some_iff.mp h
      cases same
      exact Nat.le_of_lt (lengthText read)
    · split at h
      · obtain ⟨⟨n, r⟩, read, same⟩ := Option.map_eq_some_iff.mp h
        cases same
        exact Nat.le_of_lt_succ (lengthNumeral read)
      · obtain ⟨⟨word, value⟩, _, found⟩ := List.exists_of_findSome?_eq_some h
        dsimp only at found
        split at found
        · obtain ⟨r, read, same⟩ := Option.map_eq_some_iff.mp found
          cases same
          exact lengthAfter read
        · cases found

def tokens? : List Char → Option (List Token)
  | [] => some []
  | c :: rest =>
    if isSpace c then tokens? rest
    else match _read : token? c rest with
      | none => none
      | some (t, after) => (tokens? after).map (t :: ·)
termination_by cs => cs.length
decreasing_by
  · simp
  · have := lengthToken _read
    simp
    omega

inductive Frame where
  | array (items : List Document)
  | object (fields : List (List Piece × Document)) (key : List Piece)
  deriving Repr

inductive Expect where
  | value
  | item
  | key (orClose : Bool)
  | colon
  | next
  | nothing (value : Document)
  deriving Repr

structure Reading where
  frames : List Frame := []
  expect : Expect := .value
  deriving Repr

namespace Reading

def put (value : Document) : List Frame → Reading
  | [] => { expect := .nothing value }
  | .array items :: frames => { frames := .array (value :: items) :: frames, expect := .next }
  | .object fields key :: frames =>
    { frames := .object ((key, value) :: fields) [] :: frames, expect := .next }

def close (c : Char) : List Frame → Option Reading
  | .array items :: frames => if c == ']' then some (put (.array items.reverse) frames) else none
  | .object fields _ :: frames =>
    if c == '\x7d' then some (put (.object fields.reverse) frames) else none
  | [] => none

def startValue (frames : List Frame) : Token → Option Reading
  | .scalar value => some (put value frames)
  | .mark '[' => some { frames := .array [] :: frames, expect := .item }
  | .mark '\x7b' => some { frames := .object [] [] :: frames, expect := .key true }
  | .mark _ => none

def step (r : Reading) (t : Token) : Option Reading :=
  match r.expect, t with
  | .value, t => startValue r.frames t
  | .item, .mark ']' => close ']' r.frames
  | .item, t => startValue r.frames t
  | .key true, .mark '\x7d' => close '\x7d' r.frames
  | .key _, .scalar (.text key) => match r.frames with
    | .object fields _ :: frames =>
      some { frames := .object fields key :: frames, expect := .colon }
    | _ => none
  | .colon, .mark ':' => some { r with expect := .value }
  | .next, .mark ',' => match r.frames with
    | .object _ _ :: _ => some { r with expect := .key false }
    | .array _ :: _ => some { r with expect := .value }
    | [] => none
  | .next, .mark c => close c r.frames
  | _, _ => none

end Reading

def Document.read? (cs : List Char) : Option Document := do
  let r ← (← tokens? cs).foldlM Reading.step {}
  match r.expect with
  | .nothing value => some value
  | _ => none

namespace Document

def text? : Document → Option String
  | .text pieces => (spelled pieces).map String.ofList
  | _ => none

def natural? : Document → Option Nat
  | .number n => n.natural?
  | _ => none

def real? : Document → Option Float
  | .number n => n.real?
  | _ => none

end Document
end Crochet.Json
