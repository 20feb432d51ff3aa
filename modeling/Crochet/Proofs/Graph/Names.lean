import Crochet.Proofs.Decimal.Plain
import Crochet.Proofs.Graph.Steps
import Crochet.Proofs.Template.Naming

/-! The texts of node names. Whatever a node is called within its stitch, its name ends in a bar and
the number of the stitch. The name of a loop side has two such names in it and ends in a length. -/
namespace Crochet
namespace Graph

def Tagged (id : String) (text : List Char) (uid : Nat) : Prop :=
  id.toList = text ++ '|' :: Nat.toDigits 10 uid

def placeChars (place : Nat × Nat) : List Char :=
  Nat.toDigits 10 place.1 ++ ',' :: Nat.toDigits 10 place.2

variable {text : List Char} {uid number : Nat} {other : String}

theorem Tagged.same {id : String} {other : List Char} (left : Tagged id text uid)
    (right : Tagged id other number) : text = other ∧ uid = number := by
  obtain ⟨texts, digits⟩ := lastSplit (digitsClean (by decide) uid) (digitsClean (by decide) number)
    (left.symm.trans right)
  exact ⟨texts, digitsInj digits⟩

section
variable (f : Fabric) (s : Stitch)

def rowFirst : Nat := (f.rowIds s.row).head?.getD 0

theorem topTagged (id : Nat) :
    Tagged (topText f s id) (placeChars (s.row, id - rowFirst f s)) s.uid := by
  simp [Tagged, topText, placeChars, rowFirst, toString, String.toList_append, Nat.toList_repr]

theorem hiddenTagged (i : Nat) (node : String) :
    Tagged (hiddenName f i s node) (placeChars (basePlace f i s) ++ node.toList) s.uid := by
  simp [Tagged, hiddenName, innerName, placeChars, toString, String.toList_append, Nat.toList_repr]

end

def sideText (node other : String) (pull : Float) : String :=
  node ++ "a" ++ other ++ "_jacobian" ++ Decimal.plain pull

theorem sideChars (tagged : Tagged other text uid) (node : String) (pull : Float) :
    (sideText node other pull).toList =
      (node.toList ++ 'a' :: text) ++
        '|' :: (Nat.toDigits 10 uid ++ '_' :: ("jacobian".toList ++ (Decimal.plain pull).toList)) := by
  simp [sideText, String.toList_append, show other.toList = _ from tagged]

theorem lengthClean (uid : Nat) (pull : Float) : '|' ∉ Nat.toDigits 10 uid ++
    '_' :: ("jacobian".toList ++ (Decimal.plain pull).toList) := by
  intro inside
  rcases List.mem_append.mp inside with digit | rest
  · exact digitsClean (by decide) uid digit
  rcases List.mem_cons.mp rest with bar | rest
  · cases bar
  rcases List.mem_append.mp rest with word | number
  · revert word
    decide
  · have plain := Decimal.plainChars pull '|' number
    revert plain
    decide

theorem sideUntagged (tagged : Tagged other text uid) (node : String) (pull : Float)
    {words : List Char} : ¬ Tagged (sideText node other pull) words number := by
  intro side
  obtain ⟨_, digits⟩ := lastSplit (lengthClean uid pull) (digitsClean (by decide) number)
    ((sideChars tagged node pull).symm.trans side)
  have inside : '_' ∈ Nat.toDigits 10 number := by
    rw [← digits]
    simp
  exact digitsClean (by decide) number inside

end Graph
end Crochet
