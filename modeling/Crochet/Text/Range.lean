/-! Classes of characters given by ranges of code points, as the Unicode tables list them. -/
namespace Crochet.Text

def inRanges (ranges : List (Nat × Nat)) (c : Char) : Bool :=
  ranges.any fun (low, high) => low ≤ c.toNat && c.toNat ≤ high

end Crochet.Text
