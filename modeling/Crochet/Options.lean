/-! Settings of a compilation. -/
namespace Crochet

/-- `loopWeight` pulls a bottom towards its loop where the template gives no weight. -/
structure Options where
  firstId : Nat := 1
  color : String := "#969696"
  loopWeight : Float := 0.2
  deriving DecidableEq, Repr

end Crochet
