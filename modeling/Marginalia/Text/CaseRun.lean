/-! # Runs of case pairs

Case mappings are regular: in a run of code points, each or every other one is
mapped by the same distance.
-/

namespace Marginalia.Text

/-- Every `step`-th code point from `first` to `last` is mapped by `distance`. -/
structure CaseRun where
  first : Nat
  last : Nat
  step : Nat
  distance : Int
  deriving Repr

namespace CaseRun

def maps (run : CaseRun) (point : Nat) : Bool :=
  run.first ≤ point && point ≤ run.last && (point - run.first) % run.step == 0

/-- The image of a code point of the run. -/
def image? (run : CaseRun) (point : Nat) : Option Nat :=
  if run.maps point then some (point + run.distance).toNat else none

/-- The code point of the run that is mapped to the given one. -/
def preimage? (run : CaseRun) (point : Nat) : Option Nat :=
  let source := (point - run.distance).toNat
  if run.maps source then some source else none

end CaseRun

end Marginalia.Text
