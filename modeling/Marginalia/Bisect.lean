/-! # Binary search

The partition point of a predicate on an interval of natural numbers: the
place where it stops holding, found by halving. For a predicate that holds on
an initial part of the interval and nowhere after, this is the end of that part.
-/

namespace Marginalia

/-- Halves the interval from `low` up to `high` until it is empty, keeping the
half on whose border the predicate changes. -/
def partitionPoint (holds : Nat → Bool) (low high : Nat) : Nat :=
  if low < high then
    let middle := low + (high - low) / 2
    if holds middle then partitionPoint holds (middle + 1) high
    else partitionPoint holds low middle
  else low
termination_by high - low

theorem le_partitionPoint (holds : Nat → Bool) (low high : Nat) :
    low ≤ partitionPoint holds low high := by
  fun_induction partitionPoint holds low high with
  | case1 low high hlt middle hm ih => omega
  | case2 low high hlt middle hm ih => omega
  | case3 low high hlt => omega

theorem partitionPoint_le (holds : Nat → Bool) {low high : Nat} (h : low ≤ high) :
    partitionPoint holds low high ≤ high := by
  fun_induction partitionPoint holds low high with
  | case1 low high hlt middle hm ih => exact ih (by omega)
  | case2 low high hlt middle hm ih => exact Nat.le_trans (ih (by omega)) (by omega)
  | case3 low high hlt => exact h

end Marginalia
