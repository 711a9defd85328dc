import GribCatalog.Space.Options

/-!
A way through `0, …, n - 1` in steps of a fixed stride around the circle. Every number comes up once
when stride and `n` have no common divisor, as long as the steps are words.
-/

namespace GribCatalog.Stride

def gcd (a b : Nat) : Nat :=
  if _h : b = 0 then a else gcd b (a % b)
termination_by b
decreasing_by exact Nat.mod_lt _ (Nat.pos_of_ne_zero _h)

/-- The order of the steps, if stride and `n` have no common divisor. A step beyond the words starts
over from zero before it is brought into the circle. -/
def order? (n stride : Nat) : Option (List Nat) :=
  if 0 < n ∧ gcd n stride = 1 then
    some ((List.range n).map fun i => i * stride % wordLimit % n)
  else none

/-- The order where a step beyond the words fails. -/
def checkedOrder? (n stride : Nat) : Option (List Nat) :=
  if 0 < n ∧ gcd n stride = 1 then
    (List.range n).mapM fun i => if i * stride < wordLimit then some (i * stride % n) else none
  else none

/-- Forecast hours of a run: every hour to the twelfth, then every third to the 48th. -/
def forecastHours : List Nat :=
  List.range 12 ++ (List.range 13).map fun i => 12 + 3 * i

end GribCatalog.Stride
