/-
MultiForge.Json.Float — Python's `float` as a number.

`Json F` leaves the float type open, because most of the code only
carries floats along. Code that converts a float with `int()` or compares
it with an integer sees its value: a rational, an infinity or a NaN.
`FloatValue` is that value; every IEEE double is one of its elements, and
a negative zero is not told apart, as no comparison tells it apart.
-/
import Mathlib.Data.Rat.Floor
import MultiForge.Json.Value

namespace MultiForge

/-- The value of a Python `float`. -/
inductive FloatValue where
  | finite (q : ℚ)
  | infinity (negative : Bool)
  | nan
  deriving DecidableEq, Repr

namespace FloatValue

instance : PyFloat FloatValue where
  toInt?
    | .finite q => if q.den = 1 then some q.num else none
    | _ => none
  pos
    | .finite q => 0 < q
    | .infinity negative => !negative
    | .nan => false
  eq
    | .nan, _ => false
    | x, y => x = y

/-- `int(x)` drops the fraction; `none` where it raises: `OverflowError`
for an infinity and `ValueError` for a NaN. -/
def int? : FloatValue → Option Int
  | .finite q => some (q.num.tdiv q.den)
  | _ => none

/-- Dropping the fraction of a number above zero rounds it down. -/
theorem int?_finite {q : ℚ} (h : 0 < q) : int? (.finite q) = some ⌊q⌋ := by
  have hnum : 0 ≤ q.num := (Rat.num_pos.mpr h).le
  rw [int?, Int.tdiv_eq_ediv_of_nonneg hnum, Rat.floor_def']

end FloatValue

end MultiForge
