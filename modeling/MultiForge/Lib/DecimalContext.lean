/-
MultiForge.Lib.DecimalContext — decimals of a fixed precision.

`PyDecimal` is `decimal.Decimal`: a sign, a coefficient and an exponent,
or one of the special values. A product is exact before it is rounded to
the precision of its context, half to even; beyond the greatest exponent
of the context it raises. A coefficient that leaves room for one digit
more below that exponent never does (`not_overflows`).
-/
import Mathlib.Data.Nat.Log
import Mathlib.Tactic.NormNum
import Mathlib.Tactic.Positivity

namespace MultiForge

inductive PyDecimal where
  | finite (neg : Bool) (coeff : Nat) (exp : Int)
  | infinity (neg : Bool)
  | nan
  deriving DecidableEq, Repr

/-- A context that raises `InvalidOperation` and `Overflow`. -/
structure DecimalContext where
  prec : Nat
  emax : Int

/-- What a context raises. -/
inductive DecimalSignal where
  | invalidOperation
  | overflow
  deriving DecidableEq, Repr

/-- What `int()` of a decimal raises. -/
inductive IntError where
  | valueError
  | overflowError
  deriving DecidableEq, Repr

namespace PyDecimal

/-! ## 1. Operations -/

/-- The digits of a coefficient; `0` has one. -/
def digitCount (n : Nat) : Nat := Nat.log 10 n + 1

/-- A coefficient without its last `k` digits, rounded half to even. -/
def roundHalfEven (n k : Nat) : Nat :=
  let q := n / 10 ^ k
  let r := n % 10 ^ k
  if 10 ^ k < 2 * r ∨ 2 * r = 10 ^ k ∧ q % 2 = 1 then q + 1 else q

/-- The coefficient and the exponent within the precision. -/
def round (ctx : DecimalContext) (coeff : Nat) (exp : Int) : Nat × Int :=
  let drop := digitCount coeff - ctx.prec
  (roundHalfEven coeff drop, exp + drop)

/-- The rounded number is beyond the greatest exponent. -/
def overflows (ctx : DecimalContext) (coeff : Nat) (exp : Int) : Bool :=
  let r := round ctx coeff exp
  r.1 ≠ 0 && ctx.emax < r.2 + digitCount r.1 - 1

/-- `x * y` -/
def mul (ctx : DecimalContext) : PyDecimal → PyDecimal → Except DecimalSignal PyDecimal
  | .nan, _ => .ok .nan
  | _, .nan => .ok .nan
  | .infinity s, .infinity t => .ok (.infinity (s != t))
  | .infinity s, .finite t c _ =>
      if c = 0 then .error .invalidOperation else .ok (.infinity (s != t))
  | .finite s c _, .infinity t =>
      if c = 0 then .error .invalidOperation else .ok (.infinity (s != t))
  | .finite s c e, .finite t d f =>
      if overflows ctx (c * d) (e + f) then .error .overflow
      else
        let r := round ctx (c * d) (e + f)
        .ok (.finite (s != t) r.1 r.2)

/-- `int(x)` drops the fraction. -/
def toInt : PyDecimal → Except IntError Int
  | .nan => .error .valueError
  | .infinity _ => .error .overflowError
  | .finite neg c e =>
      let n : Nat := if 0 ≤ e then c * 10 ^ e.toNat else c / 10 ^ (-e).toNat
      .ok (if neg then -(n : Int) else n)

example : mul ⟨2, 9⟩ (.finite false 125 0) (.finite true 1 0) = .ok (.finite true 12 1) := by
  decide +kernel

theorem mul_infinity {ctx : DecimalContext} (s t : Bool) {coeff : Nat} (h : coeff ≠ 0) (exp : Int) :
    mul ctx (.infinity s) (.finite t coeff exp) = .ok (.infinity (s != t)) := if_neg h

/-- A product that does not overflow is finite. -/
theorem mul_finite {ctx : DecimalContext} {c d : Nat} {e f : Int} (s t : Bool)
    (h : overflows ctx (c * d) (e + f) = false) :
    ∃ coeff exp, mul ctx (.finite s c e) (.finite t d f) = .ok (.finite (s != t) coeff exp) := by
  simp [mul, h]

theorem mul_overflow {ctx : DecimalContext} {c d : Nat} {e f : Int} (s t : Bool)
    (h : overflows ctx (c * d) (e + f) = true) :
    mul ctx (.finite s c e) (.finite t d f) = .error .overflow := by
  simp [mul, h]

/-! ## 2. Sizes -/

theorem lt_pow_digitCount (n : Nat) : n < 10 ^ digitCount n :=
  Nat.lt_pow_succ_log_self (by norm_num) n

theorem digitCount_le {n k : Nat} (h : n < 10 ^ k) (hk : 0 < k) : digitCount n ≤ k :=
  Nat.log_lt_of_lt_pow' hk.ne' h

/-- Rounding makes at most one digit more than what is left. -/
theorem digitCount_roundHalfEven {n k : Nat} (hk : k < digitCount n) :
    digitCount (roundHalfEven n k) + k ≤ digitCount n + 1 := by
  have hquotient : n / 10 ^ k < 10 ^ (digitCount n - k) := by
    rw [Nat.div_lt_iff_lt_mul (by positivity), ← pow_add, Nat.sub_add_cancel hk.le]
    exact lt_pow_digitCount n
  have hround : roundHalfEven n k ≤ n / 10 ^ k + 1 := by
    simp only [roundHalfEven]
    split <;> omega
  have hlt : roundHalfEven n k < 10 ^ (digitCount n - k + 1) := by
    calc roundHalfEven n k ≤ n / 10 ^ k + 1 := hround
      _ ≤ 10 ^ (digitCount n - k) := hquotient
      _ < 10 ^ (digitCount n - k + 1) := Nat.pow_lt_pow_succ (by norm_num)
  have hle := digitCount_le hlt (Nat.succ_pos _)
  omega

/-- **Room for one digit more is enough.** -/
theorem not_overflows {ctx : DecimalContext} {coeff : Nat} {exp : Int} (hprec : 0 < ctx.prec)
    (h : exp + digitCount coeff ≤ ctx.emax) : overflows ctx coeff exp = false := by
  have hdrop : digitCount coeff - ctx.prec < digitCount coeff := by
    have hpos : 0 < digitCount coeff := Nat.succ_pos _
    omega
  have hround := digitCount_roundHalfEven hdrop
  have hle : (round ctx coeff exp).2 + digitCount (round ctx coeff exp).1 - 1 ≤ ctx.emax := by
    simp only [round]
    omega
  simp [overflows, hle]

theorem digitCount_mul_pow (n k : Nat) : digitCount (n * 10 ^ k) ≤ digitCount n + k := by
  refine digitCount_le ?_ (by simp [digitCount])
  rw [pow_add]
  exact Nat.mul_lt_mul_of_pos_right (lt_pow_digitCount n) (by positivity)

end PyDecimal

end MultiForge
