import Mathlib
import Loglib.Order.ThreeWay

/-! IEEE binary64 values by their bits: classification, order, and conversion from and to
integers. -/

namespace Loglib

/-- A C++ `double`, held as its 64 bits. -/
structure Double where
  bits : UInt64
deriving DecidableEq, Repr

namespace Double

/-- The sign bit. -/
def negative (d : Double) : Bool := 2 ^ 63 ≤ d.bits.toNat

/-- The bits below the sign: biased exponent, then fraction. -/
def magnitude (d : Double) : Nat := d.bits.toNat % 2 ^ 63

/-- The magnitude bits of an infinity. -/
def infinityBits : Nat := 2047 * 2 ^ 52

/-- `std::isnan`: all exponent bits set and a nonzero fraction. -/
def isNaN (d : Double) : Bool := infinityBits < d.magnitude

/-- Values in numeric order, with both zeros at zero. Meaningless on NaN. -/
def order (d : Double) : Int := if d.negative then -(d.magnitude : Int) else d.magnitude

/-- The `<` of `double`, false whenever either side is NaN. -/
def lt (a b : Double) : Bool := !a.isNaN && !b.isNaN && a.order < b.order

/-- The bits for a sign and a magnitude. -/
def ofSignMagnitude (negative : Bool) (magnitude : Nat) : Double :=
  ⟨UInt64.ofNat (magnitude + if negative then 2 ^ 63 else 0)⟩

/-- Positive infinity. -/
def posInf : Double := ofSignMagnitude false infinityBits

/-- Negative infinity. -/
def negInf : Double := ofSignMagnitude true infinityBits

/-- The magnitude bits of a natural number, rounded to the nearest double with ties to even. -/
def roundNat (n : Nat) : Nat :=
  if n = 0 then 0
  else
    let exponent := Nat.log2 n
    if exponent ≤ 52 then (exponent + 1023) * 2 ^ 52 + (n * 2 ^ (52 - exponent) - 2 ^ 52)
    else
      let shift := exponent - 52
      let quotient := n / 2 ^ shift
      let remainder := n % 2 ^ shift
      let half := 2 ^ (shift - 1)
      let rounded :=
        if half < remainder ∨ (remainder = half ∧ quotient % 2 = 1) then quotient + 1 else quotient
      -- A carry out of the significand moves into the exponent field, as it should.
      (exponent + 1023) * 2 ^ 52 + (rounded - 2 ^ 52)

/-- `static_cast<double>` of a signed integer. -/
def ofInt (value : Int) : Double := ofSignMagnitude (value < 0) (roundNat value.natAbs)

/-- The absolute value of a finite double, truncated to a natural number. -/
def truncAbs (d : Double) : Nat :=
  let biased := d.magnitude / 2 ^ 52
  let fraction := d.magnitude % 2 ^ 52
  if biased < 1023 then 0
  else if biased - 1023 ≤ 52 then (2 ^ 52 + fraction) / 2 ^ (52 - (biased - 1023))
  else (2 ^ 52 + fraction) * 2 ^ (biased - 1023 - 52)

/-- `static_cast<int64_t>` of a finite double in range: truncation towards zero. -/
def trunc (d : Double) : Int := if d.negative then -(d.truncAbs : Int) else d.truncAbs

/-- Three-way `double` compare, with every NaN after every number and equal to every other NaN. -/
def threeWayDouble (lhs rhs : Double) : Int :=
  if lhs.isNaN && rhs.isNaN then 0
  else if lhs.isNaN then 1
  else if rhs.isNaN then -1
  else if lhs.lt rhs then -1
  else if rhs.lt lhs then 1
  else 0

/-- The key `threeWayDouble` orders by: numbers in order, and NaN past all of them. -/
def tailOrder (d : Double) : WithTop Int := if d.isNaN then ⊤ else (d.order : Int)

/-- The three-way compare of doubles orders by a key. -/
theorem threeWayDouble_ordersBy : OrdersBy threeWayDouble tailOrder := by
  -- Either side may be NaN, and two numbers compare by their order.
  intro a b
  cases left : a.isNaN <;> cases right : b.isNaN <;>
    simp [threeWayDouble, tailOrder, left, right, lt, threeWay]

end Double

end Loglib
