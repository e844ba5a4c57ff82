import RunnerFleet.Text.Digits

/-!
# The fewest digits that read back

A double is `m * 2 ^ q` with whole `m` and `q`. The reals that round to it form an interval, closed
if `m` is even. Of the decimals in that interval we take one with the fewest digits, and of these
the nearest to the double. All comparisons are between whole numbers.
-/

namespace RunnerFleet.Number

structure Scientific where
  coefficient : Nat
  exponent : Int
  deriving DecidableEq, Repr

structure Dyadic where
  significand : Nat
  exponent : Int
  deriving DecidableEq, Repr

/-- The leading bit of a significand, which normal doubles do not store. -/
def hidden : Nat := Nat.pow 2 52

/-- The magnitude of the double with these bits. -/
def Dyadic.ofBits (bits : UInt64) : Dyadic :=
  let field : Nat := bits.toNat / hidden % 2048
  let fraction : Nat := bits.toNat % hidden
  if field = 0 then ⟨fraction, -1074⟩ else ⟨hidden + fraction, (field : Int) - 1075⟩

/-- A double and the ends of its rounding interval, all over one denominator. -/
structure Interval where
  lower : Nat
  value : Nat
  upper : Nat
  denominator : Nat
  closed : Bool

/-- The rounding interval in quarters of the last binary place. Below a power of two the doubles
are twice as dense, so the lower half of the interval is half as wide there. -/
def Dyadic.interval (d : Dyadic) : Interval :=
  let below := if d.significand = hidden ∧ -1074 < d.exponent then 1 else 2
  let scale := Nat.pow 2 (d.exponent - 2).toNat
  { lower := (4 * d.significand - below) * scale
    value := 4 * d.significand * scale
    upper := (4 * d.significand + 2) * scale
    denominator := Nat.pow 2 (2 - d.exponent).toNat
    closed := d.significand % 2 = 0 }

/-- The interval measured in units of `10 ^ e`. -/
def Interval.inUnits (i : Interval) (e : Int) : Interval :=
  let up := Nat.pow 10 (-e).toNat
  { i with
    lower := i.lower * up
    value := i.value * up
    upper := i.upper * up
    denominator := i.denominator * Nat.pow 10 e.toNat }

def Interval.contains (i : Interval) (n : Nat) : Bool :=
  if i.closed then i.lower ≤ n * i.denominator && n * i.denominator ≤ i.upper
  else i.lower < n * i.denominator && n * i.denominator < i.upper

/-- The whole number in the interval that is nearest to the value; of two equally near ones the
even one. -/
def Interval.nearest? (i : Interval) : Option Nat :=
  let down := i.value / i.denominator
  let twiceRest := 2 * (i.value % i.denominator)
  let nearerFirst :=
    if twiceRest < i.denominator ∨ twiceRest = i.denominator ∧ down % 2 = 0 then [down, down + 1]
    else [down + 1, down]
  nearerFirst.find? i.contains

/-- The exponent of the first significant decimal digit of the value. Every positive double is
above `10 ^ -345`. -/
def Interval.leading (i : Interval) : Int :=
  (Decimal.digits (i.value * Nat.pow 10 345 / i.denominator)).length - 346

/-- The best decimal with at most `count` digits, if one with so few reads back. -/
def Interval.withDigits? (i : Interval) (count : Nat) : Option Scientific :=
  let e := i.leading + 1 - count
  (i.inUnits e).nearest?.map (⟨·, e⟩)

/-- Seventeen digits always suffice for a double. -/
def mostDigits : Nat := 17

/-- The shortest decimal that reads back as the double. -/
def Dyadic.shortest (d : Dyadic) : Scientific :=
  let i := d.interval
  ((List.range mostDigits).findSome? fun k => i.withDigits? (k + 1)).getD ⟨0, 0⟩

end RunnerFleet.Number
