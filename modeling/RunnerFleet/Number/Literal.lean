import RunnerFleet.Text.Digits

/-!
# Number literals

A literal has an optional minus sign, whole digits without a leading zero, and optionally a
fraction and an exponent. Its digits are gathered into a 64-bit whole number and scaled by a power
of ten, with one rounding for the whole number and one for the scaling; digits that no longer fit
are dropped.
-/

namespace RunnerFleet.Number

structure Literal where
  negative : Bool
  whole : List Char
  fraction : Option (List Char)
  exponent : Option Int
  deriving DecidableEq, Repr

def digits? (cs : List Char) : Option (List Char × List Char) :=
  let ds := cs.takeWhile Char.isDigit
  if ds = [] then none else some (ds, cs.dropWhile Char.isDigit)

/-- The digits before the point: a lone zero, or digits that do not start with zero. -/
def wholeDigits? (cs : List Char) : Option (List Char × List Char) := do
  let (ds, rest) ← digits? cs
  match ds with
  | '0' :: _ :: _ => none
  | _ => some (ds, rest)

def fraction? : List Char → Option (Option (List Char) × List Char)
  | '.' :: cs => (digits? cs).map fun (ds, rest) => (some ds, rest)
  | cs => some (none, cs)

def exponentDigits? (negative : Bool) (cs : List Char) : Option (Int × List Char) :=
  (digits? cs).map fun (ds, rest) =>
    (if negative then -(Decimal.value ds : Int) else Decimal.value ds, rest)

def exponent? : List Char → Option (Option Int × List Char)
  | 'e' :: cs | 'E' :: cs =>
    let read := match cs with
      | '-' :: cs => exponentDigits? true cs
      | '+' :: cs => exponentDigits? false cs
      | cs => exponentDigits? false cs
    read.map fun (e, rest) => (some e, rest)
  | cs => some (none, cs)

def Literal.ofChars? (cs : List Char) : Option Literal := do
  let (negative, cs) := match cs with
    | '-' :: cs => (true, cs)
    | cs => (false, cs)
  let (whole, cs) ← wholeDigits? cs
  let (fraction, cs) ← fraction? cs
  let (exponent, cs) ← exponent? cs
  if cs = [] then some { negative, whole, fraction, exponent } else none

/-- The digits gathered onto `n` while the number stays below `2 ^ 64`: the number, how many digits
were taken and how many were left. -/
def gather (n : Nat) : List Char → Nat × Nat × Nat
  | [] => (n, 0, 0)
  | d :: ds =>
    let next := n * 10 + Decimal.value [d]
    if next < UInt64.size then
      let (v, taken, left) := gather next ds
      (v, taken + 1, left)
    else (n, 0, ds.length + 1)

/-- The gathered number and the power of ten to scale it by. -/
def Literal.scaled (l : Literal) : Nat × Int :=
  let (v, _, left) := gather 0 l.whole
  let (v, taken, _) := gather v (l.fraction.getD [])
  (v, (left : Int) - taken + l.exponent.getD 0)

def powerOfTen (n : Nat) : Float := Float.ofScientific 1 false n

/-- `x * 10 ^ e`, or nothing if that is beyond the doubles. Below `10 ^ -308` the division is done
in two steps, and below `10 ^ -616` every 64-bit number becomes zero. -/
def scale? (x : Float) (e : Int) : Option Float :=
  if 308 < e then if x == 0 then some x else none
  else if 0 ≤ e then
    let y := x * powerOfTen e.toNat
    if y.isInf then none else some y
  else if -308 ≤ e then some (x / powerOfTen (-e).toNat)
  else if -616 ≤ e then some (x / powerOfTen 308 / powerOfTen (-e - 308).toNat)
  else some 0

/-- The double that a literal stands for, or nothing if it is beyond the doubles. -/
def Literal.toFloat? (l : Literal) : Option Float :=
  let (v, e) := l.scaled
  (scale? v.toUInt64.toFloat e).map fun x => if l.negative then -x else x

/-- The whole number that a literal stands for, if it has neither sign, fraction nor exponent and
fits into 64 bits. -/
def Literal.toUInt64? (l : Literal) : Option UInt64 :=
  if l.negative || l.fraction.isSome || l.exponent.isSome then none
  else if Decimal.value l.whole < UInt64.size then some (Decimal.value l.whole).toUInt64 else none

end RunnerFleet.Number
