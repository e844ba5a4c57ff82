import RunnerFleet.Number.Shortest

/-!
# Laying out a decimal

A decimal is written positionally while its point stays near its digits, and with an exponent
otherwise. Where that ends and what the exponent looks like are the fields of a `Layout`.
-/

namespace RunnerFleet.Number

/-- The decisions of a number format. The point's position counts the digits before it. -/
structure Layout where
  leastPoint : Int
  greatestPoint : Int
  /-- What follows a number without a fractional part. -/
  wholeMark : List Char
  exponentMark : Char
  positiveSign : List Char
  /-- What is written for the infinities and for what is not a number. -/
  notFinite : List Char

/-- The digits of a decimal without trailing zeros, and the position of its point. -/
def Scientific.parts (s : Scientific) : List Char × Int :=
  let all := Decimal.digits s.coefficient
  ((all.reverse.dropWhile (· = '0')).reverse, (all.length : Int) + s.exponent)

def exponentText (l : Layout) (e : Int) : List Char :=
  l.exponentMark :: (if e < 0 then ['-'] else l.positiveSign) ++ Decimal.digits e.natAbs

def Scientific.write (l : Layout) (s : Scientific) : List Char :=
  let (ds, point) := s.parts
  if l.leastPoint ≤ point ∧ point ≤ l.greatestPoint then
    if point ≤ 0 then ['0', '.'] ++ List.replicate (-point).toNat '0' ++ ds
    else if (ds.length : Int) ≤ point then
      ds ++ List.replicate (point.toNat - ds.length) '0' ++ l.wholeMark
    else ds.take point.toNat ++ ['.'] ++ ds.drop point.toNat
  else
    let mantissa := match ds with
      | [d] => [d]
      | d :: rest => d :: '.' :: rest
      | [] => []
    mantissa ++ exponentText l (point - 1)

def Dyadic.write (l : Layout) (d : Dyadic) : List Char :=
  if d.significand = 0 then '0' :: l.wholeMark else d.shortest.write l

def write (l : Layout) (x : Float) : List Char :=
  if x.isFinite then
    (if x.toBits.toNat < Nat.pow 2 63 then [] else ['-']) ++ (Dyadic.ofBits x.toBits).write l
  else l.notFinite

end RunnerFleet.Number
