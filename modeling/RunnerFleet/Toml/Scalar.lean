import RunnerFleet.Number.Literal
import RunnerFleet.Text.Digits
import RunnerFleet.Toml.Table

/-!
# TOML values without quotes

Truth values, whole numbers of 64 bits, doubles, dates and times. Digits may be grouped by single
underscores. A positive number beyond the doubles is refused, a negative one is not.
-/

namespace RunnerFleet.Toml

/-- Digits with single underscores between them. -/
def isGrouped (isDigit : Char → Bool) : List Char → Bool
  | [] => false
  | [c] => isDigit c
  | c :: '_' :: cs => isDigit c && isGrouped isDigit cs
  | c :: cs => isDigit c && isGrouped isDigit cs

/-- Whether underscores stand only between two decimal digits; `before` tells whether a
digit stands just before. -/
def underscoresFit (before : Bool) : List Char → Bool
  | [] => true
  | '_' :: c :: cs => before && c.isDigit && underscoresFit true cs
  | c :: cs => c ≠ '_' && underscoresFit c.isDigit cs

def unsigned : List Char → Bool × List Char
  | '+' :: cs => (false, cs)
  | '-' :: cs => (true, cs)
  | cs => (false, cs)

/-- Whether `coefficient * 10 ^ exponent` is too large for a double even after rounding. Numbers of
very many or very few digits before the point are told apart without computing the power. -/
def overflows (coefficient : Nat) (exponent : Int) : Bool :=
  let limit := Nat.pow 2 1024 - Nat.pow 2 970
  let places : Int := (Decimal.digits coefficient).length + exponent
  if coefficient = 0 ∨ places < 300 then false
  else if 320 < places then true
  else limit * Nat.pow 10 (-exponent).toNat ≤ coefficient * Nat.pow 10 exponent.toNat

/-- Whole numbers are below this; negative ones may reach it. -/
def integerLimit : Nat := Nat.pow 2 63

def isDecimal (cs : List Char) : Bool :=
  let (negative, cs) := unsigned cs
  if !underscoresFit false cs then false
  else match Number.Literal.ofChars? (cs.filter (· ≠ '_')) with
    | none => false
    | some l =>
      let fraction := l.fraction.getD []
      if l.negative then false
      else if l.fraction.isNone && l.exponent.isNone then
        Decimal.value l.whole < (if negative then integerLimit + 1 else integerLimit)
      else negative ||
        !overflows (Decimal.value (l.whole ++ fraction)) (l.exponent.getD 0 - fraction.length)

def isInBase (base : Nat) (cs : List Char) : Bool :=
  let digit (c : Char) : Nat := (Hexadecimal.digit? c).getD 16
  isGrouped (digit · < base) cs &&
    (cs.filter (· ≠ '_')).foldl (fun n c => base * n + digit c) 0 < integerLimit

def isNumber : List Char → Bool
  | '0' :: 'x' :: cs => isInBase 16 cs
  | '0' :: 'o' :: cs => isInBase 8 cs
  | '0' :: 'b' :: cs => isInBase 2 cs
  | cs => isDecimal cs || ["inf".toList, "nan".toList].contains (unsigned cs).2

def twoDigits? (c d : Char) : Option Nat :=
  if c.isDigit && d.isDigit then some (Decimal.value [c, d]) else none

def isBetween (least most : Nat) (c d : Char) : Bool :=
  match twoDigits? c d with
  | some n => least ≤ n && n ≤ most
  | none => false

def isLeap (year : Nat) : Bool := (year % 4 = 0 && year % 100 ≠ 0) || year % 400 = 0

def daysIn (year month : Nat) : Nat :=
  if month = 2 then if isLeap year then 29 else 28
  else if [4, 6, 9, 11].contains month then 30 else 31

def isOffset : List Char → Bool
  | ['Z'] | ['z'] => true
  | [sign, h₁, h₂, ':', m₁, m₂] =>
    (sign = '+' || sign = '-') && isBetween 0 23 h₁ h₂ && isBetween 0 59 m₁ m₂
  | _ => false

def endsTime (offset : Bool) (cs : List Char) : Bool := cs = [] || (offset && isOffset cs)

def isTime (offset : Bool) : List Char → Bool
  | h₁ :: h₂ :: ':' :: m₁ :: m₂ :: ':' :: s₁ :: s₂ :: cs =>
    isBetween 0 23 h₁ h₂ && isBetween 0 59 m₁ m₂ && isBetween 0 60 s₁ s₂ &&
      match cs with
      | '.' :: d :: cs => d.isDigit && endsTime offset (cs.dropWhile Char.isDigit)
      | cs => endsTime offset cs
  | _ => false

def isDate : List Char → Bool
  | c₁ :: c₂ :: y₁ :: y₂ :: '-' :: m₁ :: m₂ :: '-' :: d₁ :: d₂ :: cs =>
    match twoDigits? c₁ c₂, twoDigits? y₁ y₂, twoDigits? m₁ m₂ with
    | some century, some year, some month =>
      1 ≤ month && month ≤ 12 && isBetween 1 (daysIn (100 * century + year) month) d₁ d₂ &&
        match cs with
        | [] => true
        | c :: cs => (c = 'T' || c = 't' || c = ' ') && isTime true cs
    | _, _, _ => false
  | _ => false

def Node.ofScalar? (cs : List Char) : Option Node :=
  if cs = "true".toList ∨ cs = "false".toList ∨ isNumber cs then some .plain
  else if isDate cs || isTime false cs then some .moment
  else none

end RunnerFleet.Toml
