import RunnerFleet.Quantity
import RunnerFleet.Text.Digits

/-!
# Durations

Operators write durations as a number and a unit, `500ms`, `30s`, `5m`, `1h`; a bare number counts
seconds. White space, the 25 characters with the Unicode property White_Space, does not matter around
the text and before the unit. A duration whose seconds do not fit into 64 bits cannot be read.
-/

namespace RunnerFleet

namespace Text

def blankRanges : List (Nat × Nat) :=
  [(0x09, 0x0D), (0x20, 0x20), (0x85, 0x85), (0xA0, 0xA0), (0x1680, 0x1680), (0x2000, 0x200A),
   (0x2028, 0x2029), (0x202F, 0x202F), (0x205F, 0x205F), (0x3000, 0x3000)]

def isBlank (c : Char) : Bool := blankRanges.any fun r => r.1 ≤ c.toNat && c.toNat ≤ r.2

def trimStart (cs : List Char) : List Char := cs.dropWhile isBlank

def trimEnd (cs : List Char) : List Char := (cs.reverse.dropWhile isBlank).reverse

def trim (cs : List Char) : List Char := trimEnd (trimStart cs)

end Text

structure Duration where
  seconds : Seconds
  /-- Below one second. -/
  nanos : UInt32
  deriving DecidableEq, Repr

namespace Duration

def ofSeconds (s : Seconds) : Duration := ⟨s, 0⟩

def ofMillis (ms : UInt64) : Duration := ⟨ms / 1000, (ms % 1000).toUInt32 * 1000000⟩

def isZero (d : Duration) : Bool := d.seconds = 0 && d.nanos = 0

def isWhole (d : Duration) : Bool := d.nanos = 0

inductive Unit where
  | milliseconds
  | seconds
  | minutes
  | hours
  deriving DecidableEq, Repr

/-- The number part of a text and the unit that it ends in. Without a unit it is in seconds. -/
def splitUnit (cs : List Char) : List Char × Unit :=
  match cs.reverse with
  | 's' :: 'm' :: r => (Text.trim r.reverse, .milliseconds)
  | 's' :: r => (Text.trim r.reverse, .seconds)
  | 'm' :: r => (Text.trim r.reverse, .minutes)
  | 'h' :: r => (Text.trim r.reverse, .hours)
  | _ => (cs, .seconds)

def scaled? (n : UInt64) (factor : Nat) : Option Duration :=
  if n.toNat * factor < UInt64.size then some (ofSeconds (UInt64.ofNat (n.toNat * factor)))
  else none

def ofUnits? (n : UInt64) : Unit → Option Duration
  | .milliseconds => some (ofMillis n)
  | .seconds => some (ofSeconds n)
  | .minutes => scaled? n 60
  | .hours => scaled? n 3600

def parse? (s : String) : Option Duration :=
  let (number, unit) := splitUnit (Text.trim s.toList)
  (Decimal.readUInt64? number).bind (ofUnits? · unit)

/-- A whole part, the significant digits of a fraction with `width` places, and a unit. -/
def withFraction (whole fraction width : Nat) (unit : String) : String :=
  let ds := ((Decimal.padded width fraction).reverse.dropWhile (· = '0')).reverse
  String.ofList (Decimal.digits whole ++ (if ds = [] then [] else '.' :: ds)) ++ unit

/-- A duration as messages show it, in the largest unit that leaves a whole part. -/
def render (d : Duration) : String :=
  let n := d.nanos.toNat
  if d.seconds ≠ 0 then withFraction d.seconds.toNat n 9 "s"
  else if 1000000 ≤ n then withFraction (n / 1000000) (n % 1000000) 6 "ms"
  else if 1000 ≤ n then withFraction (n / 1000) (n % 1000) 3 "µs"
  else withFraction n 0 0 "ns"

end Duration

end RunnerFleet
